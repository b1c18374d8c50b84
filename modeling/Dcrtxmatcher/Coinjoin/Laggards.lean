import Dcrtxmatcher.Coinjoin.Pending

/-! Whom the round timer takes out.

It is to be the members that owe the datum of the round. The list of the late ones is
never emptied, the xor round looks at the datum of the round before, and outside of
the key exchange the list is handed on with the mutex held. -/
namespace Dcrtxmatcher.Coinjoin
open Lib

/-- The members that have submitted are those that stay, and with nobody late the
session stays as it is. -/
def JoinSession.Ejects (js js' : JoinSession) : Prop :=
  js'.conns.Perm (((GoMap.toList js.peers).filter fun e => !owes js.state e.2).map fun e => e.2.conn) ∧
    (¬js.Awaits js.state → js' = js)

/-- In the key exchange whoever an earlier timeout has listed and is a member owes its
key; in the other rounds nobody is listed, and nobody is late by either test. -/
def JoinSession.InTime (js : JoinSession) : Prop :=
  js.mu = false ∧
    (js.state = .keyExchange ∧
        (∀ p peer, js.peers.lookup p = some peer → p ∈ js.missedPeers → owes .keyExchange peer = true) ∨
      js.state ≠ .keyExchange ∧ js.missedPeers = [] ∧
        ∀ p peer, js.peers.lookup p = some peer → owes js.state peer = false ∧ missing js.state peer = false)

section Removing
variable {js : JoinSession}

theorem conns_removePeers_perm (ps : List ℕ) (js : JoinSession) :
    (js.removePeers ps).conns.Perm (((GoMap.toList js.peers).filter fun e => e.1 ∉ ps).map fun e => e.2.conn) :=
  (toList_removePeers ps js).map _

/-- Who is listed when the timer has fired. -/
theorem mem_missedPeers_timedOut (hwf : WellFormed js) (ch : Choices) {p : ℕ} {peer : PeerInfo}
    (hp : js.peers.lookup p = some peer) :
    p ∈ (js.timedOut ch).missedPeers ↔ p ∈ js.missedPeers ∨ missing js.state peer = true := by
  change p ∈ js.missedPeers ++ _ ↔ _
  rw [List.mem_append]
  refine or_congr Iff.rfl ?_
  constructor
  · intro hmem
    obtain ⟨e, he, rfl⟩ := List.mem_map.mp hmem
    obtain ⟨hrange, hmissing⟩ := List.mem_filter.mp he
    have hlookup := GoMap.mem_range.mp (show (e.1, e.2) ∈ GoMap.range ch.order [229] js.peers from hrange)
    rw [hwf.keyed _ _ hlookup, hlookup] at hp
    cases hp
    exact hmissing
  · intro hmissing
    exact List.mem_map.mpr ⟨(p, peer), List.mem_filter.mpr ⟨GoMap.mem_range.mpr hp, hmissing⟩, hwf.keyed _ _ hp⟩

/-- With nobody late the session stays as it is. -/
theorem timedOut_eq_self {ch : Choices} (h : ∀ p peer, js.peers.lookup p = some peer → missing js.state peer = false) :
    js.timedOut ch = js := by
  have hnone : (GoMap.range ch.order [229] js.peers).filter (fun e => missing js.state e.2) = [] :=
    List.filter_eq_nil_iff.mpr fun e he => by simp [h e.1 e.2 (GoMap.mem_range.mp he)]
  rw [JoinSession.timedOut, hnone, List.map_nil, List.append_nil]

theorem missedPeers_timedOut_eq_nil (hwf : WellFormed js) (ch : Choices) :
    (js.timedOut ch).missedPeers = [] ↔
      js.missedPeers = [] ∧ ∀ p peer, js.peers.lookup p = some peer → missing js.state peer = false := by
  constructor
  · intro hnil
    have hlisted : js.missedPeers = [] := (List.append_eq_nil_iff.mp hnil).1
    refine ⟨hlisted, fun p peer hp => ?_⟩
    have hmem := mem_missedPeers_timedOut hwf ch hp
    rw [hnil, hlisted] at hmem
    simpa using hmem
  · rintro ⟨hlisted, hnone⟩
    rw [timedOut_eq_self hnone, hlisted]

/-- Taking out who is not a member changes nothing. -/
theorem removePeers_strangers {ps : List ℕ} (h : ∀ p ∈ ps, js.peers.lookup p = none) : js.removePeers ps = js := by
  unfold JoinSession.removePeers
  induction ps with
  | nil => rfl
  | cons p ps ih =>
    have hp : js.removePeer p = js := by rw [JoinSession.removePeer, h p (List.mem_cons_self ..)]
    rw [List.foldl_cons, hp, ih fun q hq => h q (List.mem_cons_of_mem p hq)]

/-- Who stays is who has submitted, when nobody goes that has. -/
theorem conns_of_listed {ps : List ℕ} {late : PeerInfo → Bool}
    (h : ∀ p peer, js.peers.lookup p = some peer → (p ∈ ps ↔ late peer = true)) :
    (js.removePeers ps).conns.Perm (((GoMap.toList js.peers).filter fun e => !late e.2).map fun e => e.2.conn) := by
  refine (conns_removePeers_perm ps js).trans (List.Perm.of_eq (congrArg _ (List.filter_congr fun e he => ?_)))
  have hlate := h e.1 e.2 (GoMap.mem_toList.mp he)
  by_cases hp : e.1 ∈ ps
  · simp [hp, hlate.mp hp]
  · simp [hp, Bool.eq_false_iff.mpr (hp ∘ hlate.mpr)]

/-- Whoever goes had not submitted, when as many stay as have. -/
theorem late_of_conns {ps : List ℕ} {late : PeerInfo → Bool}
    (hall : ∀ p peer, js.peers.lookup p = some peer → late peer = true → p ∈ ps)
    (hconns : (js.removePeers ps).conns.Perm (((GoMap.toList js.peers).filter fun e => !late e.2).map fun e => e.2.conn))
    {p : ℕ} {peer : PeerInfo} (hp : js.peers.lookup p = some peer) (hmem : p ∈ ps) : late peer = true := by
  by_contra hlate
  have hsub : ((GoMap.toList js.peers).filter fun e => decide (e.1 ∉ ps)).Sublist
      ((GoMap.toList js.peers).filter fun e => !late e.2) := by
    rw [show ((GoMap.toList js.peers).filter fun e => decide (e.1 ∉ ps)) =
        ((GoMap.toList js.peers).filter fun e => !late e.2).filter fun e => decide (e.1 ∉ ps) from ?_]
    · exact List.filter_sublist
    · rw [List.filter_filter]
      refine List.filter_congr fun e he => ?_
      have hin := hall e.1 e.2 (GoMap.mem_toList.mp he)
      by_cases he' : late e.2 = true
      · simp [hin he']
      · simp [he']
  have hlen := (conns_removePeers_perm ps js).symm.trans hconns
  have heq := hsub.eq_of_length (by simpa using hlen.length_eq)
  have hmem' : (p, peer) ∈ (GoMap.toList js.peers).filter fun e => !late e.2 :=
    List.mem_filter.mpr ⟨GoMap.mem_toList.mpr hp, by simpa using hlate⟩
  rw [← heq] at hmem'
  exact of_decide_eq_true (List.mem_filter.mp hmem').2 hmem

end Removing

/-- In the key exchange the timer looks at the datum of the round. -/
theorem missing_keyExchange (peer : PeerInfo) : missing .keyExchange peer = owes .keyExchange peer := rfl

theorem not_awaits_iff {state : SessionState} {js : JoinSession} :
    ¬js.Awaits state ↔ ∀ p peer, js.peers.lookup p = some peer → owes state peer = false := by
  simp [JoinSession.Awaits]

/-- **The timeout** takes out just the late members when nobody who is in time is
listed from before, and in the other rounds only when there is nobody to take out. -/
theorem timeout_ejects_iff (pkgs : Packages) (ch : Choices) {s : System} (hs : Reachable pkgs s)
    (hround : s.session.state ≠ .txPublish) :
    (∃ d js', timeout pkgs ch s.session = .ok (d, js') ∧ s.session.Ejects js') ↔ s.session.InTime := by
  have hwf := hs.wellFormed
  constructor
  · rintro ⟨d, js', h, hconns, -⟩
    have hmu := mu_of_timeout h
    have houtcome := timeout_outcome pkgs ch hmu
    rw [h] at houtcome
    refine ⟨hmu, ?_⟩
    cases houtcome with
    | returned hpublish => exact absurd hpublish hround
    | republished hpublish => exact absurd hpublish hround
    | informed _ hinform =>
      cases hinform with
      | nobody hmissed =>
        obtain ⟨hlisted, hintime⟩ := (missedPeers_timedOut_eq_nil hwf ch).mp hmissed
        rw [timedOut_eq_self hintime] at hconns
        by_cases hkey : s.session.state = .keyExchange
        · refine .inl ⟨hkey, fun p peer _ hmem => ?_⟩
          rw [hlisted] at hmem
          cases hmem
        · refine .inr ⟨hkey, hlisted, fun p peer hp => ⟨?_, hintime p peer hp⟩⟩
          -- as many have submitted as there are members
          have hlen := hconns.length_eq
          rw [JoinSession.conns, List.length_map, List.length_map] at hlen
          have hall := List.length_filter_eq_length_iff.mp hlen.symm (p, peer) (GoMap.mem_toList.mpr hp)
          simpa using hall
      | dropped hmissed hkey =>
        change s.session.state = .keyExchange at hkey
        refine .inl ⟨hkey, fun p peer hp hmem => ?_⟩
        have hlisted : ∀ q other, (s.session.timedOut ch).peers.lookup q = some other → owes .keyExchange other = true →
            q ∈ (s.session.timedOut ch).missedPeers := by
          intro q other hq howes
          refine (mem_missedPeers_timedOut hwf ch hq).mpr (.inr ?_)
          rwa [hkey, missing_keyExchange]
        rw [hkey] at hconns
        have hp' : (s.session.timedOut ch).peers.lookup p = some peer := hp
        exact late_of_conns hlisted hconns hp' ((mem_missedPeers_timedOut hwf ch hp).mpr (.inl hmem))
  · rintro ⟨hmu, hintime⟩
    have houtcome := timeout_outcome pkgs ch hmu
    generalize timeout pkgs ch s.session = r at houtcome
    cases houtcome with
    | panic hpublish => exact absurd hpublish hround
    | returned hpublish => exact absurd hpublish hround
    | republished hpublish => exact absurd hpublish hround
    | informed _ hinform =>
      have hmem := @mem_missedPeers_timedOut s.session hwf ch
      cases hinform with
      | nobody hmissed =>
        have hearly := (missedPeers_timedOut_eq_nil hwf ch).mp hmissed
        rw [timedOut_eq_self hearly.2]
        refine ⟨_, _, rfl, ?_, fun _ => rfl⟩
        have hnone : ∀ p peer, s.session.peers.lookup p = some peer → (p ∈ [] ↔ owes s.session.state peer = true) := by
          intro p peer hp
          rcases hintime with ⟨hkey, -⟩ | ⟨-, -, hintime⟩
          · have hpk := hearly.2 p peer hp
            rw [hkey, missing_keyExchange] at hpk
            simp [hkey, hpk]
          · simp [(hintime p peer hp).1]
        exact conns_of_listed hnone
      | dropped hmissed hkey =>
        change s.session.state = .keyExchange at hkey
        rcases hintime with ⟨-, hlisted⟩ | ⟨hne, -⟩
        swap
        · exact absurd hkey hne
        have hlate : ∀ p peer, s.session.peers.lookup p = some peer →
            (p ∈ (s.session.timedOut ch).missedPeers ↔ owes .keyExchange peer = true) := by
          intro p peer hp
          rw [hmem hp, hkey, missing_keyExchange]
          exact ⟨fun h => h.elim (hlisted p peer hp) id, .inr⟩
        refine ⟨_, _, rfl, ?_, fun hnobody => ?_⟩
        · rw [hkey]
          have hlate' : ∀ p peer, (s.session.timedOut ch).peers.lookup p = some peer →
              (p ∈ (s.session.timedOut ch).missedPeers ↔ owes .keyExchange peer = true) := hlate
          exact conns_of_listed hlate'
        · rw [hkey, not_awaits_iff] at hnobody
          have hearly : ∀ p peer, s.session.peers.lookup p = some peer → missing s.session.state peer = false := by
            rw [hkey]
            exact hnobody
          rw [timedOut_eq_self hearly]
          refine removePeers_strangers fun p hp => Option.eq_none_iff_forall_ne_some.mpr fun peer hpeer => ?_
          have howes := hlisted p peer hpeer hp
          rw [hnobody p peer hpeer] at howes
          cases howes
      | deadlock hmissed hkey =>
        rcases hintime with ⟨hkey', -⟩ | ⟨-, hlisted, hintime⟩
        · exact absurd hkey' hkey
        · exact absurd ((missedPeers_timedOut_eq_nil hwf ch).mpr ⟨hlisted, fun p peer hp => (hintime p peer hp).2⟩) hmissed

/-- At the start nobody has announced a key, and the timeout takes out both peers. -/
theorem timeout_ejects_both : ∃ d js', timeout plainPackages (plainChoices id)
      (newJoinSession 7 60 false (queuePeers [(1, 1), (2, 2)])) = .ok (d, js') ∧
    (newJoinSession 7 60 false (queuePeers [(1, 1), (2, 2)])).Ejects js' := by
  refine (timeout_ejects_iff plainPackages (plainChoices id)
    (Reachable.start 7 60 false [(1, 1), (2, 2)] (by decide) (by decide)) (by decide)).mpr ⟨rfl, .inl ⟨rfl, ?_⟩⟩
  intro p peer _ hmem
  cases hmem

/-- **A late peer stops the session**: two peers have exchanged keys, and neither sends
its exponential vector in time. -/
theorem timeout_deadlocks : ∃ s, Reachable plainPackages s ∧ s.session.state = .dcExponential ∧ s.session.mu = false ∧
    ¬∃ d js', timeout plainPackages (plainChoices id) s.session = .ok (d, js') ∧ s.session.Ejects js' := by
  refine ⟨_, (Reachable.start 7 60 false [(1, 1), (2, 2)] (by decide) (by decide)).run
    (l := [(plainChoices id, .read 1 (.message (.keyExchange ⟨0, [5], 1⟩))), (plainChoices id, .deliver 1),
      (plainChoices id, .rest), (plainChoices id, .read 2 (.message (.keyExchange ⟨0, [6], 1⟩))),
      (plainChoices id, .deliver 2), (plainChoices id, .rest)]) rfl, rfl, rfl, ?_⟩
  rintro ⟨d, js', h, -⟩
  cases h

end Dcrtxmatcher.Coinjoin
