import Dcrtxmatcher.Lib.Runs
import Dcrtxmatcher.Coinjoin.Departed
import Dcrtxmatcher.Coinjoin.Queue

/-! The sessions of one server.

`DiceMix.Run` starts session after session, and all of them run beside each other and
beside the queue. Whoever is handed to a session is told so once, belongs to that
session for good (`Keeps`), as a member or a former one, and is never sent anything by
another one. -/
namespace Dcrtxmatcher.Coinjoin
open Lib

/-- The connections that a session has sent something to. -/
def JoinSession.audience (js : JoinSession) : List ℕ := js.out.filterMap Output.receiver

namespace DiceMix

/-- The connections that were handed to a session. -/
def handed (d : DiceMix) : List ℕ := d.started.flatMap (·.session.everyone)

def waiting (d : DiceMix) : List ℕ := (GoMap.toList d.peers).map fun e => e.2.conn

/-- Nobody is in two places, those handed to a session have been told so, and a session
is heard by its own people only. -/
structure Apart (arrived : List (ℕ × ℕ)) (d : DiceMix) : Prop where
  nodup : (d.waiting ++ d.handed).Nodup
  known : d.waiting ++ d.handed ⊆ arrived.map Prod.fst
  told : (d.told.map Prod.fst).Perm d.handed
  heard : ∀ s ∈ d.started, s.session.audience ⊆ s.session.everyone

section Steps
variable {pkgs : Packages} {cfg : Config} {ch : Choices} {arrived : List (ℕ × ℕ)} {d d' : DiceMix}

theorem flatMap_set_perm {α β : Type} (f : α → List β) {l : List α} {i : ℕ} {a b : α} (h : l[i]? = some a)
    (hperm : (f b).Perm (f a)) : ((l.set i b).flatMap f).Perm (l.flatMap f) := by
  induction l generalizing i with
  | nil => cases h
  | cons x l ih =>
    cases i with
    | zero =>
      cases h
      exact hperm.append_right _
    | succ i => exact (ih h).append_left _

/-- Who is in the queue or in a session stays known, and nobody comes in. -/
theorem Apart.shrink (h : Apart arrived d) (hwaiting : d'.waiting.Subperm d.waiting) (hhanded : d'.handed.Perm d.handed)
    (htold : d'.told = d.told) (hheard : ∀ s ∈ d'.started, s.session.audience ⊆ s.session.everyone) : Apart arrived d' := by
  have hsub : (d'.waiting ++ d'.handed).Subperm (d.waiting ++ d.handed) := hwaiting.append hhanded.subperm
  refine ⟨?_, List.Subset.trans hsub.subset h.known, ?_, hheard⟩
  · obtain ⟨l, hperm, hl⟩ := hsub
    exact hperm.nodup_iff.mp (h.nodup.sublist hl)
  · rw [htold]
    exact h.told.trans hhanded.symm

theorem Apart.newPeer (h : Apart arrived d) (hinv : Inv cfg arrived d) {conn id : ℕ} (hconn : conn ∉ arrived.map Prod.fst)
    (hid : id ∉ arrived.map Prod.snd) :
    Apart ((conn, id) :: arrived) { d.addNewPeer (Coinjoin.newPeer conn id) with pc := .added } := by
  have hnew : id ∉ d.peers.keys := by
    intro hmem
    obtain ⟨peer, hp⟩ := GoMap.lookup_of_mem_keys hmem
    obtain ⟨conn', harrived, -⟩ := hinv.fresh id peer hp
    exact hid (List.mem_map_of_mem harrived)
  have hwaiting : (waiting { d.addNewPeer (Coinjoin.newPeer conn id) with pc := .added }).Perm (conn :: d.waiting) :=
    (GoMap.toList_insert hnew _).map _
  have hplaced := hwaiting.append_right d.handed
  refine ⟨hplaced.nodup_iff.mpr ?_, fun c hc => ?_, h.told, h.heard⟩
  · exact List.nodup_cons.mpr ⟨fun hmem => hconn (h.known hmem), h.nodup⟩
  · rcases List.mem_cons.mp (hplaced.mem_iff.mp hc) with rfl | hmem
    · exact List.mem_cons_self ..
    · exact List.mem_cons_of_mem _ (h.known hmem)

/-- The whole queue is handed to a new session, which has not said anything. -/
theorem Apart.starts (h : Apart arrived d) (hmarshal : ∀ id, ch.marshal [184, id] = true) :
    Apart arrived (startSession cfg ch { d with timerChan := false }) := by
  obtain ⟨s, hs, heq⟩ := @startSession_eq cfg _ hmarshal { d with timerChan := false }
  rw [heq]
  have heveryone : s.session.everyone.Perm d.waiting := by
    rw [hs]
    change (_ ++ []).Perm _
    rw [List.append_nil]
    exact conns_newJoinSession hmarshal _ _ _ _ _
  have hhanded : (d.started ++ [s]).flatMap (·.session.everyone) = d.handed ++ s.session.everyone := by
    rw [List.flatMap_append, List.flatMap_singleton]
    rfl
  have hplaced : (d.handed ++ s.session.everyone).Perm (d.waiting ++ d.handed) :=
    List.perm_append_comm.trans (heveryone.append_right _)
  refine ⟨?_, ?_, ?_, fun s' hs' => ?_⟩
  · change ((d.started ++ [s]).flatMap (·.session.everyone)).Nodup
    rw [hhanded]
    exact hplaced.nodup_iff.mpr h.nodup
  · change (d.started ++ [s]).flatMap (·.session.everyone) ⊆ _
    rw [hhanded]
    exact List.Subset.trans hplaced.subset h.known
  · have htold : ((d.told ++ (GoMap.range ch.order [173] d.peers).map fun e =>
        (e.2.conn, (⟨e.2.id, ch.genId 0⟩ : CoinJoinRes))).map Prod.fst).Perm (d.handed ++ s.session.everyone) := by
      rw [List.map_append, List.map_map]
      exact h.told.append (((GoMap.range_perm ..).map _).trans heveryone.symm)
    exact htold.trans (.of_eq hhanded.symm)
  · rcases List.mem_append.mp hs' with hold | hnew
    · exact h.heard s' hold
    · rw [List.mem_singleton.mp hnew, hs]
      exact List.nil_subset _

/-- A session speaks to its members, and nobody joins or is lost. -/
theorem audience_of_stepped {s s' : System} {ev : Event} (h : Coinjoin.Stepped pkgs ch s ev s')
    (hheard : s.session.audience ⊆ s.session.everyone) :
    s'.session.everyone.Perm s.session.everyone ∧ s'.session.audience ⊆ s'.session.everyone := by
  have hperm : s'.session.everyone.Perm s.session.everyone := Conserves.of_stepped h
  obtain ⟨conns, ⟨sent, hsent, hto⟩, hmembers⟩ := (speaks_of_stepped h).addresses
  refine ⟨hperm, fun conn hconn => hperm.mem_iff.mpr ?_⟩
  rw [JoinSession.audience, hsent, List.filterMap_append, hto] at hconn
  rcases List.mem_append.mp hconn with hold | hnew
  · exact hheard hold
  · exact List.mem_append_left _ (hmembers.subset hnew)

theorem Apart.session (h : Apart arrived d) {i : ℕ} {ev : Event} {s s' : System} (hi : d.started[i]? = some s)
    (hstep : s.step pkgs ch ev = some s') : Apart arrived { d with started := d.started.set i s' } := by
  obtain ⟨hperm, hheard⟩ := audience_of_stepped (Coinjoin.stepped_of_step hstep) (h.heard s (List.mem_of_getElem? hi))
  refine h.shrink (List.Subperm.refl _) (flatMap_set_perm _ hi hperm) rfl fun s₁ hs₁ => ?_
  rcases List.mem_or_eq_of_mem_set hs₁ with hold | rfl
  · exact h.heard s₁ hold
  · exact hheard

end Steps

theorem Reachable.apart {pkgs : Packages} {cfg : Config} {arrived : List (ℕ × ℕ)} {d : DiceMix}
    (hd : Reachable pkgs cfg arrived d) : Apart arrived d := by
  induction hd with
  | start => exact ⟨List.nodup_nil, List.nil_subset _, .nil, fun s hs => absurd hs List.not_mem_nil⟩
  | arrive hd hconn hid h ih =>
    cases stepped_of_step h with
    | newPeer => exact ih.newPeer hd.inv hconn hid
  | step hd hev hmarshal h ih =>
    cases stepped_of_step h with
    | newPeer => exact absurd rfl (hev _ _)
    | armed => exact ⟨ih.nodup, ih.known, ih.told, ih.heard⟩
    | unarmed => exact ⟨ih.nodup, ih.known, ih.told, ih.heard⟩
    | leave =>
      refine ih.shrink (subperm_map _ ?_) (.refl _) rfl ih.heard
      refine List.subperm_of_subset (GoMap.nodup_toList _).of_map fun e he => ?_
      exact GoMap.mem_toList.mpr (lookup_of_lookup_erase (GoMap.mem_toList.mp he))
    | few => exact ⟨ih.nodup, ih.known, ih.told, ih.heard⟩
    | starts => exact ih.starts hmarshal
    | session hi hstep => exact ih.session hi hstep

/-- Two sessions have nobody in common. -/
theorem Apart.disjoint {arrived : List (ℕ × ℕ)} {d : DiceMix} (h : Apart arrived d) {i j : ℕ} {s t : System} (hi : d.started[i]? = some s)
    (hj : d.started[j]? = some t) (hne : j ≠ i) {conn : ℕ} (hconn : conn ∈ s.session.everyone) : conn ∉ t.session.everyone := by
  have hpairwise : d.started.Pairwise fun s t => s.session.everyone.Disjoint t.session.everyone :=
    (List.nodup_flatMap.mp (List.nodup_append.mp h.nodup).2.1).2
  obtain ⟨hilt, rfl⟩ := List.getElem?_eq_some_iff.mp hi
  obtain ⟨hjlt, rfl⟩ := List.getElem?_eq_some_iff.mp hj
  intro hother
  rcases Nat.lt_or_gt_of_ne hne with hlt | hgt
  · exact List.pairwise_iff_getElem.mp hpairwise j i hjlt hilt hlt hother hconn
  · exact List.pairwise_iff_getElem.mp hpairwise i j hilt hjlt hgt hconn hother

end DiceMix

namespace DiceMix

/-- What has been told is not taken back, and a session keeps its people. -/
structure Keeps (d d' : DiceMix) : Prop where
  told : d.told <+: d'.told
  people : ∀ (i : ℕ) (s : System), d.started[i]? = some s →
    ∃ s' : System, d'.started[i]? = some s' ∧ s'.session.everyone.Perm s.session.everyone

section Runs
variable {pkgs : Packages} {cfg : Config} {ch : Choices} {d d' : DiceMix} {ev : QueueEvent}

theorem Keeps.of_same (htold : d'.told = d.told) (hstarted : d'.started = d.started) : Keeps d d' where
  told := by rw [htold]
  people _ s hi := ⟨s, hstarted ▸ hi, .refl _⟩

theorem Keeps.refl (d : DiceMix) : Keeps d d := .of_same rfl rfl

theorem Keeps.trans {d'' : DiceMix} (h : Keeps d d') (h' : Keeps d' d'') : Keeps d d'' where
  told := h.told.trans h'.told
  people i s hi := by
    obtain ⟨s', hi', hperm⟩ := h.people i s hi
    obtain ⟨s'', hi'', hperm'⟩ := h'.people i s' hi'
    exact ⟨s'', hi'', hperm'.trans hperm⟩

theorem Keeps.of_stepped (hmarshal : ∀ id, ch.marshal [184, id] = true) (h : Stepped pkgs cfg ch d ev d') : Keeps d d' := by
  cases h with
  | newPeer => exact .of_same rfl rfl
  | armed => exact .of_same rfl rfl
  | unarmed => exact .of_same rfl rfl
  | leave => exact .of_same rfl rfl
  | few => exact .of_same rfl rfl
  | starts =>
    obtain ⟨s, -, heq⟩ := @startSession_eq cfg _ hmarshal { d with timerChan := false }
    rw [heq]
    refine ⟨List.prefix_append _ _, fun i s' hi => ⟨s', ?_, .refl _⟩⟩
    obtain ⟨hlt, -⟩ := List.getElem?_eq_some_iff.mp hi
    exact (List.getElem?_append_left hlt).trans hi
  | @session i _ s s' hi hstep =>
    refine ⟨List.prefix_rfl, fun j t hj => ?_⟩
    obtain ⟨hlt, -⟩ := List.getElem?_eq_some_iff.mp hj
    by_cases hij : i = j
    · subst hij
      cases hi.symm.trans hj
      exact ⟨s', List.getElem?_set_self hlt, Conserves.of_stepped (Coinjoin.stepped_of_step hstep)⟩
    · exact ⟨t, (List.getElem?_set_ne hij).trans hj, .refl _⟩

/-- The queue and its sessions with the arrivals so far, one step on. -/
def move (pkgs : Packages) (cfg : Config) (x : List (ℕ × ℕ) × DiceMix) (e : Choices × QueueEvent) :
    Option (List (ℕ × ℕ) × DiceMix) :=
  (x.2.step pkgs cfg e.1 e.2).map fun d =>
    match e.2 with
    | .newPeer conn id => ((conn, id) :: x.1, d)
    | _ => (x.1, d)

/-- Every peer has a connection and an id of its own, and messages marshal. -/
def Proper (x : List (ℕ × ℕ) × DiceMix) (e : Choices × QueueEvent) : Prop :=
  (∀ id, e.1.marshal [184, id] = true) ∧
    ∀ conn id, e.2 = .newPeer conn id → conn ∉ x.1.map Prod.fst ∧ id ∉ x.1.map Prod.snd

theorem Reachable.onward {x y : List (ℕ × ℕ) × DiceMix} {e : Choices × QueueEvent} (hx : Reachable pkgs cfg x.1 x.2)
    (hproper : Proper x e) (h : move pkgs cfg x e = some y) : Reachable pkgs cfg y.1 y.2 ∧ Keeps x.2 y.2 := by
  obtain ⟨ch, ev⟩ := e
  obtain ⟨d, hstep, rfl⟩ := Option.map_eq_some_iff.mp h
  have hkeeps := Keeps.of_stepped hproper.1 (stepped_of_step hstep)
  cases ev with
  | newPeer conn id =>
    obtain ⟨hconn, hid⟩ := hproper.2 conn id rfl
    exact ⟨hx.arrive hconn hid hstep, hkeeps⟩
  | arm => exact ⟨hx.step (fun _ _ h => by cases h) hproper.1 hstep, hkeeps⟩
  | leave id => exact ⟨hx.step (fun _ _ h => by cases h) hproper.1 hstep, hkeeps⟩
  | timer => exact ⟨hx.step (fun _ _ h => by cases h) hproper.1 hstep, hkeeps⟩
  | session i ev => exact ⟨hx.step (fun _ _ h => by cases h) hproper.1 hstep, hkeeps⟩

theorem Reachable.keeps {x y : List (ℕ × ℕ) × DiceMix} (hx : Reachable pkgs cfg x.1 x.2)
    (hrun : RunsTo (move pkgs cfg) Proper x y) : Reachable pkgs cfg y.1 y.2 ∧ Keeps x.2 y.2 := by
  induction hrun with
  | start => exact ⟨hx, .refl _⟩
  | step _ _ hproper h ih =>
    obtain ⟨hreach, hkeeps⟩ := ih.1.onward hproper h
    exact ⟨hreach, ih.2.trans hkeeps⟩

end Runs

end DiceMix

/-- **Sessions do not mix.** A connection is told once that it has been handed to a
session, and whatever happens later that session is made up of the same people, members
or former ones, and no other session is. Those that wait have been sent nothing by any
session, and those of a session nothing by another one. -/
theorem sessions_apart {pkgs : Packages} {cfg : Config} {arrived arrived' : List (ℕ × ℕ)} {d d' : DiceMix}
    (hd : DiceMix.Reachable pkgs cfg arrived d)
    (hrun : RunsTo (DiceMix.move pkgs cfg) DiceMix.Proper (arrived, d) (arrived', d')) :
    d.Keeps d' ∧ (d'.told.map Prod.fst).Nodup ∧
      (∀ conn, conn ∈ d'.told.map Prod.fst ↔ ∃ s ∈ d'.started, conn ∈ s.session.everyone) ∧
      (∀ conn ∈ d'.waiting, ∀ s ∈ d'.started, conn ∉ s.session.everyone ∧ conn ∉ s.session.audience) ∧
      ∀ (i : ℕ) (s : System), d'.started[i]? = some s → ∀ conn ∈ s.session.everyone,
        ∀ (j : ℕ) (t : System), d'.started[j]? = some t → j ≠ i →
          conn ∉ t.session.everyone ∧ conn ∉ t.session.audience := by
  obtain ⟨hd', hkeeps⟩ := @DiceMix.Reachable.keeps pkgs cfg (arrived, d) (arrived', d') hd hrun
  have hapart := hd'.apart
  have hmem : ∀ conn, conn ∈ d'.told.map Prod.fst ↔ ∃ s ∈ d'.started, conn ∈ s.session.everyone := fun conn => by
    rw [hapart.told.mem_iff, DiceMix.handed, List.mem_flatMap]
  refine ⟨hkeeps, hapart.told.nodup_iff.mpr (List.nodup_append.mp hapart.nodup).2.1, hmem, fun conn hconn s hs => ?_,
    fun i s hi conn hconn j t hj hne => ?_⟩
  · have hout : conn ∉ s.session.everyone := fun hin =>
      List.disjoint_of_nodup_append hapart.nodup hconn (List.mem_flatMap.mpr ⟨s, hs, hin⟩)
    exact ⟨hout, fun hheard => hout (hapart.heard s hs hheard)⟩
  · have hout := hapart.disjoint hi hj hne hconn
    exact ⟨hout, fun hheard => hout (hapart.heard t (List.mem_of_getElem? hj) hheard)⟩

/-- A third peer arrives when the first two have been handed to a session. -/
theorem sessions_apart_third : ∃ d d', DiceMix.Reachable plainPackages ⟨2, 60, false⟩ [(12, 2), (11, 1)] d ∧
    d.Keeps d' ∧ (d'.told.map Prod.fst).Nodup ∧ 13 ∈ d'.waiting ∧
      ∃ s ∈ d'.started, 11 ∈ s.session.everyone ∧ 13 ∉ s.session.audience := by
  obtain ⟨d₁, hd₁⟩ : ∃ d₁, d₁ = DiceMix.armed.startSession ⟨2, 60, false⟩ (plainChoices id) := ⟨_, rfl⟩
  have hstarted : DiceMix.Reachable plainPackages ⟨2, 60, false⟩ [(12, 2), (11, 1)] { d₁ with timerChan := false } :=
    @DiceMix.Reachable.step _ _ _ _ _ (plainChoices id) .timer DiceMix.armed_reachable (by simp) (fun _ => rfl) (hd₁ ▸ rfl)
  have hthird : RunsTo (DiceMix.move plainPackages ⟨2, 60, false⟩) DiceMix.Proper
      ([(12, 2), (11, 1)], { d₁ with timerChan := false }) ([(13, 3), (12, 2), (11, 1)],
        { { d₁ with timerChan := false }.addNewPeer (newPeer 13 3) with pc := .added }) := by
    refine .step .start (plainChoices id, .newPeer 13 3) ⟨fun _ => rfl, ?_⟩ (hd₁ ▸ rfl)
    rintro conn id ⟨⟩
    exact ⟨show 13 ∉ [12, 11] by decide, show 3 ∉ [2, 1] by decide⟩
  obtain ⟨hkeeps, htold, -, hwaiting, -⟩ := sessions_apart hstarted hthird
  subst hd₁
  have hmember : 13 ∈ ({ { DiceMix.armed.startSession ⟨2, 60, false⟩ (plainChoices id) with timerChan := false }.addNewPeer
      (newPeer 13 3) with pc := .added } : DiceMix).waiting := by decide
  exact ⟨_, _, hstarted, hkeeps, htold, hmember, _, List.mem_cons_self .., by decide,
    (hwaiting 13 hmember _ (List.mem_cons_self ..)).2⟩

end Dcrtxmatcher.Coinjoin
