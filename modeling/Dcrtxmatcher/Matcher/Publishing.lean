import Dcrtxmatcher.Matcher.Departures
import Dcrtxmatcher.Matcher.Merging

/-! Agreement on the published transaction.

The stored transaction is what the publisher sent last, whoever else sends and whoever
leaves; it is what everybody is sent when the stage completes. -/
namespace Dcrtxmatcher.Matcher
open Lib
open Coinjoin (TxIn TxOut OutPoint)

/-- A request of a participant in the publishing stage. -/
structure PublishRequest where
  sessionID : ℕ
  tx : Option MsgTx
  resp : ℕ

/-- The participant's last request. -/
def lastRequest (sid : ℕ) (requests : List PublishRequest) : Option PublishRequest :=
  (requests.filter fun r => r.sessionID = sid).getLast?

theorem lastRequest_concat (sid : ℕ) (requests : List PublishRequest) (r : PublishRequest) :
    lastRequest sid (requests ++ [r]) = if r.sessionID = sid then some r else lastRequest sid requests := by
  rw [lastRequest, List.filter_append]
  by_cases hsid : r.sessionID = sid
  · simp [hsid]
  · simp [hsid, lastRequest]

/-- A session with the publish requests of its participants so far. -/
structure Publication where
  session : JoinSession
  requests : List PublishRequest

namespace Publication
open JoinSession (Event)
variable {ch : Choices} {pub : ℕ} {t t' : Publication}

def start (m : JoinSession) : Publication := ⟨m, []⟩

/-- The request that an event brings. -/
def taken (m : JoinSession) : Event → List PublishRequest
  | .publishResult sessionID tx resp =>
    if m.progress = .publishTx ∧ sessionID ∈ m.participants.keys then [⟨sessionID, tx, resp⟩] else []
  | _ => []

def step (t : Publication) (ev : Choices × Event) : Option Publication :=
  (t.session.step ev).map fun m => ⟨m, t.requests ++ taken t.session ev.2⟩

/-- A request comes with a channel of its own. -/
def OwnChannel (m : JoinSession) (ev : Event) : Prop :=
  ∀ resp, ev.resp = some resp → resp ∉ m.replies.map Prod.fst ∧
    ∀ sid p, m.participants.lookup sid = some p → p.chanPublishedTxRes ≠ some resp

/-- While the stage goes on: one publisher, whose last request is stored, and everybody that
has sent a request waits for the answer to its last one. -/
structure Going (pub : ℕ) (t : Publication) : Prop where
  stage : t.session.progress = .publishTx
  publisher : ∀ sid p, t.session.participants.lookup sid = some p → (p.publisher = true ↔ sid = pub)
  stored : t.session.publishedTx = (lastRequest pub t.requests).bind PublishRequest.tx
  waits : ∀ sid p, t.session.participants.lookup sid = some p → p.sentPublished = true →
    ∃ r, lastRequest sid t.requests = some r ∧ p.chanPublishedTxRes = some r.resp ∧
      r.resp ∉ t.session.replies.map Prod.fst
  own : ∀ sid p sid' p', t.session.participants.lookup sid = some p → t.session.participants.lookup sid' = some p' →
    p.sentPublished = true → p'.sentPublished = true → p.chanPublishedTxRes = p'.chanPublishedTxRes → sid = sid'

theorem step_eq_some {ev : Choices × Event} (h : t.step ev = some t') :
    t.session.step ev = some t'.session ∧ t'.requests = t.requests ++ taken t.session ev.2 := by
  obtain ⟨m, hstep, rfl⟩ := Option.map_eq_some_iff.mp h
  exact ⟨hstep, rfl⟩

/-- Some leave, or a request is refused. -/
theorem Going.leave (h : Going pub t) (hrequests : t'.requests = t.requests)
    (hlookup : ∀ sid p, t'.session.participants.lookup sid = some p → t.session.participants.lookup sid = some p)
    (hstage : t'.session.progress = t.session.progress) (hstored : t'.session.publishedTx = t.session.publishedTx)
    (hreplies : ∀ sid p c, t.session.participants.lookup sid = some p → p.chanPublishedTxRes = some c →
      c ∉ t.session.replies.map Prod.fst → c ∉ t'.session.replies.map Prod.fst) : Going pub t' where
  stage := hstage.trans h.stage
  publisher sid p hp := h.publisher sid p (hlookup sid p hp)
  stored := by
    rw [hstored, hrequests]
    exact h.stored
  waits sid p hp hsent := by
    obtain ⟨r, hr, hchan, hfree⟩ := h.waits sid p (hlookup sid p hp) hsent
    exact ⟨r, hrequests ▸ hr, hchan, hreplies sid p _ (hlookup sid p hp) hchan hfree⟩
  own sid p sid' p' hp hp' := h.own sid p sid' p' (hlookup sid p hp) (hlookup sid' p' hp')

/-- A participant's request is noted. -/
theorem Going.noted {sid : ℕ} {p : SessionParticipant} {tx : Option MsgTx} {resp : ℕ} (h : Going pub t)
    (hp : t.session.participants.lookup sid = some p) (hown : OwnChannel t.session (.publishResult sid tx resp)) :
    Going pub ⟨t.session.withPublished sid p.publisher tx resp, t.requests ++ [⟨sid, tx, resp⟩]⟩ := by
  obtain ⟨hfree, hothers⟩ := hown resp rfl
  have hback : ∀ sid' q, (t.session.withPublished sid p.publisher tx resp).participants.lookup sid' = some q →
      ∃ q', t.session.participants.lookup sid' = some q' ∧
        q = if sid' = sid then { q' with sentPublished := true, chanPublishedTxRes := some resp } else q' := by
    intro sid' q hq
    rw [JoinSession.lookup_withPublished, Option.map_eq_some_iff] at hq
    obtain ⟨q', hq', rfl⟩ := hq
    exact ⟨q', hq', rfl⟩
  refine ⟨h.stage, fun sid' q hq => ?_, ?_, fun sid' q hq hsent => ?_, fun sid₁ q₁ sid₂ q₂ hq₁ hq₂ hsent₁ hsent₂ heq => ?_⟩
  · obtain ⟨q', hq', rfl⟩ := hback sid' q hq
    rw [← h.publisher sid' q' hq']
    split_ifs
    · exact Iff.rfl
    · exact Iff.rfl
  · show (if p.publisher then tx else t.session.publishedTx) = (lastRequest pub (t.requests ++ [⟨sid, tx, resp⟩])).bind PublishRequest.tx
    rw [lastRequest_concat, h.stored]
    by_cases hpub : p.publisher = true
    · rw [if_pos hpub, if_pos ((h.publisher sid p hp).mp hpub)]
      rfl
    · rw [if_neg hpub, if_neg fun heq => hpub ((h.publisher sid p hp).mpr heq)]
  · obtain ⟨q', hq', rfl⟩ := hback sid' q hq
    show ∃ r, lastRequest sid' (t.requests ++ [⟨sid, tx, resp⟩]) = some r ∧ _
    rw [lastRequest_concat]
    by_cases hsid : sid' = sid
    · rw [if_pos hsid, if_pos hsid.symm]
      exact ⟨_, rfl, rfl, hfree⟩
    · rw [if_neg hsid] at hsent ⊢
      rw [if_neg fun heq => hsid heq.symm]
      exact h.waits sid' q' hq' hsent
  · obtain ⟨q₁', hq₁', rfl⟩ := hback sid₁ q₁ hq₁
    obtain ⟨q₂', hq₂', rfl⟩ := hback sid₂ q₂ hq₂
    by_cases h₁ : sid₁ = sid
    · by_cases h₂ : sid₂ = sid
      · exact h₁.trans h₂.symm
      · rw [if_pos h₁, if_neg h₂] at heq
        exact absurd heq.symm (hothers sid₂ q₂' hq₂')
    · by_cases h₂ : sid₂ = sid
      · rw [if_neg h₁, if_pos h₂] at heq
        exact absurd heq (hothers sid₁ q₁' hq₁')
      · rw [if_neg h₁] at hsent₁ heq
        rw [if_neg h₂] at hsent₂ heq
        exact h.own sid₁ q₁' sid₂ q₂' hq₁' hq₂' hsent₁ hsent₂ heq

/-- When everybody has sent a request everybody is listening. -/
theorem Going.listening (h : Going pub t)
    (hall : ∀ sid p, t.session.participants.lookup sid = some p → p.sentPublished = true) :
    t.session.Listening SessionParticipant.chanPublishedTxRes where
  waits sid p hp := by
    obtain ⟨r, -, hchan, hfree⟩ := h.waits sid p hp (hall sid p hp)
    exact ⟨r.resp, hchan, hfree⟩
  own := by
    refine (GoMap.nodup_toList _).of_map.map_on fun e he e' he' heq => ?_
    have hp := GoMap.mem_toList.mp he
    have hp' := GoMap.mem_toList.mp he'
    have hsid := h.own e.1 e.2 e'.1 e'.2 hp hp' (hall _ _ hp) (hall _ _ hp') heq
    rw [hsid, hp', Option.some.injEq] at hp
    exact Prod.ext hsid hp.symm

/-! ### The outcome -/

/-- The publisher's last transaction, or the error that it has not sent any. -/
def outcomeOf (pub : ℕ) (requests : List PublishRequest) : Response :=
  ((lastRequest pub requests).bind PublishRequest.tx).elim (.err .publishTxNotSent) .publishedTxRes

theorem Going.publishedRes (h : Going pub t) : t.session.publishedRes = outcomeOf pub t.requests := by
  rw [JoinSession.publishedRes, outcomeOf, h.stored]
  cases (lastRequest pub t.requests).bind PublishRequest.tx with
  | none => rfl
  | some tx => rfl

/-- Everybody that is left was sent the outcome, once, in answer to its last request. -/
def AllTold (pub : ℕ) (t t' : Publication) : Prop :=
  ∃ new : List (ℕ × Response), t'.session.replies = t.session.replies ++ new ∧
    (new.map fun e => (some e.1, e.2)).Perm (t'.session.participants.keys.map fun sid =>
      ((lastRequest sid t'.requests).map PublishRequest.resp, outcomeOf pub t'.requests))

theorem Going.allTold {m₁ : JoinSession} (h : Going pub t)
    (hall : ∀ sid p, t.session.participants.lookup sid = some p → p.sentPublished = true)
    (hsend : t.session.sendPublished ch = .ok m₁) {t₀ : Publication} (hreplies : t₀.session.replies = t.session.replies)
    (hparticipants : t'.session.participants = m₁.participants) (hnew : t'.session.replies = m₁.replies)
    (hrequests : t'.requests = t.requests) : AllTold pub t₀ t' := by
  obtain ⟨-, htold, hsent⟩ := JoinSession.sendAll_of_ok hsend
  obtain ⟨new, hm₁, hperm⟩ : JoinSession.ToldAll SessionParticipant.chanPublishedTxRes (fun _ => t.session.publishedRes)
    t.session m₁ := htold
  have hchan : ∀ sid p, t.session.participants.lookup sid = some p →
      p.chanPublishedTxRes = (lastRequest sid t.requests).map PublishRequest.resp := by
    intro sid p hp
    obtain ⟨r, hr, hchan, -⟩ := h.waits sid p hp (hall sid p hp)
    rw [hr, hchan]
    rfl
  refine ⟨new, by rw [hnew, hm₁, hreplies], ?_⟩
  rw [JoinSession.map_toList_of_own hchan fun _ c => (c, t.session.publishedRes), h.publishedRes] at hperm
  rw [hparticipants, hrequests, hsent]
  exact hperm

/-! ### Turns -/

theorem finished_step {m m' : JoinSession} {ev : Choices × Event} (h : m.step ev = some m') : m.finished ≤ m'.finished := by
  obtain ⟨ch, ev⟩ := ev
  cases JoinSession.turned_of_step h with
  | fired => exact Nat.le_refl _
  | left => exact Nat.le_refl _
  | refused => exact Nat.le_refl _
  | merging => exact Nat.le_refl _
  | merged _ _ _ _ hsend =>
    obtain ⟨-, hfinished, -, -⟩ := JoinSession.sendTxData_rest hsend
    exact hfinished.ge
  | invalid _ hp hsigning => exact (hsigning.rest hp).2.1.ge
  | signed _ hp hsigning => exact (hsigning.rest hp).2.1.ge
  | publishing => exact Nat.le_refl _
  | published _ _ _ hsend =>
    obtain ⟨-, -, hsent⟩ := JoinSession.sendAll_of_ok hsend
    rw [hsent]
    exact Nat.le_succ _

theorem taken_of_refused {m : JoinSession} {ev : Event} (h : ¬ ev.Served m) : taken m ev = [] := by
  cases ev with
  | publishResult sessionID tx resp => exact if_neg h
  | clientTimeout => rfl
  | submitSplitTx => rfl
  | submitSignedTx => rfl
  | removeSessionID => rfl

theorem taken_of_served {m : JoinSession} {sid : ℕ} {p : SessionParticipant} {tx : Option MsgTx} {resp : ℕ}
    (hstage : m.progress = .publishTx) (hp : m.participants.lookup sid = some p) :
    taken m (.publishResult sid tx resp) = [⟨sid, tx, resp⟩] :=
  if_pos ⟨hstage, GoMap.mem_keys_of_lookup hp⟩

/-- The stage goes on, or it completes and everybody is told. -/
theorem going_step {ev : Choices × Event} (h : Going pub t) (hown : OwnChannel t.session ev.2) (hstep : t.step ev = some t') :
    (t'.session.finished = t.session.finished ∧ Going pub t') ∨
      t'.session.finished = t.session.finished + 1 ∧ AllTold pub t t' := by
  obtain ⟨ch, ev⟩ := ev
  obtain ⟨hsession, hrequests⟩ := step_eq_some hstep
  obtain ⟨m', requests⟩ := t'
  dsimp only at hsession hrequests hown
  have hnot : ∀ {stage}, t.session.progress = stage → stage ≠ .publishTx → False := fun heq hne => hne (heq ▸ h.stage)
  cases JoinSession.turned_of_step hsession with
  | fired =>
    refine .inl ⟨rfl, h.leave (by simpa [taken] using hrequests) (fun sid p hp => ?_) rfl rfl fun _ _ _ _ _ hfree => hfree⟩
    rcases JoinSession.lookup_timeout_cases ch t.session sid with hsame | ⟨hgone, -⟩
    · exact hsame ▸ hp
    · rw [hgone] at hp
      cases hp
  | left sessionID =>
    refine .inl ⟨rfl, h.leave (by simpa [taken] using hrequests) (fun sid p hp => ?_) rfl rfl fun _ _ _ _ _ hfree => hfree⟩
    exact ((JoinSession.lookup_removeSessionID sessionID sid p).mp hp).2
  | @refused _ resp err hresp hserved _ =>
    refine .inl ⟨rfl, h.leave ?_ (fun _ _ hp => hp) rfl rfl fun sid p c hp hchan hfree => ?_⟩
    · show requests = t.requests
      rw [hrequests, taken_of_refused hserved, List.append_nil]
    · have hne : c ≠ resp := fun heq => (hown resp hresp).2 sid p hp (heq ▸ hchan)
      show c ∉ (t.session.replies ++ [(resp, Response.err err)]).map Prod.fst
      rw [List.map_append, List.mem_append, not_or]
      exact ⟨hfree, fun hlast => hne (List.mem_singleton.mp hlast)⟩
  | merging hstage => exact (hnot hstage (by decide)).elim
  | merged hstage => exact (hnot hstage (by decide)).elim
  | invalid hstage => exact (hnot hstage (by decide)).elim
  | signed hstage => exact (hnot hstage (by decide)).elim
  | publishing hstage hp =>
    rw [taken_of_served hstage hp] at hrequests
    subst hrequests
    exact .inl ⟨rfl, h.noted hp hown⟩
  | @published sessionID tx resp p m₁ hstage hp hall hsend =>
    rw [taken_of_served hstage hp] at hrequests
    obtain ⟨-, -, hsent⟩ := JoinSession.sendAll_of_ok hsend
    have hdone : ∀ sid q, (t.session.withPublished sessionID p.publisher tx resp).participants.lookup sid = some q →
        q.sentPublished = true := fun sid q hq => List.all_eq_true.mp hall (sid, q) (GoMap.mem_toList.mpr hq)
    refine .inr ⟨?_, (h.noted hp hown).allTold hdone hsend rfl rfl rfl hrequests⟩
    show m₁.finished + 1 = t.session.finished + 1
    rw [hsent]
    rfl

/-- Who is not the publisher does not change what is stored. -/
theorem Going.publishedTx_eq {m' : JoinSession} {sid : ℕ} {tx : Option MsgTx} {resp : ℕ} (h : Going pub t) (hne : sid ≠ pub)
    (hstep : t.session.step (ch, .publishResult sid tx resp) = some m') : m'.publishedTx = t.session.publishedTx := by
  have hkept : ∀ p, t.session.participants.lookup sid = some p →
      (t.session.withPublished sid p.publisher tx resp).publishedTx = t.session.publishedTx := by
    intro p hp
    exact if_neg fun hpub => hne ((h.publisher sid p hp).mp hpub)
  cases JoinSession.turned_of_step hstep with
  | refused => rfl
  | publishing _ hp => exact hkept _ hp
  | published _ hp _ hsend =>
    obtain ⟨-, -, hsent⟩ := JoinSession.sendAll_of_ok hsend
    rw [hsent]
    exact hkept _ hp

/-- What the publisher sends can be hashed, or the process ends. -/
theorem Going.whole {sid : ℕ} {tx : Option MsgTx} {resp : ℕ} (h : Going pub t) (hmem : sid ∈ t.session.participants.keys)
    (hstep : t.step (ch, .publishResult sid tx resp) = some t') : sid = pub → ∀ result, tx = some result → result.Whole := by
  intro hpub
  obtain ⟨m', hsession, -⟩ := Option.map_eq_some_iff.mp hstep
  cases JoinSession.turned_of_step hsession with
  | refused _ hnot => exact absurd ⟨h.stage, hmem⟩ hnot
  | publishing _ hp _ hwhole => exact hwhole ((h.publisher _ _ hp).mpr hpub)
  | published _ hp _ _ hwhole => exact hwhole ((h.publisher _ _ hp).mpr hpub)

/-- The last request gets through and completes the stage. -/
theorem Going.exists_last {sid : ℕ} {tx : Option MsgTx} {resp : ℕ} (h : Going pub t)
    (hmem : sid ∈ t.session.participants.keys) (hown : OwnChannel t.session (.publishResult sid tx resp))
    (hwhole : sid = pub → ∀ result, tx = some result → result.Whole)
    (hothers : ∀ sid' p, sid' ≠ sid → t.session.participants.lookup sid' = some p → p.sentPublished = true) (ch : Choices) :
    ∃ t', t.step (ch, .publishResult sid tx resp) = some t' ∧ t'.session.finished = t.session.finished + 1 := by
  obtain ⟨p, hp⟩ := GoMap.lookup_of_mem_keys hmem
  have hdone : ∀ sid' q, (t.session.withPublished sid p.publisher tx resp).participants.lookup sid' = some q →
      q.sentPublished = true := by
    intro sid' q hq
    rw [JoinSession.lookup_withPublished, Option.map_eq_some_iff] at hq
    obtain ⟨q', hq', rfl⟩ := hq
    by_cases hsid : sid' = sid
    · rw [if_pos hsid]
    · rw [if_neg hsid]
      exact hothers sid' q' hsid hq'
  have hall : (t.session.withPublished sid p.publisher tx resp).checkAllSentPublished = true :=
    List.all_eq_true.mpr fun e he => hdone e.1 e.2 (GoMap.mem_toList.mp he)
  obtain ⟨m₁, hsend⟩ := JoinSession.exists_sendAll
    (fun _ => (t.session.withPublished sid p.publisher tx resp).publishedRes) ((h.noted hp hown).listening hdone) ch.order [309]
  obtain ⟨-, -, hsent⟩ := JoinSession.sendAll_of_ok hsend
  have hstep : t.session.step (ch, .publishResult sid tx resp) = some { m₁ with finished := m₁.finished + 1 } := by
    refine JoinSession.toOption_eq_some.mpr (JoinSession.inStage_eq_ok.mpr (.inr ⟨h.stage, .inr ?_⟩))
    refine JoinSession.publishTxResult_eq_ok.mpr (.inr ⟨p, hp, rfl, fun hpub => hwhole ((h.publisher sid p hp).mp hpub), ?_⟩)
    rw [if_pos hall]
    exact ⟨m₁, hsend, rfl⟩
  refine ⟨⟨_, _⟩, Option.map_eq_some_iff.mpr ⟨_, hstep, rfl⟩, ?_⟩
  show m₁.finished + 1 = t.session.finished + 1
  rw [hsent]
  rfl

/-! ### From the signing stage on -/

/-- Everybody was sent the signed transaction, `pub` with the order to publish it. -/
def Appointed (m₀ m₁ : JoinSession) (pub : ℕ) : Prop :=
  pub ∈ m₁.participants.keys ∧ ∃ (signedTx : MsgTx) (new : List (ℕ × Response)), m₁.replies = m₀.replies ++ new ∧
    (new.map fun e => (some e.1, e.2)).Perm ((GoMap.toList m₁.participants).map fun e =>
      (e.2.chanSubmitSignedTxRes, .submitSignedTxRes signedTx (decide (e.1 = pub))))

/-- Once the publisher is marked, it is the only one, and nobody has sent a request. -/
theorem fresh_of_marked {m₀ m₁ : JoinSession} {sid : ℕ} {tx : MsgTx} {resp : ℕ} (hstaged : m₀.Staged)
    (hbusy : m₀.progress ≠ .publishTx) (hparticipants : m₁.participants =
      GoMap.modify pub (fun p => { p with publisher := true }) (m₀.withSignedTx sid tx resp).participants) :
    ∀ sid' q, m₁.participants.lookup sid' = some q → q.sentPublished = false ∧ (q.publisher = true ↔ sid' = pub) := by
  intro sid' q hq
  have hbefore : ∀ q', (m₀.withSignedTx sid tx resp).participants.lookup sid' = some q' →
      q'.sentPublished = false ∧ q'.publisher = false := by
    intro q' hq'
    rw [JoinSession.lookup_withSignedTx, Option.map_eq_some_iff] at hq'
    obtain ⟨q₀, hq₀, rfl⟩ := hq'
    have hunpublished := hstaged.unpublished hbusy sid' q₀ hq₀
    split_ifs
    · exact hunpublished
    · exact hunpublished
  rw [hparticipants] at hq
  by_cases hsid : sid' = pub
  · rw [hsid, GoMap.lookup_modify_self, Option.map_eq_some_iff] at hq
    obtain ⟨q', hq', rfl⟩ := hq
    exact ⟨(hbefore q' (hsid ▸ hq')).1, iff_of_true rfl hsid⟩
  · rw [GoMap.lookup_modify_ne hsid] at hq
    have hq' := hbefore q hq
    refine ⟨hq'.1, iff_of_false ?_ hsid⟩
    rw [hq'.2]
    decide

theorem exists_appointed {m₀ m₁ : JoinSession} {sid : ℕ} {tx : MsgTx} {resp : ℕ} (hstaged : m₀.Staged)
    (hstage : m₀.progress = .signedTx) (hintn : ch.intn (GoMap.len m₀.participants) < GoMap.len m₀.participants)
    (hstep : m₀.step (ch, .submitSignedTx sid tx resp) = some m₁) (hdone : m₁.progress = .publishTx) :
    ∃ pub, Appointed m₀ m₁ pub ∧ Going pub (start m₁) ∧ m₁.finished = 0 := by
  have hbusy : m₀.progress ≠ .publishTx := hstage.trans_ne (by decide)
  cases JoinSession.turned_of_step hstep with
  | refused => exact absurd hdone hbusy
  | @invalid _ _ _ p err m₂ _ hp hsigning _ =>
    exfalso
    cases hsigning with
    | unknown => exact hbusy hdone
    | nilInput => exact hbusy hdone
    | nilOutput => exact hbusy hdone
  | signed _ hp hsigning =>
    cases hsigning with
    | waiting => exact absurd hdone hbusy
    | @completed _ base txIn txOut m₂ _ _ _ _ _ hsend =>
      have hlen : GoMap.len (m₀.withSignedTx sid tx resp).participants = GoMap.len m₀.participants := GoMap.len_modify ..
      have hlt : ch.intn (GoMap.len (m₀.withSignedTx sid tx resp).participants) <
          GoMap.len (m₀.withSignedTx sid tx resp).participants := by
        rw [hlen]
        exact hintn
      obtain ⟨pub, hpub⟩ := JoinSession.designated_of_ok
        (m := { m₀.withSignedTx sid tx resp with signedTx := some { base with txIn := txIn, txOut := txOut } }) hlt hsend
      have hparticipants : m₂.participants = GoMap.modify pub (fun p => { p with publisher := true })
          (m₀.withSignedTx sid tx resp).participants := by rw [hpub.session]
      have hfinished : m₂.finished = m₀.finished := by
        rw [hpub.session]
        rfl
      have hpublished : m₂.publishedTx = m₀.publishedTx := by
        rw [hpub.session]
        rfl
      obtain ⟨hnone, hzero⟩ := hstaged.unfinished hbusy
      obtain ⟨new, hreplies, htold⟩ := hpub.told
      have hnow := fresh_of_marked hstaged hbusy hparticipants
      refine ⟨pub, ⟨?_, { base with txIn := txIn, txOut := txOut }, new, hreplies, ?_⟩, ?_, hfinished.trans hzero⟩
      · show pub ∈ m₂.participants.keys
        rw [hparticipants, GoMap.keys_modify]
        exact hpub.member
      · show List.Perm _ ((GoMap.toList m₂.participants).map _)
        rw [hparticipants, GoMap.toList_modify, List.map_map]
        refine htold.trans (.of_eq (List.map_congr_left fun e _ => ?_))
        by_cases hsid : e.1 = pub
        · simp [hsid]
        · simp [hsid]
      · refine ⟨rfl, fun sid' q hq => (hnow sid' q hq).2, hpublished.trans hnone, fun sid' q hq hsent => ?_,
          fun sid' q _ _ hq _ hsent => ?_⟩
        · rw [(hnow sid' q hq).1] at hsent
          cases hsent
        · rw [(hnow sid' q hq).1] at hsent
          cases hsent

theorem going_of_runsTo {t₀ : Publication} (hstart : Going pub t₀)
    (hrun : RunsTo step (fun t ev => OwnChannel t.session ev.2) t₀ t) :
    t₀.session.finished ≤ t.session.finished ∧ (t.session.finished = t₀.session.finished → Going pub t) := by
  induction hrun with
  | start => exact ⟨Nat.le_refl _, fun _ => hstart⟩
  | @step s s' _ ev hown hstep ih =>
    have hle := finished_step (step_eq_some hstep).1
    refine ⟨ih.1.trans hle, fun hopen => ?_⟩
    have hsame : s.session.finished = t₀.session.finished := Nat.le_antisymm (hopen ▸ hle) ih.1
    rcases going_step (ih.2 hsame) hown hstep with ⟨-, hgoing⟩ | ⟨hover, -⟩
    · exact hgoing
    · omega

/-- **Agreement on the outcome.** Whatever happens until the stage first completes, then
everybody left is sent what the one publisher sent last, or the error that there is
nothing; the last one's request completes it, unless it is a transaction of the publisher
that cannot be hashed, which ends the process; and what is stored is the publisher's alone. -/
theorem publish_agreement {randomIndex : Bool} {waitingPars : List ℕ} {m₀ m₁ : JoinSession} {sid : ℕ} {tx : MsgTx} {resp : ℕ}
    (hreach : RunsTo JoinSession.step (fun _ _ => True) (newJoinSession randomIndex waitingPars) m₀)
    (hstage : m₀.progress = .signedTx) (hintn : ch.intn (GoMap.len m₀.participants) < GoMap.len m₀.participants)
    (hstep : m₀.step (ch, .submitSignedTx sid tx resp) = some m₁) (hdone : m₁.progress = .publishTx) :
    ∃ pub, Appointed m₀ m₁ pub ∧
      ∀ t, RunsTo step (fun t ev => OwnChannel t.session ev.2) (start m₁) t → t.session.finished = 0 →
        (∀ ev t', OwnChannel t.session ev.2 → t.step ev = some t' → t'.session.finished ≠ 0 → AllTold pub t t') ∧
        (∀ ch sid tx resp, sid ∈ t.session.participants.keys → OwnChannel t.session (.publishResult sid tx resp) →
          (∀ sid' p, sid' ≠ sid → t.session.participants.lookup sid' = some p → p.sentPublished = true) →
            ((∃ t', t.step (ch, .publishResult sid tx resp) = some t' ∧ t'.session.finished ≠ 0) ↔
              (sid = pub → ∀ result, tx = some result → result.Whole))) ∧
        ∀ ch sid tx resp m', sid ≠ pub → t.session.step (ch, .publishResult sid tx resp) = some m' →
          m'.publishedTx = t.session.publishedTx := by
  obtain ⟨pub, happointed, hstart, hzero⟩ := exists_appointed (JoinSession.staged_of_runsTo hreach) hstage hintn hstep hdone
  refine ⟨pub, happointed, fun t hrun hopen => ?_⟩
  have hgoing : Going pub t := (going_of_runsTo hstart hrun).2 (hopen.trans hzero.symm)
  refine ⟨fun ev t' hown hlast hover => ?_, fun ch sid tx resp hmem hown hothers => ?_, fun ch sid tx resp m' hne hother => ?_⟩
  · rcases going_step hgoing hown hlast with ⟨hsame, -⟩ | ⟨-, htold⟩
    · exact absurd (hsame.trans hopen) hover
    · exact htold
  · constructor
    · rintro ⟨t', hlast, -⟩
      exact hgoing.whole hmem hlast
    · intro hwhole
      obtain ⟨t', hlast, hfinished⟩ := hgoing.exists_last hmem hown hwhole hothers ch
      exact ⟨t', hlast, by omega⟩
  · exact hgoing.publishedTx_eq hne hother

theorem ownChannel_publishResult {m : JoinSession} {sid : ℕ} {tx : Option MsgTx} {resp : ℕ}
    (hfree : resp ∉ m.replies.map Prod.fst)
    (hothers : ∀ e ∈ GoMap.toList m.participants, e.2.chanPublishedTxRes ≠ some resp) :
    OwnChannel m (.publishResult sid tx resp) := by
  intro resp' hresp
  cases hresp
  exact ⟨hfree, fun sid p hp => hothers (sid, p) (GoMap.mem_toList.mpr hp)⟩

/-- Two participants, the last signed transaction still to come. -/
def pairSigning : JoinSession := after JoinSession.step (newJoinSession true [1, 2]) (JoinSession.toPublishing.take 3)

def pairPublishing : JoinSession := after JoinSession.step (newJoinSession true [1, 2]) JoinSession.toPublishing

/-- One of the two has sent the transaction. -/
def pairSent : Publication := after step (start pairPublishing) [(.plain, .publishResult 1 (some JoinSession.pairTx) 4)]

def pairDone : Publication := after step pairSent [(.plain, .publishResult 2 none 5)]

theorem publish_agreement_two : ∃ pub, Appointed pairSigning pairPublishing pub ∧ AllTold pub pairSent pairDone := by
  obtain ⟨pub, happointed, h⟩ := publish_agreement
    (show RunsTo JoinSession.step (fun _ _ => True) (newJoinSession true [1, 2]) pairSigning from .of_events _ (foldlM_eq_after rfl))
    rfl (by decide) (show pairSigning.step (.plain, .submitSignedTx 2 JoinSession.pairTx 3) = some pairPublishing from rfl) rfl
  have hfirst : OwnChannel pairPublishing (.publishResult 1 (some JoinSession.pairTx) 4) :=
    ownChannel_publishResult (by decide) (by decide)
  have hsecond : OwnChannel pairSent.session (.publishResult 2 none 5) :=
    ownChannel_publishResult (by decide) (by decide)
  have hrun : RunsTo step (fun t ev => OwnChannel t.session ev.2) (start pairPublishing) pairSent :=
    .step .start (.plain, .publishResult 1 (some JoinSession.pairTx) 4) hfirst rfl
  exact ⟨pub, happointed, (h pairSent hrun rfl).1 (.plain, .publishResult 2 none 5) pairDone hsecond rfl (by decide)⟩

end Publication

end Dcrtxmatcher.Matcher
