import Dcrtxmatcher.Matcher.Stages

/-! Participants that leave, by the timer or by `RemoveSessionID`.

Whether a stage is complete is looked at only when a request arrives. So a departure
after which everybody left has sent its part leaves them waiting for each other. The
timer of the last stage looks for what the stage before it collected. -/
namespace Dcrtxmatcher.Matcher
open Lib
open Coinjoin (TxIn TxOut OutPoint)

namespace JoinSession
variable {ch : Choices} {m m' : JoinSession}

/-! ### Who waits -/

/-- What a stage ends in for a participant. -/
def outcome : Progress → Response → Bool
  | .rawTx, .submitSplitTxRes _ _ _ => true
  | .signedTx, .submitSignedTxRes _ _ => true
  | .publishTx, .publishedTxRes _ => true
  | .publishTx, .err .publishTxNotSent => true
  | _, _ => false

/-- The participant was sent the outcome of the stage. -/
def Concluded (m : JoinSession) (stage : Progress) (p : SessionParticipant) : Prop :=
  ∃ c res, Service.chan stage p = some c ∧ (c, res) ∈ m.replies ∧ outcome stage res = true

/-- Everybody has done its part, and nobody has got an answer: they wait for each other. -/
def Deadlocked (m : JoinSession) : Prop :=
  m.participants.keys ≠ [] ∧ Service.StageComplete m ∧
    ∀ sid p, m.participants.lookup sid = some p → ∀ c, Service.chan m.progress p = some c → c ∉ m.replies.map Prod.fst

/-- The timer removes those that have not done their part, and nobody else. -/
def RemovesMissing (m m' : JoinSession) : Prop :=
  ∀ sid p, m.participants.lookup sid = some p →
    (sid ∉ m'.participants.keys ↔ Service.submitted m.progress p = false)

/-- When somebody was removed and everybody left has done its part, the stage is concluded. -/
def Concludes (m m' : JoinSession) : Prop :=
  (∃ sid ∈ m.participants.keys, sid ∉ m'.participants.keys) →
    (∀ sid p, m'.participants.lookup sid = some p → Service.submitted m.progress p = true) →
      ∀ sid p, m'.participants.lookup sid = some p → m'.Concluded m.progress p

/-- What is asked of a departure. -/
def Settles (m m' : JoinSession) : Event → Prop
  | .clientTimeout => m.RemovesMissing m' ∧ m.Concludes m'
  | .removeSessionID _ => m.Concludes m'
  | _ => True

/-- The timer finds nobody missing, or, before the last stage, nobody that still waits for
an outcome. A removal leaves somebody that has not done its part, or nobody that still
waits for an outcome. -/
def Harmless (m : JoinSession) (ev : Choices × Event) : Prop :=
  match ev.2 with
  | .clientTimeout => Service.StageComplete m ∨ m.progress ≠ .publishTx ∧
      ∀ sid p, m.participants.lookup sid = some p → Service.submitted m.progress p = true → m.Concluded m.progress p
  | .removeSessionID sessionID => sessionID ∈ m.participants.keys →
      (∀ sid p, sid ≠ sessionID → m.participants.lookup sid = some p → Service.submitted m.progress p = true) →
        ∀ sid p, sid ≠ sessionID → m.participants.lookup sid = some p → m.Concluded m.progress p
  | _ => True

/-! ### Departures -/

theorem mem_keys_timeout (ch : Choices) {sid : ℕ} {p : SessionParticipant} (hp : m.participants.lookup sid = some p) :
    sid ∉ (m.timeout ch).participants.keys ↔ missed m.progress p = true := by
  rw [GoMap.mem_keys_iff, lookup_timeout, hp]
  cases hmissed : JoinSession.missed m.progress p with
  | false => simp [hmissed]
  | true => simp [hmissed]

/-- Before the last stage the timer looks for the right thing. -/
theorem missed_eq {p : SessionParticipant} (h : m.progress ≠ .publishTx) :
    missed m.progress p = true ↔ Service.submitted m.progress p = false := by
  cases hstage : m.progress with
  | rawTx => simp [missed, Service.submitted]
  | signedTx => simp [missed, Service.submitted]
  | publishTx => exact absurd hstage h

/-- In the last stage it finds nobody. -/
theorem Staged.missed (h : m.Staged) (hstage : m.progress = .publishTx) {sid : ℕ} {p : SessionParticipant}
    (hp : m.participants.lookup sid = some p) : JoinSession.missed m.progress p = false := by
  have hsigned := h.signed hstage sid p hp
  rw [hstage]
  simpa [JoinSession.missed, Option.isSome_iff_ne_none] using hsigned

theorem settles_timeout (h : m.Staged) (ch : Choices) :
    (m.RemovesMissing (m.timeout ch) ∧ m.Concludes (m.timeout ch)) ↔ m.Harmless (ch, .clientTimeout) := by
  by_cases hstage : m.progress = .publishTx
  · have hstays : ∀ sid p, m.participants.lookup sid = some p → sid ∈ (m.timeout ch).participants.keys := by
      intro sid p hp
      by_contra hgone
      rw [mem_keys_timeout ch hp, h.missed hstage hp] at hgone
      cases hgone
    constructor
    · intro ⟨hmissing, _⟩
      refine .inl fun sid p hp => ?_
      by_contra hnot
      exact (hmissing sid p hp).mpr (Bool.eq_false_iff.mpr hnot) (hstays sid p hp)
    · intro hharmless
      have hcomplete : Service.StageComplete m := hharmless.resolve_right fun hother => hother.1 hstage
      refine ⟨fun sid p hp => ⟨fun hgone => absurd (hstays sid p hp) hgone, fun hnot => ?_⟩, fun hremoved => ?_⟩
      · rw [hcomplete sid p hp] at hnot
        cases hnot
      · obtain ⟨sid, hmem, hgone⟩ := hremoved
        obtain ⟨p, hp⟩ := GoMap.lookup_of_mem_keys hmem
        exact absurd (hstays sid p hp) hgone
  · have hleft : ∀ sid p, (m.timeout ch).participants.lookup sid = some p ↔
        m.participants.lookup sid = some p ∧ Service.submitted m.progress p = true := by
      intro sid p
      rw [lookup_timeout, Option.filter_eq_some_iff]
      refine and_congr_right fun _ => ?_
      rw [Bool.not_eq_true', ← Bool.not_eq_true, missed_eq hstage, Bool.not_eq_false]
    have hmissing : m.RemovesMissing (m.timeout ch) := fun sid p hp => (mem_keys_timeout ch hp).trans (missed_eq hstage)
    constructor
    · intro ⟨_, hconcludes⟩
      by_cases hcomplete : Service.StageComplete m
      · exact .inl hcomplete
      · refine .inr ⟨hstage, fun sid p hp hsubmitted => ?_⟩
        obtain ⟨sid', p', hp', hnot⟩ : ∃ sid' p', m.participants.lookup sid' = some p' ∧
            Service.submitted m.progress p' ≠ true := by
          simpa only [Service.StageComplete, not_forall, exists_prop] using hcomplete
        have hremoved : ∃ sid ∈ m.participants.keys, sid ∉ (m.timeout ch).participants.keys :=
          ⟨sid', GoMap.mem_keys_of_lookup hp', (hmissing sid' p' hp').mpr (Bool.eq_false_iff.mpr hnot)⟩
        exact hconcludes hremoved (fun sid p hp => ((hleft sid p).mp hp).2) sid p ((hleft sid p).mpr ⟨hp, hsubmitted⟩)
    · intro hharmless
      refine ⟨hmissing, fun hremoved _ sid p hp => ?_⟩
      obtain ⟨sid', hmem, hgone⟩ := hremoved
      obtain ⟨p', hp'⟩ := GoMap.lookup_of_mem_keys hmem
      rcases hharmless with hcomplete | ⟨-, hconcluded⟩
      · have hnot := (hmissing sid' p' hp').mp hgone
        rw [hcomplete sid' p' hp'] at hnot
        cases hnot
      · obtain ⟨hold, hsubmitted⟩ := (hleft sid p).mp hp
        exact hconcluded sid p hold hsubmitted

theorem lookup_removeSessionID (sessionID sid : ℕ) (p : SessionParticipant) :
    (m.removeSessionID sessionID).participants.lookup sid = some p ↔ sid ≠ sessionID ∧ m.participants.lookup sid = some p := by
  show (m.participants.erase sessionID).lookup sid = some p ↔ _
  rw [GoMap.lookup_erase_eq]
  by_cases hsid : sid = sessionID
  · simp [hsid]
  · simp [hsid]

theorem settles_removeSessionID (ch : Choices) (sessionID : ℕ) :
    m.Concludes (m.removeSessionID sessionID) ↔ m.Harmless (ch, .removeSessionID sessionID) := by
  have hgone : ∀ sid, sid ∈ m.participants.keys → (sid ∉ (m.removeSessionID sessionID).participants.keys ↔ sid = sessionID) := by
    intro sid hmem
    obtain ⟨p, hp⟩ := GoMap.lookup_of_mem_keys hmem
    constructor
    · intro hnot
      by_contra hne
      exact hnot (GoMap.mem_keys_of_lookup ((lookup_removeSessionID sessionID sid p).mpr ⟨hne, hp⟩))
    · intro hsid hstill
      obtain ⟨q, hq⟩ := GoMap.lookup_of_mem_keys hstill
      exact ((lookup_removeSessionID sessionID sid q).mp hq).1 hsid
  constructor
  · intro hconcludes hmem hall sid p hne hp
    have hremoved : ∃ sid ∈ m.participants.keys, sid ∉ (m.removeSessionID sessionID).participants.keys :=
      ⟨sessionID, hmem, (hgone sessionID hmem).mpr rfl⟩
    refine hconcludes hremoved (fun sid p hp => ?_) sid p ((lookup_removeSessionID sessionID sid p).mpr ⟨hne, hp⟩)
    obtain ⟨hne, hp⟩ := (lookup_removeSessionID sessionID sid p).mp hp
    exact hall sid p hne hp
  · intro hharmless hremoved hall sid p hp
    obtain ⟨sid', hmem, hnot⟩ := hremoved
    obtain ⟨hne, hp⟩ := (lookup_removeSessionID sessionID sid p).mp hp
    refine hharmless ((hgone sid' hmem).mp hnot ▸ hmem) (fun sid p hne hp => ?_) sid p hne hp
    exact hall sid p ((lookup_removeSessionID sessionID sid p).mpr ⟨hne, hp⟩)

theorem settles_iff {ev : Choices × Event} (h : m.Staged) (hstep : m.step ev = some m') :
    m.Settles m' ev.2 ↔ m.Harmless ev := by
  obtain ⟨ch, ev⟩ := ev
  cases ev with
  | clientTimeout =>
    cases step_eq_some hstep
    exact settles_timeout h ch
  | removeSessionID sessionID =>
    cases step_eq_some hstep
    exact settles_removeSessionID ch sessionID
  | submitSplitTx => exact Iff.rfl
  | submitSignedTx => exact Iff.rfl
  | publishResult => exact Iff.rfl

/-! ### No deadlock -/

/-- Of those that are there somebody has not done its part, or got an answer. -/
theorem not_deadlocked (h : ∀ sid p, m.participants.lookup sid = some p →
    ∃ sid' p', m.participants.lookup sid' = some p' ∧ (Service.submitted m.progress p' = false ∨
      ∃ c, Service.chan m.progress p' = some c ∧ c ∈ m.replies.map Prod.fst)) : ¬ m.Deadlocked := by
  intro ⟨hsome, hcomplete, hwait⟩
  obtain ⟨sid, hmem⟩ := List.exists_mem_of_ne_nil _ hsome
  obtain ⟨p, hp⟩ := GoMap.lookup_of_mem_keys hmem
  obtain ⟨sid', p', hp', hopen | ⟨c, hchan, hc⟩⟩ := h sid p hp
  · rw [hcomplete sid' p' hp'] at hopen
    cases hopen
  · exact hwait sid' p' hp' c hchan hc

/-- What holds of everybody is found by its failure for one. -/
theorem exists_open {f : SessionParticipant → Bool}
    (h : ((GoMap.toList m.participants).all fun e => f e.2) = false) :
    ∃ sid p, m.participants.lookup sid = some p ∧ f p = false := by
  obtain ⟨e, he, hf⟩ := List.all_eq_false.mp h
  exact ⟨e.1, e.2, GoMap.mem_toList.mp he, Bool.eq_false_iff.mpr hf⟩

theorem ToldAll.answered {chanOf : SessionParticipant → Option ℕ} {res : SessionParticipant → Response}
    (h : m.ToldAll chanOf res m') {sid : ℕ} {p : SessionParticipant} (hp : m.participants.lookup sid = some p) :
    ∃ c, chanOf p = some c ∧ c ∈ m'.replies.map Prod.fst := by
  obtain ⟨new, hreplies, hnew⟩ := h
  have hmem := hnew.mem_iff.mpr (List.mem_map_of_mem (GoMap.mem_toList.mpr hp))
  obtain ⟨e, he, heq⟩ := List.mem_map.mp hmem
  rw [Prod.mk.injEq] at heq
  refine ⟨e.1, heq.1.symm, ?_⟩
  rw [hreplies, List.map_append]
  exact List.mem_append_right _ (List.mem_map_of_mem he)

theorem Concluded.answered {stage : Progress} {p : SessionParticipant} (h : m.Concluded stage p) :
    ∃ c, Service.chan stage p = some c ∧ c ∈ m.replies.map Prod.fst := by
  obtain ⟨c, res, hchan, hmem, -⟩ := h
  exact ⟨c, hchan, List.mem_map.mpr ⟨(c, res), hmem, rfl⟩⟩

/-- Who has done its part stays when the timer fires. -/
theorem Staged.lookup_timeout (h : m.Staged) (ch : Choices) {sid : ℕ} {p : SessionParticipant}
    (hp : m.participants.lookup sid = some p) (hsubmitted : Service.submitted m.progress p = true) :
    (m.timeout ch).participants.lookup sid = some p := by
  have hnot : JoinSession.missed m.progress p = false := by
    by_cases hstage : m.progress = .publishTx
    · exact h.missed hstage hp
    · refine Bool.eq_false_iff.mpr fun hmissed => ?_
      rw [(missed_eq hstage).mp hmissed] at hsubmitted
      cases hsubmitted
  rw [JoinSession.lookup_timeout, hp, Option.filter_some_pos]
  rw [hnot]
  rfl

/-- A departure that settles leaves no deadlock behind. -/
theorem not_deadlocked_timeout (hm : ¬ m.Deadlocked) (hstaged : m.Staged) (h : m.Harmless (ch, .clientTimeout)) :
    ¬ (m.timeout ch).Deadlocked := by
  intro ⟨hsome, hcomplete, hwait⟩
  obtain ⟨sid, hmem⟩ := List.exists_mem_of_ne_nil _ hsome
  obtain ⟨p, hp⟩ := GoMap.lookup_of_mem_keys hmem
  have hold : m.participants.lookup sid = some p := by
    rcases lookup_timeout_cases ch m sid with hsame | ⟨hgone, -⟩
    · exact hsame ▸ hp
    · rw [hgone] at hp
      cases hp
  rcases h with hall | ⟨-, hconcluded⟩
  · refine hm ⟨List.ne_nil_of_mem (GoMap.mem_keys_of_lookup hold), hall, fun sid p hp => ?_⟩
    exact hwait sid p (hstaged.lookup_timeout ch hp (hall sid p hp))
  · obtain ⟨c, hchan, hc⟩ := (hconcluded sid p hold (hcomplete sid p hp)).answered
    exact hwait sid p hp c hchan hc

theorem not_deadlocked_removeSessionID {sessionID : ℕ} (hm : ¬ m.Deadlocked)
    (h : m.Harmless (ch, .removeSessionID sessionID)) : ¬ (m.removeSessionID sessionID).Deadlocked := by
  intro ⟨hsome, hcomplete, hwait⟩
  have hothers : ∀ sid p, sid ≠ sessionID → m.participants.lookup sid = some p →
      (m.removeSessionID sessionID).participants.lookup sid = some p :=
    fun sid p hne hp => (lookup_removeSessionID sessionID sid p).mpr ⟨hne, hp⟩
  obtain ⟨sid, hmem⟩ := List.exists_mem_of_ne_nil _ hsome
  obtain ⟨p, hp⟩ := GoMap.lookup_of_mem_keys hmem
  obtain ⟨hne, hold⟩ := (lookup_removeSessionID sessionID sid p).mp hp
  by_cases hthere : sessionID ∈ m.participants.keys
  · obtain ⟨c, hchan, hc⟩ := (h hthere (fun sid p hne hp => hcomplete sid p (hothers sid p hne hp)) sid p hne hold).answered
    exact hwait sid p hp c hchan hc
  · have hne' : ∀ sid p, m.participants.lookup sid = some p → sid ≠ sessionID :=
      fun sid p hp heq => hthere (heq ▸ GoMap.mem_keys_of_lookup hp)
    refine hm ⟨List.ne_nil_of_mem (GoMap.mem_keys_of_lookup hold), fun sid p hp => ?_, fun sid p hp => ?_⟩
    · exact hcomplete sid p (hothers sid p (hne' sid p hp) hp)
    · exact hwait sid p (hothers sid p (hne' sid p hp) hp)

/-- After the last split transaction the stage has moved on, or everybody was sent the merged one. -/
theorem not_deadlocked_sendTxData {merged : MsgTx} (hstaged : m.Staged) (hstage : m.progress = .rawTx)
    (hmerged : m.mergedSplitTx = some merged) (hsend : m.sendTxData ch merged = .ok m') : ¬ m'.Deadlocked := by
  obtain ⟨-, -, -, hprogress⟩ := sendTxData_rest hsend
  refine not_deadlocked fun sid p hp => ⟨sid, p, hp, ?_⟩
  by_cases hrandom : m.randomIndex = true ∧ 1 < GoMap.len m.participants
  · rw [if_pos hrandom] at hprogress
    obtain ⟨ins, outs, hlookup⟩ := lookup_sendTxData hmerged hsend sid
    rw [hlookup, Option.map_eq_some_iff] at hp
    obtain ⟨q, hq, rfl⟩ := hp
    refine .inl ?_
    rw [hprogress]
    simp [Service.submitted, hstaged.unsigned hstage sid q hq]
  · obtain ⟨m₁, hall, rfl⟩ := (sendTxData_plain hrandom).mp hsend
    obtain ⟨-, htold, hsent⟩ := sendAll_of_ok hall
    rw [if_neg hrandom] at hprogress
    have hold : m.participants.lookup sid = some p := by
      rw [hsent] at hp
      exact hp
    obtain ⟨c, hchan, hc⟩ := htold.answered hold
    refine .inr ⟨c, ?_, hc⟩
    rw [hprogress, hstage]
    exact hchan

/-- An error is an answer to the submitter. -/
theorem not_deadlocked_invalid {sessionID : ℕ} {tx : MsgTx} {resp : ℕ} {p : SessionParticipant} {err : Err}
    (hstage : m.progress = .signedTx) (hp : m.participants.lookup sessionID = some p)
    (hsigning : Signing ch sessionID tx resp m (some err) m') :
    ¬ Deadlocked { m' with replies := m'.replies ++ [(resp, .err err)] } := by
  have hnoted : (m.withSignedTx sessionID tx resp).participants.lookup sessionID =
      some { p with signedTx := some tx, chanSubmitSignedTxRes := some resp } := by
    rw [lookup_withSignedTx, hp, Option.map_some, if_pos rfl]
  have hsame : m'.progress = .signedTx ∧ m'.participants = (m.withSignedTx sessionID tx resp).participants := by
    cases hsigning with
    | unknown hnone =>
      rw [hp] at hnone
      cases hnone
    | nilInput => exact ⟨hstage, rfl⟩
    | nilOutput => exact ⟨hstage, rfl⟩
  refine not_deadlocked fun _ _ _ => ⟨sessionID, _, hsame.2 ▸ hnoted, .inr ⟨resp, ?_, by simp⟩⟩
  show Service.chan m'.progress _ = some resp
  rw [hsame.1]
  rfl

/-- The publishing stage begins with nobody done. -/
theorem not_deadlocked_signed {sessionID : ℕ} {tx : MsgTx} {resp : ℕ} {p : SessionParticipant} (hstaged : m.Staged)
    (hstage : m.progress = .signedTx) (hp : m.participants.lookup sessionID = some p)
    (hsigning : Signing ch sessionID tx resp m none m') : ¬ m'.Deadlocked := by
  have hlookup := hsigning.lookup hp
  cases hsigning with
  | waiting _ _ _ _ hopen =>
    refine not_deadlocked fun _ _ _ => ?_
    obtain ⟨sid, q, hq, hnot⟩ := exists_open (f := fun p => p.signedTx.isSome) hopen
    refine ⟨sid, q, hq, .inl ?_⟩
    show Service.submitted m.progress q = false
    rw [hstage]
    exact hnot
  | completed =>
    refine not_deadlocked fun sid q hq => ⟨sid, q, hq, .inl ?_⟩
    obtain ⟨publisher, hsid⟩ := hlookup sid
    rw [hq, lookup_withSignedTx, Option.map_map] at hsid
    obtain ⟨q', hq', rfl⟩ := Option.map_eq_some_iff.mp hsid.symm
    have hunsent := (hstaged.unpublished (hstage.trans_ne (by decide)) sid q' hq').1
    show (if sid = sessionID then _ else q').sentPublished = false
    split_ifs
    · exact hunsent
    · exact hunsent

theorem deadlock_step {ev : Choices × Event} (hm : ¬ m.Deadlocked) (hstaged : m.Staged) (hharmless : m.Harmless ev)
    (hstep : m.step ev = some m') : ¬ m'.Deadlocked := by
  obtain ⟨ch, ev⟩ := ev
  cases turned_of_step hstep with
  | fired => exact not_deadlocked_timeout hm hstaged hharmless
  | left sessionID => exact not_deadlocked_removeSessionID hm hharmless
  | @refused ev resp err hresp hnot hfree =>
    intro ⟨hsome, hcomplete, hwait⟩
    refine hm ⟨hsome, hcomplete, fun sid p hp c hchan hold => hwait sid p hp c hchan ?_⟩
    rw [List.map_append]
    exact List.mem_append_left _ hold
  | merging hstage hmem hmerge hopen =>
    refine not_deadlocked fun _ _ _ => ?_
    obtain ⟨sid, p, hp, hnot⟩ := exists_open (f := fun p => p.splitTx.isSome) hopen
    refine ⟨sid, p, hp, .inl ?_⟩
    show Service.submitted m.progress p = false
    rw [hstage]
    exact hnot
  | merged hstage hmem hmerge hall hsend => exact not_deadlocked_sendTxData (hstaged.withSplitTx hstage ..) hstage rfl hsend
  | invalid hstage hp hsigning => exact not_deadlocked_invalid hstage hp hsigning
  | signed hstage hp hsigning => exact not_deadlocked_signed hstaged hstage hp hsigning
  | publishing hstage hp hopen =>
    refine not_deadlocked fun _ _ _ => ?_
    obtain ⟨sid, p, hp, hnot⟩ := exists_open (f := SessionParticipant.sentPublished) hopen
    refine ⟨sid, p, hp, .inl ?_⟩
    show Service.submitted m.progress p = false
    rw [hstage]
    exact hnot
  | @published sessionID tx resp p m₁ hstage hp hall hsend => 
    obtain ⟨-, htold, hsent⟩ := sendAll_of_ok hsend
    refine not_deadlocked fun sid q hq => ⟨sid, q, hq, .inr ?_⟩
    have hold : (m.withPublished sessionID p.publisher tx resp).participants.lookup sid = some q := by
      rw [hsent] at hq
      exact hq
    obtain ⟨c, hchan, hc⟩ := htold.answered hold
    refine ⟨c, ?_, hc⟩
    show Service.chan m₁.progress q = some c
    rw [show m₁.progress = .publishTx by rw [hsent]; exact hstage]
    exact hchan

theorem not_deadlocked_newJoinSession (randomIndex : Bool) (waitingPars : List ℕ) :
    ¬ (newJoinSession randomIndex waitingPars).Deadlocked :=
  not_deadlocked fun sid p hp => ⟨sid, p, hp, .inl (by rw [lookup_newJoinSession hp]; rfl)⟩

theorem not_deadlocked_of_runsTo {randomIndex : Bool} {waitingPars : List ℕ} {m : JoinSession}
    (h : RunsTo step Harmless (newJoinSession randomIndex waitingPars) m) : ¬ m.Deadlocked := by
  induction h with
  | start => exact not_deadlocked_newJoinSession randomIndex waitingPars
  | step hs ev hok hstep ih => exact deadlock_step ih (staged_of_runsTo hs) hok hstep

/-- **Departures settle.** As long as they are harmless nobody waits for nobody, and
exactly the harmless ones do what is asked of them. -/
theorem departures_settle {randomIndex : Bool} {waitingPars : List ℕ} {m : JoinSession}
    (h : RunsTo step Harmless (newJoinSession randomIndex waitingPars) m) :
    ¬ m.Deadlocked ∧ ∀ ev m', m.step ev = some m' → (m.Settles m' ev.2 ↔ m.Harmless ev) :=
  ⟨not_deadlocked_of_runsTo h, fun _ _ hstep => settles_iff (staged_of_runsTo h) hstep⟩

/-- The first of three has submitted. -/
def oneSubmitted : JoinSession := after step (newJoinSession true [1, 2, 3]) [(.plain, .submitSplitTx 1 (smallTx 1) 0)]

/-- The second may leave then, since the third is still missing; the timer leaves the first
alone, with nobody to wait for. -/
theorem departures_settle_three :
    oneSubmitted.Settles (oneSubmitted.removeSessionID 2) (.removeSessionID 2) ∧
      ¬ oneSubmitted.Settles (oneSubmitted.timeout .plain) .clientTimeout := by
  have hrun : RunsTo step Harmless (newJoinSession true [1, 2, 3]) oneSubmitted :=
    .step .start (.plain, .submitSplitTx 1 (smallTx 1) 0) trivial rfl
  obtain ⟨-, hsettles⟩ := departures_settle hrun
  have hthird : ∃ p, oneSubmitted.participants.lookup 3 = some p ∧ Service.submitted oneSubmitted.progress p = false := ⟨_, rfl, rfl⟩
  obtain ⟨p, hp, hmissing⟩ := hthird
  constructor
  · refine (hsettles (.plain, .removeSessionID 2) _ rfl).mpr fun _ hall => ?_
    exact absurd (hall 3 p (by decide) hp) (by rw [hmissing]; decide)
  · intro hsettled
    rcases (hsettles (.plain, .clientTimeout) _ rfl).mp hsettled with hcomplete | ⟨-, htold⟩
    · exact absurd (hcomplete 3 p hp) (by rw [hmissing]; decide)
    · obtain ⟨c, res, -, hreply, -⟩ := htold 1 _ rfl rfl
      cases hreply

def pairTx : MsgTx :=
  { smallTx 1 with
    txIn := (smallTx 1).txIn ++ (smallTx 2).txIn
    txOut := (smallTx 1).txOut ++ (smallTx 2).txOut }

/-- Two participants up to the last stage. -/
def toPublishing : List (Choices × Event) :=
  [(.plain, .submitSplitTx 1 (smallTx 1) 0), (.plain, .submitSplitTx 2 (smallTx 2) 1),
    (.plain, .submitSignedTx 1 pairTx 2), (.plain, .submitSignedTx 2 pairTx 3)]

/-- One has submitted when the other leaves, and waits for nobody; the timer of the last stage
removes nobody of two that have not sent anything. -/
theorem departures_unsettled :
    (∃ m, RunsTo step (fun _ _ => True) (newJoinSession true [1, 2]) m ∧ m.Deadlocked) ∧
      ∃ m m', RunsTo step (fun _ _ => True) (newJoinSession true [1, 2]) m ∧ m.progress = .publishTx ∧
        m.step (.plain, .clientTimeout) = some m' ∧ ¬ m.RemovesMissing m' := by
  constructor
  · refine ⟨_, .of_events [(.plain, .submitSplitTx 1 (smallTx 1) 0), (.plain, .removeSessionID 2)] rfl, ?_, ?_, ?_⟩
    · decide
    · intro sid p hp
      obtain ⟨rfl, rfl⟩ := Prod.mk.inj (List.mem_singleton.mp (GoMap.mem_toList.mpr hp))
      rfl
    · exact fun _ _ _ _ _ => List.not_mem_nil
  · refine ⟨_, _, .of_events toPublishing rfl, rfl, rfl, fun hmissing => ?_⟩
    exact (hmissing 1 _ rfl).mpr rfl (by decide)

end JoinSession

end Dcrtxmatcher.Matcher
