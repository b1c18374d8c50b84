import Dcrtxmatcher.Matcher.Merging

/-! What becomes of a signed transaction that is not the merged one.

`mergeSignedInput` notes the submission before it looks at it, and all it looks for is a
nil entry at one of the submitter's places. -/
namespace Dcrtxmatcher.Matcher
open Lib
open Coinjoin (TxIn TxOut OutPoint)

namespace JoinSession
variable {α : Type} {ch : Choices} {m m' : JoinSession}

/-! ### Where the loops stop -/

/-- The loop of `mergeOwn` gets past the index `i`, with `n` entries to write to. -/
def fits (own : List (Option α)) (n i : ℕ) : Bool :=
  match own[i]? with
  | some (some _) => i < n
  | _ => false

/-- The first index that the loop does not get past. -/
def stop (own : List (Option α)) (n : ℕ) (indes : List ℕ) : Option ℕ := indes.find? fun i => !fits own n i

/-- It stops at a nil. -/
def StopsAtNil (own : List (Option α)) (n : ℕ) (indes : List ℕ) : Prop :=
  ∃ i, stop own n indes = some i ∧ own[i]? = some none

/-- It stops at an index out of range. -/
def StopsOutside (own : List (Option α)) (n : ℕ) (indes : List ℕ) : Prop :=
  ∃ i, stop own n indes = some i ∧ own[i]? ≠ some none

/-- The three ways out of the loop. -/
theorem mergeOwn_cases (own : List (Option α)) (indes : List ℕ) (signed : List (Option α)) :
    (stop own signed.length indes = none ∧ ∃ signed', mergeOwn own indes signed = .ok (true, signed')) ∨
      (StopsAtNil own signed.length indes ∧ ∃ signed', mergeOwn own indes signed = .ok (false, signed')) ∨
        StopsOutside own signed.length indes ∧ mergeOwn own indes signed = .error .panic := by
  induction indes generalizing signed with
  | nil => exact .inl ⟨rfl, signed, rfl⟩
  | cons i rest ih =>
    rcases hentry : own[i]? with _ | _ | a
    · refine .inr (.inr ⟨⟨i, by simp [stop, fits, hentry], by simp [hentry]⟩, ?_⟩)
      rw [mergeOwn, hentry]
    · refine .inr (.inl ⟨⟨i, by simp [stop, fits, hentry], hentry⟩, signed, ?_⟩)
      rw [mergeOwn, hentry]
    · by_cases hi : i < signed.length
      · have hstop : stop own signed.length (i :: rest) = stop own signed.length rest := by simp [stop, fits, hentry, hi]
        have hmerge : mergeOwn own (i :: rest) signed = mergeOwn own rest (signed.set i (some a)) := by
          rw [mergeOwn, hentry]
          exact if_pos hi
        have hrest := ih (signed.set i (some a))
        rw [List.length_set] at hrest
        rw [StopsAtNil, StopsOutside, hstop, hmerge]
        exact hrest
      · refine .inr (.inr ⟨⟨i, by simp [stop, fits, hentry, hi], by simp [hentry]⟩, ?_⟩)
        rw [mergeOwn, hentry]
        exact if_neg hi

theorem StopsAtNil.not_outside {own : List (Option α)} {n : ℕ} {indes : List ℕ} (h : StopsAtNil own n indes) :
    ¬ StopsOutside own n indes := by
  intro ⟨i, hstop, hentry⟩
  obtain ⟨i', hstop', hnil⟩ := h
  rw [hstop', Option.some.injEq] at hstop
  exact hentry (hstop ▸ hnil)

theorem StopsAtNil.stop_ne {own : List (Option α)} {n : ℕ} {indes : List ℕ} (h : StopsAtNil own n indes) :
    stop own n indes ≠ none := by
  obtain ⟨i, hstop, -⟩ := h
  rw [hstop]
  exact Option.some_ne_none i

theorem StopsOutside.stop_ne {own : List (Option α)} {n : ℕ} {indes : List ℕ} (h : StopsOutside own n indes) :
    stop own n indes ≠ none := by
  obtain ⟨i, hstop, -⟩ := h
  rw [hstop]
  exact Option.some_ne_none i

section Outcome
variable {own : List (Option α)} {indes : List ℕ} {signed : List (Option α)}

theorem mergeOwn_true : (∃ signed', mergeOwn own indes signed = .ok (true, signed')) ↔ stop own signed.length indes = none := by
  rcases mergeOwn_cases own indes signed with ⟨hstop, hok⟩ | ⟨hnil, _, hok⟩ | ⟨hout, herr⟩
  · simp [hstop, hok]
  · simp [hnil.stop_ne, hok]
  · simp [hout.stop_ne, herr]

theorem mergeOwn_false : (∃ signed', mergeOwn own indes signed = .ok (false, signed')) ↔ StopsAtNil own signed.length indes := by
  rcases mergeOwn_cases own indes signed with ⟨hstop, _, hok⟩ | ⟨hnil, hok⟩ | ⟨hout, herr⟩
  · have hnot : ¬ StopsAtNil own signed.length indes := fun hnil => hnil.stop_ne hstop
    simp [hnot, hok]
  · simp [hnil, hok]
  · have hnot : ¬ StopsAtNil own signed.length indes := fun hnil => hnil.not_outside hout
    simp [hnot, herr]

theorem mergeOwn_panic : mergeOwn own indes signed = .error .panic ↔ StopsOutside own signed.length indes := by
  rcases mergeOwn_cases own indes signed with ⟨hstop, _, hok⟩ | ⟨hnil, _, hok⟩ | ⟨hout, herr⟩
  · have hnot : ¬ StopsOutside own signed.length indes := fun hout => hout.stop_ne hstop
    simp [hnot, hok]
  · simp [hnil.not_outside, hok]
  · simp [hout, herr]

end Outcome

theorem signedBase_eq_ok {tx base : MsgTx} {signedTx : Option MsgTx} :
    signedBase tx signedTx = .ok base ↔ (signedTx = none → tx.Whole) ∧ base = signedTx.getD tx := by
  cases signedTx with
  | none =>
    rw [signedBase, MsgTx.copy]
    by_cases hnil : none ∈ tx.txIn ∨ none ∈ tx.txOut
    · have hnot : ¬ tx.Whole := fun hwhole => hnil.elim hwhole.1 hwhole.2
      simp [hnil, hnot]
    · have hwhole : tx.Whole := not_or.mp hnil
      simp [hnil, hwhole, eq_comm]
  | some signedTx => simp [signedBase, eq_comm]

/-- `sendSigned` sends and nothing else. -/
theorem sendSigned_ne_panic (randIndex : ℕ) (signedTx : MsgTx) (i : ℕ) (l : List (ℕ × SessionParticipant)) (m : JoinSession) :
    sendSigned randIndex signedTx i l m ≠ .error .panic := by
  induction l generalizing i m with
  | nil => exact fun h => by cases h
  | cons e rest ih =>
    obtain ⟨sid, p⟩ := e
    rw [sendSigned]
    intro h
    rcases bind_eq_error.mp h with hsend | ⟨m₁, -, hrest⟩
    · exact send_ne_panic _ _ _ hsend
    · exact ih _ _ hrest

/-! ### What becomes of a submission -/

section Submission
variable {sid : ℕ} {tx : MsgTx} {resp : ℕ} {p : SessionParticipant}

/-- The transaction is the merged one but for signature scripts. -/
def Agrees (m : JoinSession) (p : SessionParticipant) (tx : MsgTx) : Prop :=
  ∃ merged, m.mergedSplitTx = some merged ∧ tx.txIn.length = merged.txIn.length ∧ tx.txOut.length = merged.txOut.length ∧
    (∀ i ∈ p.inputIndes, ∃ own ours : TxIn, tx.txIn[i]? = some (some own) ∧ merged.txIn[i]? = some (some ours) ∧
      own.previousOutPoint = ours.previousOutPoint) ∧
    ∀ j ∈ p.outputIndes, ∃ own ours : TxOut, tx.txOut[j]? = some (some own) ∧ merged.txOut[j]? = some (some ours) ∧
      own.value = ours.value ∧ own.pkScript = ours.pkScript

/-- The request is answered with an error. -/
def Answered (ch : Choices) (sid : ℕ) (tx : MsgTx) (resp : ℕ) (m : JoinSession) : Prop :=
  ∃ err m', m.mergeSignedInput ch sid tx resp = .ok (some err, m')

/-- It is answered with an error and leaves the participant's record and the transaction as they were. -/
def Rejected (ch : Choices) (sid : ℕ) (tx : MsgTx) (resp : ℕ) (m : JoinSession) : Prop :=
  ∃ err m', m.mergeSignedInput ch sid tx resp = .ok (some err, m') ∧
    m'.participants.lookup sid = m.participants.lookup sid ∧ m'.signedTx = m.signedTx

/-- A bad transaction is rejected. -/
def RejectsBad (ch : Choices) (sid : ℕ) (tx : MsgTx) (resp : ℕ) (m : JoinSession) : Prop :=
  ∀ p, m.participants.lookup sid = some p → ¬ m.Agrees p tx → m.Rejected ch sid tx resp

/-- An error leaves the submission noted. -/
theorem not_rejected (hp : m.participants.lookup sid = some p) (hfresh : p.chanSubmitSignedTxRes ≠ some resp) :
    ¬ m.Rejected ch sid tx resp := by
  intro ⟨err, m', hmerge, hsame, _⟩
  have hnoted : (m.withSignedTx sid tx resp).participants.lookup sid =
      some { p with signedTx := some tx, chanSubmitSignedTxRes := some resp } := by
    rw [lookup_withSignedTx, hp, Option.map_some, if_pos rfl]
  have hrecord : m'.participants.lookup sid = (m.withSignedTx sid tx resp).participants.lookup sid := by
    cases mergeSignedInput_eq_ok.mp hmerge with
    | unknown hnone =>
      rw [hp] at hnone
      cases hnone
    | nilInput => rfl
    | nilOutput => rfl
  rw [hrecord, hnoted, hp, Option.some.injEq] at hsame
  exact hfresh (congrArg SessionParticipant.chanSubmitSignedTxRes hsame).symm

theorem answered_iff (hp : m.participants.lookup sid = some p) :
    m.Answered ch sid tx resp ↔ (m.signedTx = none → tx.Whole) ∧
      (StopsAtNil tx.txIn (m.signedTx.getD tx).txIn.length p.inputIndes ∨
        stop tx.txIn (m.signedTx.getD tx).txIn.length p.inputIndes = none ∧
          StopsAtNil tx.txOut (m.signedTx.getD tx).txOut.length p.outputIndes) := by
  constructor
  · intro ⟨err, m', hmerge⟩
    cases mergeSignedInput_eq_ok.mp hmerge with
    | unknown hnone =>
      rw [hp] at hnone
      cases hnone
    | nilInput hp' hbase hin =>
      rw [hp] at hp'
      cases hp'
      obtain ⟨hwhole, rfl⟩ := signedBase_eq_ok.mp hbase
      exact ⟨hwhole, .inl (mergeOwn_false.mp ⟨_, hin⟩)⟩
    | nilOutput hp' hbase hin hout =>
      rw [hp] at hp'
      cases hp'
      obtain ⟨hwhole, rfl⟩ := signedBase_eq_ok.mp hbase
      exact ⟨hwhole, .inr ⟨mergeOwn_true.mp ⟨_, hin⟩, mergeOwn_false.mp ⟨_, hout⟩⟩⟩
  · intro ⟨hwhole, hstops⟩
    have hbase := signedBase_eq_ok.mpr ⟨hwhole, rfl⟩
    rcases hstops with hin | ⟨hin, hout⟩
    · obtain ⟨txIn, hin⟩ := mergeOwn_false.mpr hin
      exact ⟨_, _, mergeSignedInput_eq_ok.mpr (.nilInput hp hbase hin)⟩
    · obtain ⟨txIn, hin⟩ := mergeOwn_true.mpr hin
      obtain ⟨txOut, hout⟩ := mergeOwn_false.mpr hout
      exact ⟨_, _, mergeSignedInput_eq_ok.mpr (.nilOutput hp hbase hin hout)⟩

theorem panics_iff (hp : m.participants.lookup sid = some p) :
    m.mergeSignedInput ch sid tx resp = .error .panic ↔ ¬ (m.signedTx = none → tx.Whole) ∨
      StopsOutside tx.txIn (m.signedTx.getD tx).txIn.length p.inputIndes ∨
        stop tx.txIn (m.signedTx.getD tx).txIn.length p.inputIndes = none ∧
          StopsOutside tx.txOut (m.signedTx.getD tx).txOut.length p.outputIndes := by
  rw [mergeSignedInput, hp]
  show (signedBase tx m.signedTx >>= _) = _ ↔ _
  by_cases hwhole : m.signedTx = none → tx.Whole
  · rw [signedBase_eq_ok.mpr ⟨hwhole, rfl⟩, ok_bind]
    rcases mergeOwn_cases tx.txIn p.inputIndes (m.signedTx.getD tx).txIn with ⟨hstop, _, hin⟩ | ⟨hnil, _, hin⟩ | ⟨hout, hin⟩
    · have hnot : ¬ StopsOutside tx.txIn (m.signedTx.getD tx).txIn.length p.inputIndes := fun hout => hout.stop_ne hstop
      have hpanics : mergeOwn tx.txOut p.outputIndes (m.signedTx.getD tx).txOut = .error .panic ↔
          StopsOutside tx.txOut (m.signedTx.getD tx).txOut.length p.outputIndes := mergeOwn_panic
      rw [hin, ← hpanics]
      show (mergeOwn tx.txOut p.outputIndes (m.signedTx.getD tx).txOut >>= _) = _ ↔ _
      rw [bind_eq_error]
      constructor
      · intro h
        rcases h with houts | ⟨⟨outputs, txOut⟩, -, hrest⟩
        · exact .inr (.inr ⟨hstop, houts⟩)
        · cases outputs with
          | false => cases hrest
          | true =>
            simp only [Bool.not_true, Bool.false_eq_true, if_false] at hrest
            split_ifs at hrest
            rcases bind_eq_error.mp hrest with hsend | ⟨_, -, hdone⟩
            · exact absurd hsend (sendSigned_ne_panic _ _ _ _ _)
            · cases hdone
      · intro h
        rcases h with hnil | hins | ⟨-, houts⟩
        · exact absurd hwhole hnil
        · exact absurd hins hnot
        · exact .inl houts
    · rw [hin]
      simpa [hnil.not_outside, hnil.stop_ne] using hwhole
    · rw [hin]
      simp [hout]
  · have hpanic : signedBase tx m.signedTx = .error .panic := by
      obtain ⟨hnone, hnil⟩ := Classical.not_imp.mp hwhole
      rw [hnone, signedBase, MsgTx.copy, if_pos (by simpa [MsgTx.Whole, -not_and, not_and_or] using hnil)]
    simp [hwhole, hpanic]

/-- `Run` stops where `mergeSignedInput` does; answering does not panic. -/
theorem handle_panics (hstage : m.progress = .signedTx) :
    m.handle ch (.submitSignedTx sid tx resp) = .error .panic ↔ m.mergeSignedInput ch sid tx resp = .error .panic := by
  show inStage .signedTx resp _ m = _ ↔ _
  rw [inStage, if_neg (not_not.mpr hstage), bind_eq_error]
  refine or_iff_left fun hanswered => ?_
  obtain ⟨⟨err, m₁⟩, -, hanswer⟩ := hanswered
  cases err with
  | none => cases hanswer
  | some err => exact send_ne_panic (some resp) (.err err) m₁ hanswer

/-- **A bad signed transaction is never rejected without effect.** What is said of it is
kept only where nothing is said: for a transaction that agrees. An error is the answer
to a nil that comes before any place that is not there, and nothing else. -/
theorem bad_signed_submission (hstage : m.progress = .signedTx) (hp : m.participants.lookup sid = some p)
    (hfresh : p.chanSubmitSignedTxRes ≠ some resp) :
    (m.RejectsBad ch sid tx resp ↔ m.Agrees p tx) ∧
      (m.Answered ch sid tx resp ↔ (m.signedTx = none → tx.Whole) ∧
        (StopsAtNil tx.txIn (m.signedTx.getD tx).txIn.length p.inputIndes ∨
          stop tx.txIn (m.signedTx.getD tx).txIn.length p.inputIndes = none ∧
            StopsAtNil tx.txOut (m.signedTx.getD tx).txOut.length p.outputIndes)) ∧
      (m.handle ch (.submitSignedTx sid tx resp) = .error .panic ↔ ¬ (m.signedTx = none → tx.Whole) ∨
        StopsOutside tx.txIn (m.signedTx.getD tx).txIn.length p.inputIndes ∨
          stop tx.txIn (m.signedTx.getD tx).txIn.length p.inputIndes = none ∧
            StopsOutside tx.txOut (m.signedTx.getD tx).txOut.length p.outputIndes) := by
  refine ⟨⟨fun hrejects => ?_, fun hagrees p' hp' hbad => ?_⟩, answered_iff hp, ?_⟩
  · by_contra hbad
    exact not_rejected hp hfresh (hrejects p hp hbad)
  · rw [hp] at hp'
    cases hp'
    exact absurd hagrees hbad
  · exact (handle_panics hstage).trans (panics_iff hp)

end Submission

/-- The first participant as it signs. -/
def firstSigning : SessionParticipant := submitted 1 (smallTx 1) [0] [0]

theorem bad_signed_submission_first :
    (twoSigning.RejectsBad .plain 1 (signedBySid 1) 0 ↔ twoSigning.Agrees firstSigning (signedBySid 1)) :=
  (bad_signed_submission (p := firstSigning) rfl rfl (by decide)).1

/-- Outpoints of somebody else are merged, and a transaction without inputs ends the process. -/
theorem foreign_tx_merged : ¬ twoSigning.RejectsBad .plain 1 (signedBySid 9) 0 ∧
    (∃ m', twoSigning.mergeSignedInput .plain 1 (signedBySid 9) 0 = .ok (none, m') ∧ m'.signedTx = some (signedBySid 9)) ∧
    ¬ twoSigning.RejectsBad .plain 1 { signedBySid 9 with txIn := [] } 0 ∧
    twoSigning.handle .plain (.submitSignedTx 1 { signedBySid 9 with txIn := [] } 0) = .error .panic := by
  have htaken : ∃ m', twoSigning.mergeSignedInput .plain 1 (signedBySid 9) 0 = .ok (none, m') ∧
      m'.signedTx = some (signedBySid 9) := ⟨_, rfl, rfl⟩
  have hpanic : twoSigning.mergeSignedInput .plain 1 { signedBySid 9 with txIn := [] } 0 = .error .panic := rfl
  refine ⟨fun hrejects => ?_, htaken, fun hrejects => ?_, rfl⟩
  · obtain ⟨_, _, hmerge, -, -⟩ := hrejects firstSigning rfl (by
      intro ⟨_, hmerged, _, _, hin, _⟩
      cases hmerged
      obtain ⟨_, _, hown, hours, hsame⟩ := hin 0 (by decide)
      cases hown
      cases hours
      exact absurd hsame (by decide))
    obtain ⟨m', htaken, -⟩ := htaken
    rw [htaken] at hmerge
    cases hmerge
  · obtain ⟨_, _, hmerge, -, -⟩ := hrejects firstSigning rfl (by
      intro ⟨_, hmerged, hlen, _⟩
      cases hmerged
      exact absurd hlen (by decide))
    rw [hpanic] at hmerge
    cases hmerge

end JoinSession

end Dcrtxmatcher.Matcher
