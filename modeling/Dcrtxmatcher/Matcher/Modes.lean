import Dcrtxmatcher.Matcher.Shuffling
import Dcrtxmatcher.Matcher.Stages

/-! The two branches of `SendTxData`.

The random one rearranges the transaction and moves the session on. The plain one
sends the transaction as it is; what it leaves is the same up to the order of inputs
and outputs, but for the stage, in which the session stays. -/
namespace Dcrtxmatcher.Matcher
open Lib
open Coinjoin (TxIn TxOut OutPoint)

namespace JoinSession
variable {α : Type} {ch : Choices} {m m' : JoinSession}

/-! ### Moving on -/

/-- The session collects signed transactions, and from here on takes one from everybody
that has not sent one, and no further split transaction. -/
def Advances (m : JoinSession) : Prop :=
  m.progress = .signedTx ∧ ∀ m', RunsTo step (fun _ _ => True) m m' →
    (∀ sid p, m'.participants.lookup sid = some p → p.signedTx = none → ∀ ch tx resp,
      handle ch m' (.submitSignedTx sid tx resp) = m'.mergeSignedInput ch sid tx resp >>= answer resp) ∧
    ∀ ch sid splitTx resp, handle ch m' (.submitSplitTx sid splitTx resp) = m'.send (some resp) (.err .invalidRequest)

/-- The first stage does not come back. -/
theorem progress_step {ev : Choices × Event} (h : m.progress ≠ .rawTx) (hstep : m.step ev = some m') :
    m'.progress ≠ .rawTx := by
  obtain ⟨ch, ev⟩ := ev
  cases turned_of_step hstep with
  | fired => exact h
  | left => exact h
  | refused => exact h
  | merging hstage => exact absurd hstage h
  | merged hstage => exact absurd hstage h
  | invalid hstage hp hsigning =>
    obtain ⟨-, -, ⟨hsame, -⟩ | ⟨hlast, -⟩⟩ := hsigning.rest hp
    · exact hsame.trans_ne h
    · exact hlast.trans_ne (by decide)
  | signed hstage hp hsigning =>
    obtain ⟨-, -, ⟨hsame, -⟩ | ⟨hlast, -⟩⟩ := hsigning.rest hp
    · exact hsame.trans_ne h
    · exact hlast.trans_ne (by decide)
  | publishing => exact h
  | published _ _ _ hsend =>
    obtain ⟨-, -, hsent⟩ := sendAll_of_ok hsend
    rw [hsent]
    exact h

theorem Staged.advances (h : m.Staged) (hstage : m.progress = .signedTx) : m.Advances := by
  refine ⟨hstage, fun m' hrun => ?_⟩
  have hm' : m'.Staged := hrun.invariant h fun _ _ _ hs _ hstep => staged_step hs hstep
  have hraw : m'.progress ≠ .rawTx :=
    hrun.invariant (hstage.trans_ne (by decide)) fun _ _ _ hs _ hstep => progress_step hs hstep
  constructor
  · intro sid p hp hunsigned ch tx resp
    have hsigning : m'.progress = .signedTx := by
      cases hprogress : m'.progress with
      | rawTx => exact absurd hprogress hraw
      | signedTx => rfl
      | publishTx =>
        have := hm'.signed hprogress sid p hp
        rw [hunsigned] at this
        cases this
    show inStage .signedTx resp _ m' = _
    rw [inStage, if_neg (not_not.mpr hsigning)]
  · intro ch sid splitTx resp
    show inStage .rawTx resp _ m' = _
    rw [inStage, if_pos hraw]

/-! ### The same up to the order -/

/-- `σ` rearranges the entries of `old` into those of `new`, and the participants' indices with them. -/
structure Along (σ : ℕ → ℕ) (side : Side α) (m m' : JoinSession) (old new : MsgTx) : Prop where
  length : (side.entries new).length = (side.entries old).length
  bound : ∀ i < (side.entries old).length, σ i < (side.entries old).length
  inj : ∀ i < (side.entries old).length, ∀ j < (side.entries old).length, σ i = σ j → i = j
  places : ∀ sid, m'.places side sid = (m.places side sid).map σ
  entries : ∀ i < (side.entries old).length, (side.entries new)[σ i]? = (side.entries old)[i]?

theorem Moved.along {perm : List ℕ} {side : Side α} {old new : MsgTx} (h : Moved perm side m m' old new)
    (hparts : Partition (m.places side) (side.entries old).length) :
    Along (fun i => perm.getD i i) side m m' old new := by
  have hlen : perm.length = (side.entries old).length := by rw [h.range.length_eq, List.length_range]
  have hget : ∀ i < (side.entries old).length, perm[i]? = some (perm.getD i i) := by
    intro i hi
    rw [List.getD_eq_getElem?_getD, List.getElem?_eq_getElem (hlen ▸ hi), Option.getD_some]
  refine ⟨h.length, fun i hi => ?_, fun i hi j hj heq => ?_, fun sid => ?_, fun i hi => h.entries i _ (hget i hi)⟩
  · exact List.mem_range.mp (h.range.mem_iff.mp (List.mem_of_getElem? (hget i hi)))
  · have hi' := hget i hi
    have hj' := hget j hj
    rw [heq, ← hj'] at hi'
    exact (List.getElem?_inj (hlen ▸ hi) (h.range.nodup_iff.mpr List.nodup_range)).mp hi'
  · have hplaces := h.places sid
    refine List.map_injective_iff.mpr (Option.some_injective ℕ) ?_
    rw [hplaces, List.map_map]
    exact List.map_congr_left fun i hi => hget i (hparts.bound sid i hi)

/-- Both sessions sent everybody its merged transaction, after the same replies. -/
def SentMerged (old : List (ℕ × Response)) (m : JoinSession) (merged : MsgTx) : Prop :=
  ∃ new : List (ℕ × Response), m.replies = old ++ new ∧
    (new.map fun e => (some e.1, e.2)).Perm ((GoMap.toList m.participants).map fun e =>
      (e.2.chanSubmitSplitTxRes, .submitSplitTxRes merged e.2.inputIndes e.2.outputIndes))

/-- The session `m'` is `m` with inputs and outputs in another order, and perhaps in another stage. -/
structure Reordered (m m' : JoinSession) : Prop where
  merged : ∃ merged merged', m.mergedSplitTx = some merged ∧ m'.mergedSplitTx = some merged' ∧
    merged' = { merged with txIn := merged'.txIn, txOut := merged'.txOut } ∧
    (∃ σ, Along σ inputs m m' merged merged') ∧ (∃ σ, Along σ outputs m m' merged merged') ∧
    ∃ old, SentMerged old m merged ∧ SentMerged old m' merged'
  participants : ∀ sid, m'.participants.lookup sid = (m.participants.lookup sid).map fun p =>
    { p with inputIndes := m'.places inputs sid, outputIndes := m'.places outputs sid }
  rest : m'.signedTx = m.signedTx ∧ m'.publishedTx = m.publishedTx ∧ m'.clientTimeout = m.clientTimeout ∧
    m'.finished = m.finished

theorem Along.congr {σ : ℕ → ℕ} {side : Side α} {old new : MsgTx} (h : Along σ side m m' old new) {m₁ m₁' : JoinSession}
    (hold : m₁.participants = m.participants) (hnew : m₁'.participants = m'.participants) : Along σ side m₁ m₁' old new := by
  have hplaces : ∀ {a b : JoinSession}, a.participants = b.participants → ∀ sid, a.places side sid = b.places side sid := by
    intro a b heq sid
    unfold JoinSession.places
    rw [heq]
  exact ⟨h.length, h.bound, h.inj, fun sid => by rw [hplaces hold, hplaces hnew, h.places], h.entries⟩

theorem Along.refl (side : Side α) (m : JoinSession) (merged : MsgTx) : Along id side m m merged merged :=
  ⟨rfl, fun _ hi => hi, fun _ _ _ _ heq => heq, fun _ => (List.map_id _).symm, fun _ _ => rfl⟩

/-- What the plain branch leaves. -/
theorem plain_of_ok {merged : MsgTx} (hplain : ¬ (m.randomIndex = true ∧ 1 < GoMap.len m.participants))
    (h : m.sendTxData ch merged = .ok m') :
    SentMerged m.replies m' merged ∧ m' = { m with replies := m'.replies, clientTimeout := true } := by
  obtain ⟨m₁, hsend, rfl⟩ := (sendTxData_plain hplain).mp h
  obtain ⟨-, ⟨new, hreplies, hnew⟩, hsent⟩ := sendAll_of_ok hsend
  have hparticipants : m₁.participants = m.participants := by rw [hsent]
  refine ⟨⟨new, hreplies, ?_⟩, ?_⟩
  · show (new.map _).Perm ((GoMap.toList m₁.participants).map _)
    rw [hparticipants]
    exact hnew
  · rw [hsent]

/-- Both branches with one participant at most: the same session twice. -/
theorem reordered_of_few {ch' : Choices} {merged : MsgTx} {mp mr : JoinSession} (hmerged : m.mergedSplitTx = some merged)
    (hfew : GoMap.len m.participants ≤ 1) (hp : { m with randomIndex := false }.sendTxData ch merged = .ok mp)
    (hr : { m with randomIndex := true }.sendTxData ch' merged = .ok mr) : Reordered mp mr ∧ mr.progress = mp.progress := by
  obtain ⟨hsentp, heqp⟩ := plain_of_ok (m := { m with randomIndex := false }) (fun h => by cases h.1) hp
  obtain ⟨hsentr, heqr⟩ := plain_of_ok (m := { m with randomIndex := true }) (fun h => absurd h.2 (Nat.not_lt.mpr hfew)) hr
  have hparticipantsp : mp.participants = m.participants := by rw [heqp]
  have hparticipantsr : mr.participants = m.participants := by rw [heqr]
  refine ⟨⟨⟨merged, merged, by rw [heqp]; exact hmerged, by rw [heqr]; exact hmerged, rfl,
    ⟨id, (Along.refl inputs m merged).congr hparticipantsp hparticipantsr⟩,
    ⟨id, (Along.refl outputs m merged).congr hparticipantsp hparticipantsr⟩, m.replies, hsentp, hsentr⟩, fun sid => ?_, ?_⟩, ?_⟩
  · unfold places
    rw [hparticipantsp, hparticipantsr]
    cases m.participants.lookup sid <;> rfl
  · rw [heqp, heqr]
    exact ⟨rfl, rfl, rfl, rfl⟩
  · rw [heqp, heqr]

/-- Both branches with more participants: the random one rearranges, and moves on. -/
theorem reordered_of_many {ch' : Choices} {merged : MsgTx} {mp mr : JoinSession} (hmerged : m.mergedSplitTx = some merged)
    (hmany : 1 < GoMap.len m.participants) (hin : Partition (m.places inputs) merged.txIn.length)
    (hout : Partition (m.places outputs) merged.txOut.length)
    (hp : { m with randomIndex := false }.sendTxData ch merged = .ok mp)
    (hr : { m with randomIndex := true }.sendTxData ch' merged = .ok mr) : Reordered mp mr := by
  obtain ⟨hsentp, heqp⟩ := plain_of_ok (m := { m with randomIndex := false }) (fun h => by cases h.1) hp
  obtain ⟨m₁, merged', hshuffle, hiff⟩ := sendTxData_shuffle ch' (m := { m with randomIndex := true }) ⟨rfl, hmany⟩ hin hout
  obtain ⟨m₂, hsend, heqr⟩ := (hiff mr).mp hr
  obtain ⟨-, -, hsent⟩ := sendAll_of_ok hsend
  have hredistributed := hshuffle.redistributed hin hout hsend heqr
  have hparticipantsp : mp.participants = m.participants := by rw [heqp]
  have hparticipantsr : mr.participants = m₁.participants := by rw [heqr, hsent]
  refine ⟨⟨merged, merged', by rw [heqp]; exact hmerged, hredistributed.stored, hshuffle.header,
    ⟨_, (hshuffle.inputs.along hin).congr hparticipantsp hparticipantsr⟩,
    ⟨_, (hshuffle.outputs.along hout).congr hparticipantsp hparticipantsr⟩, m.replies, hsentp, hredistributed.told⟩,
    fun sid => ?_, ?_⟩
  · unfold places
    rw [hparticipantsp, hparticipantsr]
    exact hshuffle.lookup sid
  · rw [heqp, heqr, hsent, hshuffle.session]
    exact ⟨rfl, rfl, rfl, rfl⟩

/-! ### The last submission -/

/-- All others have submitted a split transaction. -/
def LastToSubmit (sid : ℕ) (m : JoinSession) : Prop :=
  m.progress = .rawTx ∧ sid ∈ m.participants.keys ∧
    ∀ sid' p, m.participants.lookup sid' = some p → sid' ≠ sid → p.splitTx.isSome = true

theorem LastToSubmit.sent {sid : ℕ} {splitTx : MsgTx} {resp : ℕ} (h : m.LastToSubmit sid)
    (hstep : m.step (ch, .submitSplitTx sid splitTx resp) = some m') : ∃ merged inputIndes outputIndes,
      mergeSplitTx splitTx m.mergedSplitTx = .ok (merged, inputIndes, outputIndes) ∧
        (m.withSplitTx sid splitTx resp merged inputIndes outputIndes).sendTxData ch merged = .ok m' := by
  obtain ⟨hstage, hmem, hothers⟩ := h
  cases turned_of_step hstep with
  | refused _ hnot => exact absurd ⟨hstage, hmem⟩ hnot
  | @merging _ _ merged _ inputIndes outputIndes _ _ hmerge hopen =>
    -- everybody has submitted now
    obtain ⟨e, he, hnone⟩ := List.all_eq_false.mp hopen
    have hp := GoMap.mem_toList.mp he
    rw [participants_withSplitTx] at hp
    by_cases hsid : e.1 = sid
    · rw [hsid, GoMap.lookup_modify_self, Option.map_eq_some_iff] at hp
      obtain ⟨q, -, heq⟩ := hp
      rw [← heq] at hnone
      exact absurd rfl hnone
    · rw [GoMap.lookup_modify_ne hsid] at hp
      exact absurd (hothers e.1 e.2 hp hsid) hnone
  | merged _ _ hmerge _ hsend => exact ⟨_, _, _, hmerge, hsend⟩

/-- Everybody listens with the submission taken over, and in the random branch the merged
transaction is the participants'. -/
def Deliverable (sid : ℕ) (splitTx : MsgTx) (resp : ℕ) (m : JoinSession) : Prop :=
  ∃ merged inputIndes outputIndes, mergeSplitTx splitTx m.mergedSplitTx = .ok (merged, inputIndes, outputIndes) ∧
    (m.withSplitTx sid splitTx resp merged inputIndes outputIndes).Listening SessionParticipant.chanSubmitSplitTxRes ∧
    (m.randomIndex = true ∧ 1 < GoMap.len m.participants →
      Partition ((m.withSplitTx sid splitTx resp merged inputIndes outputIndes).places inputs) merged.txIn.length ∧
      Partition ((m.withSplitTx sid splitTx resp merged inputIndes outputIndes).places outputs) merged.txOut.length)

/-- The last submission goes through. -/
theorem LastToSubmit.exists_step {sid : ℕ} {splitTx : MsgTx} {resp : ℕ} (h : m.LastToSubmit sid)
    (hdeliverable : m.Deliverable sid splitTx resp) (ch : Choices) : ∃ m', m.step (ch, .submitSplitTx sid splitTx resp) = some m' := by
  obtain ⟨hstage, hmem, hothers⟩ := h
  obtain ⟨merged, inputIndes, outputIndes, hmerge, hlistening, hparts⟩ := hdeliverable
  have hlen : GoMap.len (m.withSplitTx sid splitTx resp merged inputIndes outputIndes).participants = GoMap.len m.participants :=
    GoMap.len_mapVal ..
  have hall : (m.withSplitTx sid splitTx resp merged inputIndes outputIndes).checkTxSubmitted = true := by
    refine List.all_eq_true.mpr fun e he => ?_
    have hp := GoMap.mem_toList.mp he
    rw [participants_withSplitTx] at hp
    by_cases hsid : e.1 = sid
    · rw [hsid, GoMap.lookup_modify_self, Option.map_eq_some_iff] at hp
      obtain ⟨q, -, heq⟩ := hp
      rw [← heq]
      rfl
    · rw [GoMap.lookup_modify_ne hsid] at hp
      exact hothers e.1 e.2 hp hsid
  obtain ⟨m', hsend⟩ := exists_sendTxData ch hlistening fun hrandom => hparts ⟨hrandom.1, hlen ▸ hrandom.2⟩
  have hadd : m.addParticipantInput ch sid splitTx resp = .ok (none, m') :=
    addParticipantInput_eq_ok.mpr (.inr ⟨hmem, rfl, merged, inputIndes, outputIndes, hmerge, by rw [if_pos hall]; exact hsend⟩)
  refine ⟨m', ?_⟩
  show (inStage .rawTx resp _ m).toOption = _
  rw [inStage, if_neg (not_not.mpr hstage), hadd]
  rfl

/-- **Which mode moves on.** After the last outstanding split transaction, which goes
through when everybody listens, the session collects signed ones exactly if the random
branch was taken: with `RandomIndex` and two participants at least. The two branches
reach the same state up to the order of inputs and outputs exactly if there is one
participant at most; with more it is the stage alone in which they differ. -/
theorem merge_modes_advance {randomIndex : Bool} {waitingPars : List ℕ} {m : JoinSession} {sid : ℕ} (splitTx : MsgTx) (resp : ℕ)
    (hm : RunsTo step (fun _ _ => True) (newJoinSession randomIndex waitingPars) m) (hlast : m.LastToSubmit sid) :
    (m.Deliverable sid splitTx resp → ∀ ch, ∃ m', m.step (ch, .submitSplitTx sid splitTx resp) = some m') ∧
    (∀ ch m', m.step (ch, .submitSplitTx sid splitTx resp) = some m' →
      (m'.Advances ↔ m.randomIndex = true ∧ 1 < GoMap.len m.participants)) ∧
    ∀ ch ch' mp mr, { m with randomIndex := false }.step (ch, .submitSplitTx sid splitTx resp) = some mp →
      { m with randomIndex := true }.step (ch', .submitSplitTx sid splitTx resp) = some mr →
      (Reordered mp mr ∧ mr.progress = mp.progress ↔ GoMap.len m.participants ≤ 1) ∧
      ((∀ merged, mp.mergedSplitTx = some merged →
        Partition (mp.places inputs) merged.txIn.length ∧ Partition (mp.places outputs) merged.txOut.length) →
          Reordered mp mr) := by
  have hstaged := staged_of_runsTo hm
  have hlen : ∀ merged inputIndes outputIndes,
      GoMap.len (m.withSplitTx sid splitTx resp merged inputIndes outputIndes).participants = GoMap.len m.participants :=
    fun _ _ _ => GoMap.len_mapVal ..
  refine ⟨hlast.exists_step, ?_, ?_⟩
  · intro ch m' hstep
    obtain ⟨merged, inputIndes, outputIndes, -, hsend⟩ := hlast.sent hstep
    obtain ⟨-, -, -, hrest⟩ := sendTxData_rest hsend
    have hprogress : m'.progress =
        if m.randomIndex = true ∧ 1 < GoMap.len m.participants then .signedTx else m.progress := by
      rw [hlen] at hrest
      exact hrest
    constructor
    · intro hadvances
      by_contra hplain
      rw [if_neg hplain] at hprogress
      have hsigning := hadvances.1
      rw [hprogress, hlast.1] at hsigning
      cases hsigning
    · intro hrandom
      rw [if_pos hrandom] at hprogress
      exact (staged_step hstaged hstep).advances hprogress
  · intro ch ch' mp mr hp hr
    obtain ⟨merged, inputIndes, outputIndes, hmerge, hsendp⟩ := LastToSubmit.sent (m := { m with randomIndex := false }) hlast hp
    obtain ⟨merged', inputIndes', outputIndes', hmerge', hsendr⟩ := LastToSubmit.sent (m := { m with randomIndex := true }) hlast hr
    cases hmerge.symm.trans hmerge'
    -- the session that both branches send
    let base := m.withSplitTx sid splitTx resp merged inputIndes outputIndes
    have hbase : GoMap.len base.participants = GoMap.len m.participants := hlen ..
    have hmany : 1 < GoMap.len m.participants → mr.progress ≠ mp.progress := by
      intro hmany
      obtain ⟨-, -, -, hprogressp⟩ := sendTxData_rest hsendp
      obtain ⟨-, -, -, hprogressr⟩ := sendTxData_rest hsendr
      rw [if_neg (fun h => by cases h.1)] at hprogressp
      rw [if_pos ⟨rfl, hbase.symm ▸ hmany⟩] at hprogressr
      rw [hprogressp, hprogressr]
      exact fun heq => by
        have hstage := heq.trans hlast.1
        cases hstage
    refine ⟨⟨fun h => ?_, fun hfew => ?_⟩, fun hparts => ?_⟩
    · by_contra hnot
      exact hmany (Nat.not_le.mp hnot) h.2
    · exact reordered_of_few (m := base) rfl (hbase.trans_le hfew) hsendp hsendr
    · by_cases hfew : GoMap.len m.participants ≤ 1
      · exact (reordered_of_few (m := base) rfl (hbase.trans_le hfew) hsendp hsendr).1
      · obtain ⟨-, heqp⟩ := plain_of_ok (m := { base with randomIndex := false }) (fun h => by cases h.1) hsendp
        obtain ⟨hin, hout⟩ := hparts merged (by rw [heqp]; rfl)
        have hplaces : ∀ {β : Type} (side : Side β), mp.places side = base.places side := by
          intro β side
          funext sid
          unfold places
          rw [heqp]
        rw [hplaces] at hin hout
        exact reordered_of_many (m := base) rfl (hbase.symm ▸ Nat.not_le.mp hfew) hin hout hsendp hsendr

/-- The first of two participants has submitted. -/
def firstSubmitted (randomIndex : Bool) : JoinSession :=
  after step (newJoinSession randomIndex [1, 2]) [(.plain, .submitSplitTx 1 (smallTx 1) 0)]

theorem lastToSubmit_second (randomIndex : Bool) : (firstSubmitted randomIndex).LastToSubmit 2 := by
  have hothers : ∀ e ∈ GoMap.toList (firstSubmitted randomIndex).participants, e.1 ≠ 2 → e.2.splitTx.isSome = true := by
    cases randomIndex <;> decide
  refine ⟨by cases randomIndex <;> rfl, by cases randomIndex <;> decide, fun sid p hp hne => ?_⟩
  exact hothers (sid, p) (GoMap.mem_toList.mpr hp) hne

/-- Both have submitted. -/
def secondSubmitted : JoinSession :=
  (firstSubmitted true).withSplitTx 2 (smallTx 2) 1
    { smallTx 1 with txIn := (smallTx 1).txIn ++ (smallTx 2).txIn, txOut := (smallTx 1).txOut ++ (smallTx 2).txOut } [1] [1]

theorem deliverable_second : (firstSubmitted true).Deliverable 2 (smallTx 2) 1 := by
  have hchans : ∀ e ∈ GoMap.toList secondSubmitted.participants, e.2.chanSubmitSplitTxRes = some (e.1 - 1) := by decide
  have hlistening : secondSubmitted.Listening SessionParticipant.chanSubmitSplitTxRes :=
    ⟨fun sid p hp => ⟨sid - 1, hchans (sid, p) (GoMap.mem_toList.mpr hp), List.not_mem_nil⟩, by decide⟩
  exact ⟨_, [1], [1], rfl, hlistening, fun _ => ⟨partition_of_perm (m := secondSubmitted) (by decide),
    partition_of_perm (m := secondSubmitted) (by decide)⟩⟩

theorem merge_modes_advance_two : ∃ m', (firstSubmitted true).step (.plain, .submitSplitTx 2 (smallTx 2) 1) = some m' ∧
    m'.Advances := by
  have hm : RunsTo step (fun _ _ => True) (newJoinSession true [1, 2]) (firstSubmitted true) :=
    .of_events [(.plain, .submitSplitTx 1 (smallTx 1) 0)] rfl
  obtain ⟨hthrough, hadvances, -⟩ := merge_modes_advance (smallTx 2) 1 hm (lastToSubmit_second true)
  obtain ⟨m', hstep⟩ := hthrough deliverable_second .plain
  exact ⟨m', hstep, (hadvances .plain m' hstep).mpr ⟨rfl, by decide⟩⟩

/-- The default mode: two participants submit, and the signed transaction of the first is refused. -/
theorem plain_mode_stays : ∃ m', (firstSubmitted false).step (.plain, .submitSplitTx 2 (smallTx 2) 1) = some m' ∧
    ¬ m'.Advances ∧ ∃ m'', m'.step (.plain, .submitSignedTx 1 (smallTx 1) 2) = some m'' ∧
      (2, Response.err .invalidRequest) ∈ m''.replies := by
  refine ⟨_, rfl, fun h => ?_, _, rfl, by decide⟩
  cases h.1

end JoinSession

end Dcrtxmatcher.Matcher
