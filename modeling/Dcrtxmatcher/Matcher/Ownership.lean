import Dcrtxmatcher.Lib.Runs
import Dcrtxmatcher.Matcher.Turns

/-! Who owns what in the merged transaction.

The merged transaction only grows, while a resubmission replaces a participant's
indices and a departure drops them. As long as neither happens to a participant
that owns something, the participants' indices share out the merged transaction,
through the random branch of `SendTxData` too. -/
namespace Dcrtxmatcher.Matcher
open Lib
open Coinjoin (TxIn TxOut OutPoint)

/-- Inputs or outputs: a participant's indices and a transaction's entries. -/
structure Side (α : Type) where
  indes : SessionParticipant → List ℕ
  entries : MsgTx → List (Option α)

def inputs : Side TxIn := ⟨SessionParticipant.inputIndes, MsgTx.txIn⟩

def outputs : Side TxOut := ⟨SessionParticipant.outputIndes, MsgTx.txOut⟩

namespace JoinSession
variable {α : Type} {ch : Choices} {m m' : JoinSession}

/-! ### Ownership -/

/-- The indices of the participant with an id. -/
def places (side : Side α) (m : JoinSession) (sid : ℕ) : List ℕ := (m.participants.lookup sid).elim [] side.indes

/-- The entries of its latest split transaction. -/
def piece (side : Side α) (m : JoinSession) (sid : ℕ) : List (Option α) :=
  ((m.participants.lookup sid).bind SessionParticipant.splitTx).elim [] side.entries

def mergedEntries (side : Side α) (m : JoinSession) : List (Option α) := m.mergedSplitTx.elim [] side.entries

/-- The participants' indices are disjoint and cover the merged transaction, and
everybody's own entries stand at its indices in order. -/
def Owned (side : Side α) (m : JoinSession) : Prop :=
  Shares (m.places side) (m.piece side) (m.mergedEntries side)

/-- A merged transaction that was sent: without nil, and every entry belongs to
somebody it was sent to. -/
def Handed (m : JoinSession) (tx : MsgTx) : Prop :=
  tx.Whole ∧
    (∀ i < tx.txIn.length, ∃ c ins outs, (c, Response.submitSplitTxRes tx ins outs) ∈ m.replies ∧ i ∈ ins) ∧
    ∀ i < tx.txOut.length, ∃ c ins outs, (c, Response.submitSplitTxRes tx ins outs) ∈ m.replies ∧ i ∈ outs

/-- The index lists of the participants fit the merged transaction, here and wherever it was sent. -/
structure IndexOwnership (m : JoinSession) : Prop where
  inputs : m.Owned inputs
  outputs : m.Owned outputs
  whole : ∀ tx, m.mergedSplitTx = some tx → tx.Whole
  sent : ∀ c tx ins outs, (c, Response.submitSplitTxRes tx ins outs) ∈ m.replies → m.Handed tx

theorem Handed.mono {tx : MsgTx} (h : m.Handed tx) (hsub : m.replies ⊆ m'.replies) : m'.Handed tx := by
  refine ⟨h.1, ?_, ?_⟩
  · intro i hi
    obtain ⟨c, ins, outs, hmem, hin⟩ := h.2.1 i hi
    exact ⟨c, ins, outs, hsub hmem, hin⟩
  · intro i hi
    obtain ⟨c, ins, outs, hmem, hin⟩ := h.2.2 i hi
    exact ⟨c, ins, outs, hsub hmem, hin⟩

theorem places_of_lookup {side : Side α} {sid : ℕ} {p : SessionParticipant} (h : m.participants.lookup sid = some p) :
    m.places side sid = side.indes p := by
  rw [places, h]
  rfl

theorem piece_of_lookup {side : Side α} {sid : ℕ} {p : SessionParticipant} {tx : MsgTx}
    (h : m.participants.lookup sid = some p) (htx : p.splitTx = some tx) : m.piece side sid = side.entries tx := by
  rw [piece, h, Option.bind_some, htx]
  rfl

theorem Owned.of_eq {side : Side α} (h : m.Owned side) (hplaces : ∀ sid, m'.places side sid = m.places side sid)
    (hpiece : ∀ sid, m'.piece side sid = m.piece side sid)
    (hmerged : m'.mergedEntries side = m.mergedEntries side) : m'.Owned side := by
  unfold Owned
  rw [funext hplaces, funext hpiece, hmerged]
  exact h

/-! ### What the invariant is -/

/-- What ownership rests on: nobody submitted a nil entry. -/
structure Consistent (m : JoinSession) : Prop where
  inputs : m.Owned inputs
  outputs : m.Owned outputs
  submitted : ∀ sid p tx, m.participants.lookup sid = some p → p.splitTx = some tx → tx.Whole
  sent : ∀ c tx ins outs, (c, Response.submitSplitTxRes tx ins outs) ∈ m.replies → m.Handed tx

/-- What is merged was submitted by somebody. -/
theorem notMem_mergedEntries {side : Side α} (h : m.Owned side)
    (hsubmitted : ∀ sid p tx, m.participants.lookup sid = some p → p.splitTx = some tx → none ∉ side.entries tx) :
    none ∉ m.mergedEntries side := by
  intro hmem
  obtain ⟨sid, hpiece⟩ := h.exists_piece hmem
  rw [piece] at hpiece
  rcases hp : m.participants.lookup sid with _ | p
  · rw [hp] at hpiece
    cases hpiece
  · rcases htx : p.splitTx with _ | tx
    · rw [hp, Option.bind_some, htx] at hpiece
      cases hpiece
    · rw [hp, Option.bind_some, htx] at hpiece
      exact hsubmitted sid p tx hp htx hpiece

theorem Consistent.whole (h : m.Consistent) {tx : MsgTx} (htx : m.mergedSplitTx = some tx) : tx.Whole := by
  have hin := notMem_mergedEntries h.inputs fun sid p tx hp ht => (h.submitted sid p tx hp ht).1
  have hout := notMem_mergedEntries h.outputs fun sid p tx hp ht => (h.submitted sid p tx hp ht).2
  rw [mergedEntries, htx] at hin hout
  exact ⟨hin, hout⟩

theorem Consistent.indexOwnership (h : m.Consistent) : m.IndexOwnership where
  inputs := h.inputs
  outputs := h.outputs
  whole _ := h.whole
  sent := h.sent

theorem lookup_newJoinSession {randomIndex : Bool} {waitingPars : List ℕ} {sid : ℕ} {p : SessionParticipant}
    (h : (newJoinSession randomIndex waitingPars).participants.lookup sid = some p) : p = newParticipant sid := by
  obtain ⟨sid', _, heq⟩ := List.mem_map.mp (GoMap.mem_of_lookup_ofList h)
  cases heq
  rfl

/-- At the start nobody owns anything. -/
theorem owned_newJoinSession {side : Side α} (hside : ∀ sid, side.indes (newParticipant sid) = []) (randomIndex : Bool)
    (waitingPars : List ℕ) : (newJoinSession randomIndex waitingPars).Owned side := by
  have hplaces : (newJoinSession randomIndex waitingPars).places side = fun _ => [] := by
    funext sid
    rcases hp : (newJoinSession randomIndex waitingPars).participants.lookup sid with _ | p
    · rw [places, hp]
      rfl
    · rw [places_of_lookup hp, lookup_newJoinSession hp, hside]
  have hpiece : (newJoinSession randomIndex waitingPars).piece side = fun _ => [] := by
    funext sid
    rcases hp : (newJoinSession randomIndex waitingPars).participants.lookup sid with _ | p
    · rw [piece, hp]
      rfl
    · rw [piece, hp, lookup_newJoinSession hp]
      rfl
  unfold Owned
  rw [hplaces, hpiece]
  exact .empty

theorem consistent_newJoinSession (randomIndex : Bool) (waitingPars : List ℕ) :
    (newJoinSession randomIndex waitingPars).Consistent where
  inputs := owned_newJoinSession (fun _ => rfl) ..
  outputs := owned_newJoinSession (fun _ => rfl) ..
  submitted _ _ _ hp htx := by
    rw [lookup_newJoinSession hp] at htx
    cases htx
  sent _ _ _ _ hmem := absurd hmem List.not_mem_nil

/-! ### Turns that leave the shares alone -/

/-- Nothing about the split transactions changes, and none is sent. -/
structure Keeps (m m' : JoinSession) : Prop where
  participants : ∀ sid, ∃ f : SessionParticipant → SessionParticipant,
    m'.participants.lookup sid = (m.participants.lookup sid).map f ∧
      ∀ p, (f p).splitTx = p.splitTx ∧ (f p).inputIndes = p.inputIndes ∧ (f p).outputIndes = p.outputIndes
  merged : m'.mergedSplitTx = m.mergedSplitTx
  replies : m.replies ⊆ m'.replies
  noneSent : ∀ c tx ins outs, (c, Response.submitSplitTxRes tx ins outs) ∈ m'.replies →
    (c, Response.submitSplitTxRes tx ins outs) ∈ m.replies

namespace Keeps

theorem refl (m : JoinSession) : Keeps m m where
  participants _ := ⟨id, by simp, fun _ => ⟨rfl, rfl, rfl⟩⟩
  merged := rfl
  replies := List.Subset.refl _
  noneSent _ _ _ _ := id

theorem trans {m'' : JoinSession} (h : Keeps m m') (h' : Keeps m' m'') : Keeps m m'' where
  participants sid := by
    obtain ⟨f, hf, hsame⟩ := h.participants sid
    obtain ⟨g, hg, hsame'⟩ := h'.participants sid
    refine ⟨g ∘ f, by rw [hg, hf, Option.map_map], fun p => ?_⟩
    obtain ⟨htx, hin, hout⟩ := hsame' (f p)
    obtain ⟨htx', hin', hout'⟩ := hsame p
    exact ⟨htx.trans htx', hin.trans hin', hout.trans hout'⟩
  merged := h'.merged.trans h.merged
  replies := List.Subset.trans h.replies h'.replies
  noneSent c tx ins outs hmem := h.noneSent c tx ins outs (h'.noneSent c tx ins outs hmem)

/-- One participant changed in what is not about its split transaction. -/
theorem modify {sid : ℕ} {f : SessionParticipant → SessionParticipant}
    (hparticipants : m'.participants = GoMap.modify sid f m.participants) (hmerged : m'.mergedSplitTx = m.mergedSplitTx)
    (hreplies : m'.replies = m.replies)
    (hf : ∀ p, (f p).splitTx = p.splitTx ∧ (f p).inputIndes = p.inputIndes ∧ (f p).outputIndes = p.outputIndes) :
    Keeps m m' where
  participants sid' := by
    rw [hparticipants]
    by_cases hsid : sid' = sid
    · exact ⟨f, by rw [hsid, GoMap.lookup_modify_self], hf⟩
    · exact ⟨id, by rw [GoMap.lookup_modify_ne hsid, Option.map_id, id], fun _ => ⟨rfl, rfl, rfl⟩⟩
  merged := hmerged
  replies := hreplies ▸ List.Subset.refl _
  noneSent c tx ins outs hmem := hreplies ▸ hmem

/-- Replies added, none of them with a merged transaction. -/
theorem addReplies {new : List (ℕ × Response)} (hnew : ∀ c tx ins outs, (c, Response.submitSplitTxRes tx ins outs) ∉ new)
    (hparticipants : m'.participants = m.participants) (hmerged : m'.mergedSplitTx = m.mergedSplitTx)
    (hreplies : m'.replies = m.replies ++ new) : Keeps m m' where
  participants sid := ⟨id, by rw [hparticipants]; simp, fun _ => ⟨rfl, rfl, rfl⟩⟩
  merged := hmerged
  replies := by
    rw [hreplies]
    exact List.subset_append_left _ _
  noneSent c tx ins outs hmem := by
    rw [hreplies] at hmem
    exact (List.mem_append.mp hmem).resolve_right (hnew c tx ins outs)

theorem err {c : ℕ} {e : Err} (h : m.send (some c) (.err e) = .ok m') : Keeps m m' := by
  obtain ⟨c', _, _, rfl⟩ := send_eq_ok.mp h
  have hnew : ∀ c tx ins outs, (c, Response.submitSplitTxRes tx ins outs) ∉ [(c', Response.err e)] := by
    intro _ _ _ _ hmem
    cases List.mem_singleton.mp hmem
  exact addReplies hnew rfl rfl rfl

variable (h : Keeps m m')
include h

theorem splitTx_iff (sid : ℕ) :
    (m'.participants.lookup sid).bind SessionParticipant.splitTx =
      (m.participants.lookup sid).bind SessionParticipant.splitTx := by
  obtain ⟨f, hf, hsame⟩ := h.participants sid
  rw [hf]
  rcases m.participants.lookup sid with _ | p
  · rfl
  · exact (hsame p).1

theorem piece (side : Side α) (sid : ℕ) : m'.piece side sid = m.piece side sid := by
  rw [JoinSession.piece, JoinSession.piece, h.splitTx_iff]

theorem mergedEntries (side : Side α) : m'.mergedEntries side = m.mergedEntries side := by
  rw [JoinSession.mergedEntries, JoinSession.mergedEntries, h.merged]

theorem places_inputs (sid : ℕ) : m'.places Matcher.inputs sid = m.places Matcher.inputs sid := by
  obtain ⟨f, hf, hsame⟩ := h.participants sid
  rw [places, places, hf]
  rcases m.participants.lookup sid with _ | p
  · rfl
  · exact (hsame p).2.1

theorem places_outputs (sid : ℕ) : m'.places Matcher.outputs sid = m.places Matcher.outputs sid := by
  obtain ⟨f, hf, hsame⟩ := h.participants sid
  rw [places, places, hf]
  rcases m.participants.lookup sid with _ | p
  · rfl
  · exact (hsame p).2.2

theorem consistent (hm : m.Consistent) : m'.Consistent where
  inputs := hm.inputs.of_eq h.places_inputs (h.piece _) (h.mergedEntries _)
  outputs := hm.outputs.of_eq h.places_outputs (h.piece _) (h.mergedEntries _)
  submitted sid p tx hp htx := by
    have hsplit := h.splitTx_iff sid
    rw [hp, Option.bind_some, htx, eq_comm] at hsplit
    obtain ⟨p', hp', htx'⟩ := Option.bind_eq_some_iff.mp hsplit
    exact hm.submitted sid p' tx hp' htx'
  sent c tx ins outs hmem := (hm.sent c tx ins outs (h.noneSent c tx ins outs hmem)).mono h.replies

end Keeps

theorem keeps_withSignedTx (sessionID : ℕ) (tx : MsgTx) (resp : ℕ) (signedTx : Option MsgTx) :
    Keeps m { m.withSignedTx sessionID tx resp with signedTx := signedTx } :=
  .modify (participants_withSignedTx ..) rfl rfl fun _ => ⟨rfl, rfl, rfl⟩

theorem keeps_sendSigned {randIndex i : ℕ} {signedTx : MsgTx} {l : List (ℕ × SessionParticipant)}
    (h : sendSigned randIndex signedTx i l m = .ok m') : Keeps m m' := by
  obtain ⟨cs, _, _, _, rfl⟩ := sendSigned_eq_ok.mp h
  refine ⟨?_, rfl, List.subset_append_left _ _, ?_⟩
  · intro sid
    obtain ⟨publisher, hlookup⟩ := lookup_markPublisher randIndex i l m.participants sid
    exact ⟨_, hlookup, fun _ => ⟨rfl, rfl, rfl⟩⟩
  · intro c tx ins outs hmem
    refine (List.mem_append.mp hmem).resolve_right fun hnew => ?_
    obtain ⟨j, _, heq⟩ := List.mem_mapIdx.mp (List.of_mem_zip hnew).2
    cases heq

theorem Signing.keeps {sessionID : ℕ} {tx : MsgTx} {resp : ℕ} {err : Option Err}
    (h : Signing ch sessionID tx resp m err m') : Keeps m m' := by
  cases h with
  | unknown => exact .refl m
  | nilInput => exact keeps_withSignedTx ..
  | nilOutput => exact keeps_withSignedTx ..
  | waiting => exact keeps_withSignedTx ..
  | completed _ _ _ _ _ hsend =>
    have hkeeps := (keeps_withSignedTx sessionID tx resp _).trans (keeps_sendSigned hsend)
    exact ⟨hkeeps.participants, hkeeps.merged, hkeeps.replies, hkeeps.noneSent⟩

theorem keeps_publishTxResult {sessionID : ℕ} {tx : Option MsgTx} {resp : ℕ} {err : Option Err}
    (h : m.publishTxResult ch sessionID tx resp = .ok (err, m')) : Keeps m m' := by
  rcases publishTxResult_eq_ok.mp h with ⟨_, _, rfl⟩ | ⟨p, _, _, _, h⟩
  · exact .refl m'
  · have hnoted : Keeps m (m.withPublished sessionID p.publisher tx resp) :=
      .modify (participants_withPublished ..) rfl rfl fun _ => ⟨rfl, rfl, rfl⟩
    split_ifs at h with hall
    · obtain ⟨m₁, hsend, rfl⟩ := h
      obtain ⟨cs, _, _, _, rfl⟩ := sendPublished_eq_ok.mp hsend
      refine hnoted.trans (.addReplies (fun c tx' ins outs hnew => ?_) rfl rfl rfl)
      obtain ⟨_, _, heq⟩ := List.mem_map.mp (List.of_mem_zip hnew).2
      rw [publishedRes] at heq
      split at heq <;> cases heq
    · rw [h]
      exact hnoted

/-- Whatever the requests of the later stages do, and any request that is refused. -/
theorem keeps_inStage {stage : Progress} {resp : ℕ} {handler : JoinSession → Except Halt (Option Err × JoinSession)}
    (hhandler : ∀ err m₁, handler m = .ok (err, m₁) → Keeps m m₁) (h : inStage stage resp handler m = .ok m') :
    Keeps m m' := by
  rcases inStage_eq_ok.mp h with ⟨_, hsend⟩ | ⟨_, ⟨err, m₁, hdone, hsend⟩ | hdone⟩
  · exact .err hsend
  · exact (hhandler _ _ hdone).trans (.err hsend)
  · exact hhandler _ _ hdone

/-! ### Departures -/

/-- Some of those that own nothing are gone. -/
theorem Owned.leave {side : Side α} (hm : m.Owned side)
    (hleft : ∀ sid, m'.participants.lookup sid = m.participants.lookup sid ∨
      m'.participants.lookup sid = none ∧ m.places side sid = [])
    (hmerged : m'.mergedSplitTx = m.mergedSplitTx) : m'.Owned side := by
  refine hm.of_eq ?_ ?_ (by rw [mergedEntries, mergedEntries, hmerged])
  · intro sid
    rcases hleft sid with hsame | ⟨hgone, hnone⟩
    · rw [places, places, hsame]
    · rw [hnone, places, hgone]
      rfl
  · intro sid
    rcases hleft sid with hsame | ⟨hgone, hnone⟩
    · rw [piece, piece, hsame]
    · rw [Shares.piece_eq_nil hm hnone, piece, hgone]
      rfl

theorem Consistent.leave (hm : m.Consistent)
    (hleft : ∀ sid, m'.participants.lookup sid = m.participants.lookup sid ∨
      m'.participants.lookup sid = none ∧ m.places Matcher.inputs sid = [] ∧ m.places Matcher.outputs sid = [])
    (hmerged : m'.mergedSplitTx = m.mergedSplitTx) (hreplies : m'.replies = m.replies) : m'.Consistent := by
  refine ⟨hm.inputs.leave (fun sid => ?_) hmerged, hm.outputs.leave (fun sid => ?_) hmerged, ?_, ?_⟩
  · exact (hleft sid).imp_right fun ⟨hgone, hin, _⟩ => ⟨hgone, hin⟩
  · exact (hleft sid).imp_right fun ⟨hgone, _, hout⟩ => ⟨hgone, hout⟩
  · intro sid p tx hp htx
    rcases hleft sid with hsame | ⟨hgone, _⟩
    · exact hm.submitted sid p tx (hsame ▸ hp) htx
    · rw [hgone] at hp
      cases hp
  · intro c tx ins outs hmem
    exact (hm.sent c tx ins outs (hreplies ▸ hmem)).mono (hreplies ▸ List.Subset.refl _)

/-! ### Split transactions -/

theorem exists_of_mem_places {side : Side α} {sid i : ℕ} (h : i ∈ m.places side sid) :
    ∃ p, m.participants.lookup sid = some p ∧ i ∈ side.indes p := by
  rw [places] at h
  rcases hp : m.participants.lookup sid with _ | p
  · rw [hp] at h
    cases h
  · rw [hp] at h
    exact ⟨p, rfl, h⟩

/-- A split transaction of a participant that owns nothing goes to the end. -/
theorem owned_withSplitTx {side : Side α} {sid : ℕ} {splitTx : MsgTx}
    {f : SessionParticipant → SessionParticipant} (hm : m.Owned side) (hmem : sid ∈ m.participants.keys)
    (hnone : m.places side sid = []) (hparticipants : m'.participants = GoMap.modify sid f m.participants)
    (hindes : ∀ p, side.indes (f p) = List.range' (m.mergedEntries side).length (side.entries splitTx).length)
    (htx : ∀ p, (f p).splitTx = some splitTx)
    (hmerged : m'.mergedEntries side = m.mergedEntries side ++ side.entries splitTx) : m'.Owned side := by
  obtain ⟨p, hp⟩ := GoMap.lookup_of_mem_keys hmem
  have hplaces : m'.places side = Function.update (m.places side) sid
      (List.range' (m.mergedEntries side).length (side.entries splitTx).length) := by
    funext sid'
    by_cases hsid : sid' = sid
    · rw [hsid, Function.update_self, places, hparticipants, GoMap.lookup_modify_self, hp]
      exact hindes p
    · rw [Function.update_of_ne hsid, places, hparticipants, GoMap.lookup_modify_ne hsid, places]
  have hpiece : m'.piece side = Function.update (m.piece side) sid (side.entries splitTx) := by
    funext sid'
    by_cases hsid : sid' = sid
    · rw [hsid, Function.update_self, piece, hparticipants, GoMap.lookup_modify_self, hp, Option.map_some,
        Option.bind_some, htx]
      rfl
    · rw [Function.update_of_ne hsid, piece, hparticipants, GoMap.lookup_modify_ne hsid, piece]
  unfold Owned
  rw [hplaces, hpiece, hmerged]
  exact hm.append hnone _

theorem consistent_withSplitTx {sid : ℕ} {splitTx merged : MsgTx} (resp : ℕ) {inputIndes outputIndes : List ℕ}
    (hm : m.Consistent) (hmem : sid ∈ m.participants.keys) (hin : m.places Matcher.inputs sid = [])
    (hout : m.places Matcher.outputs sid = []) (hwhole : splitTx.Whole)
    (hmerge : mergeSplitTx splitTx m.mergedSplitTx = .ok (merged, inputIndes, outputIndes)) :
    (m.withSplitTx sid splitTx resp merged inputIndes outputIndes).Consistent := by
  obtain ⟨htxIn, htxOut, hinputs, houtputs, _⟩ := mergeSplitTx_eq_ok hmerge
  have hparticipants := participants_withSplitTx sid splitTx resp merged inputIndes outputIndes m
  refine ⟨?_, ?_, ?_, ?_⟩
  · exact owned_withSplitTx hm.inputs hmem hin hparticipants (fun _ => hinputs) (fun _ => rfl) htxIn
  · exact owned_withSplitTx hm.outputs hmem hout hparticipants (fun _ => houtputs) (fun _ => rfl)
      htxOut
  · intro sid' p tx hp htx
    rw [hparticipants] at hp
    by_cases hsid : sid' = sid
    · rw [hsid, GoMap.lookup_modify_self, Option.map_eq_some_iff] at hp
      obtain ⟨_, _, rfl⟩ := hp
      cases htx
      exact hwhole
    · rw [GoMap.lookup_modify_ne hsid] at hp
      exact hm.submitted sid' p tx hp htx
  · exact fun c tx ins outs hmem => (hm.sent c tx ins outs hmem).mono (List.Subset.refl _)

/-! ### Sending the merged transaction -/

/-- Everybody is answered: as many channels as results. -/
theorem exists_mem_zip {β γ : Type} {cs : List β} {l : List γ} (hlength : cs.length = l.length) {b : γ} (hb : b ∈ l) :
    ∃ c, (c, b) ∈ cs.zip l := by
  obtain ⟨i, hi⟩ := List.mem_iff_getElem?.mp hb
  have hlt : i < cs.length := hlength ▸ (List.getElem?_eq_some_iff.mp hi).1
  refine ⟨cs[i], List.mem_iff_getElem?.mpr ⟨i, ?_⟩⟩
  rw [List.getElem?_zip_eq_some]
  exact ⟨List.getElem?_eq_getElem hlt, hi⟩

theorem consistent_sendMerged {site : ℕ} {merged : MsgTx} (hm : m.Consistent) (hmerged : m.mergedSplitTx = some merged)
    (h : m.sendMerged ch site merged = .ok m') : m'.Consistent := by
  obtain ⟨cs, hcs, _, _, rfl⟩ := sendMerged_eq_ok.mp h
  have hlength : cs.length = (GoMap.values ch.order [site] m.participants).length := by
    simpa only [List.length_map] using (congrArg List.length hcs).symm
  -- whoever owns an entry is sent the transaction with the entry's index
  have hanswer : ∀ {sid p}, m.participants.lookup sid = some p →
      ∃ c, (c, Response.submitSplitTxRes merged p.inputIndes p.outputIndes) ∈ m.replies ++
        cs.zip ((GoMap.values ch.order [site] m.participants).map fun p =>
          Response.submitSplitTxRes merged p.inputIndes p.outputIndes) := by
    intro sid p hp
    have hvalue : p ∈ GoMap.values ch.order [site] m.participants := GoMap.mem_values.mpr ⟨sid, hp⟩
    have hzip : cs.length = ((GoMap.values ch.order [site] m.participants).map fun p =>
        Response.submitSplitTxRes merged p.inputIndes p.outputIndes).length := by rw [List.length_map, hlength]
    obtain ⟨c, hc⟩ := exists_mem_zip hzip
      (List.mem_map_of_mem (f := fun p : SessionParticipant =>
        Response.submitSplitTxRes merged p.inputIndes p.outputIndes) hvalue)
    exact ⟨c, List.mem_append_right _ hc⟩
  have hhanded : Handed { m with
      replies := m.replies ++ cs.zip ((GoMap.values ch.order [site] m.participants).map fun p =>
        Response.submitSplitTxRes merged p.inputIndes p.outputIndes) } merged := by
    refine ⟨hm.whole hmerged, ?_, ?_⟩
    · intro i hi
      have hcover := hm.inputs.cover i
      rw [mergedEntries, hmerged] at hcover
      obtain ⟨sid, hsid⟩ := hcover hi
      obtain ⟨p, hp, hip⟩ := exists_of_mem_places hsid
      obtain ⟨c, hc⟩ := hanswer hp
      exact ⟨c, _, _, hc, hip⟩
    · intro i hi
      have hcover := hm.outputs.cover i
      rw [mergedEntries, hmerged] at hcover
      obtain ⟨sid, hsid⟩ := hcover hi
      obtain ⟨p, hp, hip⟩ := exists_of_mem_places hsid
      obtain ⟨c, hc⟩ := hanswer hp
      exact ⟨c, _, _, hc, hip⟩
  refine ⟨hm.inputs, hm.outputs, hm.submitted, ?_⟩
  intro c tx ins outs hmem
  rcases List.mem_append.mp hmem with hold | hnew
  · exact (hm.sent c tx ins outs hold).mono (List.subset_append_left _ _)
  · obtain ⟨_, _, heq⟩ := List.mem_map.mp (List.of_mem_zip hnew).2
    cases heq
    exact hhanded

/-- The permutation of the random branch takes the shares with it. -/
theorem owned_shuffled {side : Side α} {merged : MsgTx} {perm : List ℕ} {l : List (ℕ × SessionParticipant)}
    {new : List (Option α)} (indes : ℕ → List ℕ) (hm : m.Owned side) (hmerged : m.mergedSplitTx = some merged)
    (hperm : perm.Perm (List.range (side.entries merged).length))
    (hl : ∀ sid p, m.participants.lookup sid = some p → (sid, p) ∈ l)
    (hcarried : Carried perm (side.entries merged) (l.flatMap fun e => side.indes e.2)
      (List.replicate (side.entries merged).length none) new)
    (hindes : ∀ e ∈ l, (indes e.1).map some = (side.indes e.2).map (perm[·]?))
    (hlookup : ∀ sid, (m'.participants.lookup sid).map side.indes = (m.participants.lookup sid).map fun _ => indes sid)
    (htx : ∀ sid, (m'.participants.lookup sid).bind SessionParticipant.splitTx =
      (m.participants.lookup sid).bind SessionParticipant.splitTx)
    (hnew : m'.mergedEntries side = new) : m'.Owned side := by
  have hentries : m.mergedEntries side = side.entries merged := by
    rw [mergedEntries, hmerged]
    rfl
  have hpiece : m'.piece side = m.piece side := by
    funext sid
    rw [piece, piece, htx]
  unfold Owned at hm ⊢
  rw [hpiece, hnew]
  rw [hentries] at hm
  refine hm.move hperm (by rw [hcarried.length, List.length_replicate]) ?_ ?_
  · intro sid
    have hsid := hlookup sid
    rcases hp : m.participants.lookup sid with _ | p
    · rw [hp, Option.map_none, Option.map_eq_none_iff] at hsid
      rw [places, places, hsid, hp]
      rfl
    · rw [hp, Option.map_some, Option.map_eq_some_iff] at hsid
      obtain ⟨p', hp', heq⟩ := hsid
      rw [places_of_lookup hp', places_of_lookup hp, heq]
      exact hindes (sid, p) (hl sid p hp)
  · intro i j hij
    have hi : i < (side.entries merged).length := by
      rw [← List.length_range (n := (side.entries merged).length), ← hperm.length_eq]
      exact (List.getElem?_eq_some_iff.mp hij).1
    obtain ⟨sid, hsid⟩ := hm.cover i hi
    obtain ⟨p, hp, hip⟩ := exists_of_mem_places hsid
    exact hcarried.carried i j hij (List.mem_flatMap.mpr ⟨(sid, p), hl sid p hp, hip⟩)

/-- What the loop over the participants leaves when it visits all of them. -/
theorem lookup_reindexed (ins outs : ℕ → List ℕ) (participants : GoMap ℕ SessionParticipant) (site : List ℕ) (sid : ℕ) :
    (reindexed ins outs ((GoMap.range ch.order site participants).map Prod.fst) participants).lookup sid =
      (participants.lookup sid).map fun p => { p with inputIndes := ins sid, outputIndes := outs sid } := by
  rw [reindexed, GoMap.lookup_mapVal]
  rcases hp : participants.lookup sid with _ | p
  · rfl
  · rw [Option.map_some, Option.map_some]
    exact congrArg some (if_pos (List.mem_map.mpr ⟨(sid, p), GoMap.mem_range.mpr hp, rfl⟩))

/-- The session as the random branch sends it. -/
structure Shuffled (m m₁ : JoinSession) (merged : MsgTx) : Prop where
  inputs : m.Owned inputs → m₁.Owned inputs
  outputs : m.Owned outputs → m₁.Owned outputs
  merged : m₁.mergedSplitTx = some merged
  lookup : ∀ sid, ∃ ins outs, m₁.participants.lookup sid =
    (m.participants.lookup sid).map fun p => { p with inputIndes := ins, outputIndes := outs }
  replies : m₁.replies = m.replies

theorem shuffled_of_ok {merged : MsgTx} {txIn : List (Option TxIn)} {txOut : List (Option TxOut)}
    {participants : GoMap ℕ SessionParticipant} (hmerged : m.mergedSplitTx = some merged)
    (hshuffle : shuffleAll (ch.perm 406 merged.txIn.length) (ch.perm 407 merged.txOut.length) merged
      (GoMap.range ch.order [421] m.participants) (List.replicate merged.txIn.length none)
      (List.replicate merged.txOut.length none) m.participants = .ok (txIn, txOut, participants)) :
    Shuffled m
      { m with participants := participants, mergedSplitTx := some { merged with txIn := txIn, txOut := txOut } }
      { merged with txIn := txIn, txOut := txOut } := by
  have hpermIn := ch.perm_range 406 merged.txIn.length
  have hpermOut := ch.perm_range 407 merged.txOut.length
  have hbound : ∀ {β : Type} {perm : List ℕ} {n : ℕ}, perm.Perm (List.range n) →
      ∀ j ∈ perm, j < (List.replicate n (none : Option β)).length := by
    intro β perm n hperm j hj
    rw [List.length_replicate]
    exact List.mem_range.mp (hperm.mem_iff.mp hj)
  obtain ⟨hcarriedIn, hcarriedOut, ins, outs, hlists, rfl⟩ :=
    shuffleAll_eq_ok (hpermIn.nodup_iff.mpr List.nodup_range) (hpermOut.nodup_iff.mpr List.nodup_range)
      (GoMap.nodup_range ..) (hbound hpermIn) (hbound hpermOut) hshuffle
  have hl : ∀ sid p, m.participants.lookup sid = some p → (sid, p) ∈ GoMap.range ch.order [421] m.participants :=
    fun _ _ hp => GoMap.mem_range.mpr hp
  have htx : ∀ sid, ((reindexed ins outs ((GoMap.range ch.order [421] m.participants).map Prod.fst)
      m.participants).lookup sid).bind SessionParticipant.splitTx =
        (m.participants.lookup sid).bind SessionParticipant.splitTx := by
    intro sid
    rw [lookup_reindexed]
    cases m.participants.lookup sid <;> rfl
  refine ⟨fun hm => ?_, fun hm => ?_, rfl, fun sid => ⟨ins sid, outs sid, lookup_reindexed ..⟩, rfl⟩
  · refine owned_shuffled ins hm hmerged hpermIn hl hcarriedIn (fun e he => (hlists e he).1) ?_ htx rfl
    intro sid
    show ((reindexed ..).lookup sid).map _ = _
    rw [lookup_reindexed, Option.map_map]
    rfl
  · refine owned_shuffled outs hm hmerged hpermOut hl hcarriedOut (fun e he => (hlists e he).2) ?_ htx rfl
    intro sid
    show ((reindexed ..).lookup sid).map _ = _
    rw [lookup_reindexed, Option.map_map]
    rfl

theorem Shuffled.consistent {m₁ : JoinSession} {merged : MsgTx} (h : Shuffled m m₁ merged) (hm : m.Consistent) :
    m₁.Consistent := by
  refine ⟨h.inputs hm.inputs, h.outputs hm.outputs, ?_, ?_⟩
  · intro sid p tx hp htx
    obtain ⟨ins, outs, hlookup⟩ := h.lookup sid
    rw [hlookup, Option.map_eq_some_iff] at hp
    obtain ⟨p', hp', rfl⟩ := hp
    exact hm.submitted sid p' tx hp' htx
  · intro c tx ins outs hmem
    rw [h.replies] at hmem
    exact (hm.sent c tx ins outs hmem).mono (h.replies ▸ List.Subset.refl _)

theorem exists_shuffled {merged : MsgTx} (hmerged : m.mergedSplitTx = some merged)
    (hrandom : m.randomIndex = true ∧ 1 < GoMap.len m.participants) (h : m.sendTxData ch merged = .ok m') :
    ∃ merged' m₁ m₂, Shuffled m m₁ merged' ∧ m₁.sendMerged ch 446 merged' = .ok m₂ ∧
      m₁ = { m with participants := m₁.participants, mergedSplitTx := some merged' } ∧
      m' = { m₂ with progress := .signedTx, clientTimeout := true } := by
  obtain ⟨txIn, txOut, participants, m₂, hshuffle, hsend, rfl⟩ := (sendTxData_random hrandom).mp h
  exact ⟨_, _, m₂, shuffled_of_ok hmerged hshuffle, hsend, rfl, rfl⟩

theorem consistent_sendTxData {merged : MsgTx} (hm : m.Consistent) (hmerged : m.mergedSplitTx = some merged)
    (h : m.sendTxData ch merged = .ok m') : m'.Consistent := by
  by_cases hrandom : m.randomIndex = true ∧ 1 < GoMap.len m.participants
  · obtain ⟨merged', m₁, m₂, hshuffled, hsend, _, rfl⟩ := exists_shuffled hmerged hrandom h
    have hm₂ := consistent_sendMerged (hshuffled.consistent hm) hshuffled.merged hsend
    exact ⟨hm₂.inputs, hm₂.outputs, hm₂.submitted, hm₂.sent⟩
  · obtain ⟨m₁, hsend, rfl⟩ := (sendTxData_plain hrandom).mp h
    have hm₁ := consistent_sendMerged hm hmerged hsend
    exact ⟨hm₁.inputs, hm₁.outputs, hm₁.submitted, hm₁.sent⟩

/-! ### Runs -/

/-- Nobody that owns something submits again or leaves, and no nil is submitted. -/
def Settled (m : JoinSession) (ev : Choices × Event) : Prop :=
  match ev.2 with
  | .clientTimeout => ∀ sid p, m.participants.lookup sid = some p → missed m.progress p = true →
      p.inputIndes = [] ∧ p.outputIndes = []
  | .submitSplitTx sessionID splitTx _ => m.progress = .rawTx → ∀ p, m.participants.lookup sessionID = some p →
      p.inputIndes = [] ∧ p.outputIndes = [] ∧ splitTx.Whole
  | .removeSessionID sessionID => ∀ p, m.participants.lookup sessionID = some p →
      p.inputIndes = [] ∧ p.outputIndes = []
  | _ => True

theorem consistent_addParticipantInput {sid : ℕ} {splitTx : MsgTx} {resp : ℕ} {err : Option Err} (hm : m.Consistent)
    (hok : ∀ p, m.participants.lookup sid = some p → p.inputIndes = [] ∧ p.outputIndes = [] ∧ splitTx.Whole)
    (h : m.addParticipantInput ch sid splitTx resp = .ok (err, m')) : m'.Consistent := by
  rcases addParticipantInput_eq_ok.mp h with ⟨_, _, rfl⟩ | ⟨hmem, _, merged, inputIndes, outputIndes, hmerge, h⟩
  · exact hm
  · obtain ⟨p, hp⟩ := GoMap.lookup_of_mem_keys hmem
    obtain ⟨hin, hout, hwhole⟩ := hok p hp
    have hadded := consistent_withSplitTx resp hm hmem ((places_of_lookup hp).trans hin)
      ((places_of_lookup hp).trans hout) hwhole hmerge
    split_ifs at h
    · exact consistent_sendTxData hadded rfl h
    · rw [h]
      exact hadded

theorem consistent_step {ev : Choices × Event} (hm : m.Consistent) (hok : m.Settled ev) (h : m.step ev = some m') :
    m'.Consistent := by
  obtain ⟨ch, ev⟩ := ev
  replace h := step_eq_some h
  cases ev with
  | clientTimeout =>
    cases h
    refine hm.leave (fun sid => ?_) rfl rfl
    rcases lookup_timeout_cases ch m sid with hsame | ⟨hgone, p, hp, hmissed⟩
    · exact .inl hsame
    · obtain ⟨hin, hout⟩ := hok sid p hp hmissed
      exact .inr ⟨hgone, (places_of_lookup hp).trans hin, (places_of_lookup hp).trans hout⟩
  | submitSplitTx sessionID splitTx resp =>
    rcases inStage_eq_ok.mp h with ⟨_, hsend⟩ | ⟨hstage, ⟨err, m₁, hdone, hsend⟩ | hdone⟩
    · exact (Keeps.err hsend).consistent hm
    · exact (Keeps.err hsend).consistent (consistent_addParticipantInput hm (hok hstage) hdone)
    · exact consistent_addParticipantInput hm (hok hstage) hdone
  | submitSignedTx sessionID tx resp =>
    exact (keeps_inStage (fun err m₁ hdone => (mergeSignedInput_eq_ok.mp hdone).keeps) h).consistent hm
  | publishResult sessionID tx resp =>
    exact (keeps_inStage (fun err m₁ hdone => keeps_publishTxResult hdone) h).consistent hm
  | removeSessionID sessionID =>
    cases h
    refine hm.leave (fun sid => ?_) rfl rfl
    rcases lookup_removeSessionID_cases m sessionID sid with hsame | ⟨hgone, p, hp, rfl⟩
    · exact .inl hsame
    · obtain ⟨hin, hout⟩ := hok p hp
      exact .inr ⟨hgone, (places_of_lookup hp).trans hin, (places_of_lookup hp).trans hout⟩

/-- **Index ownership, as long as nobody that owns something submits again or leaves.** -/
theorem index_ownership {randomIndex : Bool} {waitingPars : List ℕ}
    (h : RunsTo step Settled (newJoinSession randomIndex waitingPars) m) : m.IndexOwnership :=
  (h.invariant (consistent_newJoinSession randomIndex waitingPars) fun _ _ _ => consistent_step).indexOwnership

/-- A transaction with one input and one output. -/
def smallTx (n : ℕ) : MsgTx where
  serType := 0
  version := 1
  txIn := [some ⟨⟨[], n, 0⟩, 0, 0, 0, 0, []⟩]
  txOut := [some ⟨n, 0, []⟩]
  lockTime := 0
  expiry := 0

/-- Two participants submit once each. -/
theorem index_ownership_two : ∃ m : JoinSession, m.progress = .signedTx ∧ m.IndexOwnership :=
  ⟨_, rfl, index_ownership (show RunsTo step Settled (newJoinSession true [1, 2]) _ from
    .step (.step .start (.plain, .submitSplitTx 1 (smallTx 1) 0)
        (fun _ p hp => by cases hp; exact ⟨rfl, rfl, by decide, by decide⟩) rfl)
      (.plain, .submitSplitTx 2 (smallTx 2) 1)
      (fun _ p hp => by cases hp; exact ⟨rfl, rfl, by decide, by decide⟩) rfl)⟩

/-- A participant submits twice; another leaves after it has submitted. Either way
what `SendTxData` sends has a nil input. -/
theorem hole_sent :
    (∃ m : JoinSession, RunsTo step (fun _ _ => True) (newJoinSession true [1, 2]) m ∧ ¬ m.IndexOwnership) ∧
    ∃ m : JoinSession, RunsTo step (fun _ _ => True) (newJoinSession true [1, 2, 3]) m ∧ ¬ m.IndexOwnership :=
  ⟨⟨_, .of_events [(.plain, .submitSplitTx 1 (smallTx 1) 0), (.plain, .submitSplitTx 1 (smallTx 1) 1),
        (.plain, .submitSplitTx 2 (smallTx 2) 2)] rfl, fun h => absurd (h.whole _ rfl).1 (by decide)⟩,
    ⟨_, .of_events [(.plain, .submitSplitTx 1 (smallTx 1) 0), (.plain, .removeSessionID 1),
        (.plain, .submitSplitTx 2 (smallTx 2) 1), (.plain, .submitSplitTx 3 (smallTx 3) 2)] rfl,
      fun h => absurd (h.whole _ rfl).1 (by decide)⟩⟩

end JoinSession

end Dcrtxmatcher.Matcher
