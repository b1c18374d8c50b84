import Dcrtxmatcher.Matcher.Ownership

/-! The random branch of `SendTxData`.

Every participant's entries are copied to where a permutation puts them, and its
indices with them. When the indices of the participants partition those of the merged
transaction, every place of the new transaction is written once. -/
namespace Dcrtxmatcher.Matcher
open Lib
open Coinjoin (TxIn TxOut OutPoint)

namespace JoinSession
variable {α : Type} {ch : Choices} {m m' : JoinSession}

/-! ### Moving entries -/

/-- The entries of `old` stand in `new` where `perm` puts them, and the participants'
indices follow. -/
structure Moved (perm : List ℕ) (side : Side α) (m m' : JoinSession) (old new : MsgTx) : Prop where
  range : perm.Perm (List.range (side.entries old).length)
  length : (side.entries new).length = (side.entries old).length
  places : ∀ sid, (m'.places side sid).map some = (m.places side sid).map (perm[·]?)
  entries : ∀ i j : ℕ, perm[i]? = some j → (side.entries new)[j]? = (side.entries old)[i]?

/-- Rearranged entries, the participants' indices still pointing at their own ones. -/
structure Rearranged (side : Side α) (m m' : JoinSession) (old new : MsgTx) : Prop where
  perm : (side.entries new).Perm (side.entries old)
  partition : Partition (m'.places side) (side.entries new).length
  length : ∀ sid, (m'.places side sid).length = (m.places side sid).length
  follow : ∀ sid (k i j : ℕ), (m.places side sid)[k]? = some i → (m'.places side sid)[k]? = some j →
    (side.entries new)[j]? = (side.entries old)[i]?

theorem Moved.rearranged {perm : List ℕ} {side : Side α} {old new : MsgTx} (h : Moved perm side m m' old new)
    (hparts : Partition (m.places side) (side.entries old).length) : Rearranged side m m' old new where
  perm := Shares.perm_of_moved h.range h.length h.entries
  partition := (hparts.shares.move h.range h.length h.places h.entries).partition
  length sid := by simpa using congrArg List.length (h.places sid)
  follow sid k i j hi hj := by
    have hk := congrArg (·[k]?) (h.places sid)
    simp only [List.getElem?_map, hi, hj, Option.map_some, Option.some_inj] at hk
    exact h.entries i j hk.symm

/-- The lists of all participants together are the numbers below `n` in some order. -/
theorem partition_of_perm {side : Side α} {n : ℕ}
    (h : ((GoMap.toList m.participants).flatMap fun e => side.indes e.2).Perm (List.range n)) :
    Partition (m.places side) n := by
  have hnodup := List.nodup_flatMap.mp (h.nodup_iff.mpr List.nodup_range)
  have hmem : ∀ {sid i}, i ∈ m.places side sid → ∃ p, (sid, p) ∈ GoMap.toList m.participants ∧ i ∈ side.indes p := by
    intro sid i hi
    obtain ⟨p, hp, hip⟩ := exists_of_mem_places hi
    exact ⟨p, GoMap.mem_toList.mpr hp, hip⟩
  refine ⟨fun sid sid' hne i hi hi' => ?_, fun sid => ?_, fun i hi => ?_, fun sid i hi => ?_⟩
  · obtain ⟨p, hp, hip⟩ := hmem hi
    obtain ⟨p', hp', hip'⟩ := hmem hi'
    have hsymm : Std.Symm (Function.onFun List.Disjoint fun e : ℕ × SessionParticipant => side.indes e.2) :=
      ⟨fun _ _ hd => List.Disjoint.symm hd⟩
    have hdisj := hnodup.2.forall hp hp' fun heq => hne (Prod.mk.inj heq).1
    exact hdisj hip hip'
  · unfold JoinSession.places
    rcases hp : m.participants.lookup sid with _ | p
    · exact List.nodup_nil
    · exact hnodup.1 (sid, p) (GoMap.mem_toList.mpr hp)
  · obtain ⟨e, he, hie⟩ := List.mem_flatMap.mp (h.mem_iff.mpr (List.mem_range.mpr hi))
    exact ⟨e.1, by rw [places_of_lookup (GoMap.mem_toList.mp he)]; exact hie⟩
  · obtain ⟨p, hp, hip⟩ := hmem hi
    exact List.mem_range.mp (h.mem_iff.mp (List.mem_flatMap.mpr ⟨(sid, p), hp, hip⟩))

/-! ### The loop -/

/-- What the loop over the participants makes of one side. -/
theorem moved_of_carried (side : Side α) {old new : MsgTx} {perm : List ℕ} {l : List (ℕ × SessionParticipant)}
    (indes : ℕ → List ℕ) (hparts : Partition (m.places side) (side.entries old).length)
    (hperm : perm.Perm (List.range (side.entries old).length))
    (hl : ∀ sid p, m.participants.lookup sid = some p → (sid, p) ∈ l)
    (hcarried : Carried perm (side.entries old) (l.flatMap fun e => side.indes e.2)
      (List.replicate (side.entries old).length none) (side.entries new))
    (hindes : ∀ e ∈ l, (indes e.1).map some = (side.indes e.2).map (perm[·]?))
    (hlookup : ∀ sid, (m'.participants.lookup sid).map side.indes = (m.participants.lookup sid).map fun _ => indes sid) :
    Moved perm side m m' old new := by
  refine ⟨hperm, by rw [hcarried.length, List.length_replicate], fun sid => ?_, fun i j hij => ?_⟩
  · have hsid := hlookup sid
    rcases hp : m.participants.lookup sid with _ | p
    · rw [hp, Option.map_none, Option.map_eq_none_iff] at hsid
      rw [JoinSession.places, JoinSession.places, hsid, hp]
      rfl
    · rw [hp, Option.map_some, Option.map_eq_some_iff] at hsid
      obtain ⟨p', hp', heq⟩ := hsid
      rw [places_of_lookup hp', places_of_lookup hp, heq]
      exact hindes (sid, p) (hl sid p hp)
  · have hi : i < (side.entries old).length := by
      rw [← List.length_range (n := (side.entries old).length), ← hperm.length_eq]
      exact (List.getElem?_eq_some_iff.mp hij).1
    obtain ⟨sid, hsid⟩ := hparts.cover i hi
    obtain ⟨p, hp, hip⟩ := exists_of_mem_places hsid
    exact hcarried.carried i j hij (List.mem_flatMap.mpr ⟨(sid, p), hl sid p hp, hip⟩)

/-- The session that the random branch sends, for the transaction before it and the one it makes. -/
structure Shuffle (ch : Choices) (m m₁ : JoinSession) (merged merged' : MsgTx) : Prop where
  inputs : Moved (ch.perm 406 merged.txIn.length) inputs m m₁ merged merged'
  outputs : Moved (ch.perm 407 merged.txOut.length) outputs m m₁ merged merged'
  header : merged' = { merged with txIn := merged'.txIn, txOut := merged'.txOut }
  session : m₁ = { m with participants := m₁.participants, mergedSplitTx := some merged' }
  lookup : ∀ sid, m₁.participants.lookup sid = (m.participants.lookup sid).map fun p =>
    { p with inputIndes := m₁.places Matcher.inputs sid, outputIndes := m₁.places Matcher.outputs sid }

/-- The loop gets through, every place being somebody's. -/
theorem exists_shuffle_session (ch : Choices) {merged : MsgTx}
    (hin : Partition (m.places inputs) merged.txIn.length) (hout : Partition (m.places outputs) merged.txOut.length) :
    ∃ txIn txOut participants,
      shuffleAll (ch.perm 406 merged.txIn.length) (ch.perm 407 merged.txOut.length) merged
        (GoMap.range ch.order [421] m.participants) (List.replicate merged.txIn.length none)
        (List.replicate merged.txOut.length none) m.participants = .ok (txIn, txOut, participants) ∧
      Shuffle ch m { m with participants := participants, mergedSplitTx := some { merged with txIn := txIn, txOut := txOut } }
        merged { merged with txIn := txIn, txOut := txOut } := by
  have hpermIn := ch.perm_range 406 merged.txIn.length
  have hpermOut := ch.perm_range 407 merged.txOut.length
  have hbound : ∀ {β : Type} {perm : List ℕ} {n : ℕ}, perm.Perm (List.range n) →
      ∀ j ∈ perm, j < (List.replicate n (none : Option β)).length := by
    intro β perm n hperm j hj
    rw [List.length_replicate]
    exact List.mem_range.mp (hperm.mem_iff.mp hj)
  have hrange : ∀ e ∈ GoMap.range ch.order [421] m.participants,
      (∀ i ∈ e.2.inputIndes, i < merged.txIn.length) ∧ ∀ i ∈ e.2.outputIndes, i < merged.txOut.length := by
    intro e he
    have hp := GoMap.mem_range.mp he
    exact ⟨fun i hi => hin.bound e.1 i (by rw [places_of_lookup hp]; exact hi),
      fun i hi => hout.bound e.1 i (by rw [places_of_lookup hp]; exact hi)⟩
  obtain ⟨⟨txIn, txOut, participants⟩, hok⟩ := exists_shuffleAll (by rw [hpermIn.length_eq, List.length_range])
    (by rw [hpermOut.length_eq, List.length_range]) hrange (List.replicate merged.txIn.length none)
    (List.replicate merged.txOut.length none) m.participants
  refine ⟨txIn, txOut, participants, hok, ?_⟩
  obtain ⟨hcarriedIn, hcarriedOut, ins, outs, hlists, rfl⟩ :=
    shuffleAll_eq_ok (hpermIn.nodup_iff.mpr List.nodup_range) (hpermOut.nodup_iff.mpr List.nodup_range)
      (GoMap.nodup_range ..) (hbound hpermIn) (hbound hpermOut) hok
  have hl : ∀ sid p, m.participants.lookup sid = some p → (sid, p) ∈ GoMap.range ch.order [421] m.participants :=
    fun _ _ hp => GoMap.mem_range.mpr hp
  refine ⟨?_, ?_, rfl, rfl, fun sid => ?_⟩
  · refine moved_of_carried Matcher.inputs ins hin hpermIn hl hcarriedIn (fun e he => (hlists e he).1) fun sid => ?_
    show ((reindexed ..).lookup sid).map _ = _
    rw [lookup_reindexed, Option.map_map]
    rfl
  · refine moved_of_carried Matcher.outputs outs hout hpermOut hl hcarriedOut (fun e he => (hlists e he).2)
      fun sid => ?_
    show ((reindexed ..).lookup sid).map _ = _
    rw [lookup_reindexed, Option.map_map]
    rfl
  · dsimp only [places]
    rw [lookup_reindexed]
    cases m.participants.lookup sid <;> rfl

/-! ### The branch -/

theorem Moved.congr {perm : List ℕ} {side : Side α} {old new : MsgTx} (h : Moved perm side m m' old new)
    {m'' : JoinSession} (hparticipants : m''.participants = m'.participants) : Moved perm side m m'' old new := by
  have hplaces : ∀ sid, m''.places side sid = m'.places side sid := fun sid => by
    unfold JoinSession.places
    rw [hparticipants]
  exact ⟨h.range, h.length, fun sid => (congrArg _ (hplaces sid)).trans (h.places sid), h.entries⟩

/-- What the random branch amounts to: the loop, and the transaction it makes to everybody. -/
theorem sendTxData_shuffle (ch : Choices) {merged : MsgTx} (hrandom : m.randomIndex = true ∧ 1 < GoMap.len m.participants)
    (hin : Partition (m.places inputs) merged.txIn.length) (hout : Partition (m.places outputs) merged.txOut.length) :
    ∃ m₁ merged', Shuffle ch m m₁ merged merged' ∧ ∀ m', m.sendTxData ch merged = .ok m' ↔
      ∃ m₂, m₁.sendMerged ch 446 merged' = .ok m₂ ∧ m' = { m₂ with progress := .signedTx, clientTimeout := true } := by
  obtain ⟨txIn, txOut, participants, hok, hshuffle⟩ := exists_shuffle_session ch hin hout
  refine ⟨_, _, hshuffle, fun m' => ?_⟩
  rw [sendTxData_random hrandom]
  constructor
  · intro ⟨txIn', txOut', participants', m₂, hok', hsend, h⟩
    rw [hok] at hok'
    cases hok'
    exact ⟨m₂, hsend, h⟩
  · intro ⟨m₂, hsend, h⟩
    exact ⟨txIn, txOut, participants, m₂, hok, hsend, h⟩

theorem Shuffle.listening {m₁ : JoinSession} {merged merged' : MsgTx} (h : Shuffle ch m m₁ merged merged')
    (hm : m.Listening SessionParticipant.chanSubmitSplitTxRes) : m₁.Listening SessionParticipant.chanSubmitSplitTxRes := by
  have hreplies : m₁.replies = m.replies := by rw [h.session]
  refine ⟨fun sid p hp => ?_, ?_⟩
  · rw [h.lookup, Option.map_eq_some_iff] at hp
    obtain ⟨p', hp', rfl⟩ := hp
    rw [hreplies]
    exact hm.waits sid p' hp'
  · have hchans : ((GoMap.toList m₁.participants).map fun e => e.2.chanSubmitSplitTxRes).Perm
        ((GoMap.toList m.participants).map fun e => e.2.chanSubmitSplitTxRes) := by
      refine GoMap.map_toList_perm fun sid => ?_
      rw [h.lookup, Option.map_map]
      rfl
    exact hchans.nodup_iff.mpr hm.own

/-- The session `m'` has sent a rearranged transaction to everybody. -/
structure Redistributed (m m' : JoinSession) (merged merged' : MsgTx) : Prop where
  stored : m'.mergedSplitTx = some merged'
  header : merged' = { merged with txIn := merged'.txIn, txOut := merged'.txOut }
  members : ∀ sid, sid ∈ m'.participants.keys ↔ sid ∈ m.participants.keys
  inputs : Rearranged inputs m m' merged merged'
  outputs : Rearranged outputs m m' merged merged'
  whole : merged.Whole → merged'.Whole
  told : ∃ new : List (ℕ × Response), m'.replies = m.replies ++ new ∧
    (new.map fun e => (some e.1, e.2)).Perm ((GoMap.toList m'.participants).map fun e =>
      (e.2.chanSubmitSplitTxRes, .submitSplitTxRes merged' e.2.inputIndes e.2.outputIndes))

theorem Shuffle.redistributed {m₁ m₂ : JoinSession} {merged merged' : MsgTx} (h : Shuffle ch m m₁ merged merged')
    (hin : Partition (m.places Matcher.inputs) merged.txIn.length)
    (hout : Partition (m.places Matcher.outputs) merged.txOut.length)
    (hsend : m₁.sendMerged ch 446 merged' = .ok m₂) (hm' : m' = { m₂ with progress := .signedTx, clientTimeout := true }) :
    Redistributed m m' merged merged' := by
  obtain ⟨-, ⟨new, hreplies, hnew⟩, hsent⟩ := sendAll_of_ok hsend
  have hparticipants : m'.participants = m₁.participants := by rw [hm', hsent]
  have hmerged : m'.mergedSplitTx = some merged' := by rw [hm', hsent, h.session]
  have hinputs := (h.inputs.congr hparticipants).rearranged hin
  have houtputs := (h.outputs.congr hparticipants).rearranged hout
  refine ⟨hmerged, h.header, fun sid => ?_, hinputs, houtputs, fun hwhole => ?_, new, ?_, ?_⟩
  · rw [hparticipants, GoMap.mem_keys_iff, GoMap.mem_keys_iff, h.lookup, Option.isSome_map]
  · exact ⟨fun hnil => hwhole.1 (hinputs.perm.mem_iff.mp hnil), fun hnil => hwhole.2 (houtputs.perm.mem_iff.mp hnil)⟩
  · have hold : m₁.replies = m.replies := by rw [h.session]
    rw [hm', ← hold]
    exact hreplies
  · rw [hparticipants]
    exact hnew

/-- Both branches get through when everybody listens, the random one when the merged
transaction is the participants'. -/
theorem exists_sendTxData (ch : Choices) {merged : MsgTx} (hlistening : m.Listening SessionParticipant.chanSubmitSplitTxRes)
    (hparts : m.randomIndex = true ∧ 1 < GoMap.len m.participants →
      Partition (m.places inputs) merged.txIn.length ∧ Partition (m.places outputs) merged.txOut.length) :
    ∃ m', m.sendTxData ch merged = .ok m' := by
  by_cases hrandom : m.randomIndex = true ∧ 1 < GoMap.len m.participants
  · obtain ⟨hin, hout⟩ := hparts hrandom
    obtain ⟨m₁, merged', hshuffle, hiff⟩ := sendTxData_shuffle ch hrandom hin hout
    obtain ⟨m₂, hsend⟩ := exists_sendAll
      (fun p => .submitSplitTxRes merged' p.inputIndes p.outputIndes) (hshuffle.listening hlistening) ch.order [446]
    exact ⟨_, (hiff _).mpr ⟨m₂, hsend, rfl⟩⟩
  · obtain ⟨m₁, hsend⟩ := exists_sendAll (fun p => .submitSplitTxRes merged p.inputIndes p.outputIndes) hlistening ch.order [461]
    exact ⟨_, (sendTxData_plain hrandom).mpr ⟨m₁, hsend, rfl⟩⟩

/-- **The shuffle keeps content and ownership.** It gets through whenever everybody
listens, and then the transaction that was sent is the merged one rearranged, in which
each participant's new indices point at its own entries. -/
theorem shuffle_keeps_ownership (ch : Choices) {m : JoinSession} {merged : MsgTx}
    (hrandom : m.randomIndex = true ∧ 1 < GoMap.len m.participants)
    (hin : Partition (m.places inputs) merged.txIn.length) (hout : Partition (m.places outputs) merged.txOut.length) :
    (m.Listening SessionParticipant.chanSubmitSplitTxRes → ∃ m', m.sendTxData ch merged = .ok m') ∧
    ∀ m', m.sendTxData ch merged = .ok m' → ∃ merged', Redistributed m m' merged merged' := by
  obtain ⟨m₁, merged', hshuffle, hiff⟩ := sendTxData_shuffle ch hrandom hin hout
  constructor
  · intro hlistening
    exact exists_sendTxData ch hlistening fun _ => ⟨hin, hout⟩
  · intro m' hm'
    obtain ⟨m₂, hsend, heq⟩ := (hiff m').mp hm'
    exact ⟨merged', hshuffle.redistributed hin hout hsend heq⟩

/-- A participant as it waits for the merged transaction. -/
def submitted (sid : ℕ) (tx : MsgTx) (inputIndes outputIndes : List ℕ) : SessionParticipant :=
  { newParticipant sid with
    splitTx := some tx
    chanSubmitSplitTxRes := some sid
    inputIndes := inputIndes
    outputIndes := outputIndes }

def twoMerged : MsgTx :=
  { smallTx 1 with
    txIn := (smallTx 1).txIn ++ (smallTx 2).txIn ++ (smallTx 3).txIn
    txOut := (smallTx 1).txOut ++ (smallTx 2).txOut }

/-- Two participants, one with two of the three inputs, after the last of them has submitted. -/
def twoSubmitted (randomIndex : Bool) : JoinSession :=
  { newJoinSession randomIndex [] with
    participants := GoMap.ofList [(1, submitted 1 (smallTx 1) [0] [0]),
      (2, submitted 2 { smallTx 2 with txIn := (smallTx 2).txIn ++ (smallTx 3).txIn } [1, 2] [1])]
    mergedSplitTx := some twoMerged }

/-- Permutations that turn everything round. -/
def Choices.reversed : Choices :=
  { Choices.plain with
    perm := fun _ n => (List.range n).reverse
    perm_range := fun _ _ => List.reverse_perm _ }

theorem shuffle_keeps_ownership_two : ∃ m' merged', (twoSubmitted true).sendTxData Choices.reversed twoMerged = .ok m' ∧
    Redistributed (twoSubmitted true) m' twoMerged merged' := by
  obtain ⟨m', hm'⟩ : ∃ m', (twoSubmitted true).sendTxData Choices.reversed twoMerged = .ok m' := ⟨_, rfl⟩
  obtain ⟨merged', h⟩ := (shuffle_keeps_ownership Choices.reversed (m := twoSubmitted true) ⟨rfl, by decide⟩
    (partition_of_perm (by decide)) (partition_of_perm (by decide))).2 m' hm'
  exact ⟨m', merged', hm', h⟩

end JoinSession

end Dcrtxmatcher.Matcher
