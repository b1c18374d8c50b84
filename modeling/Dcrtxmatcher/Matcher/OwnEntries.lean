import Dcrtxmatcher.Lib.Pieces
import Dcrtxmatcher.Matcher.Agreement

/-! What a participant finds at its indices.

The merged transaction keeps the entries of those that leave and of split transactions
that are submitted again, so what is sent may have holes. Yet everybody's last split
transaction stands at the indices that it is sent, whatever the others do, and the
random branch of `SendTxData` sends nothing else. -/
namespace Dcrtxmatcher.Matcher
open Lib
open Coinjoin (TxIn TxOut OutPoint)

/-- A split transaction of a participant in the first stage. -/
structure SplitRequest where
  sessionID : ℕ
  splitTx : MsgTx
  resp : ℕ

/-- The split transaction stands in the merged one, in order. -/
structure SplitRequest.StandsIn (r : SplitRequest) (merged : MsgTx) (inputIndes outputIndes : List ℕ) : Prop where
  inputs : inputIndes.map (merged.txIn[·]?) = r.splitTx.txIn.map some
  outputs : outputIndes.map (merged.txOut[·]?) = r.splitTx.txOut.map some

namespace JoinSession
variable {α : Type} {ch : Choices} {m m' : JoinSession}

/-! ### Holding -/

/-- The participants' indices are disjoint, and everybody's own entries stand at its
indices in order. There may be more entries. -/
def Held (side : Side α) (m : JoinSession) : Prop :=
  Pieces (m.places side) (m.piece side) (m.mergedEntries side)

theorem Held.of_eq {side : Side α} (h : m.Held side) (hplaces : ∀ sid, m'.places side sid = m.places side sid)
    (hpiece : ∀ sid, m'.piece side sid = m.piece side sid) (hmerged : m'.mergedEntries side = m.mergedEntries side) :
    m'.Held side := by
  unfold Held
  rw [funext hplaces, funext hpiece, hmerged]
  exact h

/-- What a participant has submitted stands at its indices. -/
theorem Held.reads {side : Side α} (h : m.Held side) {sid : ℕ} {p : SessionParticipant} {tx merged : MsgTx}
    (hp : m.participants.lookup sid = some p) (htx : p.splitTx = some tx) (hmerged : m.mergedSplitTx = some merged) :
    (side.indes p).map ((side.entries merged)[·]?) = (side.entries tx).map some := by
  have hholds := h.holds sid
  rw [places_of_lookup hp, piece_of_lookup hp htx, mergedEntries, hmerged] at hholds
  exact hholds

/-- Some are gone, and their entries stay behind. -/
theorem Held.leave {side : Side α} (h : m.Held side)
    (hleft : ∀ sid, m'.participants.lookup sid = m.participants.lookup sid ∨ m'.participants.lookup sid = none)
    (hmerged : m'.mergedSplitTx = m.mergedSplitTx) : m'.Held side := by
  have hpieces : Pieces (m'.places side) (m'.piece side) (m.mergedEntries side) := Pieces.leave h fun sid => by
    rcases hleft sid with hsame | hgone
    · refine .inl ⟨?_, ?_⟩
      · rw [places, places, hsame]
      · rw [piece, piece, hsame]
    · refine .inr ⟨?_, ?_⟩
      · rw [places, hgone]
        rfl
      · rw [piece, hgone]
        rfl
  unfold Held
  rwa [show m'.mergedEntries side = m.mergedEntries side by rw [mergedEntries, mergedEntries, hmerged]]

/-- A split transaction goes to the end, and its participant has the indices there only. -/
theorem held_withSplitTx {side : Side α} {sid : ℕ} {splitTx : MsgTx} {f : SessionParticipant → SessionParticipant}
    (h : m.Held side) (hmem : sid ∈ m.participants.keys) (hparticipants : m'.participants = GoMap.modify sid f m.participants)
    (hindes : ∀ p, side.indes (f p) = List.range' (m.mergedEntries side).length (side.entries splitTx).length)
    (htx : ∀ p, (f p).splitTx = some splitTx)
    (hmerged : m'.mergedEntries side = m.mergedEntries side ++ side.entries splitTx) : m'.Held side := by
  obtain ⟨p, hp⟩ := GoMap.lookup_of_mem_keys hmem
  have hself : m'.participants.lookup sid = some (f p) := by rw [hparticipants, GoMap.lookup_modify_self, hp, Option.map_some]
  have hne : ∀ sid', sid' ≠ sid → m'.participants.lookup sid' = m.participants.lookup sid' := fun sid' hsid => by
    rw [hparticipants, GoMap.lookup_modify_ne hsid]
  have hplaces : m'.places side = Function.update (m.places side) sid
      (List.range' (m.mergedEntries side).length (side.entries splitTx).length) := by
    funext sid'
    by_cases hsid : sid' = sid
    · rw [hsid, Function.update_self, places_of_lookup hself, hindes]
    · rw [Function.update_of_ne hsid, places, places, hne sid' hsid]
  have hpiece : m'.piece side = Function.update (m.piece side) sid (side.entries splitTx) := by
    funext sid'
    by_cases hsid : sid' = sid
    · rw [hsid, Function.update_self, piece_of_lookup hself (htx p)]
    · rw [Function.update_of_ne hsid, piece, piece, hne sid' hsid]
  unfold Held
  rw [hplaces, hpiece, hmerged]
  exact h.replace sid _

/-! ### The random branch -/

section Shuffled
variable {merged : MsgTx} {perm : List ℕ} {l : List (ℕ × SessionParticipant)} {new : List (Option α)}

/-- Places with a participant's entries go where the permutation puts them. -/
theorem held_shuffled {side : Side α} (indes : ℕ → List ℕ) (h : m.Held side) (hmerged : m.mergedSplitTx = some merged)
    (hperm : perm.Perm (List.range (side.entries merged).length))
    (hl : ∀ sid p, m.participants.lookup sid = some p → (sid, p) ∈ l)
    (hcarried : Carried perm (side.entries merged) (l.flatMap fun e => side.indes e.2)
      (List.replicate (side.entries merged).length none) new)
    (hindes : ∀ e ∈ l, (indes e.1).map some = (side.indes e.2).map (perm[·]?))
    (hplaces : ∀ sid, m'.places side sid = (m.participants.lookup sid).elim [] fun _ => indes sid)
    (hpiece : ∀ sid, m'.piece side sid = m.piece side sid) (hnew : m'.mergedEntries side = new) : m'.Held side := by
  have hentries : m.mergedEntries side = side.entries merged := by
    rw [mergedEntries, hmerged]
    rfl
  unfold Held at h ⊢
  rw [funext hpiece, hnew]
  rw [hentries] at h
  refine h.move hperm (by rw [hcarried.length, List.length_replicate]) (fun sid => ?_) fun sid i hi j hij => ?_
  · rw [hplaces]
    rcases hp : m.participants.lookup sid with _ | p
    · rw [places, hp]
      rfl
    · rw [places_of_lookup hp]
      exact hindes (sid, p) (hl sid p hp)
  · obtain ⟨p, hp, hip⟩ := exists_of_mem_places hi
    exact hcarried.carried i j hij (List.mem_flatMap.mpr ⟨(sid, p), hl sid p hp, hip⟩)

/-- Nothing else goes anywhere: what is not nil is a participant's. -/
theorem owner_of_shuffled (side : Side α) (indes : ℕ → List ℕ) (hperm : perm.Perm (List.range (side.entries merged).length))
    (hl : ∀ e ∈ l, m.participants.lookup e.1 = some e.2)
    (hcarried : Carried perm (side.entries merged) (l.flatMap fun e => side.indes e.2)
      (List.replicate (side.entries merged).length none) new)
    (hindes : ∀ e ∈ l, (indes e.1).map some = (side.indes e.2).map (perm[·]?))
    (hplaces : ∀ sid, m'.places side sid = (m.participants.lookup sid).elim [] fun _ => indes sid) {j : ℕ} {a : α}
    (hj : new[j]? = some (some a)) : ∃ sid, j ∈ m'.places side sid := by
  have hlt : j < (side.entries merged).length := by
    have hlength := hcarried.length
    rw [List.length_replicate] at hlength
    exact hlength ▸ (List.getElem?_eq_some_iff.mp hj).1
  obtain ⟨i, hij⟩ := List.mem_iff_getElem?.mp (hperm.mem_iff.mpr (List.mem_range.mpr hlt))
  by_cases hi : i ∈ l.flatMap fun e => side.indes e.2
  · obtain ⟨e, he, hie⟩ := List.mem_flatMap.mp hi
    refine ⟨e.1, ?_⟩
    rw [hplaces, hl e he]
    have hmoved : some j ∈ (indes e.1).map some := by
      rw [hindes e he]
      exact List.mem_map.mpr ⟨i, hie, hij⟩
    obtain ⟨j', hj', heq⟩ := List.mem_map.mp hmoved
    exact Option.some.inj heq ▸ hj'
  · rw [hcarried.kept i j hij hi, List.getElem?_replicate, if_pos hlt] at hj
    cases hj

end Shuffled

/-- The session as the random branch sends it: everybody keeps its entries, and no others are there. -/
structure Cleared (m m₁ : JoinSession) (merged : MsgTx) : Prop where
  inputs : m.Held inputs → m₁.Held inputs
  outputs : m.Held outputs → m₁.Held outputs
  ownInputs : ∀ i a, merged.txIn[i]? = some (some a) → ∃ sid, i ∈ m₁.places Matcher.inputs sid
  ownOutputs : ∀ i a, merged.txOut[i]? = some (some a) → ∃ sid, i ∈ m₁.places Matcher.outputs sid
  session : m₁ = { m with participants := m₁.participants, mergedSplitTx := some merged }
  lookup : ∀ sid, ∃ ins outs, m₁.participants.lookup sid =
    (m.participants.lookup sid).map fun p => { p with inputIndes := ins, outputIndes := outs }

theorem cleared_of_ok {merged : MsgTx} {txIn : List (Option TxIn)} {txOut : List (Option TxOut)}
    {participants : GoMap ℕ SessionParticipant} (hmerged : m.mergedSplitTx = some merged)
    (hshuffle : shuffleAll (ch.perm 406 merged.txIn.length) (ch.perm 407 merged.txOut.length) merged
      (GoMap.range ch.order [421] m.participants) (List.replicate merged.txIn.length none)
      (List.replicate merged.txOut.length none) m.participants = .ok (txIn, txOut, participants)) :
    Cleared m
      { m with participants := participants, mergedSplitTx := some { merged with txIn := txIn, txOut := txOut } }
      { merged with txIn := txIn, txOut := txOut } := by
  have hpermIn := ch.perm_range 406 merged.txIn.length
  have hpermOut := ch.perm_range 407 merged.txOut.length
  have hbound : ∀ {β : Type} {perm : List ℕ} {n : ℕ}, perm.Perm (List.range n) →
      ∀ j ∈ perm, j < (List.replicate n (none : Option β)).length := by
    intro β perm n hperm j hj
    rw [List.length_replicate]
    exact List.mem_range.mp (hperm.mem_iff.mp hj)
  obtain ⟨hcarriedIn, hcarriedOut, ins, outs, hlists, rfl⟩ :=
    shuffleAll_eq_ok (hpermIn.nodup_iff.mpr List.nodup_range) (hpermOut.nodup_iff.mpr List.nodup_range)
      (GoMap.nodup_range ..) (hbound hpermIn) (hbound hpermOut) hshuffle
  obtain ⟨m₁, hm₁⟩ : ∃ m₁ : JoinSession, m₁ = { m with
    participants := reindexed ins outs ((GoMap.range ch.order [421] m.participants).map Prod.fst) m.participants
    mergedSplitTx := some { merged with txIn := txIn, txOut := txOut } } := ⟨_, rfl⟩
  have hlookup : ∀ sid, m₁.participants.lookup sid =
      (m.participants.lookup sid).map fun p => { p with inputIndes := ins sid, outputIndes := outs sid } := fun sid => by
    rw [hm₁]
    exact lookup_reindexed ..
  have hin : ∀ sid, m₁.places Matcher.inputs sid = (m.participants.lookup sid).elim [] fun _ => ins sid := fun sid => by
    rw [places, hlookup]
    cases m.participants.lookup sid <;> rfl
  have hout : ∀ sid, m₁.places Matcher.outputs sid = (m.participants.lookup sid).elim [] fun _ => outs sid := fun sid => by
    rw [places, hlookup]
    cases m.participants.lookup sid <;> rfl
  have hpiece : ∀ {β : Type} (side : Side β) sid, m₁.piece side sid = m.piece side sid := fun side sid => by
    rw [piece, piece, hlookup]
    cases m.participants.lookup sid <;> rfl
  have hl : ∀ sid p, m.participants.lookup sid = some p → (sid, p) ∈ GoMap.range ch.order [421] m.participants :=
    fun _ _ hp => GoMap.mem_range.mpr hp
  have hl' : ∀ e ∈ GoMap.range ch.order [421] m.participants, m.participants.lookup e.1 = some e.2 :=
    fun _ he => GoMap.mem_range.mp he
  have hinputs : ∀ e ∈ GoMap.range ch.order [421] m.participants, _ := fun e he => (hlists e he).1
  have houtputs : ∀ e ∈ GoMap.range ch.order [421] m.participants, _ := fun e he => (hlists e he).2
  rw [← hm₁]
  refine ⟨fun h => ?_, fun h => ?_, fun i a hi => ?_, fun i a hi => ?_, ?_, fun sid => ⟨ins sid, outs sid, hlookup sid⟩⟩
  · exact held_shuffled ins h hmerged hpermIn hl hcarriedIn hinputs hin (hpiece _) (by rw [hm₁]; rfl)
  · exact held_shuffled outs h hmerged hpermOut hl hcarriedOut houtputs hout (hpiece _) (by rw [hm₁]; rfl)
  · exact owner_of_shuffled Matcher.inputs ins hpermIn hl' hcarriedIn hinputs hin hi
  · exact owner_of_shuffled Matcher.outputs outs hpermOut hl' hcarriedOut houtputs hout hi
  · rw [hm₁]

/-! ### Sending -/

/-- What is sent to participants: the merged transaction, to each with its own indices. -/
structure Sending (merged : MsgTx) (m m' : JoinSession) : Prop where
  session : m' = { m with replies := m'.replies }
  old : m.replies ⊆ m'.replies
  new : ∀ e ∈ m'.replies, e ∉ m.replies → ∃ sid p, m.participants.lookup sid = some p ∧ p.chanSubmitSplitTxRes = some e.1 ∧
    e.2 = .submitSplitTxRes merged p.inputIndes p.outputIndes

/-- It is sent to all of them. -/
structure Sent (merged : MsgTx) (m m' : JoinSession) : Prop extends Sending merged m m' where
  told : ∀ sid p, m.participants.lookup sid = some p →
    ∃ c, (c, .submitSplitTxRes merged p.inputIndes p.outputIndes) ∈ m'.replies

theorem sent_of_ok {site : ℕ} {merged : MsgTx} (h : m.sendMerged ch site merged = .ok m') : Sent merged m m' := by
  obtain ⟨-, ⟨new, hreplies, htold⟩, hsent⟩ := sendAll_of_ok h
  refine ⟨⟨hsent, hreplies ▸ List.subset_append_left _ _, fun e hmem hold => ?_⟩, fun sid p hp => ?_⟩
  · rw [hreplies, List.mem_append] at hmem
    have hnew : (some e.1, e.2) ∈ new.map fun e => (some e.1, e.2) := List.mem_map.mpr ⟨e, hmem.resolve_left hold, rfl⟩
    obtain ⟨⟨sid, p⟩, he, heq⟩ := List.mem_map.mp (htold.mem_iff.mp hnew)
    rw [Prod.mk.injEq] at heq
    exact ⟨sid, p, GoMap.mem_toList.mp he, heq.1, heq.2.symm⟩
  · have hnew := htold.mem_iff.mpr (List.mem_map_of_mem (GoMap.mem_toList.mpr hp))
    obtain ⟨⟨c, res⟩, he, heq⟩ := List.mem_map.mp hnew
    rw [Prod.mk.injEq] at heq
    obtain ⟨-, hres⟩ := heq
    dsimp only at hres
    exact ⟨c, hreplies ▸ List.mem_append_right _ (hres ▸ he)⟩

/-- Also when the loop is stuck at somebody. -/
theorem sending_of_stuck {site : ℕ} {merged : MsgTx} (h : m.sendMerged ch site merged = .error (.send m')) : Sending merged m m' := by
  obtain ⟨new, rfl, hnew⟩ := sendAll_stuck h
  refine ⟨rfl, List.subset_append_left _ _, fun e hmem hold => ?_⟩
  obtain ⟨sid, p, hp, hchan, hres⟩ := hnew e ((List.mem_append.mp hmem).resolve_left hold)
  exact ⟨sid, p, hp, hchan, hres.symm⟩

/-- In the random branch the session is cleared before. -/
theorem exists_cleared {merged : MsgTx} (hmerged : m.mergedSplitTx = some merged)
    (hrandom : m.randomIndex = true ∧ 1 < GoMap.len m.participants) (h : m.sendTxData ch merged = .ok m') :
    ∃ merged' m₁ m₂, Cleared m m₁ merged' ∧ Sent merged' m₁ m₂ ∧ m' = { m₂ with progress := .signedTx, clientTimeout := true } := by
  obtain ⟨txIn, txOut, participants, m₂, hshuffle, hsend, rfl⟩ := (sendTxData_random hrandom).mp h
  exact ⟨_, _, m₂, cleared_of_ok hmerged hshuffle, sent_of_ok hsend, rfl⟩

/-! ### Nothing else -/

/-- Whatever is not nil in a merged transaction stands at an index that was sent with it. -/
structure Accounted (m : JoinSession) (merged : MsgTx) : Prop where
  inputs : ∀ i a, merged.txIn[i]? = some (some a) →
    ∃ c ins outs, (c, .submitSplitTxRes merged ins outs) ∈ m.replies ∧ i ∈ ins
  outputs : ∀ i a, merged.txOut[i]? = some (some a) →
    ∃ c ins outs, (c, .submitSplitTxRes merged ins outs) ∈ m.replies ∧ i ∈ outs

/-- What leaves the first stage is accounted for. While the participants are two or more nothing is sent in it. -/
structure NothingElse (m : JoinSession) : Prop where
  unsent : m.progress = .rawTx → m.randomIndex = true → 1 < GoMap.len m.participants →
    ∀ c merged ins outs, (c, .submitSplitTxRes merged ins outs) ∉ m.replies
  accounted : m.progress ≠ .rawTx → ∀ c merged ins outs, (c, .submitSplitTxRes merged ins outs) ∈ m.replies →
    m.Accounted merged

theorem Accounted.mono {merged : MsgTx} (h : m.Accounted merged) (hsub : m.replies ⊆ m'.replies) : m'.Accounted merged where
  inputs i a hi := by
    obtain ⟨c, ins, outs, hmem, hin⟩ := h.inputs i a hi
    exact ⟨c, ins, outs, hsub hmem, hin⟩
  outputs i a hi := by
    obtain ⟨c, ins, outs, hmem, hin⟩ := h.outputs i a hi
    exact ⟨c, ins, outs, hsub hmem, hin⟩

theorem NothingElse.keep (h : m.NothingElse) (hrandom : m'.randomIndex = m.randomIndex)
    (hstage : m'.progress = .rawTx ↔ m.progress = .rawTx) (hlen : GoMap.len m'.participants ≤ GoMap.len m.participants)
    (hsub : m.replies ⊆ m'.replies) (hnone : ∀ c tx ins outs, (c, Response.submitSplitTxRes tx ins outs) ∈ m'.replies →
      (c, Response.submitSplitTxRes tx ins outs) ∈ m.replies) : m'.NothingElse where
  unsent hraw hrandom' hmany c merged ins outs hmem :=
    h.unsent (hstage.mp hraw) (hrandom ▸ hrandom') (hmany.trans_le hlen) c merged ins outs (hnone c merged ins outs hmem)
  accounted hraw c merged ins outs hmem :=
    (h.accounted (fun heq => hraw (hstage.mpr heq)) c merged ins outs (hnone c merged ins outs hmem)).mono hsub

/-- The random branch accounts for what it sends. -/
theorem accounted_of_cleared {m₁ : JoinSession} {merged : MsgTx} (hcleared : Cleared m m₁ merged) (hsent : Sent merged m₁ m') :
    m'.Accounted merged where
  inputs i a hi := by
    obtain ⟨sid, hsid⟩ := hcleared.ownInputs i a hi
    obtain ⟨p, hp, hip⟩ := exists_of_mem_places hsid
    obtain ⟨c, hc⟩ := hsent.told sid p hp
    exact ⟨c, _, _, hc, hip⟩
  outputs i a hi := by
    obtain ⟨sid, hsid⟩ := hcleared.ownOutputs i a hi
    obtain ⟨p, hp, hip⟩ := exists_of_mem_places hsid
    obtain ⟨c, hc⟩ := hsent.told sid p hp
    exact ⟨c, _, _, hc, hip⟩

theorem NothingElse.sendTxData {merged : MsgTx} (h : m.NothingElse) (hstage : m.progress = .rawTx)
    (hmerged : m.mergedSplitTx = some merged) (hsend : m.sendTxData ch merged = .ok m') : m'.NothingElse := by
  by_cases hrandom : m.randomIndex = true ∧ 1 < GoMap.len m.participants
  · obtain ⟨merged', m₁, m₂, hcleared, hsent, rfl⟩ := exists_cleared hmerged hrandom hsend
    have hreplies : m₁.replies = m.replies := by rw [hcleared.session]
    refine ⟨(by intro hraw; cases hraw), fun _ c tx ins outs hmem => ?_⟩
    obtain ⟨sid, p, -, -, heq⟩ := hsent.new _ hmem fun hold => h.unsent hstage hrandom.1 hrandom.2 c tx ins outs (hreplies ▸ hold)
    cases heq
    exact (accounted_of_cleared hcleared hsent).mono (List.Subset.refl _)
  · obtain ⟨m₁, hplain, rfl⟩ := (sendTxData_plain hrandom).mp hsend
    have hsession := (sent_of_ok hplain).session
    refine ⟨fun _ hrandom' hmany => ?_, fun hraw => ?_⟩
    · rw [hsession] at hrandom' hmany
      exact absurd ⟨hrandom', hmany⟩ hrandom
    · rw [hsession] at hraw
      exact absurd hstage hraw

theorem NothingElse.signing {sid resp : ℕ} {tx : MsgTx} {p : SessionParticipant} {err : Option Err} (h : m.NothingElse)
    (hstage : m.progress = .signedTx) (hp : m.participants.lookup sid = some p) (hsigning : Signing ch sid tx resp m err m') :
    m'.progress ≠ .rawTx ∧ m'.NothingElse := by
  have hkeeps := hsigning.keeps
  have hraw : m.progress ≠ .rawTx := hstage.trans_ne (by decide)
  have hraw' : m'.progress ≠ .rawTx := by
    obtain ⟨-, -, ⟨hsame, -⟩ | ⟨hdone, -⟩⟩ := hsigning.rest hp
    · exact hsame.trans_ne hraw
    · exact hdone.trans_ne (by decide)
  exact ⟨hraw', fun heq => absurd heq hraw', fun _ c merged ins outs hmem =>
    (h.accounted hraw c merged ins outs (hkeeps.noneSent c merged ins outs hmem)).mono hkeeps.replies⟩

theorem NothingElse.withSplitTx (h : m.NothingElse) (sid : ℕ) (splitTx : MsgTx) (resp : ℕ) (merged : MsgTx) (ins outs : List ℕ) :
    (m.withSplitTx sid splitTx resp merged ins outs).NothingElse :=
  h.keep rfl Iff.rfl (le_of_eq (GoMap.len_modify ..)) (List.Subset.refl _) fun _ _ _ _ hmem => hmem

theorem NothingElse.err (h : m.NothingElse) (resp : ℕ) (err : Err) :
    NothingElse { m with replies := m.replies ++ [(resp, .err err)] } := by
  refine h.keep rfl Iff.rfl (le_refl _) (List.subset_append_left _ _) fun c tx ins outs hmem => ?_
  refine (List.mem_append.mp hmem).resolve_right fun hnew => ?_
  cases List.mem_singleton.mp hnew

/-- Of three participants the first submits again and the third leaves after it has submitted. -/
def withdrawing : List (Choices × Event) :=
  [(Choices.reversed, .submitSplitTx 1 (smallTx 1) 0), (Choices.reversed, .submitSplitTx 3 (smallTx 3) 1),
    (Choices.reversed, .submitSplitTx 1 (smallTx 4) 2), (Choices.reversed, .removeSessionID 3), (Choices.reversed, .submitSplitTx 2 (smallTx 2) 3)]

/-- The transaction that is sent then, with two of the four inputs that were submitted. -/
def withdrawn : MsgTx :=
  { smallTx 1 with
    txIn := (smallTx 2).txIn ++ (smallTx 4).txIn ++ [none, none]
    txOut := (smallTx 2).txOut ++ (smallTx 4).txOut ++ [none, none] }

end JoinSession

/-! ### Submissions -/

/-- A session with the split transactions of its participants so far, the latest first. -/
structure Submissions where
  session : JoinSession
  requests : List SplitRequest

namespace Submissions
open JoinSession
variable {ch : Choices} {t t' : Submissions} {m' : JoinSession}

def start (m : JoinSession) : Submissions := ⟨m, []⟩

/-- The split transaction that an event brings. -/
def taken (m : JoinSession) : Event → List SplitRequest
  | .submitSplitTx sessionID splitTx resp =>
    if m.progress = .rawTx ∧ sessionID ∈ m.participants.keys then [⟨sessionID, splitTx, resp⟩] else []
  | _ => []

def step (t : Submissions) (ev : Choices × Event) : Option Submissions :=
  (t.session.step ev).map fun m => ⟨m, taken t.session ev.2 ++ t.requests⟩

/-- One turn, also when `Run` does not get through. -/
def attempt (t : Submissions) (ev : Choices × Event) : Option Submissions :=
  (t.session.attempt ev).map fun m => ⟨m, taken t.session ev.2 ++ t.requests⟩

/-- The participant's last split transaction. -/
def latest (sid : ℕ) (t : Submissions) : Option SplitRequest := t.requests.find? fun r => r.sessionID = sid

/-- Everybody has its own, in the session and in every answer. -/
structure OwnEntries (t : Submissions) : Prop where
  inputs : t.session.Held inputs
  outputs : t.session.Held outputs
  latest : ∀ sid p, t.session.participants.lookup sid = some p →
    p.splitTx = (t.latest sid).map SplitRequest.splitTx ∧ p.chanSubmitSplitTxRes = (t.latest sid).map SplitRequest.resp
  answered : ∀ c merged ins outs, (c, .submitSplitTxRes merged ins outs) ∈ t.session.replies →
    ∃ r ∈ t.requests, r.resp = c ∧ r.StandsIn merged ins outs

theorem step_eq_some {ev : Choices × Event} (h : t.step ev = some t') :
    t.session.step ev = some t'.session ∧ t'.requests = taken t.session ev.2 ++ t.requests := by
  obtain ⟨m, hstep, rfl⟩ := Option.map_eq_some_iff.mp h
  exact ⟨hstep, rfl⟩

theorem ownEntries_start (randomIndex : Bool) (waitingPars : List ℕ) :
    OwnEntries (start (newJoinSession randomIndex waitingPars)) where
  inputs := (owned_newJoinSession (fun _ => rfl) ..).pieces
  outputs := (owned_newJoinSession (fun _ => rfl) ..).pieces
  latest sid p hp := by
    rw [lookup_newJoinSession hp]
    exact ⟨rfl, rfl⟩
  answered _ _ _ _ hmem := absurd hmem List.not_mem_nil

/-! ### One turn -/

/-- A turn that is not about split transactions. -/
theorem OwnEntries.keep (h : OwnEntries t) (hkeeps : Keeps t.session m')
    (hback : ∀ sid p', m'.participants.lookup sid = some p' → ∃ p, t.session.participants.lookup sid = some p ∧
      p'.splitTx = p.splitTx ∧ p'.chanSubmitSplitTxRes = p.chanSubmitSplitTxRes) : OwnEntries ⟨m', t.requests⟩ where
  inputs := h.inputs.of_eq hkeeps.places_inputs (hkeeps.piece _) (hkeeps.mergedEntries _)
  outputs := h.outputs.of_eq hkeeps.places_outputs (hkeeps.piece _) (hkeeps.mergedEntries _)
  latest sid p' hp' := by
    obtain ⟨p, hp, htx, hchan⟩ := hback sid p' hp'
    rw [htx, hchan]
    exact h.latest sid p hp
  answered c merged ins outs hmem := h.answered c merged ins outs (hkeeps.noneSent c merged ins outs hmem)

/-- Whoever leaves, the others keep their own. -/
theorem OwnEntries.leave (h : OwnEntries t)
    (hleft : ∀ sid, m'.participants.lookup sid = t.session.participants.lookup sid ∨ m'.participants.lookup sid = none)
    (hmerged : m'.mergedSplitTx = t.session.mergedSplitTx) (hreplies : m'.replies = t.session.replies) :
    OwnEntries ⟨m', t.requests⟩ where
  inputs := h.inputs.leave hleft hmerged
  outputs := h.outputs.leave hleft hmerged
  latest sid p hp := by
    rcases hleft sid with hsame | hgone
    · exact h.latest sid p (hsame ▸ hp)
    · rw [hgone] at hp
      cases hp
  answered c merged ins outs hmem := h.answered c merged ins outs (hreplies ▸ hmem)

/-- A participant's split transaction is noted. -/
theorem OwnEntries.noted {sid resp : ℕ} {splitTx merged : MsgTx} {ins outs : List ℕ} (h : OwnEntries t)
    (hmem : sid ∈ t.session.participants.keys)
    (hmerge : mergeSplitTx splitTx t.session.mergedSplitTx = .ok (merged, ins, outs)) :
    OwnEntries ⟨t.session.withSplitTx sid splitTx resp merged ins outs, ⟨sid, splitTx, resp⟩ :: t.requests⟩ := by
  obtain ⟨htxIn, htxOut, hinputs, houtputs, -⟩ := mergeSplitTx_eq_ok hmerge
  have hparticipants := participants_withSplitTx sid splitTx resp merged ins outs t.session
  refine ⟨?_, ?_, fun sid' p' hp' => ?_, fun c tx ins' outs' hold => ?_⟩
  · exact held_withSplitTx h.inputs hmem hparticipants (fun _ => hinputs) (fun _ => rfl) htxIn
  · exact held_withSplitTx h.outputs hmem hparticipants (fun _ => houtputs) (fun _ => rfl) htxOut
  · dsimp only at hp'
    rw [hparticipants] at hp'
    by_cases hsid : sid' = sid
    · rw [hsid, GoMap.lookup_modify_self, Option.map_eq_some_iff] at hp'
      obtain ⟨p, -, rfl⟩ := hp'
      rw [Submissions.latest, List.find?_cons_of_pos (by simpa using hsid.symm)]
      exact ⟨rfl, rfl⟩
    · rw [GoMap.lookup_modify_ne hsid] at hp'
      rw [Submissions.latest, List.find?_cons_of_neg (by simpa using fun heq => hsid heq.symm)]
      exact h.latest sid' p' hp'
  · obtain ⟨r, hr, hresp⟩ := h.answered c tx ins' outs' hold
    exact ⟨r, List.mem_cons_of_mem _ hr, hresp⟩

/-- The merged transaction is sent as it is stored. -/
theorem OwnEntries.sending {merged : MsgTx} (h : OwnEntries t) (hmerged : t.session.mergedSplitTx = some merged)
    (hsent : Sending merged t.session m') : OwnEntries ⟨m', t.requests⟩ := by
  have hsession := hsent.session
  have hanswered : ∀ c tx ins outs, (c, .submitSplitTxRes tx ins outs) ∈ m'.replies →
      ∃ r ∈ t.requests, r.resp = c ∧ r.StandsIn tx ins outs := by
    intro c tx ins outs hmem
    by_cases hold : (c, Response.submitSplitTxRes tx ins outs) ∈ t.session.replies
    · exact h.answered c tx ins outs hold
    · obtain ⟨sid, p, hp, hchan, heq⟩ := hsent.new _ hmem hold
      cases heq
      obtain ⟨htx, hresp⟩ := h.latest sid p hp
      -- the channel is that of the last split transaction, which is the one that stands there
      obtain ⟨r, hlatest, hr⟩ := Option.map_eq_some_iff.mp (hresp.symm.trans hchan)
      rw [hlatest, Option.map_some] at htx
      exact ⟨r, List.mem_of_find?_eq_some hlatest, hr, h.inputs.reads hp htx hmerged, h.outputs.reads hp htx hmerged⟩
  refine ⟨?_, ?_, ?_, hanswered⟩
  · rw [hsession]
    exact h.inputs
  · rw [hsession]
    exact h.outputs
  · rw [hsession]
    exact h.latest

/-- The session as the random branch sends it. -/
theorem OwnEntries.cleared {merged : MsgTx} (h : OwnEntries t) (hcleared : Cleared t.session m' merged) :
    OwnEntries ⟨m', t.requests⟩ := by
  refine ⟨hcleared.inputs h.inputs, hcleared.outputs h.outputs, fun sid p' hp' => ?_, ?_⟩
  · obtain ⟨ins, outs, hlookup⟩ := hcleared.lookup sid
    dsimp only at hp'
    rw [hlookup, Option.map_eq_some_iff] at hp'
    obtain ⟨p, hp, rfl⟩ := hp'
    exact h.latest sid p hp
  · rw [hcleared.session]
    exact h.answered

theorem OwnEntries.sendTxData {merged : MsgTx} (h : OwnEntries t) (hmerged : t.session.mergedSplitTx = some merged)
    (hsend : t.session.sendTxData ch merged = .ok m') : OwnEntries ⟨m', t.requests⟩ := by
  by_cases hrandom : t.session.randomIndex = true ∧ 1 < GoMap.len t.session.participants
  · obtain ⟨merged', m₁, m₂, hcleared, hsent, rfl⟩ := exists_cleared hmerged hrandom hsend
    have hstored : m₁.mergedSplitTx = some merged' := by rw [hcleared.session]
    have h₂ := (h.cleared hcleared).sending hstored hsent.toSending
    exact ⟨h₂.inputs, h₂.outputs, h₂.latest, h₂.answered⟩
  · obtain ⟨m₁, hplain, rfl⟩ := (sendTxData_plain hrandom).mp hsend
    have h₁ := h.sending hmerged (sent_of_ok hplain).toSending
    exact ⟨h₁.inputs, h₁.outputs, h₁.latest, h₁.answered⟩

/-- A loop that is stuck has sent everybody it has come to its own. -/
theorem OwnEntries.sendTxData_stuck {merged : MsgTx} (h : OwnEntries t) (hmerged : t.session.mergedSplitTx = some merged)
    (hsend : t.session.sendTxData ch merged = .error (.send m')) : OwnEntries ⟨m', t.requests⟩ := by
  rcases JoinSession.sendTxData_stuck hsend with ⟨txIn, txOut, participants, hshuffle, hstuck⟩ | hstuck
  · exact (h.cleared (cleared_of_ok hmerged hshuffle)).sending rfl (sending_of_stuck hstuck)
  · exact h.sending hmerged (sending_of_stuck hstuck)

theorem OwnEntries.err (h : OwnEntries t) (resp : ℕ) (err : Err) :
    OwnEntries ⟨{ t.session with replies := t.session.replies ++ [(resp, .err err)] }, t.requests⟩ := by
  refine ⟨h.inputs, h.outputs, h.latest, fun c tx ins outs hmem => ?_⟩
  refine h.answered c tx ins outs ((List.mem_append.mp hmem).resolve_right fun hnew => ?_)
  cases List.mem_singleton.mp hnew

theorem OwnEntries.signing {sid resp : ℕ} {tx : MsgTx} {p : SessionParticipant} {err : Option Err} (h : OwnEntries t)
    (hp : t.session.participants.lookup sid = some p) (hsigning : Signing ch sid tx resp t.session err m') :
    OwnEntries ⟨m', t.requests⟩ := by
  refine h.keep hsigning.keeps fun sid' q' hq' => ?_
  obtain ⟨publisher, hlookup⟩ := hsigning.lookup hp sid'
  rw [hlookup, lookup_withSignedTx, Option.map_map, Option.map_eq_some_iff] at hq'
  obtain ⟨q, hq, rfl⟩ := hq'
  refine ⟨q, hq, ?_⟩
  rw [Function.comp_apply]
  split_ifs
  · exact ⟨rfl, rfl⟩
  · exact ⟨rfl, rfl⟩

theorem OwnEntries.signing_stuck {sid resp randIndex i : ℕ} {tx signedTx : MsgTx} {l : List (ℕ × SessionParticipant)} (h : OwnEntries t)
    (hsend : sendSigned randIndex signedTx i l { t.session.withSignedTx sid tx resp with signedTx := some signedTx } = .error (.send m')) :
    OwnEntries ⟨m', t.requests⟩ := by
  obtain ⟨hlookup, new, hsession, hnew⟩ := sendSigned_stuck hsend
  have hback : ∀ sid' q', m'.participants.lookup sid' = some q' → ∃ q, t.session.participants.lookup sid' = some q ∧
      (q'.splitTx = q.splitTx ∧ q'.chanSubmitSplitTxRes = q.chanSubmitSplitTxRes) := by
    intro sid' q' hq'
    obtain ⟨publisher, hlookup⟩ := hlookup sid'
    rw [hlookup, lookup_withSignedTx, Option.map_map, Option.map_eq_some_iff] at hq'
    obtain ⟨q, hq, rfl⟩ := hq'
    refine ⟨q, hq, ?_⟩
    rw [Function.comp_apply]
    split_ifs
    · exact ⟨rfl, rfl⟩
    · exact ⟨rfl, rfl⟩
  refine h.keep ⟨fun sid' => ?_, by rw [hsession], ?_, fun c merged ins outs hmem => ?_⟩ hback
  · obtain ⟨publisher, hlookup⟩ := hlookup sid'
    rw [hlookup, lookup_withSignedTx, Option.map_map]
    refine ⟨_, rfl, fun q => ?_⟩
    rw [Function.comp_apply]
    split_ifs
    · exact ⟨rfl, rfl, rfl⟩
    · exact ⟨rfl, rfl, rfl⟩
  · rw [hsession]
    exact List.subset_append_left _ _
  · rw [hsession] at hmem
    refine (List.mem_append.mp hmem).resolve_right fun he => ?_
    obtain ⟨publisher, heq⟩ := hnew _ he
    cases heq

theorem OwnEntries.withPublished (h : OwnEntries t) (sid : ℕ) (publisher : Bool) (tx : Option MsgTx) (resp : ℕ) :
    OwnEntries ⟨t.session.withPublished sid publisher tx resp, t.requests⟩ := by
  refine h.keep (.modify (participants_withPublished ..) rfl rfl fun _ => ⟨rfl, rfl, rfl⟩) fun sid' q' hq' => ?_
  rw [lookup_withPublished, Option.map_eq_some_iff] at hq'
  obtain ⟨q, hq, rfl⟩ := hq'
  refine ⟨q, hq, ?_⟩
  split_ifs
  · exact ⟨rfl, rfl⟩
  · exact ⟨rfl, rfl⟩

theorem taken_of_served {m : JoinSession} {sid : ℕ} {splitTx : MsgTx} {resp : ℕ} (hstage : m.progress = .rawTx)
    (hmem : sid ∈ m.participants.keys) : taken m (.submitSplitTx sid splitTx resp) = [⟨sid, splitTx, resp⟩] :=
  if_pos ⟨hstage, hmem⟩

theorem taken_of_refused {m : JoinSession} {ev : Event} (h : ¬ ev.Served m) : taken m ev = [] := by
  cases ev with
  | submitSplitTx sessionID splitTx resp => exact if_neg h
  | clientTimeout => rfl
  | submitSignedTx => rfl
  | publishResult => rfl
  | removeSessionID => rfl

theorem ownEntries_step {ev : Choices × Event} (h : OwnEntries t) (hstep : t.step ev = some t') : OwnEntries t' := by
  obtain ⟨ch, ev⟩ := ev
  obtain ⟨hsession, hrequests⟩ := step_eq_some hstep
  obtain ⟨m', requests⟩ := t'
  dsimp only at hsession hrequests
  cases turned_of_step hsession with
  | fired =>
    subst hrequests
    exact h.leave (fun sid => (lookup_timeout_cases ch t.session sid).imp_right And.left) rfl rfl
  | left sessionID =>
    subst hrequests
    exact h.leave (fun sid => (lookup_removeSessionID_cases t.session sessionID sid).imp_right And.left) rfl rfl
  | refused _ hserved =>
    rw [taken_of_refused hserved] at hrequests
    subst hrequests
    exact h.err ..
  | merging hstage hmem hmerge =>
    rw [taken_of_served hstage hmem] at hrequests
    subst hrequests
    exact h.noted hmem hmerge
  | merged hstage hmem hmerge _ hsend =>
    rw [taken_of_served hstage hmem] at hrequests
    subst hrequests
    exact (h.noted hmem hmerge).sendTxData rfl hsend
  | invalid _ hp hsigning =>
    subst hrequests
    exact (h.signing hp hsigning).err ..
  | signed _ hp hsigning =>
    subst hrequests
    exact h.signing hp hsigning
  | publishing =>
    subst hrequests
    exact h.withPublished ..
  | @published sid tx resp p m₁ hstage hp hall hsend =>
    subst hrequests
    have h' := h.withPublished sid p.publisher tx resp
    obtain ⟨hsent, new, hreplies, hnew⟩ := sendPublished_quiet hsend
    rw [hsent]
    refine ⟨h'.inputs, h'.outputs, h'.latest, fun c merged ins outs hmem => ?_⟩
    dsimp only at hmem
    rw [hreplies, List.mem_append] at hmem
    exact h'.answered c merged ins outs (hmem.resolve_right fun he => hnew .rawTx (by decide) _ he rfl)

/-- Also in a turn that is stuck. -/
theorem ownEntries_attempt {ev : Choices × Event} (h : OwnEntries t) (hattempt : t.attempt ev = some t') : OwnEntries t' := by
  obtain ⟨ch, ev⟩ := ev
  obtain ⟨m', hsession, rfl⟩ := Option.map_eq_some_iff.mp hattempt
  rcases step_or_stalled hsession with hstep | hstalled
  · exact ownEntries_step h (Option.map_eq_some_iff.mpr ⟨m', hstep, rfl⟩)
  · cases hstalled with
    | refused hserved =>
      dsimp only
      rw [taken_of_refused hserved]
      exact h
    | merged hstage hmem hmerge _ hsend =>
      dsimp only
      rw [taken_of_served hstage hmem]
      exact (h.noted hmem hmerge).sendTxData_stuck rfl hsend
    | invalid _ hp hsigning => exact h.signing hp hsigning
    | signed _ _ _ _ _ _ hsend => exact h.signing_stuck hsend
    | @published sid tx resp p _ _ _ hsend =>
      have h' := h.withPublished sid p.publisher tx resp
      obtain ⟨new, rfl, hnew⟩ := sendPublished_stuck hsend
      refine ⟨h'.inputs, h'.outputs, h'.latest, fun c merged ins outs hmem => ?_⟩
      exact h'.answered c merged ins outs ((List.mem_append.mp hmem).resolve_right fun he => hnew .rawTx (by decide) _ he rfl)

/-- A run of a session with the split transactions noted on the way. -/
theorem exists_submissions {m₀ m : JoinSession} (h : RunsTo JoinSession.step (fun _ _ => True) m₀ m) :
    ∃ requests, RunsTo step (fun _ _ => True) (start m₀) ⟨m, requests⟩ := by
  induction h with
  | start => exact ⟨[], .start⟩
  | step _ ev _ hstep ih =>
    obtain ⟨requests, hrun⟩ := ih
    exact ⟨_, .step hrun ev trivial (Option.map_eq_some_iff.mpr ⟨_, hstep, rfl⟩)⟩

/-- In every reachable session everybody has its own. -/
theorem held_of_runsTo {randomIndex : Bool} {waitingPars : List ℕ} {m : JoinSession}
    (h : RunsTo JoinSession.step (fun _ _ => True) (newJoinSession randomIndex waitingPars) m) : m.Held inputs ∧ m.Held outputs := by
  obtain ⟨requests, hrun⟩ := exists_submissions h
  have hown : OwnEntries ⟨m, requests⟩ :=
    hrun.invariant (ownEntries_start randomIndex waitingPars) fun _ _ _ hm _ hstep => ownEntries_step hm hstep
  exact ⟨hown.inputs, hown.outputs⟩

/-- **Everybody finds its own.** In every run, an answer with the merged transaction answers a split transaction
that was submitted with its channel and that stands in the merged one at the indices it names; no two
participants have an index in common. The same holds of a turn in which `Run` is stuck. -/
theorem own_entries {randomIndex : Bool} {waitingPars : List ℕ}
    (h : RunsTo step (fun _ _ => True) (start (newJoinSession randomIndex waitingPars)) t) :
    t.OwnEntries ∧ ∀ ev t', t.attempt ev = some t' → t'.OwnEntries := by
  have hown : t.OwnEntries :=
    h.invariant (ownEntries_start randomIndex waitingPars) fun _ _ _ hm _ hstep => ownEntries_step hm hstep
  exact ⟨hown, fun _ _ => ownEntries_attempt hown⟩

/-- Two participants that are answered while their session stays in the first stage. -/
def bothAnswered : Submissions :=
  after step (start (newJoinSession false [1, 2])) [(.plain, .submitSplitTx 1 (smallTx 1) 0), (.plain, .submitSplitTx 2 (smallTx 2) 1)]

/-- The second one submits again: it is answered, and then the loop is stuck at the first one. -/
theorem own_entries_three :
    (∃ t : Submissions, t.session.replies = [(3, .submitSplitTxRes withdrawn [0] [0]), (2, .submitSplitTxRes withdrawn [1] [1])] ∧
      t.OwnEntries) ∧
    ∃ t' : Submissions, bothAnswered.step (.plain, .submitSplitTx 2 (smallTx 4) 2) = none ∧
      t'.session.replies.map Prod.fst = [1, 0, 2] ∧ t'.OwnEntries := by
  have hthree : RunsTo step (fun _ _ => True) (start (newJoinSession true [1, 2, 3]))
      (after step (start (newJoinSession true [1, 2, 3])) withdrawing) := .of_events withdrawing (foldlM_eq_after rfl)
  have htwo : RunsTo step (fun _ _ => True) (start (newJoinSession false [1, 2])) bothAnswered := .of_events _ (foldlM_eq_after rfl)
  exact ⟨⟨_, rfl, (own_entries hthree).1⟩, after attempt bothAnswered [(.plain, .submitSplitTx 2 (smallTx 4) 2)], rfl, rfl,
    (own_entries htwo).2 (.plain, .submitSplitTx 2 (smallTx 4) 2) _ rfl⟩

end Submissions

end Dcrtxmatcher.Matcher
