import Dcrtxmatcher.Matcher.Shuffling
import Dcrtxmatcher.Matcher.Stages

/-! Merging the signed transactions.

The session starts from a copy of whichever transaction comes first and takes each
participant's own entries from the participant's transaction. Once everybody has
submitted, every entry is its owner's, whoever came first, and one participant is told
to publish. -/
namespace Dcrtxmatcher.Matcher
open Lib
open Coinjoin (TxIn TxOut OutPoint)

namespace JoinSession
variable {α : Type} {ch : Choices} {m m' : JoinSession}

/-! ### The publisher -/

theorem markPublisher_past {randIndex i : ℕ} (h : randIndex < i) (l : List (ℕ × SessionParticipant))
    (participants : GoMap ℕ SessionParticipant) : markPublisher randIndex i l participants = participants := by
  induction l generalizing i with
  | nil => rfl
  | cons e rest ih => rw [markPublisher, if_neg (Nat.ne_of_gt h), ih (Nat.lt_succ_of_lt h)]

/-- The participant at the drawn place of the loop is marked, and nobody else. -/
theorem markPublisher_eq {i k : ℕ} {l : List (ℕ × SessionParticipant)} {e : ℕ × SessionParticipant} (h : l[k]? = some e)
    (participants : GoMap ℕ SessionParticipant) : markPublisher (i + k) i l participants =
      GoMap.modify e.1 (fun p => { p with publisher := true }) participants := by
  induction l generalizing i k with
  | nil => cases h
  | cons e' rest ih =>
    obtain ⟨sid, p⟩ := e'
    cases k with
    | zero =>
      cases h
      rw [Nat.add_zero, markPublisher, if_pos rfl, markPublisher_past (Nat.lt_succ_self i)]
    | succ k =>
      rw [List.getElem?_cons_succ] at h
      have hnext := ih (i := i + 1) h
      rw [Nat.add_right_comm] at hnext
      rw [markPublisher, if_neg (by omega)]
      exact hnext

/-- Everybody has been sent the transaction, `pub` with the order to publish it. -/
structure Designated (m m' : JoinSession) (signedTx : MsgTx) (pub : ℕ) : Prop where
  member : pub ∈ m.participants.keys
  session : m' = { m with
    participants := GoMap.modify pub (fun p => { p with publisher := true }) m.participants
    replies := m'.replies }
  told : ∃ new : List (ℕ × Response), m'.replies = m.replies ++ new ∧
    (new.map fun e => (some e.1, e.2)).Perm ((GoMap.toList m.participants).map fun e =>
      (e.2.chanSubmitSignedTxRes, .submitSignedTxRes signedTx (decide (e.1 = pub))))

theorem designated_of_ok {randIndex : ℕ} {signedTx : MsgTx} {site : List ℕ} (hlt : randIndex < GoMap.len m.participants)
    (h : sendSigned randIndex signedTx 0 (GoMap.range ch.order site m.participants) m = .ok m') :
    ∃ pub, Designated m m' signedTx pub := by
  obtain ⟨cs, hcs, -, -, rfl⟩ := sendSigned_eq_ok.mp h
  have hperm := GoMap.range_perm ch.order site m.participants
  have hkeys := GoMap.nodup_range ch.order site m.participants
  rw [← GoMap.length_range ch.order site] at hlt
  generalize GoMap.range ch.order site m.participants = l at hcs hperm hkeys hlt
  have hpub : l[randIndex]? = some l[randIndex] := List.getElem?_eq_getElem hlt
  have hmark := markPublisher_eq (i := 0) hpub m.participants
  rw [Nat.zero_add] at hmark
  refine ⟨l[randIndex].1, ?_, ?_, _, rfl, ?_⟩
  · exact GoMap.mem_keys_of_lookup (GoMap.mem_toList.mp (hperm.mem_iff.mp (List.getElem_mem hlt)))
  · rw [hmark]
  · -- the place in the loop and the id say the same
    have hres : (l.mapIdx fun j _ => Response.submitSignedTxRes signedTx (decide (0 + j = randIndex))) =
        l.map fun e => .submitSignedTxRes signedTx (decide (e.1 = l[randIndex].1)) := by
      refine List.ext_getElem (by simp) fun j hj _ => ?_
      rw [List.length_mapIdx] at hj
      rw [List.getElem_mapIdx, List.getElem_map, Nat.zero_add]
      have hinj : l[j].1 = l[randIndex].1 ↔ j = randIndex := by
        have hj' : j < (l.map Prod.fst).length := by simpa using hj
        have hlt' : randIndex < (l.map Prod.fst).length := by simpa using hlt
        have hsame : (l.map Prod.fst)[j] = (l.map Prod.fst)[randIndex] ↔ j = randIndex := hkeys.getElem_inj_iff
        simpa using hsame
      simp only [hinj]
    rw [hres, map_zip hcs]
    exact hperm.map _

/-- The loop of `mergeSignedInput` gets through when everybody is listening. -/
theorem exists_sendSigned (h : m.Listening SessionParticipant.chanSubmitSignedTxRes) (o : VisitOrder ℕ) (site : List ℕ)
    (randIndex : ℕ) (signedTx : MsgTx) : ∃ m', sendSigned randIndex signedTx 0 (GoMap.range o site m.participants) m = .ok m' := by
  obtain ⟨m', hsend⟩ := exists_sendAll (fun _ => .submitSignedTxRes signedTx false) h o site
  obtain ⟨cs, hcs, hdisj, hnodup, -⟩ := foldlM_send_eq_ok.mp hsend
  rw [GoMap.values, List.map_map] at hcs
  exact ⟨_, sendSigned_eq_ok.mpr ⟨cs, hcs, hdisj, hnodup, rfl⟩⟩

/-! ### Submissions -/

/-- The stage as it begins: nobody has signed, and the participants share the places out. -/
structure Opening (m : JoinSession) (merged : MsgTx) : Prop where
  stage : m.progress = .signedTx
  joined : m.mergedSplitTx = some merged
  unsigned : m.signedTx = none
  nobody : ∀ sid p, m.participants.lookup sid = some p → p.signedTx = none
  inputs : Partition (m.places inputs) merged.txIn.length
  outputs : Partition (m.places outputs) merged.txOut.length

/-- What the participants are going to submit: transactions of the merged one's size without nil. -/
structure Offered (m : JoinSession) (merged : MsgTx) (txs : ℕ → MsgTx) : Prop where
  inputs : ∀ sid ∈ m.participants.keys, (txs sid).txIn.length = merged.txIn.length
  outputs : ∀ sid ∈ m.participants.keys, (txs sid).txOut.length = merged.txOut.length
  whole : ∀ sid ∈ m.participants.keys, (txs sid).Whole

/-- Every participant calls with a response channel of its own, on which nothing was sent. -/
structure OwnCalls (m : JoinSession) (resp : ℕ → ℕ) : Prop where
  own : ∀ sid ∈ m.participants.keys, ∀ sid' ∈ m.participants.keys, resp sid = resp sid' → sid = sid'
  free : ∀ sid ∈ m.participants.keys, resp sid ∉ m.replies.map Prod.fst

section Calls
variable {chanOf : SessionParticipant → Option ℕ} {resp : ℕ → ℕ}

theorem map_toList_of_own {β : Type} {chan : ℕ → Option ℕ}
    (hchan : ∀ sid p, m.participants.lookup sid = some p → chanOf p = chan sid) (f : ℕ → Option ℕ → β) :
    ((GoMap.toList m.participants).map fun e => f e.1 (chanOf e.2)) =
      m.participants.keys.map fun sid => f sid (chan sid) := by
  rw [GoMap.keys_eq, List.map_map]
  refine List.map_congr_left fun e he => ?_
  rw [hchan e.1 e.2 (GoMap.mem_toList.mp he)]
  rfl

theorem OwnCalls.listening (h : m.OwnCalls resp)
    (hchan : ∀ sid p, m.participants.lookup sid = some p → chanOf p = some (resp sid)) : m.Listening chanOf where
  waits sid p hp := ⟨resp sid, hchan sid p hp, h.free sid (GoMap.mem_keys_of_lookup hp)⟩
  own := by
    rw [map_toList_of_own hchan fun _ c => c]
    exact m.participants.keys_nodup.map_on fun sid hsid sid' hsid' heq => h.own sid hsid sid' hsid' (Option.some.inj heq)

/-- What was sent on the channels was sent to the participants. -/
theorem perm_of_own {res : ℕ → Response} {new : List (ℕ × Response)}
    (hchan : ∀ sid p, m.participants.lookup sid = some p → chanOf p = some (resp sid))
    (h : (new.map fun e => (some e.1, e.2)).Perm ((GoMap.toList m.participants).map fun e => (chanOf e.2, res e.1))) :
    new.Perm (m.participants.keys.map fun sid => (resp sid, res sid)) := by
  have hinj : Function.Injective fun e : ℕ × Response => (some e.1, e.2) := fun e e' heq => by
    rw [Prod.mk.injEq, Option.some.injEq] at heq
    exact Prod.ext heq.1 heq.2
  refine (List.map_perm_map_iff hinj).mp ?_
  rw [List.map_map]
  rw [map_toList_of_own hchan fun sid c => (c, res sid)] at h
  exact h

end Calls

/-- The entries of the participants `done` are those of their own transactions. -/
def Final (side : Side α) (m : JoinSession) (txs : ℕ → MsgTx) (done : List ℕ) (entries : List (Option α)) : Prop :=
  ∀ sid ∈ done, ∀ i ∈ m.places side sid, entries[i]? = (side.entries (txs sid))[i]?

theorem Final.mono {side : Side α} {txs : ℕ → MsgTx} {done done' : List ℕ} {entries : List (Option α)}
    (h : Final side m txs done entries) (hsub : ∀ sid ∈ done', sid ∈ done) : Final side m txs done' entries :=
  fun sid hsid => h sid (hsub sid hsid)

theorem Final.mergeOwn {side : Side α} {txs : ℕ → MsgTx} {done : List ℕ} {entries entries' : List (Option α)} {n sid : ℕ}
    (h : Final side m txs done entries) (hparts : Partition (m.places side) n) (hnew : sid ∉ done)
    (hmerge : JoinSession.mergeOwn (side.entries (txs sid)) (m.places side sid) entries = .ok (true, entries')) :
    Final side m txs (done ++ [sid]) entries' := by
  obtain ⟨-, heach, hown⟩ := mergeOwn_eq_ok hmerge
  intro sid' hsid' i hi
  rcases List.mem_append.mp hsid' with hold | hlast
  · -- a place of somebody else stays as it was
    have hne : sid' ≠ sid := fun heq => hnew (heq ▸ hold)
    rcases heach i with hsame | ⟨hi', -⟩
    · rw [hsame]
      exact h sid' hold i hi
    · exact absurd hi' (hparts.disjoint sid' sid hne hi)
  · rw [List.mem_singleton.mp hlast] at hi ⊢
    obtain ⟨a, ha, hset⟩ := hown rfl i hi
    rw [hset, ha]

theorem exists_merged {side : Side α} {txs : ℕ → MsgTx} {entries : List (Option α)} {n sid : ℕ}
    (hparts : Partition (m.places side) n) (hlen : (side.entries (txs sid)).length = n) (hwhole : none ∉ side.entries (txs sid))
    (hentries : entries.length = n) :
    ∃ entries', JoinSession.mergeOwn (side.entries (txs sid)) (m.places side sid) entries = .ok (true, entries') ∧
      entries'.length = n := by
  have hown : ∀ i ∈ m.places side sid, ∃ a, (side.entries (txs sid))[i]? = some (some a) := by
    intro i hi
    have hlt : i < (side.entries (txs sid)).length := hlen ▸ hparts.bound sid i hi
    cases ha : (side.entries (txs sid))[i] with
    | none => exact absurd (ha ▸ List.getElem_mem hlt) hwhole
    | some a => exact ⟨a, by rw [List.getElem?_eq_getElem hlt, ha]⟩
  obtain ⟨entries', hmerge⟩ := exists_mergeOwn hown fun i hi => hentries ▸ hparts.bound sid i hi
  exact ⟨entries', hmerge, (mergeOwn_eq_ok hmerge).1.trans hentries⟩

theorem mem_keys_of_place {side : Side α} {sid i : ℕ} (hi : i ∈ m.places side sid) : sid ∈ m.participants.keys := by
  by_contra hnot
  rw [places, AList.lookup_eq_none.mpr hnot] at hi
  exact List.not_mem_nil hi

/-- The entries of the transaction in which every entry is its owner's. -/
def byOwner (side : Side α) (m : JoinSession) (txs : ℕ → MsgTx) (n : ℕ) : List (Option α) :=
  (List.range n).map fun i =>
    ((m.participants.keys.find? fun sid => i ∈ m.places side sid).bind fun sid => (side.entries (txs sid))[i]?).join

theorem getElem?_byOwner {side : Side α} {txs : ℕ → MsgTx} {n sid i : ℕ} (hparts : Partition (m.places side) n)
    (hlen : (side.entries (txs sid)).length = n) (hi : i ∈ m.places side sid) :
    (m.byOwner side txs n)[i]? = (side.entries (txs sid))[i]? := by
  have hlt : i < n := hparts.bound sid i hi
  have hmem : sid ∈ m.participants.keys := mem_keys_of_place hi
  obtain ⟨owner, howner⟩ : ∃ owner, (m.participants.keys.find? fun sid => i ∈ m.places side sid) = some owner :=
    Option.isSome_iff_exists.mp (List.find?_isSome.mpr ⟨sid, hmem, decide_eq_true hi⟩)
  have hsame : owner = sid := by
    by_contra hne
    have hown : i ∈ m.places side owner := by simpa using List.find?_some howner
    exact hparts.disjoint owner sid hne hown hi
  have hentry := List.getElem?_eq_getElem (hlen ▸ hlt : i < (side.entries (txs sid)).length)
  rw [hsame] at howner
  simp [byOwner, hlt, howner, hentry]

/-- When everybody is done, nothing is left open. -/
theorem Final.eq_byOwner {side : Side α} {txs : ℕ → MsgTx} {entries : List (Option α)} {n : ℕ}
    (h : Final side m txs m.participants.keys entries) (hparts : Partition (m.places side) n)
    (hlen : ∀ sid ∈ m.participants.keys, (side.entries (txs sid)).length = n) (hentries : entries.length = n) :
    entries = m.byOwner side txs n := by
  refine List.ext_getElem? fun i => ?_
  by_cases hi : i < n
  · obtain ⟨sid, hsid⟩ := hparts.cover i hi
    have hmem : sid ∈ m.participants.keys := mem_keys_of_place hsid
    rw [h sid hmem i hsid, getElem?_byOwner hparts (hlen sid hmem) hsid]
  · rw [List.getElem?_eq_none (by omega), List.getElem?_eq_none (by simp [byOwner]; omega)]

/-! ### A prefix of the submissions -/

/-- The stage is complete: every entry of the transaction is its owner's, and it was sent to
everybody, to one with the order to publish. -/
structure SignedBy (m : JoinSession) (merged : MsgTx) (txs : ℕ → MsgTx) (resp : ℕ → ℕ) (m' : JoinSession) : Prop where
  stage : m'.progress = .publishTx
  signed : ∃ signedTx, m'.signedTx = some signedTx ∧
    signedTx.txIn = m.byOwner inputs txs merged.txIn.length ∧ signedTx.txOut = m.byOwner outputs txs merged.txOut.length ∧
      ∃ pub ∈ m.participants.keys, ∃ new : List (ℕ × Response), m'.replies = m.replies ++ new ∧
        new.Perm (m.participants.keys.map fun sid => (resp sid, .submitSignedTxRes signedTx (decide (sid = pub))))

/-- The session `s` after the submissions of `done` to `m`. -/
structure Collected (m s : JoinSession) (merged : MsgTx) (txs : ℕ → MsgTx) (resp : ℕ → ℕ) (done : List ℕ) : Prop where
  stage : s.progress = .signedTx
  replies : s.replies = m.replies
  lookup : ∀ sid, s.participants.lookup sid = (m.participants.lookup sid).map fun p =>
    if sid ∈ done then { p with signedTx := some (txs sid), chanSubmitSignedTxRes := some (resp sid) } else p
  started : s.signedTx = none → done = []
  signed : ∀ signedTx, s.signedTx = some signedTx →
    signedTx.txIn.length = merged.txIn.length ∧ signedTx.txOut.length = merged.txOut.length ∧
      Final inputs m txs done signedTx.txIn ∧ Final outputs m txs done signedTx.txOut

theorem Opening.collected {merged : MsgTx} (h : m.Opening merged) (txs : ℕ → MsgTx) (resp : ℕ → ℕ) :
    Collected m m merged txs resp [] where
  stage := h.stage
  replies := rfl
  lookup _ := by simp
  started _ := rfl
  signed signedTx hsigned := by
    rw [h.unsigned] at hsigned
    cases hsigned

theorem step_of_signing {sid : ℕ} {tx : MsgTx} {resp : ℕ} (hstage : m.progress = .signedTx)
    (h : Signing ch sid tx resp m none m') : m.step (ch, .submitSignedTx sid tx resp) = some m' :=
  toOption_eq_some.mpr (inStage_eq_ok.mpr (.inr ⟨hstage, .inr (mergeSignedInput_eq_ok.mpr h)⟩))

/-- The requests, in the order in which they arrive. -/
def submissions (txs : ℕ → MsgTx) (resp : ℕ → ℕ) (arrival : List (Choices × ℕ)) : List (Choices × Event) :=
  arrival.map fun a => (a.1, .submitSignedTx a.2 (txs a.2) (resp a.2))

section Step
variable {s : JoinSession} {merged : MsgTx} {txs : ℕ → MsgTx} {resp : ℕ → ℕ} {done : List ℕ} {sid : ℕ}

/-- What a further submission merges. -/
theorem Collected.merge (h : Collected m s merged txs resp done) (hopening : m.Opening merged)
    (hoffered : Offered m merged txs) (hmem : sid ∈ m.participants.keys) (hnew : sid ∉ done) :
    ∃ p base txIn txOut, s.participants.lookup sid = some p ∧ signedBase (txs sid) s.signedTx = .ok base ∧
      mergeOwn (txs sid).txIn p.inputIndes base.txIn = .ok (true, txIn) ∧
      mergeOwn (txs sid).txOut p.outputIndes base.txOut = .ok (true, txOut) ∧
      txIn.length = merged.txIn.length ∧ txOut.length = merged.txOut.length ∧
      Final inputs m txs (done ++ [sid]) txIn ∧ Final outputs m txs (done ++ [sid]) txOut := by
  obtain ⟨p, hp⟩ := GoMap.lookup_of_mem_keys hmem
  have hlookup : s.participants.lookup sid = some p := by
    rw [h.lookup, hp, Option.map_some, if_neg hnew]
  have hwhole := hoffered.whole sid hmem
  obtain ⟨base, hbase, hin, hout, hfinalIn, hfinalOut⟩ : ∃ base, signedBase (txs sid) s.signedTx = .ok base ∧
      base.txIn.length = merged.txIn.length ∧ base.txOut.length = merged.txOut.length ∧
      Final inputs m txs done base.txIn ∧ Final outputs m txs done base.txOut := by
    cases hsigned : s.signedTx with
    | none =>
      rw [h.started hsigned]
      refine ⟨txs sid, if_neg fun hnil => hnil.elim hwhole.1 hwhole.2, hoffered.inputs sid hmem, hoffered.outputs sid hmem, ?_, ?_⟩
      · exact fun _ hnot => absurd hnot List.not_mem_nil
      · exact fun _ hnot => absurd hnot List.not_mem_nil
    | some signedTx => exact ⟨signedTx, rfl, h.signed signedTx hsigned⟩
  obtain ⟨txIn, hmergeIn, hlenIn⟩ := exists_merged hopening.inputs (hoffered.inputs sid hmem) hwhole.1 hin
  obtain ⟨txOut, hmergeOut, hlenOut⟩ := exists_merged hopening.outputs (hoffered.outputs sid hmem) hwhole.2 hout
  have hfinalIn' := hfinalIn.mergeOwn hopening.inputs hnew hmergeIn
  have hfinalOut' := hfinalOut.mergeOwn hopening.outputs hnew hmergeOut
  rw [places_of_lookup hp] at hmergeIn hmergeOut
  exact ⟨p, base, txIn, txOut, hlookup, hbase, hmergeIn, hmergeOut, hlenIn, hlenOut, hfinalIn', hfinalOut'⟩

theorem Collected.lookup_signed (h : Collected m s merged txs resp done) (sid sid' : ℕ) :
    (s.withSignedTx sid (txs sid) (resp sid)).participants.lookup sid' = (m.participants.lookup sid').map fun p =>
      if sid' ∈ done ++ [sid] then { p with signedTx := some (txs sid'), chanSubmitSignedTxRes := some (resp sid') } else p := by
  rw [lookup_withSignedTx, h.lookup, Option.map_map]
  congr 1
  funext p
  by_cases hsid : sid' = sid
  · subst hsid
    by_cases hdone : sid' ∈ done
    · simp [hdone]
    · simp [hdone]
  · simp [hsid]

theorem Collected.checkInputsSigned (h : Collected m s merged txs resp done) (hopening : m.Opening merged) :
    (s.withSignedTx sid (txs sid) (resp sid)).checkInputsSigned = true ↔ ∀ sid' ∈ m.participants.keys, sid' ∈ done ++ [sid] := by
  rw [JoinSession.checkInputsSigned, List.all_eq_true]
  constructor
  · intro hall sid' hmem
    obtain ⟨p, hp⟩ := GoMap.lookup_of_mem_keys hmem
    by_contra hnot
    have hlookup := h.lookup_signed sid sid'
    rw [hp, Option.map_some, if_neg hnot] at hlookup
    have hsigned := hall (sid', p) (GoMap.mem_toList.mpr hlookup)
    dsimp only at hsigned
    rw [hopening.nobody sid' p hp] at hsigned
    cases hsigned
  · intro hall e he
    have hlookup := h.lookup_signed sid e.1
    rw [GoMap.mem_toList.mp he] at hlookup
    obtain ⟨p, hp, heq⟩ := Option.map_eq_some_iff.mp hlookup.symm
    rw [if_pos (hall e.1 (GoMap.mem_keys_of_lookup hp))] at heq
    rw [← heq]
    rfl

/-- While others are still to submit, a submission is only merged. -/
theorem Collected.step (h : Collected m s merged txs resp done) (hopening : m.Opening merged)
    (hoffered : Offered m merged txs) (hmem : sid ∈ m.participants.keys) (hnew : sid ∉ done) (ch : Choices)
    (hmore : ∃ sid' ∈ m.participants.keys, sid' ∉ done ++ [sid]) :
    ∃ s', s.step (ch, .submitSignedTx sid (txs sid) (resp sid)) = some s' ∧
      Collected m s' merged txs resp (done ++ [sid]) := by
  obtain ⟨p, base, txIn, txOut, hp, hbase, hin, hout, hlenIn, hlenOut, hfinalIn, hfinalOut⟩ :=
    h.merge hopening hoffered hmem hnew
  have hopen : (s.withSignedTx sid (txs sid) (resp sid)).checkInputsSigned = false := by
    refine Bool.eq_false_iff.mpr fun hall => ?_
    obtain ⟨sid', hmem', hmissing⟩ := hmore
    exact hmissing ((h.checkInputsSigned hopening).mp hall sid' hmem')
  refine ⟨_, step_of_signing h.stage (.waiting hp hbase hin hout hopen), ?_⟩
  refine ⟨h.stage, h.replies, h.lookup_signed sid, fun hnone => ?_, fun signedTx hsigned => ?_⟩
  · cases hnone
  · cases hsigned
    exact ⟨hlenIn, hlenOut, hfinalIn, hfinalOut⟩

/-- After the last submission the stage is complete. -/
theorem Collected.last (h : Collected m s merged txs resp done) (hopening : m.Opening merged)
    (hoffered : Offered m merged txs) (hcalls : m.OwnCalls resp) (hmem : sid ∈ m.participants.keys) (hnew : sid ∉ done)
    (hall : ∀ sid' ∈ m.participants.keys, sid' ∈ done ++ [sid])
    (hintn : ch.intn (GoMap.len m.participants) < GoMap.len m.participants) :
    ∃ s', s.step (ch, .submitSignedTx sid (txs sid) (resp sid)) = some s' ∧ m.SignedBy merged txs resp s' := by
  obtain ⟨p, base, txIn, txOut, hp, hbase, hin, hout, hlenIn, hlenOut, hfinalIn, hfinalOut⟩ :=
    h.merge hopening hoffered hmem hnew
  have hlast := (h.checkInputsSigned hopening).mpr hall
  have hlookup := h.lookup_signed sid
  generalize hsigned : s.withSignedTx sid (txs sid) (resp sid) = s₁ at hlast hlookup
  have hreplies : s₁.replies = m.replies := by
    rw [← hsigned]
    exact h.replies
  have hkeys : m.participants.keys.Perm s₁.participants.keys := GoMap.keys_perm fun sid' => by
    rw [hlookup, Option.isSome_map]
  have hchan : ∀ sid' q, s₁.participants.lookup sid' = some q → q.chanSubmitSignedTxRes = some (resp sid') := by
    intro sid' q hq
    rw [hlookup] at hq
    obtain ⟨q', hq', rfl⟩ := Option.map_eq_some_iff.mp hq
    rw [if_pos (hall sid' (GoMap.mem_keys_of_lookup hq'))]
  have hlen : GoMap.len m.participants = GoMap.len s₁.participants := by
    rw [← GoMap.length_keys, ← GoMap.length_keys, hkeys.length_eq]
  have hcalls' : s₁.OwnCalls resp := by
    refine ⟨fun sid' hsid' sid'' hsid'' => ?_, fun sid' hsid' => ?_⟩
    · exact hcalls.own sid' (hkeys.mem_iff.mpr hsid') sid'' (hkeys.mem_iff.mpr hsid'')
    · rw [hreplies]
      exact hcalls.free sid' (hkeys.mem_iff.mpr hsid')
  have hlistening := hcalls'.listening hchan
  rw [hlen] at hintn
  -- the session in which the transaction is sent
  obtain ⟨s₂, hs₂⟩ : ∃ s₂ : JoinSession, s₂ = { s₁ with signedTx := some { base with txIn := txIn, txOut := txOut } } := ⟨_, rfl⟩
  have hparticipants : s₂.participants = s₁.participants := by rw [hs₂]
  have hlistening₂ : s₂.Listening SessionParticipant.chanSubmitSignedTxRes := by
    subst hs₂
    exact ⟨hlistening.waits, hlistening.own⟩
  obtain ⟨s', hsend⟩ := exists_sendSigned hlistening₂ ch.order [271] (ch.intn (GoMap.len s₁.participants))
    { base with txIn := txIn, txOut := txOut }
  obtain ⟨pub, hpub⟩ := designated_of_ok (hparticipants.symm ▸ hintn) hsend
  obtain ⟨new, hnew, htold⟩ := hpub.told
  have hpublisher : pub ∈ s₁.participants.keys := by
    have hmember := hpub.member
    rwa [hs₂] at hmember
  have hsignedTx : s'.signedTx = some { base with txIn := txIn, txOut := txOut } := by rw [hpub.session, hs₂]
  refine ⟨{ s' with progress := .publishTx }, ?_, rfl, _, hsignedTx, ?_, ?_, pub, hkeys.mem_iff.mpr hpublisher, new, ?_, ?_⟩
  · subst hsigned hs₂
    exact step_of_signing h.stage (.completed hp hbase hin hout hlast hsend)
  · exact (hfinalIn.mono hall).eq_byOwner hopening.inputs hoffered.inputs hlenIn
  · exact (hfinalOut.mono hall).eq_byOwner hopening.outputs hoffered.outputs hlenOut
  · show s'.replies = m.replies ++ new
    rw [hnew, hs₂]
    exact congrArg (· ++ new) hreplies
  · rw [hs₂] at htold
    exact (perm_of_own hchan htold).trans (hkeys.map _).symm

/-- The submissions that are left complete the stage. -/
theorem Collected.run (h : Collected m s merged txs resp done) (hopening : m.Opening merged)
    (hoffered : Offered m merged txs) (hcalls : m.OwnCalls resp) {arrival : List (Choices × ℕ)} (hmore : arrival ≠ [])
    (hperm : (done ++ arrival.map Prod.snd).Perm m.participants.keys)
    (hintn : ∀ a ∈ arrival, a.1.intn (GoMap.len m.participants) < GoMap.len m.participants) :
    ∃ m', (submissions txs resp arrival).foldlM JoinSession.step s = some m' ∧ m.SignedBy merged txs resp m' := by
  induction arrival generalizing s done with
  | nil => exact absurd rfl hmore
  | cons a rest ih =>
    obtain ⟨ch, sid⟩ := a
    have hnodup := hperm.nodup_iff.mpr m.participants.keys_nodup
    have hmem : sid ∈ m.participants.keys := hperm.mem_iff.mp (by simp)
    have hnew : sid ∉ done := by
      intro hdone
      exact List.disjoint_of_nodup_append hnodup hdone (by simp)
    rw [List.map_cons, List.append_cons] at hperm
    rw [submissions, List.map_cons, List.foldlM_cons]
    cases rest with
    | nil =>
      rw [List.map_nil, List.append_nil] at hperm
      obtain ⟨m', hstep, hm'⟩ := h.last hopening hoffered hcalls hmem hnew (fun sid' => hperm.mem_iff.mpr)
        (hintn _ (List.mem_cons_self ..))
      exact ⟨m', by rw [hstep]; rfl, hm'⟩
    | cons b rest =>
      -- the next one in the queue is still missing
      have hnodup' := hperm.nodup_iff.mpr m.participants.keys_nodup
      have hmissing : ∃ sid' ∈ m.participants.keys, sid' ∉ done ++ [sid] :=
        ⟨b.2, hperm.mem_iff.mp (by simp), fun hdone => List.disjoint_of_nodup_append hnodup' hdone (by simp)⟩
      obtain ⟨s', hstep, hs'⟩ := h.step hopening hoffered hmem hnew ch hmissing
      obtain ⟨m', hrun, hm'⟩ := ih hs' (List.cons_ne_nil b rest) hperm fun a ha => hintn a (List.mem_cons_of_mem _ ha)
      exact ⟨m', by rw [hstep]; exact hrun, hm'⟩

end Step

/-- **The signed transaction is merged by owner, whatever the order.** -/
theorem signed_merge_by_owner {m : JoinSession} {merged : MsgTx} {txs : ℕ → MsgTx} (hopening : m.Opening merged)
    (hoffered : Offered m merged txs) (hsome : m.participants.keys ≠ []) :
    (∀ sid, ∀ i ∈ m.places inputs sid, (m.byOwner inputs txs merged.txIn.length)[i]? = (txs sid).txIn[i]?) ∧
      (∀ sid, ∀ j ∈ m.places outputs sid, (m.byOwner outputs txs merged.txOut.length)[j]? = (txs sid).txOut[j]?) ∧
      ∀ (resp : ℕ → ℕ) (arrival : List (Choices × ℕ)), m.OwnCalls resp → (arrival.map Prod.snd).Perm m.participants.keys →
        (∀ a ∈ arrival, a.1.intn (GoMap.len m.participants) < GoMap.len m.participants) →
          ∃ m', (submissions txs resp arrival).foldlM JoinSession.step m = some m' ∧ m.SignedBy merged txs resp m' := by
  refine ⟨fun sid i hi => ?_, fun sid j hj => ?_, fun resp arrival hcalls hperm hintn => ?_⟩
  · exact getElem?_byOwner hopening.inputs (hoffered.inputs sid (mem_keys_of_place hi)) hi
  · exact getElem?_byOwner hopening.outputs (hoffered.outputs sid (mem_keys_of_place hj)) hj
  · have hmore : arrival ≠ [] := by
      intro hnil
      rw [hnil] at hperm
      exact hsome hperm.symm.eq_nil
    exact (hopening.collected txs resp).run hopening hoffered hcalls hmore hperm hintn

/-- The session of `twoSubmitted` with its transaction sent. -/
def twoSigning : JoinSession := { twoSubmitted true with progress := .signedTx }

/-- Transactions of the size of `twoMerged`, every entry the submitter's. -/
def signedBySid (sid : ℕ) : MsgTx :=
  { smallTx sid with
    txIn := List.replicate 3 (some ⟨⟨[], sid, 0⟩, 0, 0, 0, 0, []⟩)
    txOut := List.replicate 2 (some ⟨sid, 0, []⟩) }

theorem signed_merge_by_owner_two : ∃ m', (submissions signedBySid id [(.plain, 2), (.plain, 1)]).foldlM JoinSession.step twoSigning =
    some m' ∧ twoSigning.SignedBy twoMerged signedBySid id m' := by
  have hopening : twoSigning.Opening twoMerged := by
    refine ⟨rfl, rfl, rfl, fun sid p hp => ?_, partition_of_perm (by decide), partition_of_perm (by decide)⟩
    have hmem := GoMap.mem_of_lookup_ofList hp
    simp only [List.mem_cons, Prod.mk.injEq, List.not_mem_nil, or_false] at hmem
    rcases hmem with ⟨-, rfl⟩ | ⟨-, rfl⟩
    · rfl
    · rfl
  have hoffered : Offered twoSigning twoMerged signedBySid :=
    ⟨fun _ _ => rfl, fun _ _ => rfl, fun _ _ => ⟨by simp [signedBySid], by simp [signedBySid]⟩⟩
  exact (signed_merge_by_owner hopening hoffered (by decide)).2.2 id [(.plain, 2), (.plain, 1)]
    ⟨fun _ _ _ _ heq => heq, fun _ _ => List.not_mem_nil⟩ (by decide) (by decide)

end JoinSession

end Dcrtxmatcher.Matcher
