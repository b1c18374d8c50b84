import Dcrtxmatcher.Lib.Gathering
import Dcrtxmatcher.Matcher.Publishing
import Dcrtxmatcher.Matcher.Replies

/-! A whole purchase.

Clients that follow the protocol call once in each stage, with what they were told in
the stage before. In which order they call, which permutations `SendTxData` draws and
who is to publish is open. Nobody is refused or left waiting, and in the end everybody
has the same transaction (`Purchase`): the split transactions in some order, every input
signed by its owner. -/
namespace Dcrtxmatcher.Matcher
open Lib
open Coinjoin (TxIn TxOut OutPoint)

/-! ### What a purchase is -/

/-- The input without its signature script. -/
def unsigned (txIn : TxIn) : TxIn := { txIn with signatureScript := [] }

/-- `signed` differs from the transaction in nothing but signature scripts. -/
structure Signs (tx signed : MsgTx) : Prop where
  inputs : signed.txIn.map (Option.map unsigned) = tx.txIn.map (Option.map unsigned)
  rest : signed = { tx with txIn := signed.txIn }

/-- The clients of a session, by session id: the split transaction of each, what it sends
signed when it is told a transaction and its own indices, what comes of it when it is to
publish, and the response channel of its call in each stage. -/
structure Clients where
  splitTx : ℕ → MsgTx
  sign : ℕ → MsgTx → List ℕ → List ℕ → MsgTx
  publish : ℕ → MsgTx → Option MsgTx
  resp : Progress → ℕ → ℕ

/-- Split transactions without nil, signed transactions that are the ones that were to be
signed, no nil in what is published, and a channel of its own for every call. -/
structure Clients.Honest (w : Clients) (members : List ℕ) : Prop where
  whole : ∀ sid ∈ members, (w.splitTx sid).Whole
  signs : ∀ sid ∈ members, ∀ tx ins outs, tx.Whole → Signs tx (w.sign sid tx ins outs)
  publishes : ∀ sid ∈ members, ∀ tx, tx.Whole → ∀ result, w.publish sid tx = some result → result.Whole
  own : ∀ stage stage', ∀ sid ∈ members, ∀ sid' ∈ members, w.resp stage sid = w.resp stage' sid' →
    stage = stage' ∧ sid = sid'

/-- The split transactions put together, with the places at which each member finds its own entries. -/
structure Deal (w : Clients) (members : List ℕ) where
  merged : MsgTx
  inputIndes : ℕ → List ℕ
  outputIndes : ℕ → List ℕ
  inputs : Shares inputIndes (fun sid => if sid ∈ members then (w.splitTx sid).txIn else []) merged.txIn
  outputs : Shares outputIndes (fun sid => if sid ∈ members then (w.splitTx sid).txOut else []) merged.txOut
  txIn : merged.txIn.Perm (members.flatMap fun sid => (w.splitTx sid).txIn)
  txOut : merged.txOut.Perm (members.flatMap fun sid => (w.splitTx sid).txOut)

/-- What everybody is told of it. -/
def Deal.replies {w : Clients} {members : List ℕ} (d : Deal w members) : List (ℕ × Response) :=
  members.map fun sid => (w.resp .rawTx sid, .submitSplitTxRes d.merged (d.inputIndes sid) (d.outputIndes sid))

/-- What a member signs. -/
def Deal.sign {w : Clients} {members : List ℕ} (d : Deal w members) (sid : ℕ) : MsgTx :=
  w.sign sid d.merged (d.inputIndes sid) (d.outputIndes sid)

/-- The transaction signed, every input by its owner, and the member that publishes it. -/
structure Purchase (w : Clients) (members : List ℕ) extends Deal w members where
  signedTx : MsgTx
  publisher : ℕ
  signs : Signs merged signedTx
  own : ∀ sid ∈ members, ∀ i ∈ inputIndes sid, signedTx.txIn[i]? = (toDeal.sign sid).txIn[i]?
  member : publisher ∈ members

namespace Purchase
variable {w : Clients} {members : List ℕ}

def outcome (P : Purchase w members) : Response :=
  (w.publish P.publisher P.signedTx).elim (.err .publishTxNotSent) .publishedTxRes

def signedReplies (P : Purchase w members) : List (ℕ × Response) :=
  members.map fun sid => (w.resp .signedTx sid, .submitSignedTxRes P.signedTx (decide (sid = P.publisher)))

def publishedReplies (P : Purchase w members) : List (ℕ × Response) :=
  members.map fun sid => (w.resp .publishTx sid, P.outcome)

/-- Everything that the members are told. -/
def replies (P : Purchase w members) : List (ℕ × Response) :=
  P.toDeal.replies ++ P.signedReplies ++ P.publishedReplies

end Purchase

/-! ### What is signed -/

/-- The header of a transaction, with entries of its own. -/
def SameHeader (tx signed : MsgTx) : Prop := signed = { tx with txIn := signed.txIn, txOut := signed.txOut }

namespace Signs
variable {tx signed : MsgTx}

theorem length (h : Signs tx signed) : signed.txIn.length = tx.txIn.length := by
  simpa using congrArg List.length h.inputs

theorem txOut (h : Signs tx signed) : signed.txOut = tx.txOut := by rw [h.rest]

theorem whole (h : Signs tx signed) (hwhole : tx.Whole) : signed.Whole := by
  refine ⟨fun hnil => hwhole.1 ?_, h.txOut ▸ hwhole.2⟩
  have hmem : (none : Option TxIn).map unsigned ∈ tx.txIn.map (Option.map unsigned) :=
    h.inputs ▸ List.mem_map_of_mem hnil
  obtain ⟨entry, hentry, heq⟩ := List.mem_map.mp hmem
  rw [Option.map_none, Option.map_eq_none_iff] at heq
  exact heq ▸ hentry

theorem sameHeader (h : Signs tx signed) : SameHeader tx signed := by
  rw [SameHeader, h.txOut]
  exact h.rest

end Signs

/-- What is put together has no nil. -/
theorem Deal.whole {w : Clients} {members : List ℕ} (d : Deal w members) (hw : w.Honest members) : d.merged.Whole := by
  constructor
  · intro hnil
    obtain ⟨sid, hmem, hnil⟩ := List.mem_flatMap.mp (d.txIn.mem_iff.mp hnil)
    exact (hw.whole sid hmem).1 hnil
  · intro hnil
    obtain ⟨sid, hmem, hnil⟩ := List.mem_flatMap.mp (d.txOut.mem_iff.mp hnil)
    exact (hw.whole sid hmem).2 hnil

/-- What a member was told is its part of the deal. -/
theorem Deal.told {w : Clients} {members : List ℕ} {d : Deal w members} (hw : w.Honest members) {sid : ℕ} (hmem : sid ∈ members) {merged : MsgTx} {ins outs : List ℕ}
    (h : (w.resp .rawTx sid, Response.submitSplitTxRes merged ins outs) ∈ d.replies) : w.sign sid merged ins outs = d.sign sid := by
  obtain ⟨sid', hsid', heq⟩ := List.mem_map.mp h
  rw [Prod.mk.injEq, Response.submitSplitTxRes.injEq] at heq
  obtain ⟨hresp, rfl, rfl, rfl⟩ := heq
  obtain rfl := (hw.own _ _ sid' hsid' sid hmem hresp).2
  rfl

/-- What a member was told of the signed transaction is the purchase's. -/
theorem Purchase.told {w : Clients} {members : List ℕ} (P : Purchase w members) (hw : w.Honest members) {sid : ℕ} (hmem : sid ∈ members)
    {signedTx : MsgTx} {publisher : Bool}
    (h : (w.resp .signedTx sid, Response.submitSignedTxRes signedTx publisher) ∈ P.toDeal.replies ++ P.signedReplies) :
    signedTx = P.signedTx ∧ publisher = decide (sid = P.publisher) := by
  rcases List.mem_append.mp h with hdeal | hsigned
  · obtain ⟨sid', -, heq⟩ := List.mem_map.mp hdeal
    cases (Prod.mk.inj heq).2
  · obtain ⟨sid', hsid', heq⟩ := List.mem_map.mp hsigned
    rw [Prod.mk.injEq, Response.submitSignedTxRes.injEq] at heq
    obtain ⟨hresp, rfl, rfl⟩ := heq
    obtain rfl := (hw.own _ _ sid' hsid' sid hmem hresp).2
    exact ⟨rfl, rfl⟩

/-! ### Calls -/

namespace Clients
open JoinSession (Event)

/-- A call of a client that has not called in the stage yet, with what it was told before. -/
inductive Calls (w : Clients) (m : JoinSession) (sid : ℕ) (p : SessionParticipant) : Event → Prop where
  | split (h : p.splitTx = none) : Calls w m sid p (.submitSplitTx sid (w.splitTx sid) (w.resp .rawTx sid))
  | signed {merged : MsgTx} {ins outs : List ℕ} (h : p.signedTx = none)
      (htold : (w.resp .rawTx sid, .submitSplitTxRes merged ins outs) ∈ m.replies) :
      Calls w m sid p (.submitSignedTx sid (w.sign sid merged ins outs) (w.resp .signedTx sid))
  /-- Who is not the publisher may send anything. -/
  | published {signedTx : MsgTx} {publisher : Bool} {tx : Option MsgTx} (h : p.sentPublished = false)
      (htold : (w.resp .signedTx sid, .submitSignedTxRes signedTx publisher) ∈ m.replies)
      (htx : publisher = true → tx = w.publish sid signedTx) :
      Calls w m sid p (.publishResult sid tx (w.resp .publishTx sid))

/-- A participant calls; no timer fires and no context is done. `rand.Intn` draws below its bound. -/
def Next (w : Clients) (m : JoinSession) (ev : Choices × Event) : Prop :=
  ev.1.intn (GoMap.len m.participants) < GoMap.len m.participants ∧
    ∃ sid p, m.participants.lookup sid = some p ∧ w.Calls m sid p ev.2

end Clients

namespace JoinSession
variable {ch : Choices} {m m' : JoinSession} {w : Clients} {members done : List ℕ}

/-! ### Split transactions -/

/-- Nobody has called in the publishing stage. -/
def Unasked (m : JoinSession) : Prop := ∀ sid p, m.participants.lookup sid = some p → p.chanPublishedTxRes = none

/-- The split transactions of `done` are in, one after the other. -/
structure Splitting (w : Clients) (members done : List ℕ) (m : JoinSession) : Prop where
  stage : m.progress = .rawTx
  random : m.randomIndex = true
  quiet : m.replies = []
  unsigned : m.signedTx = none
  members : ∀ sid, sid ∈ m.participants.keys ↔ sid ∈ members
  splitTx : ∀ sid p, m.participants.lookup sid = some p → p.splitTx = if sid ∈ done then some (w.splitTx sid) else none
  chan : ∀ sid p, m.participants.lookup sid = some p → sid ∈ done → p.chanSubmitSplitTxRes = some (w.resp .rawTx sid)
  txIn : m.mergedEntries inputs = done.flatMap fun sid => (w.splitTx sid).txIn
  txOut : m.mergedEntries outputs = done.flatMap fun sid => (w.splitTx sid).txOut
  consistent : m.Consistent
  staged : m.Staged
  unasked : m.Unasked

theorem splitting_newJoinSession (w : Clients) (hnodup : members.Nodup) :
    Splitting w members [] (newJoinSession true members) where
  stage := rfl
  random := rfl
  quiet := rfl
  unsigned := rfl
  members sid := by
    have hkeys : ((members.map fun sid => (sid, newParticipant sid)).map Prod.fst).Nodup := by
      rwa [List.map_map, show (Prod.fst ∘ fun sid => (sid, newParticipant sid)) = id from rfl, List.map_id]
    constructor
    · intro hmem
      obtain ⟨p, hp⟩ := GoMap.lookup_of_mem_keys hmem
      obtain ⟨sid', hmem', heq⟩ := List.mem_map.mp (GoMap.mem_of_lookup_ofList hp)
      cases heq
      exact hmem'
    · intro hmem
      exact GoMap.mem_keys_of_lookup ((GoMap.lookup_ofList hkeys).mpr (List.mem_map_of_mem hmem))
  splitTx sid p hp := by
    rw [lookup_newJoinSession hp, if_neg List.not_mem_nil]
    rfl
  chan sid p hp hdone := absurd hdone List.not_mem_nil
  txIn := rfl
  txOut := rfl
  consistent := consistent_newJoinSession ..
  staged := staged_newJoinSession ..
  unasked sid p hp := by
    rw [lookup_newJoinSession hp]
    rfl

/-- A further split transaction is taken over. -/
theorem Splitting.merge (h : Splitting w members done m) {sid : ℕ} (hwhole : (w.splitTx sid).Whole) (hmem : sid ∈ members)
    (hnew : sid ∉ done) : ∃ merged inputIndes outputIndes,
      mergeSplitTx (w.splitTx sid) m.mergedSplitTx = .ok (merged, inputIndes, outputIndes) ∧
        Splitting w members (done ++ [sid]) (m.withSplitTx sid (w.splitTx sid) (w.resp .rawTx sid) merged inputIndes outputIndes) := by
  obtain ⟨⟨merged, inputIndes, outputIndes⟩, hmerge⟩ := Service.exists_mergeSplitTx hwhole m.mergedSplitTx
  obtain ⟨p, hp⟩ := GoMap.lookup_of_mem_keys ((h.members sid).mpr hmem)
  have hnone : p.splitTx = none := (h.splitTx sid p hp).trans (if_neg hnew)
  obtain ⟨hin, hout, -, -, -⟩ := mergeSplitTx_eq_ok hmerge
  refine ⟨merged, inputIndes, outputIndes, hmerge, h.stage, h.random, h.quiet, h.unsigned, fun sid' => ?_, fun sid' q hq => ?_,
    fun sid' q hq hdone => ?_, ?_, ?_, ?_, h.staged.withSplitTx h.stage .., fun sid' q hq => ?_⟩
  · rw [participants_withSplitTx, GoMap.keys_modify]
    exact h.members sid'
  · rw [participants_withSplitTx] at hq
    by_cases hsid : sid' = sid
    · rw [hsid, GoMap.lookup_modify_self, Option.map_eq_some_iff] at hq
      obtain ⟨_, _, rfl⟩ := hq
      rw [if_pos (by simp [hsid]), hsid]
    · rw [GoMap.lookup_modify_ne hsid] at hq
      rw [h.splitTx sid' q hq]
      simp [hsid]
  · rw [participants_withSplitTx] at hq
    by_cases hsid : sid' = sid
    · rw [hsid, GoMap.lookup_modify_self, Option.map_eq_some_iff] at hq
      obtain ⟨_, _, rfl⟩ := hq
      rw [hsid]
    · rw [GoMap.lookup_modify_ne hsid] at hq
      exact h.chan sid' q hq ((List.mem_append.mp hdone).resolve_right fun hlast => hsid (List.mem_singleton.mp hlast))
  · rw [List.flatMap_append, List.flatMap_singleton, ← h.txIn]
    exact hin
  · rw [List.flatMap_append, List.flatMap_singleton, ← h.txOut]
    exact hout
  · exact consistent_withSplitTx _ h.consistent ((h.members sid).mpr hmem) (Service.places_eq_nil h.consistent.inputs hp hnone)
      (Service.places_eq_nil h.consistent.outputs hp hnone) hwhole hmerge
  · rw [participants_withSplitTx] at hq
    by_cases hsid : sid' = sid
    · rw [hsid, GoMap.lookup_modify_self, Option.map_eq_some_iff] at hq
      obtain ⟨q', hq', rfl⟩ := hq
      exact h.unasked sid q' hq'
    · rw [GoMap.lookup_modify_ne hsid] at hq
      exact h.unasked sid' q hq

theorem step_of_merging {sid : ℕ} {splitTx merged : MsgTx} {resp : ℕ} {inputIndes outputIndes : List ℕ}
    (hstage : m.progress = .rawTx) (hmem : sid ∈ m.participants.keys)
    (hmerge : mergeSplitTx splitTx m.mergedSplitTx = .ok (merged, inputIndes, outputIndes))
    (hopen : (m.withSplitTx sid splitTx resp merged inputIndes outputIndes).checkTxSubmitted = false) :
    m.step (ch, .submitSplitTx sid splitTx resp) = some (m.withSplitTx sid splitTx resp merged inputIndes outputIndes) := by
  refine toOption_eq_some.mpr (inStage_eq_ok.mpr (.inr ⟨hstage, .inr (addParticipantInput_eq_ok.mpr (.inr ⟨hmem, rfl, ?_⟩))⟩))
  exact ⟨merged, inputIndes, outputIndes, hmerge, by rw [if_neg (Bool.eq_false_iff.mp hopen)]⟩

theorem step_of_merged {sid : ℕ} {splitTx merged : MsgTx} {resp : ℕ} {inputIndes outputIndes : List ℕ}
    (hstage : m.progress = .rawTx) (hmem : sid ∈ m.participants.keys)
    (hmerge : mergeSplitTx splitTx m.mergedSplitTx = .ok (merged, inputIndes, outputIndes))
    (hall : (m.withSplitTx sid splitTx resp merged inputIndes outputIndes).checkTxSubmitted = true)
    (hsend : (m.withSplitTx sid splitTx resp merged inputIndes outputIndes).sendTxData ch merged = .ok m') :
    m.step (ch, .submitSplitTx sid splitTx resp) = some m' := by
  refine toOption_eq_some.mpr (inStage_eq_ok.mpr (.inr ⟨hstage, .inr (addParticipantInput_eq_ok.mpr (.inr ⟨hmem, rfl, ?_⟩))⟩))
  exact ⟨merged, inputIndes, outputIndes, hmerge, by rwa [if_pos hall]⟩

/-- Everybody has submitted once nobody is missing. -/
theorem Splitting.checkTxSubmitted (h : Splitting w members done m) :
    m.checkTxSubmitted = true ↔ ∀ sid ∈ members, sid ∈ done := by
  rw [Service.checkTxSubmitted_iff]
  constructor
  · intro hall sid hmem
    obtain ⟨p, hp⟩ := GoMap.lookup_of_mem_keys ((h.members sid).mpr hmem)
    by_contra hnot
    have hsubmitted : p.splitTx.isSome = true := hall sid p hp
    rw [h.splitTx sid p hp, if_neg hnot] at hsubmitted
    cases hsubmitted
  · intro hall sid p hp
    have hmem := (h.members sid).mp (GoMap.mem_keys_of_lookup hp)
    show p.splitTx.isSome = true
    rw [h.splitTx sid p hp, if_pos (hall sid hmem)]
    rfl

/-! ### The deal -/

/-- Everybody was told the deal, and nobody has signed. -/
structure Opened (d : Deal w members) (m : JoinSession) : Prop where
  opening : m.Opening d.merged
  whole : d.merged.Whole
  members : ∀ sid, sid ∈ m.participants.keys ↔ sid ∈ members
  inputs : m.places inputs = d.inputIndes
  outputs : m.places outputs = d.outputIndes
  splitTx : ∀ sid p, m.participants.lookup sid = some p → p.splitTx.isSome = true
  told : m.replies.Perm d.replies
  staged : m.Staged
  unasked : m.Unasked

/-- The participants are the members. -/
theorem keys_perm_members (hnodup : members.Nodup) (h : ∀ sid, sid ∈ m.participants.keys ↔ sid ∈ members) :
    m.participants.keys.Perm members :=
  (List.perm_ext_iff_of_nodup m.participants.keys_nodup hnodup).mpr h

theorem len_eq_members (hnodup : members.Nodup) (h : ∀ sid, sid ∈ m.participants.keys ↔ sid ∈ members) :
    GoMap.len m.participants = members.length := by
  rw [← GoMap.length_keys, (keys_perm_members hnodup h).length_eq]

/-- The channels of one stage. -/
theorem ownCalls (hw : w.Honest members) (h : ∀ sid, sid ∈ m.participants.keys ↔ sid ∈ members) (stage : Progress)
    (hfree : ∀ sid ∈ members, w.resp stage sid ∉ m.replies.map Prod.fst) : m.OwnCalls (w.resp stage) where
  own sid hsid sid' hsid' heq := (hw.own stage stage sid ((h sid).mp hsid) sid' ((h sid').mp hsid') heq).2
  free sid hsid := hfree sid ((h sid).mp hsid)

theorem piece_of_submitted (hmembers : ∀ sid, sid ∈ m.participants.keys ↔ sid ∈ members)
    (hsplit : ∀ sid p, m.participants.lookup sid = some p → p.splitTx = some (w.splitTx sid)) {α : Type} (side : Side α) :
    m.piece side = fun sid => if sid ∈ members then side.entries (w.splitTx sid) else [] := by
  funext sid
  by_cases hmem : sid ∈ members
  · obtain ⟨p, hp⟩ := GoMap.lookup_of_mem_keys ((hmembers sid).mpr hmem)
    rw [if_pos hmem, piece_of_lookup hp (hsplit sid p hp)]
  · rw [if_neg hmem, piece, AList.lookup_eq_none.mpr (mt (hmembers sid).mp hmem)]
    rfl

/-- After the last split transaction the deal is made and told. -/
theorem Splitting.deal (hw : w.Honest members) (hnodup : members.Nodup) (htwo : 1 < members.length)
    (h : Splitting w members done m) (hperm : done.Perm members) {merged : MsgTx} (hmerged : m.mergedSplitTx = some merged)
    (ch : Choices) : ∃ m', m.sendTxData ch merged = .ok m' ∧ ∃ d : Deal w members, Opened d m' := by
  have hall : ∀ sid ∈ members, sid ∈ done := fun sid => hperm.mem_iff.mpr
  have hrandom : m.randomIndex = true ∧ 1 < GoMap.len m.participants :=
    ⟨h.random, (len_eq_members hnodup h.members).symm ▸ htwo⟩
  have hentries : ∀ {α : Type} (side : Side α), m.mergedEntries side = side.entries merged := fun side => by
    rw [mergedEntries, hmerged]
    rfl
  have hin := h.consistent.inputs.partition
  have hout := h.consistent.outputs.partition
  rw [hentries] at hin hout
  obtain ⟨m₁, merged', hshuffle, hiff⟩ := sendTxData_shuffle ch hrandom hin hout
  have hcalls := ownCalls hw h.members .rawTx fun sid _ => by simp [h.quiet]
  have hlistening := hcalls.listening fun sid p hp => h.chan sid p hp (hall sid ((h.members sid).mp (GoMap.mem_keys_of_lookup hp)))
  obtain ⟨m₂, hsend⟩ := exists_sendAll
    (fun p => .submitSplitTxRes merged' p.inputIndes p.outputIndes) (hshuffle.listening hlistening) ch.order [446]
  obtain ⟨m', heq⟩ : ∃ m', m' = { m₂ with progress := .signedTx, clientTimeout := true } := ⟨_, rfl⟩
  have hm' := (hiff m').mpr ⟨m₂, hsend, heq⟩
  have hredistributed := hshuffle.redistributed hin hout hsend heq
  have hconsistent := consistent_sendTxData h.consistent hmerged hm'
  obtain ⟨-, -, hunsigned, hprogress⟩ := sendTxData_rest hm'
  rw [if_pos hrandom] at hprogress
  have hback : ∀ sid p', m'.participants.lookup sid = some p' → ∃ p, m.participants.lookup sid = some p ∧
      p'.splitTx = p.splitTx ∧ p'.signedTx = p.signedTx ∧ p'.chanSubmitSplitTxRes = p.chanSubmitSplitTxRes ∧
        p'.chanPublishedTxRes = p.chanPublishedTxRes := by
    intro sid p' hp'
    obtain ⟨ins, outs, hlookup⟩ := lookup_sendTxData hmerged hm' sid
    rw [hlookup, Option.map_eq_some_iff] at hp'
    obtain ⟨p, hp, rfl⟩ := hp'
    exact ⟨p, hp, rfl, rfl, rfl, rfl⟩
  have hmembers : ∀ sid, sid ∈ m'.participants.keys ↔ sid ∈ members := fun sid =>
    (hredistributed.members sid).trans (h.members sid)
  have hsubmitted : ∀ sid p', m'.participants.lookup sid = some p' → p'.splitTx = some (w.splitTx sid) ∧
      p'.chanSubmitSplitTxRes = some (w.resp .rawTx sid) := by
    intro sid p' hp'
    obtain ⟨p, hp, hsplit, -, hchan, -⟩ := hback sid p' hp'
    have hdone := hall sid ((h.members sid).mp (GoMap.mem_keys_of_lookup hp))
    exact ⟨hsplit.trans ((h.splitTx sid p hp).trans (if_pos hdone)), hchan.trans (h.chan sid p hp hdone)⟩
  have hentries' : ∀ {α : Type} (side : Side α), m'.mergedEntries side = side.entries merged' := fun side => by
    rw [mergedEntries, hredistributed.stored]
    rfl
  have hinputs := hconsistent.inputs
  have houtputs := hconsistent.outputs
  unfold Owned at hinputs houtputs
  rw [piece_of_submitted hmembers fun sid p hp => (hsubmitted sid p hp).1, hentries'] at hinputs houtputs
  refine ⟨m', hm', ⟨merged', m'.places inputs, m'.places outputs, hinputs, houtputs, ?_, ?_⟩,
    ⟨hprogress, hredistributed.stored, hunsigned.trans h.unsigned, fun sid p' hp' => ?_, hredistributed.inputs.partition,
      hredistributed.outputs.partition⟩, hconsistent.whole hredistributed.stored, hmembers, rfl, rfl, fun sid p' hp' => ?_, ?_,
    h.staged.sendTxData h.stage hmerged hm', fun sid p' hp' => ?_⟩
  · refine hredistributed.inputs.perm.trans ?_
    rw [← hentries inputs, h.txIn]
    exact hperm.flatMap_right _
  · refine hredistributed.outputs.perm.trans ?_
    rw [← hentries outputs, h.txOut]
    exact hperm.flatMap_right _
  · obtain ⟨p, hp, -, hsigned, -, -⟩ := hback sid p' hp'
    exact hsigned.trans (h.staged.unsigned h.stage sid p hp)
  · rw [(hsubmitted sid p' hp').1]
    rfl
  · obtain ⟨new, hreplies, htold⟩ := hredistributed.told
    rw [hreplies, h.quiet, List.nil_append]
    have hres : ((GoMap.toList m'.participants).map fun e =>
        (e.2.chanSubmitSplitTxRes, Response.submitSplitTxRes merged' e.2.inputIndes e.2.outputIndes)) =
        (GoMap.toList m'.participants).map fun e =>
          (e.2.chanSubmitSplitTxRes, .submitSplitTxRes merged' (m'.places inputs e.1) (m'.places outputs e.1)) := by
      refine List.map_congr_left fun e he => ?_
      have hp := GoMap.mem_toList.mp he
      rw [places_of_lookup hp, places_of_lookup hp]
      rfl
    rw [hres] at htold
    have hsent : new.Perm (m'.participants.keys.map fun sid =>
        (w.resp .rawTx sid, Response.submitSplitTxRes merged' (m'.places inputs sid) (m'.places outputs sid))) :=
      perm_of_own (fun sid p hp => (hsubmitted sid p hp).2) htold
    exact hsent.trans ((keys_perm_members hnodup hmembers).map _)
  · obtain ⟨p, hp, -, -, -, hchan⟩ := hback sid p' hp'
    exact hchan.trans (h.unasked sid p hp)

/-- There is a choice for every draw. -/
theorem plain_draws (hsome : members ≠ []) (hnodup : members.Nodup) (h : ∀ sid, sid ∈ m.participants.keys ↔ sid ∈ members) :
    Choices.plain.intn (GoMap.len m.participants) < GoMap.len m.participants := by
  rw [len_eq_members hnodup h]
  exact List.length_pos_iff.mpr hsome

/-- The first stage: it ends with a deal. -/
theorem splitting_stage (hw : w.Honest members) (hnodup : members.Nodup) (htwo : 1 < members.length) :
    Stage step w.Next members (Splitting w members) fun m => ∃ d : Deal w members, Opened d m where
  acts := by
    intro done m ev hunderway h hok
    obtain ⟨ch, ev⟩ := ev
    obtain ⟨-, sid, p, hp, hcalls⟩ := hok
    have hmem := (h.members sid).mp (GoMap.mem_keys_of_lookup hp)
    cases hcalls with
    | split hnone =>
      have hnew : sid ∉ done := by
        intro hdone
        rw [h.splitTx sid p hp, if_pos hdone] at hnone
        cases hnone
      obtain ⟨merged, inputIndes, outputIndes, hmerge, hmerged⟩ := h.merge (hw.whole sid hmem) hmem hnew
      refine ⟨sid, hmem, hnew, ?_⟩
      by_cases hall : ∀ j ∈ members, j ∈ done ++ [sid]
      · have hperm := hunderway.perm hnodup hmem hnew hall
        obtain ⟨m', hsend, d, hd⟩ := hmerged.deal hw hnodup htwo hperm rfl ch
        refine ⟨m', step_of_merged h.stage (GoMap.mem_keys_of_lookup hp) hmerge (hmerged.checkTxSubmitted.mpr hall) hsend, ?_,
          fun _ => ⟨d, hd⟩⟩
        exact fun ⟨j, hj, hmissing⟩ => absurd (hall j hj) hmissing
      · refine ⟨_, step_of_merging h.stage (GoMap.mem_keys_of_lookup hp) hmerge ?_, fun _ => hmerged, fun hall' => absurd hall' hall⟩
        exact Bool.eq_false_iff.mpr fun hsubmitted => hall (hmerged.checkTxSubmitted.mp hsubmitted)
    | signed _ htold =>
      rw [h.quiet] at htold
      cases htold
    | published _ htold =>
      rw [h.quiet] at htold
      cases htold
  able := by
    intro done m hunderway h
    obtain ⟨sid, hmem, hmissing⟩ := hunderway.missing
    obtain ⟨p, hp⟩ := GoMap.lookup_of_mem_keys ((h.members sid).mpr hmem)
    refine ⟨(.plain, .submitSplitTx sid (w.splitTx sid) (w.resp .rawTx sid)), ?_, sid, p, hp, ?_⟩
    · exact plain_draws (List.ne_nil_of_mem hmem) hnodup h.members
    · exact .split ((h.splitTx sid p hp).trans (if_neg hmissing))

/-! ### Signed transactions -/

theorem sameHeader_signedBase {tx base header : MsgTx} {old : Option MsgTx} (htx : SameHeader header tx)
    (hold : ∀ signedTx, old = some signedTx → SameHeader header signedTx) (h : signedBase tx old = .ok base) :
    SameHeader header base := by
  cases old with
  | none =>
    rw [signedBase, MsgTx.copy] at h
    split_ifs at h
    cases h
    exact htx
  | some signedTx =>
    cases h
    exact hold _ rfl

/-- A submission goes into a transaction of the same header. -/
theorem Signing.sameHeader {sid resp : ℕ} {tx header : MsgTx} {err : Option Err} (h : Signing ch sid tx resp m err m')
    (htx : SameHeader header tx) (hold : ∀ signedTx, m.signedTx = some signedTx → SameHeader header signedTx) :
    ∀ signedTx, m'.signedTx = some signedTx → SameHeader header signedTx := by
  have hpatched : ∀ {base : MsgTx}, signedBase tx m.signedTx = .ok base → ∀ txIn txOut,
      SameHeader header { base with txIn := txIn, txOut := txOut } := by
    intro base hbase txIn txOut
    have hsame := sameHeader_signedBase htx hold hbase
    rw [SameHeader] at hsame ⊢
    rw [hsame]
  cases h with
  | unknown => exact hold
  | nilInput _ hbase =>
    intro signedTx hsigned
    cases hsigned
    exact hpatched hbase ..
  | nilOutput _ hbase =>
    intro signedTx hsigned
    cases hsigned
    exact hpatched hbase ..
  | waiting _ hbase =>
    intro signedTx hsigned
    cases hsigned
    exact hpatched hbase ..
  | completed _ hbase _ _ _ hsend =>
    obtain ⟨cs, -, -, -, rfl⟩ := sendSigned_eq_ok.mp hsend
    intro signedTx hsigned
    cases hsigned
    exact hpatched hbase ..

/-- The signed transactions of `done` are in. -/
structure Sealing (d : Deal w members) (done : List ℕ) (m : JoinSession) : Prop where
  collected : ∃ m₀, Opened d m₀ ∧ Collected m₀ m d.merged d.sign (w.resp .signedTx) done
  header : ∀ signedTx, m.signedTx = some signedTx → SameHeader d.merged signedTx
  staged : m.Staged

theorem Opened.sealing {d : Deal w members} (h : Opened d m) : Sealing d [] m where
  collected := ⟨m, h, h.opening.collected ..⟩
  header signedTx hsigned := by
    rw [h.opening.unsigned] at hsigned
    cases hsigned
  staged := h.staged

theorem Opened.offered {d : Deal w members} (hw : w.Honest members) (h : Opened d m) : Offered m d.merged d.sign where
  inputs sid hsid := (hw.signs sid ((h.members sid).mp hsid) d.merged _ _ h.whole).length
  outputs sid hsid := congrArg List.length (hw.signs sid ((h.members sid).mp hsid) d.merged _ _ h.whole).txOut
  whole sid hsid := (hw.signs sid ((h.members sid).mp hsid) d.merged _ _ h.whole).whole h.whole

/-- The calls of the later stages come on channels that the deal was not told on. -/
theorem Opened.ownCalls {d : Deal w members} (hw : w.Honest members) (h : Opened d m) : m.OwnCalls (w.resp .signedTx) := by
  refine JoinSession.ownCalls hw h.members .signedTx fun sid hsid hold => ?_
  obtain ⟨e, he, heq⟩ := List.mem_map.mp hold
  obtain ⟨sid', hsid', rfl⟩ := List.mem_map.mp (h.told.mem_iff.mp he)
  have hstage := (hw.own _ _ sid' hsid' sid hsid heq).1
  cases hstage

theorem sameHeader_of_step {sid resp : ℕ} {tx header : MsgTx} (h : m.step (ch, .submitSignedTx sid tx resp) = some m')
    (htx : SameHeader header tx) (hold : ∀ signedTx, m.signedTx = some signedTx → SameHeader header signedTx) :
    ∀ signedTx, m'.signedTx = some signedTx → SameHeader header signedTx := by
  cases turned_of_step h with
  | refused => exact hold
  | invalid _ _ hsigning => exact hsigning.sameHeader htx hold
  | signed _ _ hsigning => exact hsigning.sameHeader htx hold

/-- What all the submitted transactions have in common, the one merged by owner has too. -/
theorem map_byOwner {α β : Type} {side : Side α} {txs : ℕ → MsgTx} {n : ℕ} (f : Option α → β) {l : List β}
    (hparts : Partition (m.places side) n) (hlen : ∀ sid ∈ m.participants.keys, (side.entries (txs sid)).length = n)
    (hl : l.length = n) (hf : ∀ sid ∈ m.participants.keys, (side.entries (txs sid)).map f = l) :
    (m.byOwner side txs n).map f = l := by
  refine List.ext_getElem? fun i => ?_
  rw [List.getElem?_map]
  by_cases hi : i < n
  · obtain ⟨sid, hsid⟩ := hparts.cover i hi
    have hmem := mem_keys_of_place hsid
    rw [getElem?_byOwner hparts (hlen sid hmem) hsid, ← hf sid hmem, List.getElem?_map]
  · rw [List.getElem?_eq_none (by simpa [byOwner] using hi), List.getElem?_eq_none (by omega)]
    rfl

/-- The merged transaction is the deal's, signed by the owners. -/
theorem Opened.signs {d : Deal w members} {signedTx : MsgTx} (hw : w.Honest members) (h : Opened d m)
    (hheader : SameHeader d.merged signedTx) (htxIn : signedTx.txIn = m.byOwner Matcher.inputs d.sign d.merged.txIn.length)
    (htxOut : signedTx.txOut = m.byOwner Matcher.outputs d.sign d.merged.txOut.length) : Signs d.merged signedTx := by
  have hoffered := h.offered hw
  have hsigns : ∀ sid ∈ m.participants.keys, Signs d.merged (d.sign sid) := fun sid hsid =>
    hw.signs sid ((h.members sid).mp hsid) d.merged _ _ h.whole
  have hout : signedTx.txOut = d.merged.txOut := by
    rw [htxOut, ← List.map_id (m.byOwner ..)]
    refine map_byOwner id h.opening.outputs hoffered.outputs rfl fun sid hsid => ?_
    rw [List.map_id]
    exact (hsigns sid hsid).txOut
  refine ⟨?_, ?_⟩
  · rw [htxIn]
    exact map_byOwner _ h.opening.inputs hoffered.inputs (List.length_map ..) fun sid hsid => (hsigns sid hsid).inputs
  · rw [SameHeader, hout] at hheader
    exact hheader

theorem signing_of_step {sid resp : ℕ} {tx : MsgTx} (hstage : m.progress = .signedTx)
    (h : m.step (ch, .submitSignedTx sid tx resp) = some m') (hdone : m'.progress = .publishTx) :
    ∃ p, m.participants.lookup sid = some p ∧ Signing ch sid tx resp m none m' := by
  have hbusy : m.progress ≠ .publishTx := hstage.trans_ne (by decide)
  cases turned_of_step h with
  | refused => exact absurd hdone hbusy
  | invalid _ _ hsigning =>
    exfalso
    cases hsigning with
    | unknown => exact hbusy hdone
    | nilInput => exact hbusy hdone
    | nilOutput => exact hbusy hdone
  | signed _ hp hsigning => exact ⟨_, hp, hsigning⟩

/-- Who has submitted before the last one, or is the last one, is as it was but for the submission and the publisher. -/
theorem Collected.lookup_last {s : JoinSession} {merged : MsgTx} {txs : ℕ → MsgTx} {resp : ℕ → ℕ} {sid sid' : ℕ}
    {p q : SessionParticipant} (h : Collected m s merged txs resp done) (hp : s.participants.lookup sid = some p)
    (hsigning : Signing ch sid (txs sid) (resp sid) s none m') (hdone : sid' ∈ done ++ [sid])
    (hq : m'.participants.lookup sid' = some q) : ∃ p₀ publisher, m.participants.lookup sid' = some p₀ ∧
      q = { p₀ with signedTx := some (txs sid'), chanSubmitSignedTxRes := some (resp sid'), publisher := publisher } := by
  obtain ⟨publisher, hlookup⟩ := hsigning.lookup hp sid'
  rw [hlookup, h.lookup_signed, Option.map_eq_some_iff] at hq
  obtain ⟨q', hq', rfl⟩ := hq
  obtain ⟨p₀, hp₀, rfl⟩ := Option.map_eq_some_iff.mp hq'
  rw [if_pos hdone]
  exact ⟨p₀, _, hp₀, rfl⟩

/-- Nobody joins, and who submits stays. -/
theorem Collected.keys_last {s : JoinSession} {merged : MsgTx} {txs : ℕ → MsgTx} {resp : ℕ → ℕ} {sid : ℕ} {p : SessionParticipant}
    (h : Collected m s merged txs resp done) (hp : s.participants.lookup sid = some p)
    (hsigning : Signing ch sid (txs sid) (resp sid) s none m') (sid' : ℕ) : sid' ∈ m'.participants.keys ↔ sid' ∈ m.participants.keys := by
  obtain ⟨publisher, hlookup⟩ := hsigning.lookup hp sid'
  rw [h.lookup_signed] at hlookup
  rw [← AList.mem_keys, ← AList.mem_keys, ← AList.lookup_isSome, ← AList.lookup_isSome, hlookup, Option.isSome_map, Option.isSome_map]

theorem Sealing.keys {d : Deal w members} (h : Sealing d done m) (sid : ℕ) : sid ∈ m.participants.keys ↔ sid ∈ members := by
  obtain ⟨m₀, hopened, hcollected⟩ := h.collected
  rw [← hopened.members, ← AList.mem_keys, ← AList.mem_keys, ← AList.lookup_isSome, ← AList.lookup_isSome, hcollected.lookup,
    Option.isSome_map]

/-! ### The published transaction -/

/-- Everybody was told the signed transaction, and the results of `done` are in. -/
structure Publishing (P : Purchase w members) (done : List ℕ) (m : JoinSession) : Prop where
  stage : m.progress = .publishTx
  members : ∀ sid, sid ∈ m.participants.keys ↔ sid ∈ members
  splitTx : ∀ sid p, m.participants.lookup sid = some p → p.splitTx.isSome = true
  publisher : ∀ sid p, m.participants.lookup sid = some p → (p.publisher = true ↔ sid = P.publisher)
  sent : ∀ sid p, m.participants.lookup sid = some p → (p.sentPublished = true ↔ sid ∈ done)
  chan : ∀ sid p, m.participants.lookup sid = some p → sid ∈ done → p.chanPublishedTxRes = some (w.resp .publishTx sid)
  stored : m.publishedTx = if P.publisher ∈ done then w.publish P.publisher P.signedTx else none
  told : m.replies.Perm (P.toDeal.replies ++ P.signedReplies)
  finished : m.finished = 0
  staged : m.Staged

/-- The transaction is complete: everybody was told it, one with the order to publish it. -/
theorem Sealing.last {d : Deal w members} (hw : w.Honest members) (hnodup : members.Nodup) (h : Sealing d done m) {sid : ℕ}
    (hmem : sid ∈ members) (hnew : sid ∉ done) (hall : ∀ j ∈ members, j ∈ done ++ [sid])
    (hintn : ch.intn members.length < members.length) :
    ∃ m', m.step (ch, .submitSignedTx sid (d.sign sid) (w.resp .signedTx sid)) = some m' ∧ ∃ P : Purchase w members, Publishing P [] m' := by
  have hlen := len_eq_members hnodup h.keys
  obtain ⟨⟨m₀, hopened, hcollected⟩, hheader, hstaged⟩ := h
  have hcalls := hopened.ownCalls hw
  have hlen₀ := len_eq_members hnodup hopened.members
  obtain ⟨m', hstep, hsigned⟩ := hcollected.last hopened.opening (hopened.offered hw) hcalls ((hopened.members sid).mpr hmem) hnew
    (fun sid' hsid' => hall sid' ((hopened.members sid').mp hsid')) (hlen₀.symm ▸ hintn)
  obtain ⟨pub', ⟨hpub', signedTx', new', hnew', htold'⟩, hgoing, hfinished⟩ :=
    Publication.exists_appointed hstaged hcollected.stage (hlen.symm ▸ hintn) hstep hsigned.stage
  obtain ⟨signedTx, hsignedTx, htxIn, htxOut, pub, hpub, new, hreplies, htold⟩ := hsigned.signed
  obtain ⟨p, hp, hsigning⟩ := signing_of_step hcollected.stage hstep hsigned.stage
  have hkeys : ∀ sid', sid' ∈ m'.participants.keys ↔ sid' ∈ members := fun sid' =>
    (hcollected.keys_last hp hsigning sid').trans (hopened.members sid')
  have hback : ∀ sid' q, m'.participants.lookup sid' = some q → ∃ p₀ publisher, m₀.participants.lookup sid' = some p₀ ∧
      q = { p₀ with signedTx := some (d.sign sid'), chanSubmitSignedTxRes := some (w.resp .signedTx sid'), publisher := publisher } :=
    fun sid' q hq => hcollected.lookup_last hp hsigning (hall sid' ((hkeys sid').mp (GoMap.mem_keys_of_lookup hq))) hq
  -- the one who was told to publish is the one who is marked
  obtain rfl : pub' = pub := by
    rw [hcollected.replies, hreplies] at hnew'
    obtain rfl := List.append_cancel_left hnew'
    obtain ⟨q, hq⟩ := GoMap.lookup_of_mem_keys hpub'
    obtain ⟨p₀, publisher, -, rfl⟩ := hback pub' q hq
    have hmem' := htold'.mem_iff.mpr (List.mem_map_of_mem (GoMap.mem_toList.mpr hq))
    obtain ⟨e, he, heq⟩ := List.mem_map.mp hmem'
    obtain ⟨sid', hsid', rfl⟩ := List.mem_map.mp (htold.mem_iff.mp he)
    rw [Prod.mk.injEq, Option.some.injEq, Response.submitSignedTxRes.injEq] at heq
    obtain ⟨hresp, -, hdecide⟩ := heq
    have hsame : sid' = pub := by simpa using hdecide
    have howner := hcalls.own sid' hsid' pub' ((hopened.members pub').mpr ((hkeys pub').mp hpub')) hresp
    exact howner.symm.trans hsame
  have hsigns := hopened.signs hw (sameHeader_of_step hstep (hw.signs sid hmem d.merged _ _ hopened.whole).sameHeader hheader _ hsignedTx)
    htxIn htxOut
  have hown : ∀ sid' ∈ members, ∀ i ∈ d.inputIndes sid', signedTx.txIn[i]? = (d.sign sid').txIn[i]? := by
    intro sid' hsid' i hi
    rw [← hopened.inputs] at hi
    rw [htxIn]
    exact getElem?_byOwner hopened.opening.inputs ((hopened.offered hw).inputs sid' ((hopened.members sid').mpr hsid')) hi
  refine ⟨m', hstep, ⟨d, signedTx, pub', hsigns, hown, (hkeys pub').mp hpub'⟩, ?_⟩
  refine ⟨hsigned.stage, hkeys, fun sid' q hq => ?_, hgoing.publisher, fun sid' q hq => ?_,
    fun sid' q hq hdone => absurd hdone List.not_mem_nil, ?_, ?_, hfinished, staged_step hstaged hstep⟩
  · obtain ⟨p₀, publisher, hp₀, rfl⟩ := hback sid' q hq
    exact hopened.splitTx sid' p₀ hp₀
  · obtain ⟨p₀, publisher, hp₀, rfl⟩ := hback sid' q hq
    have hbusy : m₀.progress ≠ .publishTx := hopened.opening.stage.trans_ne (by decide)
    show p₀.sentPublished = true ↔ sid' ∈ []
    rw [(hopened.staged.unpublished hbusy sid' p₀ hp₀).1]
    simp
  · rw [if_neg List.not_mem_nil]
    exact hgoing.stored
  · rw [hreplies]
    exact hopened.told.append (htold.trans ((keys_perm_members hnodup hopened.members).map _))

/-- The second stage: it ends with a transaction that everybody has signed. -/
theorem sealing_stage (hw : w.Honest members) (hnodup : members.Nodup) :
    Stage step w.Next members (fun done m => ∃ d : Deal w members, Sealing d done m)
      fun m => ∃ P : Purchase w members, Publishing P [] m where
  acts := by
    intro done m ev hunderway ⟨d, h⟩ hok
    obtain ⟨ch, ev⟩ := ev
    obtain ⟨hintn, sid, p, hp, hcalls⟩ := hok
    obtain ⟨⟨m₀, hopened, hcollected⟩, hheader, hstaged⟩ := id h
    have hlookup := hcollected.lookup sid
    rw [hp] at hlookup
    obtain ⟨p₀, hp₀, heq⟩ := Option.map_eq_some_iff.mp hlookup.symm
    have hmem := (hopened.members sid).mp (GoMap.mem_keys_of_lookup hp₀)
    cases hcalls with
    | split hnone =>
      exfalso
      have hsplit := hopened.splitTx sid p₀ hp₀
      split_ifs at heq
      · rw [← heq] at hnone
        rw [hnone] at hsplit
        cases hsplit
      · rw [heq, hnone] at hsplit
        cases hsplit
    | signed hnone htold =>
      have hnew : sid ∉ done := by
        intro hdone
        rw [if_pos hdone] at heq
        rw [← heq] at hnone
        cases hnone
      rw [hcollected.replies] at htold
      rw [d.told hw hmem (hopened.told.mem_iff.mp htold)]
      refine ⟨sid, hmem, hnew, ?_⟩
      by_cases hall : ∀ j ∈ members, j ∈ done ++ [sid]
      · dsimp only at hintn
        rw [len_eq_members hnodup h.keys] at hintn
        obtain ⟨m', hstep, hm'⟩ := h.last hw hnodup hmem hnew hall hintn
        exact ⟨m', hstep, fun ⟨j, hj, hmissing⟩ => absurd (hall j hj) hmissing, fun _ => hm'⟩
      · push Not at hall
        obtain ⟨j, hj, hmissing⟩ := hall
        obtain ⟨m', hstep, hm'⟩ := hcollected.step hopened.opening (hopened.offered hw) ((hopened.members sid).mpr hmem) hnew ch
          ⟨j, (hopened.members j).mpr hj, hmissing⟩
        refine ⟨m', hstep, fun _ => ⟨d, ⟨m₀, hopened, hm'⟩, ?_, staged_step hstaged hstep⟩, fun hall => absurd (hall j hj) hmissing⟩
        exact sameHeader_of_step hstep (hw.signs sid hmem d.merged _ _ hopened.whole).sameHeader hheader
    | published _ htold =>
      exfalso
      rw [hcollected.replies] at htold
      obtain ⟨sid', -, heq'⟩ := List.mem_map.mp (hopened.told.mem_iff.mp htold)
      cases (Prod.mk.inj heq').2
  able := by
    intro done m hunderway ⟨d, h⟩
    obtain ⟨sid, hmem, hmissing⟩ := hunderway.missing
    obtain ⟨m₀, hopened, hcollected⟩ := h.collected
    obtain ⟨p, hp⟩ := GoMap.lookup_of_mem_keys ((hopened.members sid).mpr hmem)
    have hlookup : m.participants.lookup sid = some p := by
      rw [hcollected.lookup, hp, Option.map_some, if_neg hmissing]
    have htold : (w.resp .rawTx sid, Response.submitSplitTxRes d.merged (d.inputIndes sid) (d.outputIndes sid)) ∈ m.replies := by
      rw [hcollected.replies]
      exact hopened.told.mem_iff.mpr (List.mem_map_of_mem hmem)
    exact ⟨(.plain, .submitSignedTx sid (d.sign sid) (w.resp .signedTx sid)), plain_draws (List.ne_nil_of_mem hmem) hnodup h.keys,
      sid, p, hlookup, .signed (hopened.opening.nobody sid p hp) htold⟩

/-- Everybody was told how it came out. -/
structure Sold (P : Purchase w members) (m : JoinSession) : Prop where
  told : m.replies.Perm P.replies
  finished : m.finished = 1
  called : ∀ sid p, m.participants.lookup sid = some p → p.splitTx.isSome = true ∧ p.signedTx.isSome = true ∧ p.sentPublished = true

theorem Publishing.ownCalls {P : Purchase w members} (hw : w.Honest members) (h : Publishing P done m) :
    m.OwnCalls (w.resp .publishTx) := by
  refine JoinSession.ownCalls hw h.members .publishTx fun sid hsid hold => ?_
  obtain ⟨e, he, heq⟩ := List.mem_map.mp hold
  rcases List.mem_append.mp (h.told.mem_iff.mp he) with hdeal | hsigned
  · obtain ⟨sid', hsid', rfl⟩ := List.mem_map.mp hdeal
    cases (hw.own _ _ sid' hsid' sid hsid heq).1
  · obtain ⟨sid', hsid', rfl⟩ := List.mem_map.mp hsigned
    cases (hw.own _ _ sid' hsid' sid hsid heq).1

/-- A further result is noted. -/
theorem Publishing.note {P : Purchase w members} (h : Publishing P done m) {sid : ℕ} {p : SessionParticipant} {tx : Option MsgTx}
    (hp : m.participants.lookup sid = some p) (htx : sid = P.publisher → tx = w.publish P.publisher P.signedTx) :
    Publishing P (done ++ [sid]) (m.withPublished sid p.publisher tx (w.resp .publishTx sid)) := by
  have hback : ∀ sid' q, (m.withPublished sid p.publisher tx (w.resp .publishTx sid)).participants.lookup sid' = some q →
      ∃ q', m.participants.lookup sid' = some q' ∧
        q = if sid' = sid then { q' with sentPublished := true, chanPublishedTxRes := some (w.resp .publishTx sid) } else q' := by
    intro sid' q hq
    rw [lookup_withPublished, Option.map_eq_some_iff] at hq
    obtain ⟨q', hq', rfl⟩ := hq
    exact ⟨q', hq', rfl⟩
  refine ⟨h.stage, fun sid' => ?_, fun sid' q hq => ?_, fun sid' q hq => ?_, fun sid' q hq => ?_, fun sid' q hq hdone => ?_, ?_,
    h.told, h.finished, ?_⟩
  · rw [participants_withPublished, GoMap.keys_modify]
    exact h.members sid'
  · obtain ⟨q', hq', rfl⟩ := hback sid' q hq
    split_ifs
    · exact h.splitTx sid' q' hq'
    · exact h.splitTx sid' q' hq'
  · obtain ⟨q', hq', rfl⟩ := hback sid' q hq
    split_ifs
    · exact h.publisher sid' q' hq'
    · exact h.publisher sid' q' hq'
  · obtain ⟨q', hq', rfl⟩ := hback sid' q hq
    by_cases hsid : sid' = sid
    · simp [hsid]
    · rw [if_neg hsid, h.sent sid' q' hq']
      simp [hsid]
  · obtain ⟨q', hq', rfl⟩ := hback sid' q hq
    by_cases hsid : sid' = sid
    · rw [if_pos hsid, hsid]
    · rw [if_neg hsid]
      exact h.chan sid' q' hq' ((List.mem_append.mp hdone).resolve_right fun hlast => hsid (List.mem_singleton.mp hlast))
  · show (if p.publisher then tx else m.publishedTx) = _
    by_cases hpub : sid = P.publisher
    · rw [if_pos ((h.publisher sid p hp).mpr hpub), if_pos (by simp [hpub]), htx hpub]
    · rw [if_neg (mt (h.publisher sid p hp).mp hpub), h.stored]
      simp [Ne.symm hpub]
  · exact h.staged.withPublished h.stage ..

/-- Once all the results are in, everybody is told how it came out. -/
theorem Publishing.sell {P : Purchase w members} (hw : w.Honest members) (hnodup : members.Nodup) (h : Publishing P done m)
    (hall : ∀ sid ∈ members, sid ∈ done) (ch : Choices) :
    ∃ m₁, m.sendPublished ch = .ok m₁ ∧ Sold P { m₁ with finished := m₁.finished + 1 } := by
  have hdone : ∀ sid p, m.participants.lookup sid = some p → sid ∈ done := fun sid p hp =>
    hall sid ((h.members sid).mp (GoMap.mem_keys_of_lookup hp))
  have hchan : ∀ sid p, m.participants.lookup sid = some p → p.chanPublishedTxRes = some (w.resp .publishTx sid) :=
    fun sid p hp => h.chan sid p hp (hdone sid p hp)
  have hres : m.publishedRes = P.outcome := by
    have hstored := h.stored
    rw [if_pos (hall P.publisher P.member)] at hstored
    rw [publishedRes, hstored, Purchase.outcome]
    cases w.publish P.publisher P.signedTx with
    | none => rfl
    | some tx => rfl
  obtain ⟨m₁, hsend⟩ := exists_sendAll (fun _ => m.publishedRes) ((h.ownCalls hw).listening hchan) ch.order [309]
  obtain ⟨-, ⟨new, hnew, htold⟩, hm₁⟩ := sendAll_of_ok hsend
  refine ⟨m₁, hsend, ?_, ?_, fun sid p hp => ?_⟩
  · show m₁.replies.Perm P.replies
    rw [hres] at htold
    have hsent : new.Perm (m.participants.keys.map fun sid => (w.resp .publishTx sid, P.outcome)) := perm_of_own hchan htold
    rw [hnew]
    exact h.told.append (hsent.trans ((keys_perm_members hnodup h.members).map _))
  · rw [hm₁]
    exact congrArg (· + 1) h.finished
  · rw [hm₁] at hp
    exact ⟨h.splitTx sid p hp, h.staged.signed h.stage sid p hp, (h.sent sid p hp).mpr (hdone sid p hp)⟩

theorem step_of_publishing {sid : ℕ} {p : SessionParticipant} {tx : Option MsgTx} {resp : ℕ} (hstage : m.progress = .publishTx)
    (hp : m.participants.lookup sid = some p) (hwhole : p.publisher = true → ∀ result, tx = some result → result.Whole)
    (hopen : (m.withPublished sid p.publisher tx resp).checkAllSentPublished = false) :
    m.step (ch, .publishResult sid tx resp) = some (m.withPublished sid p.publisher tx resp) := by
  refine toOption_eq_some.mpr (inStage_eq_ok.mpr (.inr ⟨hstage, .inr (publishTxResult_eq_ok.mpr (.inr ⟨p, hp, rfl, hwhole, ?_⟩))⟩))
  rw [if_neg (Bool.eq_false_iff.mp hopen)]

theorem step_of_published {sid : ℕ} {p : SessionParticipant} {tx : Option MsgTx} {resp : ℕ} {m₁ : JoinSession}
    (hstage : m.progress = .publishTx) (hp : m.participants.lookup sid = some p)
    (hwhole : p.publisher = true → ∀ result, tx = some result → result.Whole)
    (hall : (m.withPublished sid p.publisher tx resp).checkAllSentPublished = true)
    (hsend : (m.withPublished sid p.publisher tx resp).sendPublished ch = .ok m₁) :
    m.step (ch, .publishResult sid tx resp) = some { m₁ with finished := m₁.finished + 1 } := by
  refine toOption_eq_some.mpr (inStage_eq_ok.mpr (.inr ⟨hstage, .inr (publishTxResult_eq_ok.mpr (.inr ⟨p, hp, rfl, hwhole, ?_⟩))⟩))
  rw [if_pos hall]
  exact ⟨m₁, hsend, rfl⟩

theorem Publishing.checkAllSentPublished {P : Purchase w members} (h : Publishing P done m) :
    m.checkAllSentPublished = true ↔ ∀ sid ∈ members, sid ∈ done := by
  rw [Service.checkAllSentPublished_iff]
  constructor
  · intro hall sid hmem
    obtain ⟨p, hp⟩ := GoMap.lookup_of_mem_keys ((h.members sid).mpr hmem)
    exact (h.sent sid p hp).mp (hall sid p hp)
  · intro hall sid p hp
    exact (h.sent sid p hp).mpr (hall sid ((h.members sid).mp (GoMap.mem_keys_of_lookup hp)))

/-- The last stage: it ends when everybody knows how it came out. -/
theorem publishing_stage (hw : w.Honest members) (hnodup : members.Nodup) :
    Stage step w.Next members (fun done m => ∃ P : Purchase w members, Publishing P done m)
      fun m => ∃ P : Purchase w members, Sold P m where
  acts := by
    intro done m ev hunderway ⟨P, h⟩ hok
    obtain ⟨ch, ev⟩ := ev
    obtain ⟨-, sid, p, hp, hcalls⟩ := hok
    have hmem := (h.members sid).mp (GoMap.mem_keys_of_lookup hp)
    cases hcalls with
    | split hnone =>
      have hsplit := h.splitTx sid p hp
      rw [hnone] at hsplit
      cases hsplit
    | signed hnone _ =>
      have hsigned := h.staged.signed h.stage sid p hp
      rw [hnone] at hsigned
      cases hsigned
    | @published signedTx publisher tx hnot htold htx =>
      have hnew : sid ∉ done := fun hdone => Bool.false_ne_true (hnot.symm.trans ((h.sent sid p hp).mpr hdone))
      obtain ⟨rfl, rfl⟩ := P.told hw hmem (h.told.mem_iff.mp htold)
      have hnoted := h.note hp fun hpub => hpub ▸ htx (decide_eq_true hpub)
      have hwhole : p.publisher = true → ∀ result, tx = some result → result.Whole := by
        intro hpublisher result hresult
        have hsent := htx (decide_eq_true ((h.publisher sid p hp).mp hpublisher))
        exact hw.publishes sid hmem P.signedTx (P.signs.whole (P.whole hw)) result (hsent.symm.trans hresult)
      refine ⟨sid, hmem, hnew, ?_⟩
      by_cases hall : ∀ j ∈ members, j ∈ done ++ [sid]
      · obtain ⟨m₁, hsend, hsold⟩ := hnoted.sell hw hnodup hall ch
        refine ⟨_, step_of_published h.stage hp hwhole (hnoted.checkAllSentPublished.mpr hall) hsend, ?_, fun _ => ⟨P, hsold⟩⟩
        exact fun ⟨j, hj, hmissing⟩ => absurd (hall j hj) hmissing
      · have hopen := Bool.eq_false_iff.mpr (mt hnoted.checkAllSentPublished.mp hall)
        exact ⟨_, step_of_publishing h.stage hp hwhole hopen, fun _ => ⟨P, hnoted⟩, fun hall' => absurd hall' hall⟩
  able := by
    intro done m hunderway ⟨P, h⟩
    obtain ⟨sid, hmem, hmissing⟩ := hunderway.missing
    obtain ⟨p, hp⟩ := GoMap.lookup_of_mem_keys ((h.members sid).mpr hmem)
    have hnot : p.sentPublished = false := Bool.eq_false_iff.mpr (mt (h.sent sid p hp).mp hmissing)
    have htold : (w.resp .signedTx sid, Response.submitSignedTxRes P.signedTx (decide (sid = P.publisher))) ∈ m.replies :=
      h.told.mem_iff.mpr (List.mem_append_right _ (List.mem_map_of_mem hmem))
    exact ⟨(.plain, .publishResult sid (w.publish sid P.signedTx) (w.resp .publishTx sid)),
      plain_draws (List.ne_nil_of_mem hmem) hnodup h.members, sid, p, hp, .published hnot htold fun _ => rfl⟩

theorem Sold.closed {P : Purchase w members} (h : Sold P m) {ev : Choices × Event} : ¬ w.Next m ev := by
  rintro ⟨-, sid, p, hp, hcalls⟩
  obtain ⟨hsplit, hsigned, hsent⟩ := h.called sid p hp
  obtain ⟨ch, ev⟩ := ev
  cases hcalls with
  | split hnone =>
    rw [hnone] at hsplit
    cases hsplit
  | signed hnone _ =>
    rw [hnone] at hsigned
    cases hsigned
  | published hnot _ _ =>
    rw [hnot] at hsent
    cases hsent

/-! ### From the first call to the last -/

/-- A session with the number of calls so far. -/
inductive Purchasing (w : Clients) (members : List ℕ) : ℕ × JoinSession → Prop where
  | splitting {done : List ℕ} {m : JoinSession} (hunderway : Underway members done) (h : Splitting w members done m) :
      Purchasing w members (done.length, m)
  | sealing {done : List ℕ} {m : JoinSession} (hunderway : Underway members done) (h : ∃ d : Deal w members, Sealing d done m) :
      Purchasing w members (members.length + done.length, m)
  | publishing {done : List ℕ} {m : JoinSession} (hunderway : Underway members done)
      (h : ∃ P : Purchase w members, Publishing P done m) : Purchasing w members (2 * members.length + done.length, m)
  | sold {m : JoinSession} {P : Purchase w members} (h : Sold P m) : Purchasing w members (3 * members.length, m)

/-- A call goes through, and the purchase goes on. -/
theorem Purchasing.next {t : ℕ × JoinSession} (hw : w.Honest members) (hnodup : members.Nodup) (htwo : 1 < members.length)
    (h : Purchasing w members t) {ev : Choices × Event} (hnext : w.Next t.2 ev) :
    ∃ m', step t.2 ev = some m' ∧ Purchasing w members (t.1 + 1, m') := by
  have hsome : members ≠ [] := List.ne_nil_of_length_pos (Nat.zero_lt_of_lt htwo)
  have hstart : Underway members [] := .start hsome
  cases h with
  | @splitting done m hunderway h =>
    obtain ⟨m', hstep, ⟨sid, hunderway', h'⟩ | ⟨hlast, d, hd⟩⟩ := (splitting_stage hw hnodup htwo).advance hnodup hunderway h hnext
    · refine ⟨m', hstep, ?_⟩
      have hgoes := Purchasing.splitting hunderway' h'
      rwa [List.length_append, List.length_singleton] at hgoes
    · refine ⟨m', hstep, ?_⟩
      have hgoes := Purchasing.sealing hstart ⟨d, hd.sealing⟩
      rwa [List.length_nil, Nat.add_zero, ← hlast] at hgoes
  | @sealing done m hunderway h =>
    obtain ⟨m', hstep, ⟨sid, hunderway', h'⟩ | ⟨hlast, hP⟩⟩ := (sealing_stage hw hnodup).advance hnodup hunderway h hnext
    · refine ⟨m', hstep, ?_⟩
      have hgoes := Purchasing.sealing hunderway' h'
      rwa [List.length_append, List.length_singleton, ← Nat.add_assoc] at hgoes
    · refine ⟨m', hstep, ?_⟩
      have hgoes := Purchasing.publishing hstart hP
      rwa [List.length_nil, Nat.add_zero, show 2 * members.length = members.length + done.length + 1 by omega] at hgoes
  | @publishing done m hunderway h =>
    obtain ⟨m', hstep, ⟨sid, hunderway', h'⟩ | ⟨hlast, P, hP⟩⟩ := (publishing_stage hw hnodup).advance hnodup hunderway h hnext
    · refine ⟨m', hstep, ?_⟩
      have hgoes := Purchasing.publishing hunderway' h'
      rwa [List.length_append, List.length_singleton, ← Nat.add_assoc] at hgoes
    · refine ⟨m', hstep, ?_⟩
      have hgoes := Purchasing.sold hP
      rwa [show 3 * members.length = 2 * members.length + done.length + 1 by omega] at hgoes
  | sold h => exact absurd hnext h.closed

/-- Before everybody has called in every stage, somebody can call. -/
theorem Purchasing.able {n : ℕ} (hw : w.Honest members) (hnodup : members.Nodup) (htwo : 1 < members.length)
    (h : Purchasing w members (n, m)) (hn : n < 3 * members.length) : m.finished = 0 ∧ ∃ ev, w.Next m ev := by
  cases h with
  | splitting hunderway h =>
    exact ⟨(h.staged.unfinished (h.stage.trans_ne (by decide))).2, (splitting_stage hw hnodup htwo).able hunderway h⟩
  | sealing hunderway h =>
    obtain ⟨d, hd⟩ := h
    obtain ⟨m₀, -, hcollected⟩ := hd.collected
    exact ⟨(hd.staged.unfinished (hcollected.stage.trans_ne (by decide))).2, (sealing_stage hw hnodup).able hunderway ⟨d, hd⟩⟩
  | publishing hunderway h =>
    obtain ⟨P, hP⟩ := h
    exact ⟨hP.finished, (publishing_stage hw hnodup).able hunderway ⟨P, hP⟩⟩
  | sold h => exact absurd hn (Nat.lt_irrefl _)

theorem Purchasing.complete {n : ℕ} (h : Purchasing w members (n, m)) (hn : 3 * members.length ≤ n) :
    n = 3 * members.length ∧ ∃ P : Purchase w members, Sold P m := by
  cases h with
  | splitting hunderway h => exact absurd hn (by have := hunderway.length_lt; omega)
  | sealing hunderway h => exact absurd hn (by have := hunderway.length_lt; omega)
  | publishing hunderway h => exact absurd hn (by have := hunderway.length_lt; omega)
  | @sold _ P h => exact ⟨rfl, P, h⟩

theorem purchasing_of_runsTo {t : ℕ × JoinSession} (hw : w.Honest members) (hnodup : members.Nodup) (htwo : 1 < members.length)
    (hrun : RunsTo (counted step) (fun t ev => w.Next t.2 ev) (0, newJoinSession true members) t) : Purchasing w members t := by
  refine hrun.invariant ?_ fun t ev t' h hnext hstep => ?_
  · exact .splitting (.start (List.ne_nil_of_length_pos (Nat.zero_lt_of_lt htwo))) (splitting_newJoinSession w hnodup)
  · obtain ⟨m', hm', hgoes⟩ := h.next hw hnodup htwo hnext
    obtain ⟨hcount, hstep⟩ := counted_eq_some.mp hstep
    rw [hm', Option.some.injEq] at hstep
    rwa [hstep, ← hcount] at hgoes

/-- **A purchase completes.** Whatever the order of the calls, each one goes through, somebody can call until
everybody has called in every stage, and then everybody was told one and the same transaction. -/
theorem purchase_completes {w : Clients} {members : List ℕ} (hw : w.Honest members) (hnodup : members.Nodup)
    (htwo : 1 < members.length) {n : ℕ} {m : JoinSession}
    (hrun : RunsTo (counted step) (fun t ev => w.Next t.2 ev) (0, newJoinSession true members) (n, m)) :
    (∀ ev, w.Next m ev → ∃ m', step m ev = some m') ∧
      (n < 3 * members.length → m.finished = 0 ∧ ∃ ev, w.Next m ev) ∧
        (3 * members.length ≤ n → n = 3 * members.length ∧ m.finished = 1 ∧ (∀ ev, ¬ w.Next m ev) ∧
          ∃ P : Purchase w members, m.replies.Perm P.replies) := by
  have hpurchasing := purchasing_of_runsTo hw hnodup htwo hrun
  refine ⟨fun ev hnext => ?_, hpurchasing.able hw hnodup htwo, fun hn => ?_⟩
  · obtain ⟨m', hstep, -⟩ := hpurchasing.next hw hnodup htwo hnext
    exact ⟨m', hstep⟩
  · obtain ⟨hcount, P, hsold⟩ := hpurchasing.complete hn
    exact ⟨hcount, hsold.finished, fun ev => hsold.closed, P, hsold.told⟩

/-- Scripts for the own inputs. -/
def signOwn (sid : ℕ) (tx : MsgTx) (ins : List ℕ) : MsgTx :=
  { tx with txIn := tx.txIn.mapIdx fun i entry =>
      if i ∈ ins then entry.map fun txIn => { txIn with signatureScript := [UInt8.ofNat sid] } else entry }

theorem signs_signOwn (sid : ℕ) (tx : MsgTx) (ins : List ℕ) : Signs tx (signOwn sid tx ins) where
  inputs := by
    refine List.ext_getElem? fun i => ?_
    rw [signOwn, List.getElem?_map, List.getElem?_map, List.getElem?_mapIdx]
    cases tx.txIn[i]? with
    | none => rfl
    | some entry =>
      show some ((if i ∈ ins then _ else entry).map unsigned) = some (entry.map unsigned)
      split_ifs
      · rw [Option.map_map]
        rfl
      · rfl
  rest := rfl

def plainClients : Clients where
  splitTx := smallTx
  sign sid tx ins _ := signOwn sid tx ins
  publish _ tx := some tx
  resp stage sid := if stage = .rawTx then 3 * sid else if stage = .signedTx then 3 * sid + 1 else 3 * sid + 2

theorem honest_plainClients (members : List ℕ) : plainClients.Honest members where
  whole sid _ := ⟨by simp [plainClients, smallTx], by simp [plainClients, smallTx]⟩
  signs sid _ tx ins _ _ := signs_signOwn sid tx ins
  publishes _ _ tx hwhole result hresult := Option.some.inj hresult ▸ hwhole
  own stage stage' sid _ sid' _ heq := by
    cases stage <;> cases stage' <;> simp [plainClients] at heq ⊢ <;> omega

def pairSigned : MsgTx := signOwn 2 (signOwn 1 pairTx [0]) [1]

/-- Two members; who publishes calls last. -/
def pairCalls : List (Choices × Event) :=
  [(.plain, .submitSplitTx 1 (smallTx 1) 3), (.plain, .submitSplitTx 2 (smallTx 2) 6),
    (.plain, .submitSignedTx 2 (signOwn 2 pairTx [1]) 7), (.plain, .submitSignedTx 1 (signOwn 1 pairTx [0]) 4),
    (.plain, .publishResult 1 none 5), (.plain, .publishResult 2 (some pairSigned) 8)]

theorem purchase_completes_two : ∃ P : Purchase plainClients [1, 2],
    (after step (newJoinSession true [1, 2]) pairCalls).replies.Perm P.replies := by
  have hfirst : RunsTo (counted step) (fun t ev => plainClients.Next t.2 ev) (0, newJoinSession true [1, 2])
      (2, after step (newJoinSession true [1, 2]) (pairCalls.take 2)) := by
    refine .step (.step .start (.plain, .submitSplitTx 1 (smallTx 1) 3) ?_ rfl) (.plain, .submitSplitTx 2 (smallTx 2) 6) ?_ rfl
    · exact ⟨by decide, 1, _, rfl, .split rfl⟩
    · exact ⟨by decide, 2, _, rfl, .split rfl⟩
  have hsecond : RunsTo (counted step) (fun t ev => plainClients.Next t.2 ev) (0, newJoinSession true [1, 2])
      (4, after step (newJoinSession true [1, 2]) (pairCalls.take 4)) := by
    refine .step (.step hfirst (.plain, .submitSignedTx 2 (signOwn 2 pairTx [1]) 7) ?_ rfl)
      (.plain, .submitSignedTx 1 (signOwn 1 pairTx [0]) 4) ?_ rfl
    · exact ⟨by decide, 2, _, rfl, @Clients.Calls.signed _ _ _ _ pairTx [1] [1] rfl (by decide)⟩
    · exact ⟨by decide, 1, _, rfl, @Clients.Calls.signed _ _ _ _ pairTx [0] [0] rfl (by decide)⟩
  have hthird : RunsTo (counted step) (fun t ev => plainClients.Next t.2 ev) (0, newJoinSession true [1, 2])
      (6, after step (newJoinSession true [1, 2]) pairCalls) := by
    refine .step (.step hsecond (.plain, .publishResult 1 none 5) ?_ rfl) (.plain, .publishResult 2 (some pairSigned) 8) ?_ rfl
    · exact ⟨by decide, 1, _, rfl, @Clients.Calls.published _ _ _ _ pairSigned false _ rfl (by decide) fun hpub => by cases hpub⟩
    · exact ⟨by decide, 2, _, rfl, @Clients.Calls.published _ _ _ _ pairSigned true _ rfl (by decide) fun _ => rfl⟩
  exact ((purchase_completes (honest_plainClients [1, 2]) (by decide) (by decide) hthird).2.2 (by decide)).2.2.2

end JoinSession

end Dcrtxmatcher.Matcher
