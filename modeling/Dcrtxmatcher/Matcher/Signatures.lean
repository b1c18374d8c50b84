import Dcrtxmatcher.Matcher.OwnEntries
import Dcrtxmatcher.Matcher.Rejections

/-! Whose entries the signed transaction has.

`mergeSignedInput` writes at the places of the participant that submits, and no two
participants have a place in common. So what somebody has signed stays as it is, whatever
the others submit, until the transaction is sent and after. -/
namespace Dcrtxmatcher.Matcher
open Lib
open Coinjoin (TxIn TxOut OutPoint)

namespace JoinSession
variable {α : Type} {ch : Choices} {m m' : JoinSession}

/-- None of the participant's own entries is nil. -/
def SignsOwn (side : Side α) (p : SessionParticipant) (tx : MsgTx) : Prop :=
  ∀ i ∈ side.indes p, ∃ a, (side.entries tx)[i]? = some (some a)

/-- The participant's own entries stand in the signed transaction. -/
def Carries (side : Side α) (p : SessionParticipant) (tx signedTx : MsgTx) : Prop :=
  ∀ i ∈ side.indes p, (side.entries signedTx)[i]? = (side.entries tx)[i]?

/-- Whoever has signed its own entries finds them in the signed transaction, and that is the one that is sent, once
everybody that is still there has signed. -/
structure Countersigned (m : JoinSession) : Prop where
  stands : ∀ sid p tx, m.participants.lookup sid = some p → p.signedTx = some tx → SignsOwn inputs p tx → SignsOwn outputs p tx →
    ∃ signedTx, m.signedTx = some signedTx ∧ Carries inputs p tx signedTx ∧ Carries outputs p tx signedTx
  sent : ∀ c signedTx publisher, (c, .submitSignedTxRes signedTx publisher) ∈ m.replies →
    m.signedTx = some signedTx ∧ ∀ sid p, m.participants.lookup sid = some p → p.signedTx.isSome = true

/-- Before the last stage no signed transaction has been sent. -/
def Withheld (m : JoinSession) : Prop :=
  m.progress ≠ .publishTx → ∀ c signedTx publisher, (c, .submitSignedTxRes signedTx publisher) ∉ m.replies

theorem countersigned_newJoinSession (randomIndex : Bool) (waitingPars : List ℕ) :
    (newJoinSession randomIndex waitingPars).Countersigned where
  stands sid p tx hp htx := by
    rw [lookup_newJoinSession hp] at htx
    cases htx
  sent _ _ _ hmem := absurd hmem List.not_mem_nil

/-! ### Merging -/

/-- A merge that finds a nil finds it among the submitter's own entries. -/
theorem not_signsOwn_of_nil {own signed signed' : List (Option α)} {indes : List ℕ}
    (h : mergeOwn own indes signed = .ok (false, signed')) : ¬ ∀ i ∈ indes, ∃ a, own[i]? = some (some a) := by
  obtain ⟨i, hstop, hnil⟩ := mergeOwn_false.mp ⟨signed', h⟩
  intro hown
  obtain ⟨a, ha⟩ := hown i (List.mem_of_find?_eq_some hstop)
  rw [hnil] at ha
  cases ha

/-- What a submission does to the signed transaction: only the submitter's places change, and
when it has signed its own they are as in what it submitted. -/
structure Merges (tx : MsgTx) (p : SessionParticipant) (before : Option MsgTx) (signedTx : MsgTx) : Prop where
  inputs : ∀ old, before = some old → ∀ i ∉ p.inputIndes, signedTx.txIn[i]? = old.txIn[i]?
  outputs : ∀ old, before = some old → ∀ i ∉ p.outputIndes, signedTx.txOut[i]? = old.txOut[i]?
  own : SignsOwn Matcher.inputs p tx → SignsOwn Matcher.outputs p tx →
    Carries Matcher.inputs p tx signedTx ∧ Carries Matcher.outputs p tx signedTx

theorem merged_elsewhere {own signed signed' : List (Option α)} {indes : List ℕ} {all : Bool}
    (h : mergeOwn own indes signed = .ok (all, signed')) {i : ℕ} (hi : i ∉ indes) : signed'[i]? = signed[i]? :=
  ((mergeOwn_eq_ok h).2.1 i).resolve_right fun hset => hi hset.1

theorem merged_own {own signed signed' : List (Option α)} {indes : List ℕ}
    (h : mergeOwn own indes signed = .ok (true, signed')) {i : ℕ} (hi : i ∈ indes) : signed'[i]? = own[i]? := by
  obtain ⟨a, ha, hset⟩ := (mergeOwn_eq_ok h).2.2 rfl i hi
  rw [hset, ha]

/-- A submission that is merged to the end. -/
theorem merges_of_merged {tx base : MsgTx} {p : SessionParticipant} {txIn : List (Option TxIn)} {txOut : List (Option TxOut)}
    (hbase : signedBase tx m.signedTx = .ok base) (hin : mergeOwn tx.txIn p.inputIndes base.txIn = .ok (true, txIn))
    (hout : mergeOwn tx.txOut p.outputIndes base.txOut = .ok (true, txOut)) :
    Merges tx p m.signedTx { base with txIn := txIn, txOut := txOut } := by
  obtain ⟨-, rfl⟩ := signedBase_eq_ok.mp hbase
  refine ⟨fun old hold i hi => ?_, fun old hold i hi => ?_,
    fun _ _ => ⟨fun i hi => merged_own hin hi, fun i hi => merged_own hout hi⟩⟩
  · rw [hold] at hin
    exact merged_elsewhere hin hi
  · rw [hold] at hout
    exact merged_elsewhere hout hi

theorem merges_of_ok {sid : ℕ} {tx : MsgTx} {resp : ℕ} {p : SessionParticipant} {err : Option Err}
    (hp : m.participants.lookup sid = some p) (h : Signing ch sid tx resp m err m') :
    ∃ signedTx, m'.signedTx = some signedTx ∧ Merges tx p m.signedTx signedTx := by
  cases h with
  | unknown hnone =>
    rw [hp] at hnone
    cases hnone
  | nilInput hp' hbase hin =>
    cases hp.symm.trans hp'
    obtain ⟨-, rfl⟩ := signedBase_eq_ok.mp hbase
    refine ⟨_, rfl, fun old hold i hi => ?_, fun old hold i _ => ?_, fun hown => absurd hown (not_signsOwn_of_nil hin)⟩
    · rw [hold] at hin
      exact merged_elsewhere hin hi
    · rw [hold]
      rfl
  | nilOutput hp' hbase hin hout =>
    cases hp.symm.trans hp'
    obtain ⟨-, rfl⟩ := signedBase_eq_ok.mp hbase
    refine ⟨_, rfl, fun old hold i hi => ?_, fun old hold i hi => ?_, fun _ hown => absurd hown (not_signsOwn_of_nil hout)⟩
    · rw [hold] at hin
      exact merged_elsewhere hin hi
    · rw [hold] at hout
      exact merged_elsewhere hout hi
  | waiting hp' hbase hin hout =>
    cases hp.symm.trans hp'
    exact ⟨_, rfl, merges_of_merged hbase hin hout⟩
  | completed hp' hbase hin hout _ hsend =>
    cases hp.symm.trans hp'
    obtain ⟨cs, -, -, -, rfl⟩ := sendSigned_eq_ok.mp hsend
    exact ⟨_, rfl, merges_of_merged hbase hin hout⟩

/-- What is sent is the signed transaction, and the stage is over. -/
theorem Signing.sends {sid : ℕ} {tx : MsgTx} {resp : ℕ} {err : Option Err} (h : Signing ch sid tx resp m err m') :
    ∀ c signedTx publisher, (c, Response.submitSignedTxRes signedTx publisher) ∈ m'.replies →
      (c, Response.submitSignedTxRes signedTx publisher) ∈ m.replies ∨ m'.progress = .publishTx ∧ m'.signedTx = some signedTx := by
  intro c signedTx publisher hmem
  cases h with
  | unknown => exact .inl hmem
  | nilInput => exact .inl hmem
  | nilOutput => exact .inl hmem
  | waiting => exact .inl hmem
  | completed _ _ _ _ _ hsend =>
    obtain ⟨cs, -, -, -, rfl⟩ := sendSigned_eq_ok.mp hsend
    rcases List.mem_append.mp hmem with hold | hnew
    · exact .inl hold
    · obtain ⟨j, -, heq⟩ := List.mem_mapIdx.mp (List.of_mem_zip hnew).2
      cases heq
      exact .inr ⟨rfl, rfl⟩

/-- `SendTxData` sends merged transactions only. -/
theorem mem_replies_sendTxData {merged : MsgTx} (hmerged : m.mergedSplitTx = some merged) (h : m.sendTxData ch merged = .ok m')
    {c : ℕ} {signedTx : MsgTx} {publisher : Bool} (hmem : (c, Response.submitSignedTxRes signedTx publisher) ∈ m'.replies) :
    (c, Response.submitSignedTxRes signedTx publisher) ∈ m.replies := by
  by_contra hold
  by_cases hrandom : m.randomIndex = true ∧ 1 < GoMap.len m.participants
  · obtain ⟨merged', m₁, m₂, hcleared, hsent, rfl⟩ := exists_cleared hmerged hrandom h
    have hreplies : m₁.replies = m.replies := by rw [hcleared.session]
    obtain ⟨sid, p, -, -, heq⟩ := hsent.new _ hmem (hreplies ▸ hold)
    cases heq
  · obtain ⟨m₁, hplain, rfl⟩ := (sendTxData_plain hrandom).mp h
    obtain ⟨sid, p, -, -, heq⟩ := (sent_of_ok hplain).new _ hmem hold
    cases heq

/-! ### One turn -/

/-- Nothing is signed, and nothing else is sent. -/
theorem Countersigned.keep (h : m.Countersigned) (hsigned : m'.signedTx = m.signedTx)
    (hback : ∀ sid p', m'.participants.lookup sid = some p' → ∃ p, m.participants.lookup sid = some p ∧
      p'.signedTx = p.signedTx ∧ inputs.indes p' = inputs.indes p ∧ outputs.indes p' = outputs.indes p)
    (hnone : ∀ c signedTx publisher, (c, Response.submitSignedTxRes signedTx publisher) ∈ m'.replies →
      (c, Response.submitSignedTxRes signedTx publisher) ∈ m.replies) : m'.Countersigned where
  stands sid p' tx hp' htx hin hout := by
    obtain ⟨p, hp, hsame, hinputs, houtputs⟩ := hback sid p' hp'
    have hin' : SignsOwn inputs p tx := fun i hi => hin i (hinputs ▸ hi)
    have hout' : SignsOwn outputs p tx := fun i hi => hout i (houtputs ▸ hi)
    obtain ⟨signedTx, hstored, hcin, hcout⟩ := h.stands sid p tx hp (hsame ▸ htx) hin' hout'
    exact ⟨signedTx, hsigned.trans hstored, fun i hi => hcin i (hinputs ▸ hi), fun i hi => hcout i (houtputs ▸ hi)⟩
  sent c signedTx publisher hmem := by
    obtain ⟨hstored, hall⟩ := h.sent c signedTx publisher (hnone c signedTx publisher hmem)
    refine ⟨hsigned.trans hstored, fun sid p' hp' => ?_⟩
    obtain ⟨p, hp, hsame, -, -⟩ := hback sid p' hp'
    rw [hsame]
    exact hall sid p hp

theorem Withheld.keep (h : m.Withheld) (hstage : m.progress = .publishTx → m'.progress = .publishTx)
    (hnone : ∀ c signedTx publisher, (c, Response.submitSignedTxRes signedTx publisher) ∈ m'.replies →
      (c, Response.submitSignedTxRes signedTx publisher) ∈ m.replies) : m'.Withheld :=
  fun hbusy c signedTx publisher hmem => h (fun hlast => hbusy (hstage hlast)) c signedTx publisher (hnone c signedTx publisher hmem)

/-- Before anybody has signed. -/
theorem countersigned_of_unsigned (hunsigned : ∀ sid p, m.participants.lookup sid = some p → p.signedTx = none)
    (hunsent : ∀ c signedTx publisher, (c, Response.submitSignedTxRes signedTx publisher) ∉ m.replies) : m.Countersigned where
  stands sid p tx hp htx := by
    rw [hunsigned sid p hp] at htx
    cases htx
  sent c signedTx publisher hmem := absurd hmem (hunsent c signedTx publisher)

/-- A submission leaves what the others have signed alone. -/
theorem Countersigned.stands_of_merges {sid resp : ℕ} {tx signedTx : MsgTx} {p : SessionParticipant} (h : m.Countersigned)
    (hheld : m.Held inputs ∧ m.Held outputs) (hp : m.participants.lookup sid = some p)
    (hlookup : ∀ sid', ∃ publisher : SessionParticipant → Bool, m'.participants.lookup sid' =
      ((m.withSignedTx sid tx resp).participants.lookup sid').map fun p => { p with publisher := publisher p })
    (hmerges : Merges tx p m.signedTx signedTx) {sid' : ℕ} {q' : SessionParticipant} {tx' : MsgTx}
    (hq' : m'.participants.lookup sid' = some q') (htx' : q'.signedTx = some tx') (hin : SignsOwn inputs q' tx')
    (hout : SignsOwn outputs q' tx') : Carries inputs q' tx' signedTx ∧ Carries outputs q' tx' signedTx := by
  obtain ⟨publisher, hlookup⟩ := hlookup sid'
  rw [hlookup, lookup_withSignedTx, Option.map_map, Option.map_eq_some_iff] at hq'
  obtain ⟨q, hq, rfl⟩ := hq'
  by_cases hsid : sid' = sid
  · subst hsid
    cases hp.symm.trans hq
    simp only [Function.comp_apply, if_true] at htx' hin hout ⊢
    cases htx'
    exact hmerges.own hin hout
  · simp only [Function.comp_apply, if_neg hsid] at htx' hin hout ⊢
    obtain ⟨old, hold, hcin, hcout⟩ := h.stands sid' q tx' hq htx' hin hout
    have hdisjIn := hheld.1.disjoint sid' sid hsid
    have hdisjOut := hheld.2.disjoint sid' sid hsid
    rw [places_of_lookup hq, places_of_lookup hp] at hdisjIn hdisjOut
    refine ⟨fun i hi => ?_, fun i hi => ?_⟩
    · exact (hmerges.inputs old hold i fun hi' => hdisjIn hi hi').trans (hcin i hi)
    · exact (hmerges.outputs old hold i fun hi' => hdisjOut hi hi').trans (hcout i hi)

/-- Marking the publisher leaves who has signed. -/
theorem allSigned_of_lookup {sid resp : ℕ} {tx : MsgTx}
    (hlookup : ∀ sid', ∃ publisher : SessionParticipant → Bool, m'.participants.lookup sid' =
      ((m.withSignedTx sid tx resp).participants.lookup sid').map fun p => { p with publisher := publisher p })
    (hall : ∀ sid' q, (m.withSignedTx sid tx resp).participants.lookup sid' = some q → q.signedTx.isSome = true) :
    ∀ sid' q, m'.participants.lookup sid' = some q → q.signedTx.isSome = true := by
  intro sid' q' hq'
  obtain ⟨publisher, hlookup⟩ := hlookup sid'
  rw [hlookup, Option.map_eq_some_iff] at hq'
  obtain ⟨q, hq, rfl⟩ := hq'
  exact hall sid' q hq

theorem Countersigned.signing {sid resp : ℕ} {tx : MsgTx} {p : SessionParticipant} {err : Option Err} (h : m.Countersigned)
    (hheld : m.Held inputs ∧ m.Held outputs) (hstage : m.progress = .signedTx) (hwithheld : m.Withheld)
    (hp : m.participants.lookup sid = some p) (hsigning : Signing ch sid tx resp m err m') : m'.Countersigned ∧ m'.Withheld := by
  have hbusy : m.progress ≠ .publishTx := hstage.trans_ne (by decide)
  obtain ⟨signedTx, hstored, hmerges⟩ := merges_of_ok hp hsigning
  have hnew : ∀ c signedTx publisher, (c, Response.submitSignedTxRes signedTx publisher) ∈ m'.replies →
      m'.progress = .publishTx ∧ m'.signedTx = some signedTx := fun c signedTx publisher hmem =>
    (hsigning.sends c signedTx publisher hmem).resolve_left (hwithheld hbusy c signedTx publisher)
  refine ⟨⟨fun sid' q' tx' hq' htx' hin hout => ⟨signedTx, hstored, ?_⟩, fun c signedTx publisher hmem => ?_⟩, ?_⟩
  · exact h.stands_of_merges hheld hp (hsigning.lookup hp) hmerges hq' htx' hin hout
  · obtain ⟨hlast, hsent⟩ := hnew c signedTx publisher hmem
    refine ⟨hsent, ?_⟩
    obtain ⟨-, -, ⟨hsame, -⟩ | ⟨-, hall⟩⟩ := hsigning.rest hp
    · exact absurd (hsame.symm.trans hlast) hbusy
    · exact allSigned_of_lookup (hsigning.lookup hp) hall
  · exact fun hopen c signedTx publisher hmem => hopen (hnew c signedTx publisher hmem).1

/-- The same when handing out the signed transaction is stuck. -/
theorem Countersigned.signing_stuck {sid resp randIndex i : ℕ} {tx base : MsgTx} {p : SessionParticipant} {txIn : List (Option TxIn)}
    {txOut : List (Option TxOut)} {l : List (ℕ × SessionParticipant)} (h : m.Countersigned)
    (hheld : m.Held inputs ∧ m.Held outputs) (hstage : m.progress = .signedTx) (hwithheld : m.Withheld)
    (hp : m.participants.lookup sid = some p) (hbase : signedBase tx m.signedTx = .ok base)
    (hin : mergeOwn tx.txIn p.inputIndes base.txIn = .ok (true, txIn))
    (hout : mergeOwn tx.txOut p.outputIndes base.txOut = .ok (true, txOut))
    (hall : (m.withSignedTx sid tx resp).checkInputsSigned = true)
    (hsend : sendSigned randIndex { base with txIn := txIn, txOut := txOut } i l
      { m.withSignedTx sid tx resp with signedTx := some { base with txIn := txIn, txOut := txOut } } = .error (.send m')) :
    m'.Countersigned := by
  obtain ⟨hlookup, new, hsession, hnew⟩ := sendSigned_stuck hsend
  have hstored : m'.signedTx = some { base with txIn := txIn, txOut := txOut } := by rw [hsession]
  have hmerges := merges_of_merged hbase hin hout
  refine ⟨fun sid' q' tx' hq' htx' hin hout => ⟨_, hstored, ?_⟩, fun c signedTx publisher hmem => ⟨?_, ?_⟩⟩
  · exact h.stands_of_merges hheld hp hlookup hmerges hq' htx' hin hout
  · rw [hsession] at hmem
    have hmem := (List.mem_append.mp hmem).resolve_left (hwithheld (hstage.trans_ne (by decide)) c signedTx publisher)
    obtain ⟨publisher, heq⟩ := hnew _ hmem
    cases heq
    exact hstored
  · exact allSigned_of_lookup hlookup fun sid' q hq => List.all_eq_true.mp hall (sid', q) (GoMap.mem_toList.mpr hq)

theorem Countersigned.err (h : m.Countersigned) (resp : ℕ) (err : Err) :
    Countersigned { m with replies := m.replies ++ [(resp, .err err)] } := by
  refine h.keep rfl (fun sid p hp => ⟨p, hp, rfl, rfl, rfl⟩) fun c signedTx publisher hmem => ?_
  refine (List.mem_append.mp hmem).resolve_right fun hnew => ?_
  cases List.mem_singleton.mp hnew

theorem Withheld.err (h : m.Withheld) (resp : ℕ) (err : Err) : Withheld { m with replies := m.replies ++ [(resp, .err err)] } := by
  refine h.keep id fun c signedTx publisher hmem => ?_
  refine (List.mem_append.mp hmem).resolve_right fun hnew => ?_
  cases List.mem_singleton.mp hnew

theorem Countersigned.withPublished (h : m.Countersigned) (sid : ℕ) (publisher : Bool) (tx : Option MsgTx) (resp : ℕ) :
    (m.withPublished sid publisher tx resp).Countersigned := by
  refine h.keep rfl (fun sid' p' hp' => ?_) fun _ _ _ hmem => hmem
  rw [lookup_withPublished, Option.map_eq_some_iff] at hp'
  obtain ⟨p, hp, rfl⟩ := hp'
  refine ⟨p, hp, ?_⟩
  split_ifs
  · exact ⟨rfl, rfl, rfl⟩
  · exact ⟨rfl, rfl, rfl⟩

theorem countersigned_step {ev : Choices × Event} (h : m.Countersigned ∧ m.Withheld) (hheld : m.Held inputs ∧ m.Held outputs)
    (hstaged : m.Staged) (hstep : m.step ev = some m') : m'.Countersigned ∧ m'.Withheld := by
  obtain ⟨ch, ev⟩ := ev
  obtain ⟨h, hwithheld⟩ := h
  have hleave : ∀ {m' : JoinSession}, (∀ sid, m'.participants.lookup sid = m.participants.lookup sid ∨ m'.participants.lookup sid = none) →
      m'.signedTx = m.signedTx → m'.progress = m.progress → m'.replies = m.replies → m'.Countersigned ∧ m'.Withheld := by
    intro m' hleft hsigned hstage hreplies
    refine ⟨h.keep hsigned (fun sid p hp => ?_) fun _ _ _ hmem => hreplies ▸ hmem,
      hwithheld.keep (fun hlast => hstage.trans hlast) fun _ _ _ hmem => hreplies ▸ hmem⟩
    rcases hleft sid with hsame | hgone
    · exact ⟨p, hsame ▸ hp, rfl, rfl, rfl⟩
    · rw [hgone] at hp
      cases hp
  -- in the first stage nobody has signed, before the split transaction and after it
  have hunsent : m.progress = .rawTx → ∀ c signedTx publisher, (c, Response.submitSignedTxRes signedTx publisher) ∉ m.replies :=
    fun hraw => hwithheld (hraw.trans_ne (by decide))
  cases turned_of_step hstep with
  | fired => exact hleave (fun sid => (lookup_timeout_cases ch m sid).imp_right And.left) rfl rfl rfl
  | left sessionID => exact hleave (fun sid => (lookup_removeSessionID_cases m sessionID sid).imp_right And.left) rfl rfl rfl
  | refused => exact ⟨h.err .., hwithheld.err _ _⟩
  | merging hstage =>
    exact ⟨countersigned_of_unsigned ((hstaged.withSplitTx hstage ..).unsigned hstage) (hunsent hstage), fun _ => hunsent hstage⟩
  | @merged sid splitTx merged resp ins outs _ hstage _ _ _ hsend =>
    have hunsent' : ∀ c signedTx publisher, (c, Response.submitSignedTxRes signedTx publisher) ∉ m'.replies :=
      fun c signedTx publisher hmem => hunsent hstage c signedTx publisher (mem_replies_sendTxData rfl hsend hmem)
    refine ⟨countersigned_of_unsigned (fun sid' p' hp' => ?_) hunsent', fun _ => hunsent'⟩
    obtain ⟨_, _, hlookup⟩ := lookup_sendTxData rfl hsend sid'
    rw [hlookup, Option.map_eq_some_iff] at hp'
    obtain ⟨p, hp, rfl⟩ := hp'
    exact (hstaged.withSplitTx hstage ..).unsigned hstage sid' p hp
  | invalid hstage hp hsigning =>
    obtain ⟨h', hwithheld'⟩ := h.signing hheld hstage hwithheld hp hsigning
    exact ⟨h'.err .., hwithheld'.err _ _⟩
  | signed hstage hp hsigning => exact h.signing hheld hstage hwithheld hp hsigning
  | publishing hstage => exact ⟨h.withPublished .., fun hbusy => absurd hstage hbusy⟩
  | @published sid tx resp p m₁ hstage _ _ hsend =>
    have h' := h.withPublished sid p.publisher tx resp
    obtain ⟨hsent, new, hreplies, hnew⟩ := sendPublished_quiet hsend
    rw [hsent]
    refine ⟨h'.keep rfl (fun sid q hq => ⟨q, hq, rfl, rfl, rfl⟩) fun c signedTx publisher hmem => ?_, fun hbusy => absurd hstage hbusy⟩
    dsimp only at hmem
    rw [hreplies, List.mem_append] at hmem
    exact hmem.resolve_right fun he => hnew .signedTx (by decide) _ he rfl

/-- When `SendTxData` is stuck it has sent merged transactions only, and nobody has signed. -/
theorem unsigned_of_sendTxData_stuck {merged : MsgTx} (hmerged : m.mergedSplitTx = some merged)
    (hunsigned : ∀ sid p, m.participants.lookup sid = some p → p.signedTx = none)
    (hunsent : ∀ c signedTx publisher, (c, Response.submitSignedTxRes signedTx publisher) ∉ m.replies)
    (h : m.sendTxData ch merged = .error (.send m')) :
    (∀ sid p, m'.participants.lookup sid = some p → p.signedTx = none) ∧
      ∀ c signedTx publisher, (c, Response.submitSignedTxRes signedTx publisher) ∉ m'.replies := by
  have hsends : ∀ {m₁ : JoinSession} {merged' : MsgTx}, Sending merged' m₁ m' →
      (∀ sid p, m₁.participants.lookup sid = some p → p.signedTx = none) → m₁.replies = m.replies →
        (∀ sid p, m'.participants.lookup sid = some p → p.signedTx = none) ∧
          ∀ c signedTx publisher, (c, Response.submitSignedTxRes signedTx publisher) ∉ m'.replies := by
    intro m₁ merged' hsending hunsigned' hreplies
    refine ⟨fun sid p hp => ?_, fun c signedTx publisher hmem => ?_⟩
    · rw [hsending.session] at hp
      exact hunsigned' sid p hp
    · obtain ⟨_, _, -, -, heq⟩ := hsending.new _ hmem (hreplies ▸ hunsent c signedTx publisher)
      cases heq
  rcases sendTxData_stuck h with ⟨txIn, txOut, participants, hshuffle, hstuck⟩ | hstuck
  · refine hsends (sending_of_stuck hstuck) (fun sid p hp => ?_) rfl
    obtain ⟨ins, outs, hlookup⟩ := (cleared_of_ok hmerged hshuffle).lookup sid
    rw [hlookup, Option.map_eq_some_iff] at hp
    obtain ⟨q, hq, rfl⟩ := hp
    exact hunsigned sid q hq
  · exact hsends (sending_of_stuck hstuck) hunsigned rfl

theorem countersigned_attempt {ev : Choices × Event} (h : m.Countersigned ∧ m.Withheld) (hheld : m.Held inputs ∧ m.Held outputs)
    (hstaged : m.Staged) (hattempt : m.attempt ev = some m') : m'.Countersigned := by
  obtain ⟨ch, ev⟩ := ev
  rcases step_or_stalled hattempt with hstep | hstalled
  · exact (countersigned_step h hheld hstaged hstep).1
  · obtain ⟨h, hwithheld⟩ := h
    cases hstalled with
    | refused => exact h
    | merged hstage _ _ _ hsend =>
      obtain ⟨hunsigned, hunsent⟩ := unsigned_of_sendTxData_stuck rfl ((hstaged.withSplitTx hstage ..).unsigned hstage)
        (hwithheld (hstage.trans_ne (by decide))) hsend
      exact countersigned_of_unsigned hunsigned hunsent
    | invalid hstage hp hsigning => exact (h.signing hheld hstage hwithheld hp hsigning).1
    | signed hstage hp hbase hin hout hall hsend => exact h.signing_stuck hheld hstage hwithheld hp hbase hin hout hall hsend
    | @published sid tx resp p _ _ _ hsend =>
      have h' := h.withPublished sid p.publisher tx resp
      obtain ⟨new, rfl, hnew⟩ := sendPublished_stuck hsend
      refine h'.keep rfl (fun sid q hq => ⟨q, hq, rfl, rfl, rfl⟩) fun c signedTx publisher hmem => ?_
      exact (List.mem_append.mp hmem).resolve_right fun he => hnew .signedTx (by decide) _ he rfl

theorem countersigned_of_runsTo {randomIndex : Bool} {waitingPars : List ℕ}
    (h : RunsTo step (fun _ _ => True) (newJoinSession randomIndex waitingPars) m) : m.Countersigned ∧ m.Withheld := by
  induction h with
  | start => exact ⟨countersigned_newJoinSession randomIndex waitingPars, fun _ _ _ _ => List.not_mem_nil⟩
  | step hrun ev _ hstep ih =>
    exact countersigned_step ih (Submissions.held_of_runsTo hrun) (staged_of_runsTo hrun) hstep

/-- **Signatures stand.** In every reachable session a participant whose last signed transaction has its own entries
finds them in the session's signed transaction, which is the one that is sent. Nothing is sent before the turn in which
everybody that is still there has signed; that turn opens the last stage, or is stuck. -/
theorem signatures_stand {randomIndex : Bool} {waitingPars : List ℕ}
    (h : RunsTo step (fun _ _ => True) (newJoinSession randomIndex waitingPars) m) :
    m.Countersigned ∧ m.Withheld ∧ ∀ ev m', m.attempt ev = some m' → m'.Countersigned := by
  have hcountersigned := countersigned_of_runsTo h
  exact ⟨hcountersigned.1, hcountersigned.2,
    fun _ _ => countersigned_attempt hcountersigned (Submissions.held_of_runsTo h) (staged_of_runsTo h)⟩

/-- Every entry of a transaction of two inputs and two outputs as in a small one. -/
def doubleTx (n : ℕ) : MsgTx :=
  { smallTx n with
    txIn := (smallTx n).txIn ++ (smallTx n).txIn
    txOut := (smallTx n).txOut ++ (smallTx n).txOut }

def tripleTx (n : ℕ) : MsgTx :=
  { smallTx n with
    txIn := (doubleTx n).txIn ++ (smallTx n).txIn
    txOut := (doubleTx n).txOut ++ (smallTx n).txOut }

/-- Each submits entries for both; the first one signs twice. -/
def overwriting : List (Choices × Event) :=
  [(.plain, .submitSplitTx 1 (smallTx 1) 0), (.plain, .submitSplitTx 2 (smallTx 2) 1), (.plain, .submitSignedTx 1 (doubleTx 5) 2),
    (.plain, .submitSignedTx 1 (doubleTx 6) 3), (.plain, .submitSignedTx 2 (doubleTx 7) 4)]

/-- Three of them submit, the first one signs, and the second one is refused for its outputs. -/
def refusing : List (Choices × Event) :=
  [(.plain, .submitSplitTx 1 (smallTx 1) 0), (.plain, .submitSplitTx 2 (smallTx 2) 1), (.plain, .submitSplitTx 3 (smallTx 3) 2),
    (.plain, .submitSignedTx 1 (tripleTx 5) 3), (.plain, .submitSignedTx 2 { tripleTx 6 with txOut := [none, none, none] } 4)]

/-- When the third one signs it is sent the transaction, and the loop is stuck at the second one. -/
theorem signatures_stand_two :
    (∃ m : JoinSession, m.progress = .publishTx ∧
      m.signedTx = some { smallTx 5 with txIn := (smallTx 6).txIn ++ (smallTx 7).txIn
                                         txOut := (smallTx 6).txOut ++ (smallTx 7).txOut } ∧ m.Countersigned) ∧
    ∃ m : JoinSession, m.progress = .signedTx ∧ m.replies.map Prod.fst = [2, 1, 0, 4, 5] ∧ m.Countersigned := by
  have htwo : RunsTo step (fun _ _ => True) (newJoinSession true [1, 2]) (after step (newJoinSession true [1, 2]) overwriting) :=
    .of_events overwriting (foldlM_eq_after rfl)
  have hthree : RunsTo step (fun _ _ => True) (newJoinSession true [1, 2, 3]) (after step (newJoinSession true [1, 2, 3]) refusing) :=
    .of_events refusing (foldlM_eq_after rfl)
  refine ⟨⟨_, rfl, rfl, (signatures_stand htwo).1⟩,
    after attempt (after step (newJoinSession true [1, 2, 3]) refusing) [(.plain, .submitSignedTx 3 (tripleTx 7) 5)], rfl, ?_,
    (signatures_stand hthree).2.2 (.plain, .submitSignedTx 3 (tripleTx 7) 5) _ rfl⟩
  decide +kernel

end JoinSession

end Dcrtxmatcher.Matcher
