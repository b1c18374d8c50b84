import Dcrtxmatcher.Matcher.Publishing

/-! What the participants are told stands.

Whatever is submitted, refused or repeated and whoever leaves: once the session has left
the first stage it keeps the merged transaction that everybody was told, with the indices
that everybody was told, and once it has left the second stage it keeps the signed one,
which one participant was told to publish. -/
namespace Dcrtxmatcher.Matcher
open Lib
open Coinjoin (TxIn TxOut OutPoint)

/-- The stage whose requests a response answers. -/
def Response.stage : Response → Option Progress
  | .submitSplitTxRes .. => some .rawTx
  | .submitSignedTxRes .. => some .signedTx
  | .publishedTxRes _ => some .publishTx
  | .err _ => none

/-- The order to publish. -/
def Response.isOrder : Response → Bool
  | .submitSignedTxRes _ publisher => publisher
  | _ => false

namespace JoinSession
variable {ch : Choices} {m m' : JoinSession} {merged signedTx : MsgTx} {new : List (ℕ × Response)}

/-- The answers given to the requests of a stage. -/
def answers (stage : Progress) (m : JoinSession) : List (ℕ × Response) := m.replies.filter fun e => e.2.stage = some stage

theorem answers_append {stage : Progress} (h : m'.replies = m.replies ++ new) :
    m'.answers stage = m.answers stage ++ new.filter fun e => e.2.stage = some stage := by
  rw [answers, h, List.filter_append]
  rfl

theorem answers_silent {stage : Progress} (h : m'.replies = m.replies ++ new) (hnew : ∀ e ∈ new, e.2.stage ≠ some stage) :
    m'.answers stage = m.answers stage := by
  rw [answers_append h, List.filter_eq_nil_iff.mpr fun e he => by simpa using hnew e he, List.append_nil]

section Told
variable {chanOf : SessionParticipant → Option ℕ} {res : ℕ × SessionParticipant → Response}

/-- What is sent to everybody is sent to each one, and nothing else is. -/
theorem mem_of_told (h : (new.map fun e => (some e.1, e.2)).Perm ((GoMap.toList m.participants).map fun e => (chanOf e.2, res e))) :
    (∀ e ∈ new, ∃ x, e.2 = res x) ∧
      ∀ sid p, m.participants.lookup sid = some p → ∃ c, chanOf p = some c ∧ (c, res (sid, p)) ∈ new := by
  constructor
  · intro e he
    obtain ⟨x, -, heq⟩ := List.mem_map.mp (h.mem_iff.mp (List.mem_map_of_mem he))
    exact ⟨x, (Prod.mk.inj heq).2.symm⟩
  · intro sid p hp
    obtain ⟨⟨c, r⟩, he, heq⟩ := List.mem_map.mp (h.mem_iff.mpr (List.mem_map_of_mem (GoMap.mem_toList.mpr hp)))
    rw [Prod.mk.injEq] at heq
    obtain ⟨hchan, hres⟩ := heq
    dsimp only at hres
    exact ⟨c, hchan.symm, hres ▸ he⟩

end Told

/-! ### The merged transaction -/

/-- Everybody was told the merged transaction, and who is there was told its indices. -/
structure Dealt (merged : MsgTx) (m : JoinSession) : Prop where
  stored : m.mergedSplitTx = some merged
  same : ∀ e ∈ m.answers .rawTx, ∃ inputIndes outputIndes, e.2 = .submitSplitTxRes merged inputIndes outputIndes
  told : ∀ sid p, m.participants.lookup sid = some p → ∃ c, p.chanSubmitSplitTxRes = some c ∧
    (c, .submitSplitTxRes merged p.inputIndes p.outputIndes) ∈ m.replies

theorem Dealt.keep (h : Dealt merged m) (hstored : m'.mergedSplitTx = m.mergedSplitTx) (hreplies : m'.replies = m.replies ++ new)
    (hnew : ∀ e ∈ new, e.2.stage ≠ some .rawTx)
    (hback : ∀ sid p', m'.participants.lookup sid = some p' → ∃ p, m.participants.lookup sid = some p ∧
      p'.chanSubmitSplitTxRes = p.chanSubmitSplitTxRes ∧ p'.inputIndes = p.inputIndes ∧ p'.outputIndes = p.outputIndes) :
    Dealt merged m' where
  stored := hstored.trans h.stored
  same := by
    rw [answers_silent hreplies hnew]
    exact h.same
  told sid p' hp' := by
    obtain ⟨p, hp, hchan, hin, hout⟩ := hback sid p' hp'
    rw [hchan, hin, hout, hreplies]
    obtain ⟨c, hc, htold⟩ := h.told sid p hp
    exact ⟨c, hc, List.mem_append_left _ htold⟩

/-- A submission of the second stage leaves the first one alone. -/
theorem Signing.keeps_deal {sid resp : ℕ} {tx : MsgTx} {p : SessionParticipant} {err : Option Err}
    (hp : m.participants.lookup sid = some p) (h : Signing ch sid tx resp m err m') :
    m'.mergedSplitTx = m.mergedSplitTx ∧ (∃ new, m'.replies = m.replies ++ new ∧ ∀ e ∈ new, e.2.stage = some .signedTx) ∧
      ∀ sid' q', m'.participants.lookup sid' = some q' → ∃ q, m.participants.lookup sid' = some q ∧
        q'.chanSubmitSplitTxRes = q.chanSubmitSplitTxRes ∧ q'.inputIndes = q.inputIndes ∧ q'.outputIndes = q.outputIndes := by
  have hback : ∀ sid' q', m'.participants.lookup sid' = some q' → ∃ q, m.participants.lookup sid' = some q ∧
      q'.chanSubmitSplitTxRes = q.chanSubmitSplitTxRes ∧ q'.inputIndes = q.inputIndes ∧ q'.outputIndes = q.outputIndes := by
    intro sid' q' hq'
    obtain ⟨publisher, hlookup⟩ := h.lookup hp sid'
    rw [hlookup, lookup_withSignedTx, Option.map_map, Option.map_eq_some_iff] at hq'
    obtain ⟨q, hq, rfl⟩ := hq'
    refine ⟨q, hq, ?_⟩
    rw [Function.comp_apply]
    split_ifs
    · exact ⟨rfl, rfl, rfl⟩
    · exact ⟨rfl, rfl, rfl⟩
  cases h with
  | unknown => exact ⟨rfl, ⟨[], (List.append_nil _).symm, fun _ he => absurd he List.not_mem_nil⟩, hback⟩
  | nilInput => exact ⟨rfl, ⟨[], (List.append_nil _).symm, fun _ he => absurd he List.not_mem_nil⟩, hback⟩
  | nilOutput => exact ⟨rfl, ⟨[], (List.append_nil _).symm, fun _ he => absurd he List.not_mem_nil⟩, hback⟩
  | waiting => exact ⟨rfl, ⟨[], (List.append_nil _).symm, fun _ he => absurd he List.not_mem_nil⟩, hback⟩
  | completed _ _ _ _ _ hsend =>
    obtain ⟨cs, -, -, -, rfl⟩ := sendSigned_eq_ok.mp hsend
    refine ⟨rfl, ⟨_, rfl, fun e he => ?_⟩, hback⟩
    obtain ⟨j, hj, heq⟩ := List.mem_mapIdx.mp (List.of_mem_zip he).2
    rw [← heq]
    rfl

/-- Who leaves takes nothing along. -/
theorem Dealt.leave (h : Dealt merged m) (hstored : m'.mergedSplitTx = m.mergedSplitTx) (hreplies : m'.replies = m.replies)
    (hlookup : ∀ sid, m'.participants.lookup sid = m.participants.lookup sid ∨ m'.participants.lookup sid = none) : Dealt merged m' := by
  refine h.keep hstored (hreplies.trans (List.append_nil _).symm) (fun _ he => absurd he List.not_mem_nil) fun sid p' hp' => ?_
  rcases hlookup sid with hsame | hgone
  · exact ⟨p', hsame ▸ hp', rfl, rfl, rfl⟩
  · rw [hgone] at hp'
    cases hp'

/-- An error tells nothing. -/
theorem Dealt.reply (h : Dealt merged m) (resp : ℕ) (err : Err) :
    Dealt merged { m with replies := m.replies ++ [(resp, .err err)] } := by
  refine h.keep rfl rfl (fun e he => ?_) fun sid p hp => ⟨p, hp, rfl, rfl, rfl⟩
  rw [List.mem_singleton.mp he]
  exact fun heq => by cases heq

theorem Dealt.signing {sid resp : ℕ} {tx : MsgTx} {p : SessionParticipant} {err : Option Err} (h : Dealt merged m)
    (hstage : m.progress ≠ .rawTx) (hp : m.participants.lookup sid = some p) (hsigning : Signing ch sid tx resp m err m') :
    m'.progress ≠ .rawTx ∧ Dealt merged m' := by
  obtain ⟨hstored, ⟨new, hreplies, hnew⟩, hback⟩ := hsigning.keeps_deal hp
  refine ⟨?_, h.keep hstored hreplies (fun e he => ?_) hback⟩
  · obtain ⟨-, -, ⟨hsame, -⟩ | ⟨hdone, -⟩⟩ := hsigning.rest hp
    · exact hsame.trans_ne hstage
    · exact hdone.trans_ne (by decide)
  · rw [hnew e he]
    decide

theorem Dealt.withPublished (h : Dealt merged m) (sid : ℕ) (publisher : Bool) (tx : Option MsgTx) (resp : ℕ) :
    Dealt merged (m.withPublished sid publisher tx resp) := by
  refine h.keep rfl (List.append_nil _).symm (fun _ he => absurd he List.not_mem_nil) fun sid' p' hp' => ?_
  rw [lookup_withPublished, Option.map_eq_some_iff] at hp'
  obtain ⟨p, hp, rfl⟩ := hp'
  refine ⟨p, hp, ?_⟩
  split_ifs
  · exact ⟨rfl, rfl, rfl⟩
  · exact ⟨rfl, rfl, rfl⟩

/-- How it came out is no answer of an earlier stage. -/
theorem stage_publishedRes {stage : Progress} (hstage : stage ≠ .publishTx) : m.publishedRes.stage ≠ some stage := by
  rw [publishedRes]
  cases m.publishedTx with
  | none => exact fun heq => by cases heq
  | some tx => exact fun heq => hstage (Option.some.inj heq).symm

theorem sendPublished_quiet (hsend : m.sendPublished ch = .ok m') : m' = { m with replies := m'.replies } ∧
    ∃ new, m'.replies = m.replies ++ new ∧ ∀ stage ≠ .publishTx, ∀ e ∈ new, e.2.stage ≠ some stage := by
  obtain ⟨-, ⟨new, hreplies, htold⟩, hsent⟩ := sendAll_of_ok hsend
  refine ⟨hsent, new, hreplies, fun stage hstage e he => ?_⟩
  obtain ⟨_, heq⟩ := (mem_of_told htold).1 e he
  rw [heq]
  exact stage_publishedRes hstage

theorem sendPublished_stuck (hsend : m.sendPublished ch = .error (.send m')) : ∃ new, m' = { m with replies := m.replies ++ new } ∧
    ∀ stage ≠ .publishTx, ∀ e ∈ new, e.2.stage ≠ some stage := by
  obtain ⟨new, hsent, hnew⟩ := sendAll_stuck hsend
  refine ⟨new, hsent, fun stage hstage e he => ?_⟩
  obtain ⟨-, -, -, -, heq⟩ := hnew e he
  rw [← heq]
  exact stage_publishedRes hstage

/-- The session never goes back to the first stage, and what was told then stands. -/
theorem Dealt.step {ev : Choices × Event} (h : Dealt merged m) (hstage : m.progress ≠ .rawTx) (hstep : m.step ev = some m') :
    m'.progress ≠ .rawTx ∧ Dealt merged m' := by
  obtain ⟨ch, ev⟩ := ev
  cases turned_of_step hstep with
  | fired => exact ⟨hstage, h.leave rfl rfl fun sid => (lookup_timeout_cases ch m sid).imp_right And.left⟩
  | left sessionID => exact ⟨hstage, h.leave rfl rfl fun sid => (lookup_removeSessionID_cases m sessionID sid).imp_right And.left⟩
  | refused => exact ⟨hstage, h.reply ..⟩
  | merging hraw => exact absurd hraw hstage
  | merged hraw => exact absurd hraw hstage
  | invalid _ hp hsigning =>
    obtain ⟨hstage', h'⟩ := h.signing hstage hp hsigning
    exact ⟨hstage', h'.reply ..⟩
  | signed _ hp hsigning => exact h.signing hstage hp hsigning
  | publishing => exact ⟨hstage, h.withPublished ..⟩
  | @published sid tx resp p m₁ hlast _ _ hsend =>
    have h' := h.withPublished sid p.publisher tx resp
    obtain ⟨hsent, new, hreplies, hnew⟩ := sendPublished_quiet hsend
    rw [hsent]
    refine ⟨hstage, h'.keep rfl hreplies (hnew _ (by decide)) fun sid' q hq => ⟨q, hq, rfl, rfl, rfl⟩⟩

/-! ### The signed transaction -/

/-- Everybody was told the signed transaction, one with the order to publish it, and who is there
is the publisher if it was told so. -/
structure Sealed (signedTx : MsgTx) (m : JoinSession) : Prop where
  stored : m.signedTx = some signedTx
  same : ∀ e ∈ m.answers .signedTx, ∃ publisher, e.2 = .submitSignedTxRes signedTx publisher
  one : ((m.answers .signedTx).filter fun e => e.2.isOrder).length = 1
  told : ∀ sid p, m.participants.lookup sid = some p → ∃ c, p.chanSubmitSignedTxRes = some c ∧
    (c, .submitSignedTxRes signedTx p.publisher) ∈ m.replies

theorem Sealed.keep (h : Sealed signedTx m) (hstored : m'.signedTx = m.signedTx) (hreplies : m'.replies = m.replies ++ new)
    (hnew : ∀ e ∈ new, e.2.stage ≠ some .signedTx)
    (hback : ∀ sid p', m'.participants.lookup sid = some p' → ∃ p, m.participants.lookup sid = some p ∧
      p'.chanSubmitSignedTxRes = p.chanSubmitSignedTxRes ∧ p'.publisher = p.publisher) : Sealed signedTx m' where
  stored := hstored.trans h.stored
  same := by
    rw [answers_silent hreplies hnew]
    exact h.same
  one := by
    rw [answers_silent hreplies hnew]
    exact h.one
  told sid p' hp' := by
    obtain ⟨p, hp, hchan, hpublisher⟩ := hback sid p' hp'
    rw [hchan, hpublisher, hreplies]
    obtain ⟨c, hc, htold⟩ := h.told sid p hp
    exact ⟨c, hc, List.mem_append_left _ htold⟩

theorem Sealed.leave (h : Sealed signedTx m) (hstored : m'.signedTx = m.signedTx) (hreplies : m'.replies = m.replies)
    (hlookup : ∀ sid, m'.participants.lookup sid = m.participants.lookup sid ∨ m'.participants.lookup sid = none) :
    Sealed signedTx m' := by
  refine h.keep hstored (hreplies.trans (List.append_nil _).symm) (fun _ he => absurd he List.not_mem_nil) fun sid p' hp' => ?_
  rcases hlookup sid with hsame | hgone
  · exact ⟨p', hsame ▸ hp', rfl, rfl⟩
  · rw [hgone] at hp'
    cases hp'

theorem Sealed.withPublished (h : Sealed signedTx m) (sid : ℕ) (publisher : Bool) (tx : Option MsgTx) (resp : ℕ) :
    Sealed signedTx (m.withPublished sid publisher tx resp) := by
  refine h.keep rfl (List.append_nil _).symm (fun _ he => absurd he List.not_mem_nil) fun sid' p' hp' => ?_
  rw [lookup_withPublished, Option.map_eq_some_iff] at hp'
  obtain ⟨p, hp, rfl⟩ := hp'
  refine ⟨p, hp, ?_⟩
  split_ifs
  · exact ⟨rfl, rfl⟩
  · exact ⟨rfl, rfl⟩

/-- The last stage is the last one, and what was told before it stands. -/
theorem Sealed.step {ev : Choices × Event} (h : Sealed signedTx m) (hstage : m.progress = .publishTx) (hstep : m.step ev = some m') :
    m'.progress = .publishTx ∧ Sealed signedTx m' := by
  obtain ⟨ch, ev⟩ := ev
  have hnot : ∀ {stage : Progress}, m.progress = stage → stage ≠ .publishTx → False := fun heq hne => hne (heq.symm.trans hstage)
  cases turned_of_step hstep with
  | fired => exact ⟨hstage, h.leave rfl rfl fun sid => (lookup_timeout_cases ch m sid).imp_right And.left⟩
  | left sessionID => exact ⟨hstage, h.leave rfl rfl fun sid => (lookup_removeSessionID_cases m sessionID sid).imp_right And.left⟩
  | refused =>
    refine ⟨hstage, h.keep rfl rfl (fun e he => ?_) fun sid p hp => ⟨p, hp, rfl, rfl⟩⟩
    rw [List.mem_singleton.mp he]
    exact fun heq => by cases heq
  | merging hraw => exact (hnot hraw (by decide)).elim
  | merged hraw => exact (hnot hraw (by decide)).elim
  | invalid hsigned => exact (hnot hsigned (by decide)).elim
  | signed hsigned => exact (hnot hsigned (by decide)).elim
  | publishing => exact ⟨hstage, h.withPublished ..⟩
  | @published sid tx resp p m₁ _ _ _ hsend =>
    have h' := h.withPublished sid p.publisher tx resp
    obtain ⟨hsent, new, hreplies, hnew⟩ := sendPublished_quiet hsend
    rw [hsent]
    exact ⟨hstage, h'.keep rfl hreplies (hnew _ (by decide)) fun sid' q hq => ⟨q, hq, rfl, rfl⟩⟩

/-! ### From the first stage on -/

/-- What the answers of each stage say in each stage. While the participants are two or more, nobody is told
the merged transaction before the session leaves the first stage. -/
structure Standing (m : JoinSession) : Prop where
  undealt : m.progress = .rawTx → m.randomIndex = true → 1 < GoMap.len m.participants → m.answers .rawTx = []
  unsealed : m.progress ≠ .publishTx → m.answers .signedTx = []
  dealt : m.progress ≠ .rawTx → ∃ merged, Dealt merged m
  sealed : m.progress = .publishTx → ∃ signedTx, Sealed signedTx m

/-- `rand.Intn` draws below its bound. -/
def Draws (m : JoinSession) (ev : Choices × Event) : Prop :=
  0 < GoMap.len m.participants → ev.1.intn (GoMap.len m.participants) < GoMap.len m.participants

theorem len_le_of_lookup (h : ∀ sid, m'.participants.lookup sid = m.participants.lookup sid ∨ m'.participants.lookup sid = none) :
    GoMap.len m'.participants ≤ GoMap.len m.participants := by
  rw [← GoMap.length_keys, ← GoMap.length_keys]
  refine (List.subperm_of_subset m'.participants.keys_nodup fun sid hsid => ?_).length_le
  obtain ⟨p, hp⟩ := GoMap.lookup_of_mem_keys hsid
  rcases h sid with hsame | hgone
  · exact GoMap.mem_keys_of_lookup (hsame ▸ hp)
  · rw [hgone] at hp
    cases hp

/-- The merged transaction is told to two or more, and the session leaves the first stage. -/
theorem dealt_of_sendTxData (hmerged : m.mergedSplitTx = some merged) (hrandom : m.randomIndex = true ∧ 1 < GoMap.len m.participants)
    (hundealt : m.answers .rawTx = []) (h : m.sendTxData ch merged = .ok m') :
    m'.progress = .signedTx ∧ m'.answers .signedTx = m.answers .signedTx ∧ ∃ merged', Dealt merged' m' := by
  obtain ⟨merged', m₁, m₂, hshuffled, hsend, -, rfl⟩ := exists_shuffled hmerged hrandom h
  obtain ⟨-, ⟨new, hreplies, htold⟩, hsent⟩ := sendAll_of_ok hsend
  obtain ⟨honly, heach⟩ := mem_of_told htold
  rw [hshuffled.replies] at hreplies
  have hnew : ∀ e ∈ new, ∃ ins outs, e.2 = Response.submitSplitTxRes merged' ins outs := by
    intro e he
    obtain ⟨x, hx⟩ := honly e he
    exact ⟨_, _, hx⟩
  have hother : ∀ e ∈ new, e.2.stage ≠ some .signedTx := by
    intro e he
    obtain ⟨ins, outs, heq⟩ := hnew e he
    rw [heq]
    exact fun h => by cases h
  have hsilent : m₂.answers .signedTx = m.answers .signedTx := answers_silent hreplies hother
  refine ⟨rfl, hsilent, merged', ?_, fun e he => ?_, fun sid p hp => ?_⟩
  · show m₂.mergedSplitTx = some merged'
    rw [hsent]
    exact hshuffled.merged
  · have hall : m₂.answers .rawTx = new.filter fun e => e.2.stage = some .rawTx := by
      rw [answers_append hreplies, hundealt, List.nil_append]
    change e ∈ m₂.answers .rawTx at he
    rw [hall] at he
    exact hnew e (List.mem_of_mem_filter he)
  · have hp₁ : m₁.participants.lookup sid = some p := by
      change m₂.participants.lookup sid = some p at hp
      rwa [hsent] at hp
    obtain ⟨c, hc, htold⟩ := heach sid p hp₁
    refine ⟨c, hc, ?_⟩
    show _ ∈ m₂.replies
    rw [hreplies]
    exact List.mem_append_right _ htold

/-- Of the responses one is the order to publish. -/
theorem one_order {pub : ℕ} (hpub : pub ∈ m.participants.keys) {chanOf : SessionParticipant → Option ℕ}
    (h : (new.map fun e => (some e.1, e.2)).Perm ((GoMap.toList m.participants).map fun e =>
      (chanOf e.2, .submitSignedTxRes signedTx (decide (e.1 = pub))))) : (new.filter fun e => e.2.isOrder).length = 1 := by
  have hcount := h.countP_eq fun e => e.2.isOrder
  rw [List.countP_map, List.countP_map] at hcount
  have hkeys : (GoMap.toList m.participants).countP (fun e => decide (e.1 = pub)) = m.participants.keys.count pub := by
    rw [GoMap.keys_eq, List.count, List.countP_map]
    rfl
  rw [← List.countP_eq_length_filter]
  calc new.countP (fun e => e.2.isOrder)
      = (GoMap.toList m.participants).countP (fun e => decide (e.1 = pub)) := hcount
    _ = m.participants.keys.count pub := hkeys
    _ = 1 := List.count_eq_one_of_mem m.participants.keys_nodup hpub

/-- The signed transaction is told, and the session is in the last stage. -/
theorem sealed_of_signing {sid resp : ℕ} {tx : MsgTx} (hstaged : m.Staged) (hstage : m.progress = .signedTx)
    (hunsealed : m.answers .signedTx = []) (hintn : ch.intn (GoMap.len m.participants) < GoMap.len m.participants)
    (h : Signing ch sid tx resp m none m') (hdone : m'.progress = .publishTx) : ∃ signedTx, Sealed signedTx m' := by
  have hbusy : m.progress ≠ .publishTx := hstage.trans_ne (by decide)
  cases h with
  | waiting => exact absurd hdone hbusy
  | @completed _ base txIn txOut m₂ _ _ _ _ _ hsend =>
    have hlen : GoMap.len (m.withSignedTx sid tx resp).participants = GoMap.len m.participants := GoMap.len_modify ..
    obtain ⟨pub, hpub⟩ := designated_of_ok
      (m := { m.withSignedTx sid tx resp with signedTx := some { base with txIn := txIn, txOut := txOut } })
      (show ch.intn (GoMap.len (m.withSignedTx sid tx resp).participants) < _ from hlen.symm ▸ hintn) hsend
    have hparticipants : m₂.participants = GoMap.modify pub (fun p => { p with publisher := true })
        (m.withSignedTx sid tx resp).participants := by rw [hpub.session]
    have hfresh := Publication.fresh_of_marked hstaged hbusy hparticipants
    obtain ⟨new, hreplies, htold⟩ := hpub.told
    have hone := one_order hpub.member htold
    obtain ⟨honly, heach⟩ := mem_of_told htold
    have hnew : ∀ e ∈ new, ∃ publisher, e.2 = Response.submitSignedTxRes { base with txIn := txIn, txOut := txOut } publisher := by
      intro e he
      obtain ⟨x, hx⟩ := honly e he
      exact ⟨_, hx⟩
    have hall : m₂.answers .signedTx = new := by
      have hreplies' : m₂.replies = m.replies ++ new := hreplies
      rw [answers_append hreplies', hunsealed, List.nil_append, List.filter_eq_self]
      intro e he
      obtain ⟨publisher, heq⟩ := hnew e he
      rw [heq]
      rfl
    refine ⟨{ base with txIn := txIn, txOut := txOut }, ?_, fun e he => ?_, ?_, fun sid' q hq => ?_⟩
    · show m₂.signedTx = _
      rw [hpub.session]
    · change e ∈ m₂.answers .signedTx at he
      exact hnew e (hall ▸ he)
    · show ((m₂.answers .signedTx).filter fun e => e.2.isOrder).length = 1
      rw [hall]
      exact hone
    · change m₂.participants.lookup sid' = some q at hq
      have hpublisher : q.publisher = decide (sid' = pub) := by
        rw [Bool.eq_iff_iff, decide_eq_true_iff]
        exact (hfresh sid' q hq).2
      obtain ⟨q', hq', hchan⟩ : ∃ q', (m.withSignedTx sid tx resp).participants.lookup sid' = some q' ∧
          q.chanSubmitSignedTxRes = q'.chanSubmitSignedTxRes := by
        rw [hparticipants] at hq
        by_cases hsid : sid' = pub
        · rw [hsid, GoMap.lookup_modify_self, Option.map_eq_some_iff] at hq
          obtain ⟨q', hq', rfl⟩ := hq
          exact ⟨q', hsid ▸ hq', rfl⟩
        · rw [GoMap.lookup_modify_ne hsid] at hq
          exact ⟨q, hq, rfl⟩
      obtain ⟨c, hc, hmem⟩ := heach sid' q' hq'
      rw [hchan, hpublisher]
      refine ⟨c, hc, ?_⟩
      show _ ∈ m₂.replies
      rw [hreplies]
      exact List.mem_append_right _ hmem

/-- Without the shuffle everybody is told too, but the session stays where it is. -/
theorem told_plain (hplain : ¬ (m.randomIndex = true ∧ 1 < GoMap.len m.participants)) (h : m.sendTxData ch merged = .ok m') :
    m'.randomIndex = m.randomIndex ∧ m'.participants = m.participants ∧ m'.progress = m.progress ∧
      m'.answers .signedTx = m.answers .signedTx := by
  obtain ⟨m₁, hsend, rfl⟩ := (sendTxData_plain hplain).mp h
  obtain ⟨-, ⟨new, hreplies, htold⟩, hsent⟩ := sendAll_of_ok hsend
  have hsilent : m₁.answers .signedTx = m.answers .signedTx := by
    refine answers_silent hreplies fun e he => ?_
    obtain ⟨x, hx⟩ := (mem_of_told htold).1 e he
    rw [hx]
    exact fun h => by cases h
  exact ⟨by rw [hsent], by rw [hsent], by rw [hsent], hsilent⟩

theorem answers_error {stage : Progress} (resp : ℕ) (err : Err) :
    ({ m with replies := m.replies ++ [(resp, .err err)] } : JoinSession).answers stage = m.answers stage := by
  refine answers_silent rfl fun e he => ?_
  rw [List.mem_singleton.mp he]
  exact fun h => by cases h

/-- In the first stage. -/
theorem Standing.step_raw {ev : Event} (h : m.Standing) (hraw : m.progress = .rawTx) (hstep : m.step (ch, ev) = some m') :
    (m'.progress = .rawTx → m'.randomIndex = true → 1 < GoMap.len m'.participants → m'.answers .rawTx = []) ∧
      (m'.progress = .rawTx ∨ m'.progress = .signedTx) ∧ m'.answers .signedTx = [] ∧
        (m'.progress ≠ .rawTx → ∃ merged, Dealt merged m') := by
  have hunsealed : m.answers .signedTx = [] := h.unsealed (hraw.trans_ne (by decide))
  have hnot : ∀ {stage : Progress}, m.progress = stage → stage ≠ .rawTx → False := fun heq hne => hne (heq.symm.trans hraw)
  cases turned_of_step hstep with
  | fired =>
    refine ⟨fun _ hrandom hlen => h.undealt hraw hrandom (hlen.trans_le (len_le_of_lookup fun sid => ?_)), .inl hraw, hunsealed,
      fun hne => absurd hraw hne⟩
    exact (lookup_timeout_cases ch m sid).imp_right And.left
  | left sessionID =>
    refine ⟨fun _ hrandom hlen => h.undealt hraw hrandom (hlen.trans_le (len_le_of_lookup fun sid => ?_)), .inl hraw, hunsealed,
      fun hne => absurd hraw hne⟩
    exact (lookup_removeSessionID_cases m sessionID sid).imp_right And.left
  | refused =>
    refine ⟨fun _ hrandom hlen => ?_, .inl hraw, ?_, fun hne => absurd hraw hne⟩
    · rw [answers_error]
      exact h.undealt hraw hrandom hlen
    · rw [answers_error]
      exact hunsealed
  | merging =>
    refine ⟨fun _ hrandom hlen => h.undealt hraw hrandom ?_, .inl hraw, hunsealed, fun hne => absurd hraw hne⟩
    rwa [participants_withSplitTx, GoMap.len_modify] at hlen
  | @merged sid splitTx merged resp inputIndes outputIndes _ _ _ _ _ hsend =>
    by_cases hrandom : m.randomIndex = true ∧ 1 < GoMap.len m.participants
    · have hundealt := h.undealt hraw hrandom.1 hrandom.2
      have hrandom' : (m.withSplitTx sid splitTx resp merged inputIndes outputIndes).randomIndex = true ∧
          1 < GoMap.len (m.withSplitTx sid splitTx resp merged inputIndes outputIndes).participants := by
        rw [participants_withSplitTx, GoMap.len_modify]
        exact hrandom
      obtain ⟨hstage, hsilent, hdealt⟩ := dealt_of_sendTxData rfl hrandom' hundealt hsend
      exact ⟨fun heq => absurd (hstage.symm.trans heq) (by decide), .inr hstage, hsilent.trans hunsealed, fun _ => hdealt⟩
    · have hrandom' : ¬ ((m.withSplitTx sid splitTx resp merged inputIndes outputIndes).randomIndex = true ∧
          1 < GoMap.len (m.withSplitTx sid splitTx resp merged inputIndes outputIndes).participants) := by
        rw [participants_withSplitTx, GoMap.len_modify]
        exact hrandom
      obtain ⟨hindex, hparticipants, hprogress, hsilent⟩ := told_plain hrandom' hsend
      have hstage : m'.progress = .rawTx := hprogress.trans hraw
      refine ⟨fun _ hindex' hlen => absurd ⟨hindex.symm.trans hindex', ?_⟩ hrandom, .inl hstage, hsilent.trans hunsealed,
        fun hne => absurd hstage hne⟩
      rwa [hparticipants, participants_withSplitTx, GoMap.len_modify] at hlen
  | invalid hstage => exact (hnot hstage (by decide)).elim
  | signed hstage => exact (hnot hstage (by decide)).elim
  | publishing hstage => exact (hnot hstage (by decide)).elim
  | published hstage => exact (hnot hstage (by decide)).elim

/-- In the second stage. -/
theorem Standing.step_signed {ev : Event} (h : m.Standing) (hstaged : m.Staged) (hdraws : Draws m (ch, ev)) (hstage : m.progress = .signedTx)
    (hstep : m.step (ch, ev) = some m') :
    (m'.progress ≠ .publishTx → m'.answers .signedTx = []) ∧ (m'.progress = .publishTx → ∃ signedTx, Sealed signedTx m') := by
  have hbusy : m.progress ≠ .publishTx := hstage.trans_ne (by decide)
  have hunsealed : m.answers .signedTx = [] := h.unsealed hbusy
  have hnot : ∀ {stage : Progress}, m.progress = stage → stage ≠ .signedTx → False := fun heq hne => hne (heq.symm.trans hstage)
  cases turned_of_step hstep with
  | fired => exact ⟨fun _ => hunsealed, fun heq => absurd heq hbusy⟩
  | left => exact ⟨fun _ => hunsealed, fun heq => absurd heq hbusy⟩
  | refused =>
    rw [answers_error]
    exact ⟨fun _ => hunsealed, fun heq => absurd heq hbusy⟩
  | merging hraw => exact (hnot hraw (by decide)).elim
  | merged hraw => exact (hnot hraw (by decide)).elim
  | invalid _ hp hsigning =>
    rw [answers_error]
    cases hsigning with
    | unknown => exact ⟨fun _ => hunsealed, fun heq => absurd heq hbusy⟩
    | nilInput => exact ⟨fun _ => hunsealed, fun heq => absurd heq hbusy⟩
    | nilOutput => exact ⟨fun _ => hunsealed, fun heq => absurd heq hbusy⟩
  | signed _ hp hsigning =>
    have hlen : 0 < GoMap.len m.participants := Nat.pos_of_ne_zero (GoMap.len_ne_zero_iff.mpr ⟨_, _, hp⟩)
    refine ⟨fun hne => ?_, sealed_of_signing hstaged hstage hunsealed (hdraws hlen) hsigning⟩
    cases hsigning with
    | waiting => exact hunsealed
    | completed => exact absurd rfl hne
  | publishing hlast => exact (hnot hlast (by decide)).elim
  | published hlast => exact (hnot hlast (by decide)).elim

theorem Standing.step {ev : Choices × Event} (h : m.Standing) (hstaged : m.Staged) (hdraws : Draws m ev) (hstep : m.step ev = some m') :
    m'.Standing := by
  obtain ⟨ch, ev⟩ := ev
  cases hstage : m.progress with
  | rawTx =>
    obtain ⟨hundealt, hstage', hunsealed, hdealt⟩ := h.step_raw hstage hstep
    refine ⟨hundealt, fun _ => hunsealed, hdealt, fun hlast => ?_⟩
    rw [hlast] at hstage'
    rcases hstage' with heq | heq
    · cases heq
    · cases heq
  | signedTx =>
    obtain ⟨merged, hdealt⟩ := h.dealt (hstage.trans_ne (by decide))
    obtain ⟨hraw, hdealt'⟩ := hdealt.step (hstage.trans_ne (by decide)) hstep
    obtain ⟨hunsealed, hsealed⟩ := h.step_signed hstaged hdraws hstage hstep
    exact ⟨fun heq => absurd heq hraw, hunsealed, fun _ => ⟨merged, hdealt'⟩, hsealed⟩
  | publishTx =>
    obtain ⟨merged, hdealt⟩ := h.dealt (hstage.trans_ne (by decide))
    obtain ⟨hraw, hdealt'⟩ := hdealt.step (hstage.trans_ne (by decide)) hstep
    obtain ⟨signedTx, hsealed⟩ := h.sealed hstage
    obtain ⟨hlast, hsealed'⟩ := hsealed.step hstage hstep
    exact ⟨fun heq => absurd heq hraw, fun hne => absurd hlast hne, fun _ => ⟨merged, hdealt'⟩, fun _ => ⟨signedTx, hsealed'⟩⟩

instance (m : JoinSession) (ev : Choices × Event) : Decidable (Draws m ev) := inferInstanceAs (Decidable (_ → _))

end JoinSession

end Dcrtxmatcher.Matcher
