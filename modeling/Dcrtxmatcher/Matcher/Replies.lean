import Dcrtxmatcher.Matcher.Service

/-! One reply a request.

As long as calls come in their stage and once for each participant, the channels kept
for the participants are those of the calls that wait, each for one participant; the
end of a stage answers exactly these. -/
namespace Dcrtxmatcher.Matcher
open Lib
open Coinjoin (TxIn TxOut)

namespace Service
variable {btcEncode : MsgTx → Option Bytes} {ch : Choices} {m m' : JoinSession}

/-! ### Answering everybody -/

/-- Every participant has a channel of its own. -/
theorem exists_chans {l : List (ℕ × SessionParticipant)} {chanOf : SessionParticipant → Option ℕ} (owner : ℕ → ℕ)
    (hkeys : (l.map Prod.fst).Nodup) (h : ∀ e ∈ l, ∃ c, chanOf e.2 = some c ∧ owner c = e.1) :
    ∃ cs : List ℕ, (l.map fun e => chanOf e.2) = cs.map some ∧ cs.Nodup ∧
      ∀ c, c ∈ cs ↔ ∃ e ∈ l, chanOf e.2 = some c := by
  have hlist : ∃ cs : List ℕ, (l.map fun e => chanOf e.2) = cs.map some ∧ cs.map owner = l.map Prod.fst := by
    clear hkeys
    induction l with
    | nil => exact ⟨[], rfl, rfl⟩
    | cons e l ih =>
      obtain ⟨c, hc, howner⟩ := h e (List.mem_cons_self ..)
      obtain ⟨cs, hcs, howners⟩ := ih fun e' he' => h e' (List.mem_cons_of_mem e he')
      exact ⟨c :: cs, by rw [List.map_cons, hc, hcs, List.map_cons], by rw [List.map_cons, howner, howners, List.map_cons]⟩
  obtain ⟨cs, hcs, howners⟩ := hlist
  refine ⟨cs, hcs, List.Nodup.of_map owner (howners ▸ hkeys), fun c => ?_⟩
  rw [← List.mem_map_of_injective (Option.some_injective ℕ), ← hcs, List.mem_map]

/-- Whom a stage result is for: everybody has a channel of its own that was not answered. -/
def AllWait (owner : ℕ → ℕ) (chanOf : SessionParticipant → Option ℕ) (m : JoinSession) : Prop :=
  ∀ sid p, m.participants.lookup sid = some p →
    ∃ c, chanOf p = some c ∧ owner c = sid ∧ c ∉ m.replies.map Prod.fst

theorem AllWait.exists_chans {owner : ℕ → ℕ} {chanOf : SessionParticipant → Option ℕ} (h : AllWait owner chanOf m)
    (ch : Choices) (site : List ℕ) :
    ∃ cs : List ℕ, ((GoMap.range ch.order site m.participants).map fun e => chanOf e.2) = cs.map some ∧ cs.Nodup ∧
      (m.replies.map Prod.fst).Disjoint cs ∧
        ∀ c, c ∈ cs ↔ ∃ sid p, m.participants.lookup sid = some p ∧ chanOf p = some c := by
  obtain ⟨cs, hcs, hnodup, hmem⟩ := Service.exists_chans owner
    (GoMap.nodup_range ch.order site m.participants) (fun e he => by
      obtain ⟨c, hc, howner, _⟩ := h e.1 e.2 (GoMap.mem_range.mp he)
      exact ⟨c, hc, howner⟩)
  have hmem' : ∀ c, c ∈ cs ↔ ∃ sid p, m.participants.lookup sid = some p ∧ chanOf p = some c := by
    intro c
    rw [hmem]
    constructor
    · intro ⟨e, he, hc⟩
      exact ⟨e.1, e.2, GoMap.mem_range.mp he, hc⟩
    · intro ⟨sid, p, hp, hc⟩
      exact ⟨(sid, p), GoMap.mem_range.mpr hp, hc⟩
  refine ⟨cs, hcs, hnodup, ?_, hmem'⟩
  intro c hold hc
  obtain ⟨sid, p, hp, hchan⟩ := (hmem' c).mp hc
  obtain ⟨c', hchan', _, hnew⟩ := h sid p hp
  rw [hchan] at hchan'
  cases hchan'
  exact hnew hold

/-- A stage result for everybody: each of these channels gets a response that can be passed on. -/
def AnsweredAll (btcEncode : MsgTx → Option Bytes) (chanOf : SessionParticipant → Option ℕ) (m : JoinSession)
    (replies : List (ℕ × Response)) : Prop :=
  ∃ cs rs, replies = m.replies ++ List.zip cs rs ∧ cs.length = rs.length ∧ cs.Nodup ∧
    (m.replies.map Prod.fst).Disjoint cs ∧ (∀ r ∈ rs, (encode btcEncode r).isSome = true) ∧
      ∀ c, c ∈ cs ↔ ∃ sid p, m.participants.lookup sid = some p ∧ chanOf p = some c

theorem exists_sendMerged {owner : ℕ → ℕ} (ch : Choices) (site : ℕ) {merged : MsgTx}
    (h : AllWait owner SessionParticipant.chanSubmitSplitTxRes m) (hencode : (btcEncode merged).isSome = true) :
    ∃ m', m.sendMerged ch site merged = .ok m' ∧ m' = { m with replies := m'.replies } ∧
      AnsweredAll btcEncode SessionParticipant.chanSubmitSplitTxRes m m'.replies := by
  obtain ⟨cs, hcs, hnodup, hdisj, hmem⟩ := h.exists_chans ch [site]
  have hvalues : (GoMap.values ch.order [site] m.participants).map SessionParticipant.chanSubmitSplitTxRes =
      cs.map some := by
    rw [← hcs, GoMap.values, List.map_map]
    rfl
  refine ⟨_, JoinSession.sendMerged_eq_ok.mpr ⟨cs, hvalues, hdisj, hnodup, rfl⟩, rfl, cs, _, rfl, ?_, hnodup, hdisj, ?_,
    hmem⟩
  · rw [List.length_map]
    simpa only [List.length_map] using (congrArg List.length hvalues).symm
  · intro r hr
    obtain ⟨p, _, rfl⟩ := List.mem_map.mp hr
    rw [encode, Option.isSome_map]
    exact hencode

theorem exists_sendSigned {owner : ℕ → ℕ} (ch : Choices) (randIndex : ℕ) (site : List ℕ) {signedTx : MsgTx}
    (h : AllWait owner SessionParticipant.chanSubmitSignedTxRes m) (hencode : (btcEncode signedTx).isSome = true) :
    ∃ m', JoinSession.sendSigned randIndex signedTx 0 (GoMap.range ch.order site m.participants) m = .ok m' ∧
      m' = { m with
        participants := JoinSession.markPublisher randIndex 0 (GoMap.range ch.order site m.participants) m.participants
        replies := m'.replies } ∧
      AnsweredAll btcEncode SessionParticipant.chanSubmitSignedTxRes m m'.replies := by
  obtain ⟨cs, hcs, hnodup, hdisj, hmem⟩ := h.exists_chans ch site
  refine ⟨_, JoinSession.sendSigned_eq_ok.mpr ⟨cs, hcs, hdisj, hnodup, rfl⟩, rfl, cs, _, rfl, ?_, hnodup, hdisj, ?_, hmem⟩
  · rw [List.length_mapIdx]
    simpa only [List.length_map] using (congrArg List.length hcs).symm
  · intro r hr
    obtain ⟨j, _, rfl⟩ := List.mem_mapIdx.mp hr
    rw [encode, Option.isSome_map]
    exact hencode

theorem exists_sendPublished {owner : ℕ → ℕ} (ch : Choices) {result : MsgTx}
    (h : AllWait owner SessionParticipant.chanPublishedTxRes m) (hresult : m.publishedTx = some result)
    (hencode : (btcEncode result).isSome = true) :
    ∃ m', m.sendPublished ch = .ok m' ∧ m' = { m with replies := m'.replies } ∧
      AnsweredAll btcEncode SessionParticipant.chanPublishedTxRes m m'.replies := by
  obtain ⟨cs, hcs, hnodup, hdisj, hmem⟩ := h.exists_chans ch [309]
  have hvalues : (GoMap.values ch.order [309] m.participants).map SessionParticipant.chanPublishedTxRes =
      cs.map some := by
    rw [← hcs, GoMap.values, List.map_map]
    rfl
  refine ⟨_, JoinSession.sendPublished_eq_ok.mpr ⟨cs, hvalues, hdisj, hnodup, rfl⟩, rfl, cs, _, rfl, ?_, hnodup, hdisj,
    ?_, hmem⟩
  · rw [List.length_map]
    simpa only [List.length_map] using (congrArg List.length hvalues).symm
  · intro r hr
    obtain ⟨p, _, rfl⟩ := List.mem_map.mp hr
    rw [JoinSession.publishedRes, hresult, encode, Option.isSome_map]
    exact hencode

/-! ### Turns of the three stages -/

/-- What `Run` makes of a call it can serve: it waits, or everybody is answered. -/
inductive Turn (btcEncode : MsgTx → Option Bytes) (m : JoinSession) (sid c : ℕ) (m' : JoinSession) : Prop where
  | waiting {f : SessionParticipant → SessionParticipant}
      (hparticipants : m'.participants = GoMap.modify sid f m.participants) (hreplies : m'.replies = m.replies)
      (hprogress : m'.progress = m.progress) (hdone : ∀ p, submitted m.progress (f p) = true)
      (hchan : ∀ p, chan m.progress (f p) = some c) (hopen : ¬ StageComplete m')
  | complete {m₁ : JoinSession} {f : SessionParticipant → SessionParticipant}
      (hparticipants : m₁.participants = GoMap.modify sid f m.participants) (hreplies : m₁.replies = m.replies)
      (hchan : ∀ p, chan m.progress (f p) = some c)
      (hdone : ∀ sid p, m₁.participants.lookup sid = some p → submitted m.progress p = true)
      (hall : AnsweredAll btcEncode (chan m.progress) m₁ m'.replies)
      (hnext : (m'.progress = m.progress ∧ ∀ sid, ∃ g : SessionParticipant → SessionParticipant,
          m'.participants.lookup sid = (m₁.participants.lookup sid).map g ∧
            ∀ p, submitted m.progress (g p) = submitted m.progress p ∧ chan m.progress (g p) = chan m.progress p) ∨
        ∀ sid p, m'.participants.lookup sid = some p → submitted m'.progress p = false)

/-- The session between its turns: nobody is ahead of its stage, and what is to be sent can be encoded. -/
structure Ready (btcEncode : MsgTx → Option Bytes) (m : JoinSession) : Prop where
  collecting : m.progress = .rawTx → m.Consistent ∧ m.signedTx = none ∧
    (∀ tx, m.mergedSplitTx = some tx → Encodable btcEncode tx) ∧
      ∀ sid p, m.participants.lookup sid = some p → p.signedTx = none ∧ p.sentPublished = false
  signing : m.progress = .signedTx → (∀ tx, m.signedTx = some tx → tx.Whole ∧ Encodable btcEncode tx) ∧
    ∀ sid p, m.participants.lookup sid = some p → p.sentPublished = false
  publishing : m.progress = .publishTx → ∀ sid p, m.participants.lookup sid = some p → p.signedTx.isSome = true

theorem encodable_congr {tx tx' : MsgTx} (h : Encodable btcEncode tx)
    (heq : tx' = { tx with txIn := tx'.txIn, txOut := tx'.txOut }) : Encodable btcEncode tx' := by
  intro txIn txOut hin hout
  rw [heq]
  exact h txIn txOut hin hout

theorem Encodable.of_whole {tx : MsgTx} (h : Encodable btcEncode tx) (hwhole : tx.Whole) :
    (btcEncode tx).isSome = true := h tx.txIn tx.txOut hwhole.1 hwhole.2

theorem all_toList_iff {f : SessionParticipant → Bool} {participants : GoMap ℕ SessionParticipant} :
    ((GoMap.toList participants).all fun e => f e.2) = true ↔
      ∀ sid p, participants.lookup sid = some p → f p = true := by
  rw [List.all_eq_true]
  constructor
  · exact fun h sid p hp => h (sid, p) (GoMap.mem_toList.mpr hp)
  · exact fun h e he => h e.1 e.2 (GoMap.mem_toList.mp he)

theorem checkTxSubmitted_iff : m.checkTxSubmitted = true ↔
    ∀ sid p, m.participants.lookup sid = some p → submitted .rawTx p = true :=
  all_toList_iff (f := fun p => p.splitTx.isSome)

theorem checkInputsSigned_iff : m.checkInputsSigned = true ↔
    ∀ sid p, m.participants.lookup sid = some p → submitted .signedTx p = true :=
  all_toList_iff (f := fun p => p.signedTx.isSome)

theorem checkAllSentPublished_iff : m.checkAllSentPublished = true ↔
    ∀ sid p, m.participants.lookup sid = some p → submitted .publishTx p = true :=
  all_toList_iff (f := fun p => p.sentPublished)

theorem StageComplete.submitted {stage : Progress} (h : StageComplete m) (hstage : m.progress = stage) :
    ∀ sid p, m.participants.lookup sid = some p → submitted stage p = true := hstage ▸ h

/-- The others that have done their part wait, each at a channel of its own. -/
def OthersWait (owner : ℕ → ℕ) (m : JoinSession) (sid : ℕ) : Prop :=
  ∀ sid' p, sid' ≠ sid → m.participants.lookup sid' = some p → submitted m.progress p = true →
    ∃ c, chan m.progress p = some c ∧ owner c = sid' ∧ c ∉ m.replies.map Prod.fst

/-- When a call is the last one of its stage, everybody waits. -/
theorem OthersWait.allWait {owner : ℕ → ℕ} {sid c : ℕ} {f : SessionParticipant → SessionParticipant} {stage : Progress}
    (h : OthersWait owner m sid) (hstage : m.progress = stage) (howner : owner c = sid)
    (hc : c ∉ m.replies.map Prod.fst) (hparticipants : m'.participants = GoMap.modify sid f m.participants)
    (hreplies : m'.replies = m.replies) (hchan : ∀ p, chan stage (f p) = some c)
    (hall : ∀ sid p, m'.participants.lookup sid = some p → submitted stage p = true) :
    AllWait owner (chan stage) m' := by
  intro sid' p hp
  have hdone := hall sid' p hp
  rw [hreplies]
  rw [hparticipants] at hp
  by_cases hsid : sid' = sid
  · rw [hsid, GoMap.lookup_modify_self, Option.map_eq_some_iff] at hp
    obtain ⟨q, _, rfl⟩ := hp
    exact ⟨c, hchan q, hsid ▸ howner, hc⟩
  · rw [GoMap.lookup_modify_ne hsid] at hp
    rw [← hstage] at hdone ⊢
    exact h sid' p hsid hp hdone

/-- Who has not submitted owns nothing. -/
theorem places_eq_nil {α : Type} {side : Side α} {sid : ℕ} {p : SessionParticipant} (h : m.Owned side)
    (hp : m.participants.lookup sid = some p) (hnone : p.splitTx = none) : m.places side sid = [] := by
  have hpiece : m.piece side sid = [] := by
    rw [JoinSession.piece, hp, Option.bind_some, hnone]
    rfl
  rw [← List.length_eq_zero_iff, h.length, hpiece, List.length_nil]

theorem exists_mergeSplitTx {splitTx : MsgTx} (h : splitTx.Whole) (old : Option MsgTx) :
    ∃ r, JoinSession.mergeSplitTx splitTx old = .ok r := by
  cases old with
  | none =>
    refine ⟨(splitTx, List.range' 0 splitTx.txIn.length, List.range' 0 splitTx.txOut.length), ?_⟩
    have hcopy : splitTx.copy = .ok splitTx := by
      rw [MsgTx.copy, if_neg]
      rintro (hin | hout)
      · exact h.1 hin
      · exact h.2 hout
    rw [JoinSession.mergeSplitTx, hcopy]
    rfl
  | some old => exact ⟨_, rfl⟩

/-- Indices that share out the merged transaction are in range for the shuffle. -/
theorem exists_shuffleAll (ch : Choices) {merged : MsgTx} (hm : m.Consistent) (hmerged : m.mergedSplitTx = some merged) :
    ∃ r, JoinSession.shuffleAll (ch.perm 406 merged.txIn.length) (ch.perm 407 merged.txOut.length) merged
      (GoMap.range ch.order [421] m.participants) (List.replicate merged.txIn.length none)
      (List.replicate merged.txOut.length none) m.participants = .ok r := by
  have hin : ∀ sid, ∀ i ∈ m.places inputs sid, i < (m.mergedEntries inputs).length := fun _ _ => hm.inputs.lt_of_mem
  have hout : ∀ sid, ∀ i ∈ m.places outputs sid, i < (m.mergedEntries outputs).length := fun _ _ => hm.outputs.lt_of_mem
  rw [JoinSession.mergedEntries, hmerged] at hin hout
  refine JoinSession.exists_shuffleAll ?_ ?_ ?_ _ _ _
  · rw [(ch.perm_range 406 _).length_eq, List.length_range]
  · rw [(ch.perm_range 407 _).length_eq, List.length_range]
  · intro e he
    have hp := GoMap.mem_range.mp he
    constructor
    · intro i hi
      exact hin e.1 i ((JoinSession.places_of_lookup hp).symm ▸ hi)
    · intro i hi
      exact hout e.1 i ((JoinSession.places_of_lookup hp).symm ▸ hi)

/-- The shuffle keeps everybody's channel. -/
theorem chan_shuffled {m₁ : JoinSession} {merged : MsgTx} (h : JoinSession.Shuffled m m₁ merged) {sid c : ℕ} :
    (∃ p, m₁.participants.lookup sid = some p ∧ chan .rawTx p = some c) ↔
      ∃ p, m.participants.lookup sid = some p ∧ chan .rawTx p = some c := by
  obtain ⟨ins, outs, hlookup⟩ := h.lookup sid
  rw [hlookup]
  rcases m.participants.lookup sid with _ | p
  · rfl
  · simp [chan]

theorem AllWait.shuffled {owner : ℕ → ℕ} {m₁ : JoinSession} {merged : MsgTx} (h : AllWait owner (chan .rawTx) m)
    (hshuffled : JoinSession.Shuffled m m₁ merged) : AllWait owner (chan .rawTx) m₁ := by
  intro sid p hp
  obtain ⟨ins, outs, hlookup⟩ := hshuffled.lookup sid
  rw [hlookup, Option.map_eq_some_iff] at hp
  obtain ⟨q, hq, rfl⟩ := hp
  rw [hshuffled.replies]
  exact h sid q hq

theorem AnsweredAll.shuffled {m₁ : JoinSession} {merged : MsgTx} {replies : List (ℕ × Response)}
    (h : AnsweredAll btcEncode (chan .rawTx) m₁ replies) (hshuffled : JoinSession.Shuffled m m₁ merged) :
    AnsweredAll btcEncode (chan .rawTx) m replies := by
  obtain ⟨cs, rs, hreplies, hlength, hnodup, hdisj, hencode, hmem⟩ := h
  rw [hshuffled.replies] at hreplies hdisj
  refine ⟨cs, rs, hreplies, hlength, hnodup, hdisj, hencode, fun c => ?_⟩
  rw [hmem]
  exact exists_congr fun sid => chan_shuffled hshuffled

theorem sendTxData_turn {owner : ℕ → ℕ} (ch : Choices) {merged : MsgTx} (hm : m.Consistent) (hmerged : m.mergedSplitTx = some merged)
    (hstage : m.progress = .rawTx) (hwait : AllWait owner (chan .rawTx) m) (hencode : Encodable btcEncode merged) :
    ∃ m', m.sendTxData ch merged = .ok m' ∧ AnsweredAll btcEncode (chan .rawTx) m m'.replies ∧
      m'.signedTx = m.signedTx ∧
      ((m'.progress = .rawTx ∧ m'.participants = m.participants ∧ m'.mergedSplitTx = m.mergedSplitTx) ∨
        m'.progress = .signedTx ∧ ∀ sid, ∃ ins outs, m'.participants.lookup sid =
          (m.participants.lookup sid).map fun p => { p with inputIndes := ins, outputIndes := outs }) := by
  by_cases hrandom : m.randomIndex = true ∧ 1 < GoMap.len m.participants
  · -- the shuffle and the loop of replies both get through
    obtain ⟨⟨txIn, txOut, participants⟩, hshuffle⟩ := exists_shuffleAll ch hm hmerged
    have hshuffled := JoinSession.shuffled_of_ok hmerged hshuffle
    have hwait' := hwait.shuffled hshuffled
    have hencode' : Encodable btcEncode { merged with txIn := txIn, txOut := txOut } := encodable_congr hencode rfl
    obtain ⟨m₁, hsend, hm₁, hall⟩ := exists_sendMerged ch 446 hwait'
      (hencode'.of_whole ((hshuffled.consistent hm).whole rfl))
    refine ⟨_, (JoinSession.sendTxData_random hrandom).mpr ⟨txIn, txOut, participants, m₁, hshuffle, hsend, rfl⟩,
      hall.shuffled hshuffled, by rw [hm₁], .inr ⟨rfl, fun sid => ?_⟩⟩
    rw [hm₁]
    exact hshuffled.lookup sid
  · obtain ⟨m₁, hsend, hm₁, hall⟩ := exists_sendMerged ch 461 hwait
      (hencode.of_whole (hm.whole hmerged))
    refine ⟨_, (JoinSession.sendTxData_plain hrandom).mpr ⟨m₁, hsend, rfl⟩, hall, ?_, .inl ⟨?_, ?_, ?_⟩⟩
    · rw [hm₁]
    · rw [hm₁]
      exact hstage
    · rw [hm₁]
    · rw [hm₁]

/-- A split transaction that fits. -/
theorem addParticipantInput_turn {owner : ℕ → ℕ} (ch : Choices) {sid c : ℕ} {splitTx : MsgTx} {p : SessionParticipant}
    (hready : Ready btcEncode m) (hstage : m.progress = .rawTx) (hp : m.participants.lookup sid = some p)
    (hnone : p.splitTx = none) (hwhole : splitTx.Whole) (hfirst : m.mergedSplitTx = none → Encodable btcEncode splitTx)
    (hothers : OthersWait owner m sid) (howner : owner c = sid) (hc : c ∉ m.replies.map Prod.fst) :
    ∃ m', m.addParticipantInput ch sid splitTx c = .ok (none, m') ∧ Turn btcEncode m sid c m' ∧ Ready btcEncode m' := by
  obtain ⟨hm, hunsigned, hmergedEncodes, hfresh⟩ := hready.collecting hstage
  obtain ⟨⟨merged, inputIndes, outputIndes⟩, hmerge⟩ := exists_mergeSplitTx hwhole m.mergedSplitTx
  have hmem := GoMap.mem_keys_of_lookup hp
  have hparticipants := JoinSession.participants_withSplitTx sid splitTx c merged inputIndes outputIndes m
  have hm₁ := JoinSession.consistent_withSplitTx c hm hmem (places_eq_nil hm.inputs hp hnone)
    (places_eq_nil hm.outputs hp hnone) hwhole hmerge
  have hencode : Encodable btcEncode merged := by
    refine encodable_congr ?_ (JoinSession.mergeSplitTx_eq_ok hmerge).2.2.2.2
    rcases hold : m.mergedSplitTx with _ | old
    · exact hfirst hold
    · exact hmergedEncodes old hold
  have hfresh₁ : ∀ sid' q, (m.withSplitTx sid splitTx c merged inputIndes outputIndes).participants.lookup sid' =
      some q → q.signedTx = none ∧ q.sentPublished = false := by
    intro sid' q hq
    rw [hparticipants] at hq
    by_cases hsid : sid' = sid
    · rw [hsid, GoMap.lookup_modify_self, hp] at hq
      cases hq
      exact hfresh sid p hp
    · rw [GoMap.lookup_modify_ne hsid] at hq
      exact hfresh sid' q hq
  by_cases hall : (m.withSplitTx sid splitTx c merged inputIndes outputIndes).checkTxSubmitted = true
  · have hwait := hothers.allWait hstage howner hc hparticipants rfl (fun _ => rfl) (checkTxSubmitted_iff.mp hall)
    obtain ⟨m', hsend, hanswered, hsigned, hnext⟩ := sendTxData_turn ch hm₁ rfl hstage hwait hencode
    refine ⟨m', JoinSession.addParticipantInput_eq_ok.mpr (.inr ⟨hmem, rfl, merged, inputIndes, outputIndes, hmerge, ?_⟩),
      .complete hparticipants rfl ?_ ?_ ?_ ?_, ?_⟩
    · rwa [if_pos hall]
    · rw [hstage]
      exact fun _ => rfl
    · rw [hstage]
      exact checkTxSubmitted_iff.mp hall
    · rw [hstage]
      exact hanswered
    · rw [hstage]
      rcases hnext with ⟨hprogress, hsame, _⟩ | ⟨hprogress, hlookup⟩
      · exact .inl ⟨hprogress, fun sid' => ⟨id, by rw [hsame, Option.map_id, id], fun _ => ⟨rfl, rfl⟩⟩⟩
      · right
        intro sid' q hq
        obtain ⟨ins, outs, hlookup⟩ := hlookup sid'
        rw [hlookup, Option.map_eq_some_iff] at hq
        obtain ⟨q, hq, rfl⟩ := hq
        rw [hprogress]
        show q.signedTx.isSome = false
        rw [(hfresh₁ sid' q hq).1]
        rfl
    · rcases hnext with ⟨hprogress, hsame, hmerged⟩ | ⟨hprogress, hlookup⟩
      · refine ⟨fun _ => ⟨JoinSession.consistent_sendTxData hm₁ rfl hsend, hsigned.trans hunsigned, ?_, ?_⟩, ?_, ?_⟩
        · intro tx htx
          rw [hmerged] at htx
          cases htx
          exact hencode
        · rw [hsame]
          exact hfresh₁
        · intro h
          rw [hprogress] at h
          cases h
        · intro h
          rw [hprogress] at h
          cases h
      · refine ⟨fun h => ?_, fun _ => ⟨?_, ?_⟩, fun h => ?_⟩
        · rw [hprogress] at h
          cases h
        · intro tx htx
          rw [hsigned.trans hunsigned] at htx
          cases htx
        · intro sid' q hq
          obtain ⟨ins, outs, hlookup⟩ := hlookup sid'
          rw [hlookup, Option.map_eq_some_iff] at hq
          obtain ⟨q, hq, rfl⟩ := hq
          exact (hfresh₁ sid' q hq).2
        · rw [hprogress] at h
          cases h
  · refine ⟨_, JoinSession.addParticipantInput_eq_ok.mpr (.inr ⟨hmem, rfl, merged, inputIndes, outputIndes, hmerge, ?_⟩),
      .waiting hparticipants rfl rfl ?_ ?_ ?_, ?_⟩
    · rw [if_neg hall]
    · rw [hstage]
      exact fun _ => rfl
    · rw [hstage]
      exact fun _ => rfl
    · exact fun hcomplete => hall (checkTxSubmitted_iff.mpr (hcomplete.submitted hstage))
    · refine ⟨fun _ => ⟨hm₁, hunsigned, ?_, hfresh₁⟩, fun h => ?_, fun h => ?_⟩
      · intro tx htx
        cases htx
        exact hencode
      · exact absurd (hstage.symm.trans h) (by decide)
      · exact absurd (hstage.symm.trans h) (by decide)

theorem exists_signedBase {tx : MsgTx} (hm : ∀ signedTx, m.signedTx = some signedTx → signedTx.Whole ∧ Encodable btcEncode signedTx)
    (hfirst : m.signedTx = none → tx.Whole ∧ Encodable btcEncode tx) :
    JoinSession.signedBase tx m.signedTx = .ok (m.signedTx.getD tx) ∧ (m.signedTx.getD tx).Whole ∧
      Encodable btcEncode (m.signedTx.getD tx) := by
  rcases hsigned : m.signedTx with _ | signedTx
  · obtain ⟨hwhole, hencode⟩ := hfirst hsigned
    refine ⟨?_, hwhole, hencode⟩
    rw [JoinSession.signedBase, MsgTx.copy, if_neg]
    · rfl
    · rintro (hin | hout)
      · exact hwhole.1 hin
      · exact hwhole.2 hout
  · exact ⟨rfl, hm signedTx hsigned⟩

/-- Own entries that are not nil put no nil in. -/
theorem none_notMem_mergeOwn {α : Type} {own : List (Option α)} {indes : List ℕ} {signed signed' : List (Option α)}
    {all : Bool} (h : JoinSession.mergeOwn own indes signed = .ok (all, signed')) (hwhole : none ∉ signed) :
    none ∉ signed' := by
  intro hmem
  obtain ⟨i, hi⟩ := List.mem_iff_getElem?.mp hmem
  rcases (JoinSession.mergeOwn_eq_ok h).2.1 i with hsame | ⟨_, a, _, hset⟩
  · exact hwhole (List.mem_iff_getElem?.mpr ⟨i, hsame ▸ hi⟩)
  · rw [hset] at hi
    cases hi

/-- A signed transaction that fits. -/
theorem mergeSignedInput_turn {owner : ℕ → ℕ} (ch : Choices) {sid c : ℕ} {tx : MsgTx} {p : SessionParticipant}
    (hready : Ready btcEncode m) (hstage : m.progress = .signedTx) (hp : m.participants.lookup sid = some p)
    (hfirst : m.signedTx = none → tx.Whole ∧ Encodable btcEncode tx)
    (hcoverIn : Covers tx.txIn p.inputIndes) (hcoverOut : Covers tx.txOut p.outputIndes)
    (hltIn : ∀ i ∈ p.inputIndes, i < (m.signedTx.getD tx).txIn.length)
    (hltOut : ∀ i ∈ p.outputIndes, i < (m.signedTx.getD tx).txOut.length)
    (hothers : OthersWait owner m sid) (howner : owner c = sid) (hc : c ∉ m.replies.map Prod.fst) :
    ∃ m', m.mergeSignedInput ch sid tx c = .ok (none, m') ∧ Turn btcEncode m sid c m' ∧ Ready btcEncode m' := by
  obtain ⟨hsigned, hfresh⟩ := hready.signing hstage
  obtain ⟨hbase, hwhole, hencode⟩ := exists_signedBase hsigned hfirst
  obtain ⟨txIn, hin⟩ := JoinSession.exists_mergeOwn hcoverIn hltIn
  obtain ⟨txOut, hout⟩ := JoinSession.exists_mergeOwn hcoverOut hltOut
  have hparticipants := JoinSession.participants_withSignedTx sid tx c m
  have hnew : (MsgTx.mk (m.signedTx.getD tx).serType (m.signedTx.getD tx).version txIn txOut
      (m.signedTx.getD tx).lockTime (m.signedTx.getD tx).expiry).Whole :=
    ⟨none_notMem_mergeOwn hin hwhole.1, none_notMem_mergeOwn hout hwhole.2⟩
  have hnewEncode : Encodable btcEncode (MsgTx.mk (m.signedTx.getD tx).serType (m.signedTx.getD tx).version txIn
    txOut (m.signedTx.getD tx).lockTime (m.signedTx.getD tx).expiry) := encodable_congr hencode rfl
  have hfresh₁ : ∀ sid' q, (m.withSignedTx sid tx c).participants.lookup sid' = some q → q.sentPublished = false := by
    intro sid' q hq
    rw [hparticipants] at hq
    by_cases hsid : sid' = sid
    · rw [hsid, GoMap.lookup_modify_self, hp] at hq
      cases hq
      exact hfresh sid p hp
    · rw [GoMap.lookup_modify_ne hsid] at hq
      exact hfresh sid' q hq
  by_cases hall : (m.withSignedTx sid tx c).checkInputsSigned = true
  · have hwait : AllWait owner (chan .signedTx) { m.withSignedTx sid tx c with signedTx := some (MsgTx.mk
        (m.signedTx.getD tx).serType (m.signedTx.getD tx).version txIn txOut (m.signedTx.getD tx).lockTime
        (m.signedTx.getD tx).expiry) } :=
      hothers.allWait hstage howner hc hparticipants rfl (fun _ => rfl) (checkInputsSigned_iff.mp hall)
    obtain ⟨m₁, hsend, hm₁, hanswered⟩ := exists_sendSigned ch
      (ch.intn (GoMap.len (m.withSignedTx sid tx c).participants)) [271] hwait
      (hnewEncode.of_whole hnew)
    have hlookup : ∀ sid', ∃ publisher : SessionParticipant → Bool, m₁.participants.lookup sid' =
        ((m.withSignedTx sid tx c).participants.lookup sid').map fun p => { p with publisher := publisher p } := by
      intro sid'
      rw [hm₁]
      exact JoinSession.lookup_markPublisher ..
    refine ⟨_, JoinSession.mergeSignedInput_eq_ok.mpr (.completed hp hbase hin hout hall hsend),
      .complete hparticipants rfl ?_ ?_ ?_ (.inr ?_), ?_⟩
    · rw [hstage]
      exact fun _ => rfl
    · rw [hstage]
      exact checkInputsSigned_iff.mp hall
    · rw [hstage]
      exact hanswered
    · intro sid' q hq
      obtain ⟨publisher, hlookup⟩ := hlookup sid'
      replace hq := Option.map_eq_some_iff.mp (hlookup.symm.trans hq)
      obtain ⟨q, hq, rfl⟩ := hq
      exact hfresh₁ sid' q hq
    · refine ⟨fun h => (by cases h), fun h => (by cases h), fun _ sid' q hq => ?_⟩
      obtain ⟨publisher, hlookup⟩ := hlookup sid'
      replace hq := Option.map_eq_some_iff.mp (hlookup.symm.trans hq)
      obtain ⟨q, hq, rfl⟩ := hq
      exact checkInputsSigned_iff.mp hall sid' q hq
  · refine ⟨_, JoinSession.mergeSignedInput_eq_ok.mpr (.waiting hp hbase hin hout (Bool.eq_false_iff.mpr hall)),
      .waiting hparticipants rfl rfl ?_ ?_ ?_, ?_⟩
    · rw [hstage]
      exact fun _ => rfl
    · rw [hstage]
      exact fun _ => rfl
    · exact fun hcomplete => hall (checkInputsSigned_iff.mpr (hcomplete.submitted hstage))
    · refine ⟨fun h => ?_, fun _ => ⟨?_, hfresh₁⟩, fun h => ?_⟩
      · exact absurd (hstage.symm.trans h) (by decide)
      · intro tx' htx
        cases htx
        exact ⟨hnew, hnewEncode⟩
      · exact absurd (hstage.symm.trans h) (by decide)

/-- A publish result that fits. -/
theorem publishTxResult_turn {owner : ℕ → ℕ} (ch : Choices) {sid c : ℕ} {tx : Option MsgTx} {p : SessionParticipant}
    (hready : Ready btcEncode m) (hstage : m.progress = .publishTx) (hp : m.participants.lookup sid = some p)
    (hwhole : p.publisher = true → ∀ result, tx = some result → result.Whole)
    (hlast : (∀ sid' q, m.participants.lookup sid' = some q → sid' ≠ sid → q.sentPublished = true) →
      ∃ result, (if p.publisher then tx else m.publishedTx) = some result ∧ (btcEncode result).isSome = true)
    (hothers : OthersWait owner m sid) (howner : owner c = sid) (hc : c ∉ m.replies.map Prod.fst) :
    ∃ m', m.publishTxResult ch sid tx c = .ok (none, m') ∧ Turn btcEncode m sid c m' ∧ Ready btcEncode m' := by
  have hparticipants := JoinSession.participants_withPublished sid p.publisher tx c m
  have hsigned : ∀ sid' q, (m.withPublished sid p.publisher tx c).participants.lookup sid' = some q →
      q.signedTx.isSome = true := by
    intro sid' q hq
    rw [hparticipants] at hq
    by_cases hsid : sid' = sid
    · rw [hsid, GoMap.lookup_modify_self, hp] at hq
      cases hq
      exact hready.publishing hstage sid p hp
    · rw [GoMap.lookup_modify_ne hsid] at hq
      exact hready.publishing hstage sid' q hq
  by_cases hall : (m.withPublished sid p.publisher tx c).checkAllSentPublished = true
  · have hdone := checkAllSentPublished_iff.mp hall
    have hwait := hothers.allWait hstage howner hc hparticipants rfl (fun _ => rfl) hdone
    obtain ⟨result, hresult, hencode⟩ := hlast fun sid' q hq hsid => by
      refine hdone sid' q ?_
      rw [hparticipants, GoMap.lookup_modify_ne hsid, hq]
    obtain ⟨m₁, hsend, hm₁, hanswered⟩ := exists_sendPublished ch hwait hresult hencode
    have hprogress : m₁.progress = .publishTx := by
      rw [hm₁]
      exact hstage
    refine ⟨{ m₁ with finished := m₁.finished + 1 }, JoinSession.publishTxResult_eq_ok.mpr (.inr ⟨p, hp, rfl, hwhole, ?_⟩),
      .complete hparticipants rfl ?_ ?_ ?_ (.inl ⟨?_, ?_⟩), ?_⟩
    · rw [if_pos hall]
      exact ⟨m₁, hsend, rfl⟩
    · rw [hstage]
      exact fun _ => rfl
    · rw [hstage]
      exact hdone
    · rw [hstage]
      exact hanswered
    · exact hprogress.trans hstage.symm
    · intro sid'
      refine ⟨id, ?_, fun _ => ⟨rfl, rfl⟩⟩
      rw [hm₁, Option.map_id, id]
    · refine ⟨fun h => ?_, fun h => ?_, fun _ => ?_⟩
      · exact absurd (hprogress.symm.trans h) (by decide)
      · exact absurd (hprogress.symm.trans h) (by decide)
      · rw [hm₁]
        exact hsigned
  · refine ⟨m.withPublished sid p.publisher tx c, JoinSession.publishTxResult_eq_ok.mpr (.inr ⟨p, hp, rfl, hwhole, ?_⟩),
      .waiting hparticipants rfl rfl ?_ ?_ ?_, ?_⟩
    · rw [if_neg hall]
    · rw [hstage]
      exact fun _ => rfl
    · rw [hstage]
      exact fun _ => rfl
    · exact fun hcomplete => hall (checkAllSentPublished_iff.mpr (hcomplete.submitted hstage))
    · refine ⟨fun h => ?_, fun h => ?_, fun _ => hsigned⟩
      · exact absurd (hstage.symm.trans h) (by decide)
      · exact absurd (hstage.symm.trans h) (by decide)

/-! ### The invariant -/

variable {s s' : Service}

/-- The channels kept for a stage are those of its calls, and none of them is answered before the stage is complete. -/
structure Inv (btcEncode : MsgTx → Option Bytes) (s : Service) : Prop where
  running : s.halted = none
  once : (s.session.replies.map Prod.fst).Nodup
  known : ∀ c ∈ s.session.replies.map Prod.fst, ∃ call : Call, s.calls[c]? = some call ∧ call.taken = true
  fresh : ∀ (c : ℕ) (call : Call), s.calls[c]? = some call → call.taken = false → call.handler = .selecting
  kept : ∀ sid p, s.session.participants.lookup sid = some p → submitted s.session.progress p = true →
    ∃ (c : ℕ) (call : Call), chan s.session.progress p = some c ∧ s.calls[c]? = some call ∧ call.taken = true ∧
      call.request.sessionID = sid
  unanswered : StageComplete s.session ∨ ∀ sid p c, s.session.participants.lookup sid = some p →
    submitted s.session.progress p = true → chan s.session.progress p = some c → c ∉ s.session.replies.map Prod.fst
  answered : ∀ (c : ℕ) (call : Call), s.calls[c]? = some call → call.taken = true →
    (∃ res, (c, res) ∈ s.session.replies ∧ PassedOn btcEncode call res) ∨
      c ∉ s.session.replies.map Prod.fst ∧ s.Pending c call
  ready : Ready btcEncode s.session

theorem Inv.served (h : s.Inv btcEncode) : s.Served btcEncode := ⟨h.running, h.once, h.answered⟩

theorem inv_start (randomIndex : Bool) (waitingPars : List ℕ) :
    (start (newJoinSession randomIndex waitingPars)).Inv btcEncode where
  running := rfl
  once := List.nodup_nil
  known _ h := absurd h List.not_mem_nil
  fresh _ _ h := by cases h
  kept sid p hp hdone := by
    rw [JoinSession.lookup_newJoinSession hp] at hdone
    cases hdone
  unanswered := .inr fun _ _ _ _ _ _ => List.not_mem_nil
  answered _ _ h := by cases h
  ready :=
    { collecting := fun _ => by
        refine ⟨JoinSession.consistent_newJoinSession randomIndex waitingPars, rfl, fun _ h => (by cases h), ?_⟩
        intro sid p hp
        rw [JoinSession.lookup_newJoinSession hp]
        exact ⟨rfl, rfl⟩
      signing := fun h => by cases h
      publishing := fun h => by cases h }

/-- The participant that a channel is kept for. -/
def owner (s : Service) (c : ℕ) : ℕ := s.calls[c]?.elim 0 fun call => call.request.sessionID

theorem owner_of_call {c : ℕ} {call : Call} (h : s.calls[c]? = some call) : s.owner c = call.request.sessionID := by
  rw [owner, h]
  rfl

/-- A call that was not taken yet has not been answered. -/
theorem Inv.notMem_replies (h : s.Inv btcEncode) {c : ℕ} {call : Call} (hcall : s.calls[c]? = some call)
    (htaken : call.taken = false) : c ∉ s.session.replies.map Prod.fst := by
  intro hmem
  obtain ⟨call', hcall', htaken'⟩ := h.known c hmem
  rw [hcall] at hcall'
  cases hcall'
  rw [htaken] at htaken'
  cases htaken'

theorem Inv.othersWait (h : s.Inv btcEncode) {sid : ℕ} {p : SessionParticipant}
    (hp : s.session.participants.lookup sid = some p) (hnot : submitted s.session.progress p = false) :
    OthersWait s.owner s.session sid := by
  have hopen := h.unanswered.resolve_left fun hcomplete => by
    rw [hcomplete sid p hp] at hnot
    cases hnot
  intro sid' q _ hq hdone
  obtain ⟨c, call, hchan, hcall, _, hsid⟩ := h.kept sid' q hq hdone
  exact ⟨c, hchan, (owner_of_call hcall).trans hsid, hopen sid' q c hq hdone hchan⟩

theorem lookup_modified {participants : GoMap ℕ SessionParticipant} {f : SessionParticipant → SessionParticipant}
    {sid sid' : ℕ} {q : SessionParticipant} (h : (GoMap.modify sid f participants).lookup sid' = some q) :
    (sid' = sid ∧ ∃ p, participants.lookup sid = some p ∧ q = f p) ∨ sid' ≠ sid ∧ participants.lookup sid' = some q := by
  by_cases hsid : sid' = sid
  · rw [hsid, GoMap.lookup_modify_self, Option.map_eq_some_iff] at h
    obtain ⟨p, hp, rfl⟩ := h
    exact .inl ⟨hsid, p, hp, rfl⟩
  · rw [GoMap.lookup_modify_ne hsid] at h
    exact .inr ⟨hsid, h⟩

theorem of_getElem?_set {calls : List Call} {c c' : ℕ} {call call' : Call} (h : (calls.set c call)[c']? = some call') :
    c' = c ∧ call' = call ∨ c' ≠ c ∧ calls[c']? = some call' := by
  by_cases hne : c' = c
  · rw [hne, List.getElem?_set_self'] at h
    obtain ⟨_, _, heq⟩ := Option.map_eq_some_iff.mp h
    exact .inl ⟨hne, heq.symm⟩
  · rw [List.getElem?_set_ne (Ne.symm hne)] at h
    exact .inr ⟨hne, h⟩

/-! ### Updating the calls -/

/-- A call that was taken in stays so and asks the same, and a call that was not waits at its select. -/
structure Updated (calls calls' : List Call) : Prop where
  keeps : ∀ (c : ℕ) (call : Call), calls[c]? = some call → call.taken = true →
    ∃ call' : Call, calls'[c]? = some call' ∧ call'.taken = true ∧ call'.request = call.request
  fresh : ∀ (c : ℕ) (call : Call), calls'[c]? = some call → call.taken = false →
    calls[c]? = some call ∨ call.handler = .selecting

theorem updated_set {calls : List Call} {c : ℕ} {call call' : Call} (hcall : calls[c]? = some call)
    (htaken : call'.taken = true) (hrequest : call'.request = call.request) : Updated calls (calls.set c call') where
  keeps c' old hold htaken' := by
    by_cases hc : c' = c
    · subst hc
      rw [hcall] at hold
      cases hold
      exact ⟨call', List.getElem?_set_self (List.getElem?_eq_some_iff.mp hcall).1, htaken, hrequest⟩
    · exact ⟨old, by rw [List.getElem?_set_ne (Ne.symm hc), hold], htaken', rfl⟩
  fresh c' new hnew hfree := by
    rcases of_getElem?_set hnew with ⟨-, rfl⟩ | ⟨-, hold⟩
    · rw [htaken] at hfree
      cases hfree
    · exact .inl hold

theorem updated_append (calls : List Call) (request : Request) :
    Updated calls (calls ++ [⟨request, false, .selecting⟩]) where
  keeps c call hcall htaken :=
    ⟨call, by rw [List.getElem?_append_left (List.getElem?_eq_some_iff.mp hcall).1, hcall], htaken, rfl⟩
  fresh c call hcall _ := by
    rw [List.getElem?_append] at hcall
    split_ifs at hcall
    · exact .inl hcall
    · right
      rw [List.mem_singleton.mp (List.mem_of_getElem? hcall)]

section Updating
variable {calls' : List Call} (h : s.Inv btcEncode) (hupdated : Updated s.calls calls')
include h hupdated

theorem Inv.known_updated : ∀ c ∈ s.session.replies.map Prod.fst, ∃ call : Call, calls'[c]? = some call ∧ call.taken = true := by
  intro c hc
  obtain ⟨call, hcall, htaken⟩ := h.known c hc
  obtain ⟨call', hcall', htaken', -⟩ := hupdated.keeps c call hcall htaken
  exact ⟨call', hcall', htaken'⟩

theorem Inv.fresh_updated (c : ℕ) (call : Call) (hcall : calls'[c]? = some call) (htaken : call.taken = false) :
    call.handler = .selecting :=
  (hupdated.fresh c call hcall htaken).elim (fun hold => h.fresh c call hold htaken) id

theorem Inv.kept_updated (sid : ℕ) (p : SessionParticipant) (hp : s.session.participants.lookup sid = some p)
    (hdone : submitted s.session.progress p = true) : ∃ (c : ℕ) (call : Call), chan s.session.progress p = some c ∧
      calls'[c]? = some call ∧ call.taken = true ∧ call.request.sessionID = sid := by
  obtain ⟨c, call, hchan, hcall, htaken, hsid⟩ := h.kept sid p hp hdone
  obtain ⟨call', hcall', htaken', hrequest⟩ := hupdated.keeps c call hcall htaken
  exact ⟨c, call', hchan, hcall', htaken', hrequest ▸ hsid⟩

/-- A step that leaves the session as it is. -/
theorem Inv.withCalls (hanswered : ∀ (c : ℕ) (call : Call), calls'[c]? = some call → call.taken = true →
    (∃ res, (c, res) ∈ s.session.replies ∧ PassedOn btcEncode call res) ∨
      c ∉ s.session.replies.map Prod.fst ∧ s.Pending c call) : Inv btcEncode { s with calls := calls' } :=
  ⟨h.running, h.once, h.known_updated hupdated, h.fresh_updated hupdated, h.kept_updated hupdated, h.unanswered, hanswered, h.ready⟩

/-- Everybody's channel is that of one of its calls, also when one has just got another. -/
theorem Inv.kept_modify {c : ℕ} {request : Request} {handler : Handler} (hself : calls'[c]? = some ⟨request, true, handler⟩)
    {f : SessionParticipant → SessionParticipant} (hchan : ∀ p, chan s.session.progress (f p) = some c) {sid : ℕ}
    {q : SessionParticipant} (hq : (GoMap.modify request.sessionID f s.session.participants).lookup sid = some q)
    (hdone : submitted s.session.progress q = true) : ∃ (c' : ℕ) (call : Call), chan s.session.progress q = some c' ∧
      calls'[c']? = some call ∧ call.taken = true ∧ call.request.sessionID = sid := by
  rcases lookup_modified hq with ⟨rfl, r, -, rfl⟩ | ⟨-, hq⟩
  · exact ⟨c, _, hchan r, hself, rfl, rfl⟩
  · exact h.kept_updated hupdated sid q hq hdone

end Updating

/-! ### A call that is taken in -/

/-- Who has done its part is not the one that does it now. -/
theorem lookup_modify_of_submitted {stage : Progress} {participants : GoMap ℕ SessionParticipant}
    {f : SessionParticipant → SessionParticipant} {sid sid' : ℕ} {p q : SessionParticipant}
    (hp : participants.lookup sid = some p) (hnot : submitted stage p = false)
    (hq : participants.lookup sid' = some q) (hdone : submitted stage q = true) :
    (GoMap.modify sid f participants).lookup sid' = some q := by
  rw [GoMap.lookup_modify_ne, hq]
  intro heq
  rw [heq, hp] at hq
  cases hq
  rw [hnot] at hdone
  cases hdone

section Take
variable {c : ℕ} {request : Request} {handler : Handler} {p : SessionParticipant} {f : SessionParticipant → SessionParticipant}
  (h : s.Inv btcEncode) (hcall : s.calls[c]? = some ⟨request, false, handler⟩)
  (hp : s.session.participants.lookup request.sessionID = some p) (hnot : submitted s.session.progress p = false)
  (hready : Ready btcEncode m')
include h hcall hp hnot hready

/-- The call waits for the others. -/
theorem Inv.take_waiting (hparticipants : m'.participants = GoMap.modify request.sessionID f s.session.participants)
    (hreplies : m'.replies = s.session.replies) (hprogress : m'.progress = s.session.progress)
    (hdone : ∀ p, submitted s.session.progress (f p) = true) (hchan : ∀ p, chan s.session.progress (f p) = some c)
    (hincomplete : ¬ StageComplete m') (hstage : s.session.progress = request.stage) :
    Inv btcEncode { s with session := m', calls := s.calls.set c ⟨request, true, handler⟩ } := by
  have hc := h.notMem_replies hcall rfl
  have hselecting : handler = .selecting := h.fresh c _ hcall rfl
  have hself : (s.calls.set c ⟨request, true, handler⟩)[c]? = some ⟨request, true, handler⟩ :=
    List.getElem?_set_self (List.getElem?_eq_some_iff.mp hcall).1
  have hupdated : Updated s.calls (s.calls.set c ⟨request, true, handler⟩) := updated_set hcall rfl rfl
  have hopen := h.unanswered.resolve_left fun hcomplete => by
    rw [hcomplete _ p hp] at hnot
    cases hnot
  refine ⟨h.running, hreplies ▸ h.once, hreplies ▸ h.known_updated hupdated, h.fresh_updated hupdated, ?_, .inr ?_, ?_, hready⟩
  · intro sid q hq hdone'
    rw [hprogress] at hdone' ⊢
    exact h.kept_modify hupdated hself hchan (hparticipants ▸ hq) hdone'
  · intro sid q c' hq hdone' hchan'
    rw [hprogress] at hdone' hchan'
    rw [hreplies]
    rcases lookup_modified (hparticipants ▸ hq) with ⟨-, r, -, rfl⟩ | ⟨-, hq⟩
    · rw [hchan r] at hchan'
      cases hchan'
      exact hc
    · exact hopen sid q c' hq hdone' hchan'
  · intro c' call hcall' htaken
    rw [hreplies]
    rcases of_getElem?_set hcall' with ⟨rfl, rfl⟩ | ⟨-, hcall'⟩
    · refine .inr ⟨hc, hselecting, (hprogress.trans hstage).symm, hincomplete, ?_⟩
      refine ⟨f p, by rw [hparticipants, GoMap.lookup_modify_self, hp]; rfl, ?_, ?_⟩
      · rw [hprogress]
        exact hdone p
      · rw [hprogress]
        exact hchan p
    · rcases h.answered c' call hcall' htaken with hold | ⟨hnew, hsel, hst, -, q, hq, hdone', hchan'⟩
      · exact .inl hold
      · refine .inr ⟨hnew, hsel, hst.trans hprogress.symm, hincomplete, q, ?_, hprogress ▸ hdone', hprogress ▸ hchan'⟩
        rw [hparticipants]
        exact lookup_modify_of_submitted hp hnot hq hdone'

/-- The call is the last of its stage, and everybody is answered. -/
theorem Inv.take_complete {m₁ : JoinSession} (hparticipants : m₁.participants = GoMap.modify request.sessionID f s.session.participants)
    (hreplies : m₁.replies = s.session.replies) (hchan : ∀ p, chan s.session.progress (f p) = some c)
    (hdone : ∀ sid p, m₁.participants.lookup sid = some p → submitted s.session.progress p = true)
    (hall : AnsweredAll btcEncode (chan s.session.progress) m₁ m'.replies)
    (hnext : (m'.progress = s.session.progress ∧ ∀ sid, ∃ g : SessionParticipant → SessionParticipant,
        m'.participants.lookup sid = (m₁.participants.lookup sid).map g ∧ ∀ p,
          submitted s.session.progress (g p) = submitted s.session.progress p ∧
            chan s.session.progress (g p) = chan s.session.progress p) ∨
      ∀ sid p, m'.participants.lookup sid = some p → submitted m'.progress p = false) :
    Inv btcEncode { s with session := m', calls := s.calls.set c ⟨request, true, handler⟩ } := by
  have hselecting : handler = .selecting := h.fresh c _ hcall rfl
  have hself : (s.calls.set c ⟨request, true, handler⟩)[c]? = some ⟨request, true, handler⟩ :=
    List.getElem?_set_self (List.getElem?_eq_some_iff.mp hcall).1
  have hupdated : Updated s.calls (s.calls.set c ⟨request, true, handler⟩) := updated_set hcall rfl rfl
  obtain ⟨cs, rs, hnew, hlength, hnodup, hdisj, hencode, hmem⟩ := hall
  rw [hreplies] at hnew hdisj
  have hkeys : m'.replies.map Prod.fst = s.session.replies.map Prod.fst ++ cs := by
    rw [hnew, List.map_append, List.map_fst_zip hlength.le]
  have hchans : ∀ sid q, m₁.participants.lookup sid = some q → ∃ (c' : ℕ) (call : Call),
      chan s.session.progress q = some c' ∧ (s.calls.set c ⟨request, true, handler⟩)[c']? = some call ∧
        call.taken = true ∧ call.request.sessionID = sid := fun sid q hq =>
    h.kept_modify hupdated hself hchan (hparticipants ▸ hq) (hdone sid q hq)
  have hanswer : ∀ {c' call}, c' ∈ cs → call.handler = .selecting →
      ∃ res, (c', res) ∈ m'.replies ∧ PassedOn btcEncode call res := by
    intro c' call hc' hsel
    rw [← List.map_fst_zip hlength.le] at hc'
    obtain ⟨⟨_, res⟩, hres, rfl⟩ := List.mem_map.mp hc'
    obtain ⟨resp, hresp⟩ := Option.isSome_iff_exists.mp (hencode res (List.of_mem_zip hres).2)
    exact ⟨res, hnew ▸ List.mem_append_right _ hres, resp, hresp, .inr hsel⟩
  refine ⟨h.running, ?_, ?_, h.fresh_updated hupdated, ?_, ?_, ?_, hready⟩
  · rw [hkeys]
    exact h.once.append hnodup hdisj
  · intro c' hc'
    rw [hkeys] at hc'
    rcases List.mem_append.mp hc' with hold | hin
    · exact h.known_updated hupdated c' hold
    · obtain ⟨sid, q, hq, hchan'⟩ := (hmem c').mp hin
      obtain ⟨c'', call, hchan'', hcall', htaken, -⟩ := hchans sid q hq
      rw [hchan'] at hchan''
      cases hchan''
      exact ⟨call, hcall', htaken⟩
  · intro sid q hq hdone'
    rcases hnext with ⟨hprogress, hlookup⟩ | hnone
    · obtain ⟨g, hg, hsame⟩ := hlookup sid
      obtain ⟨r, hr, rfl⟩ := Option.map_eq_some_iff.mp (hg.symm.trans hq)
      rw [hprogress, (hsame r).2]
      exact hchans sid r hr
    · rw [hnone sid q hq] at hdone'
      cases hdone'
  · rcases hnext with ⟨hprogress, hlookup⟩ | hnone
    · left
      intro sid q hq
      obtain ⟨g, hg, hsame⟩ := hlookup sid
      obtain ⟨r, hr, rfl⟩ := Option.map_eq_some_iff.mp (hg.symm.trans hq)
      rw [hprogress, (hsame r).1]
      exact hdone sid r hr
    · right
      intro sid q c' hq hdone'
      rw [hnone sid q hq] at hdone'
      cases hdone'
  · intro c' call hcall' htaken
    left
    rcases of_getElem?_set hcall' with ⟨rfl, rfl⟩ | ⟨-, hcall'⟩
    · refine hanswer ((hmem c').mpr ⟨request.sessionID, f p, ?_, hchan p⟩) hselecting
      rw [hparticipants, GoMap.lookup_modify_self, hp]
      rfl
    · rcases h.answered c' call hcall' htaken with ⟨res, hres, hpassed⟩ | ⟨-, hsel, -, -, q, hq, hdone', hchan'⟩
      · exact ⟨res, hnew ▸ List.mem_append_left _ hres, hpassed⟩
      · refine hanswer ((hmem c').mpr ⟨call.request.sessionID, q, ?_, hchan'⟩) hsel
        rw [hparticipants]
        exact lookup_modify_of_submitted hp hnot hq hdone'

/-- A call that is taken in and fits. -/
theorem Inv.take (hstage : s.session.progress = request.stage) (hturn : Turn btcEncode s.session request.sessionID c m') :
    Inv btcEncode { s with session := m', calls := s.calls.set c ⟨request, true, handler⟩ } := by
  cases hturn with
  | waiting hparticipants hreplies hprogress hdone hchan hincomplete =>
    exact h.take_waiting hcall hp hnot hready hparticipants hreplies hprogress hdone hchan hincomplete hstage
  | complete hparticipants hreplies hchan hdone hall hnext =>
    exact h.take_complete hcall hp hnot hready hparticipants hreplies hchan hdone hall hnext

end Take

/-! ### The other steps -/

theorem lookup_of_timeout {sid : ℕ} {p : SessionParticipant} (h : (m.timeout ch).participants.lookup sid = some p) :
    m.participants.lookup sid = some p := by
  rcases JoinSession.lookup_timeout_cases ch m sid with hsame | ⟨hgone, _⟩
  · rw [← hsame, h]
  · rw [hgone] at h
    cases h

/-- Who misses a stage owns nothing yet, or all of the stages before it are over. -/
theorem Ready.timeout (h : Ready btcEncode m) : Ready btcEncode (m.timeout ch) where
  collecting hstage := by
    obtain ⟨hm, hsigned, hmerged, hfresh⟩ := h.collecting hstage
    refine ⟨hm.leave (fun sid => ?_) rfl rfl, hsigned, hmerged, fun sid p hp => hfresh sid p (lookup_of_timeout hp)⟩
    rcases JoinSession.lookup_timeout_cases ch m sid with hsame | ⟨hgone, p, hp, hmissed⟩
    · exact .inl hsame
    · have hnone : p.splitTx = none := by
        rw [show m.progress = .rawTx from hstage] at hmissed
        exact of_decide_eq_true hmissed
      exact .inr ⟨hgone, places_eq_nil hm.inputs hp hnone, places_eq_nil hm.outputs hp hnone⟩
  signing hstage := ⟨(h.signing hstage).1, fun sid p hp => (h.signing hstage).2 sid p (lookup_of_timeout hp)⟩
  publishing hstage := fun sid p hp => h.publishing hstage sid p (lookup_of_timeout hp)

/-- Who has done its part is not missed. -/
theorem Ready.not_missed (h : Ready btcEncode m) {sid : ℕ} {p : SessionParticipant}
    (hp : m.participants.lookup sid = some p) (hdone : submitted m.progress p = true) :
    JoinSession.missed m.progress p = false := by
  rcases hstage : m.progress with _ | _ | _
  · rw [hstage] at hdone
    exact decide_eq_false (Option.isSome_iff_ne_none.mp hdone)
  · rw [hstage] at hdone
    exact decide_eq_false (Option.isSome_iff_ne_none.mp hdone)
  · exact decide_eq_false (Option.isSome_iff_ne_none.mp (h.publishing hstage sid p hp))

/-- A timeout that misses nobody, or everybody. -/
theorem Inv.timeout (h : s.Inv btcEncode)
    (hok : (∀ sid p, s.session.participants.lookup sid = some p → JoinSession.missed s.session.progress p = false) ∨
      ∀ sid p, s.session.participants.lookup sid = some p → JoinSession.missed s.session.progress p = true) :
    Inv btcEncode { s with session := s.session.timeout ch } := by
  have hkept : ∀ sid p, (s.session.timeout ch).participants.lookup sid = some p →
      submitted s.session.progress p = true → ∃ (c : ℕ) (call : Call), chan s.session.progress p = some c ∧
        s.calls[c]? = some call ∧ call.taken = true ∧ call.request.sessionID = sid :=
    fun sid p hp => h.kept sid p (lookup_of_timeout hp)
  rcases hok with hnobody | hall
  · have hsame : ∀ sid, (s.session.timeout ch).participants.lookup sid = s.session.participants.lookup sid := by
      intro sid
      refine (JoinSession.lookup_timeout_cases ch s.session sid).resolve_right ?_
      intro ⟨_, p, hp, hmissed⟩
      rw [hnobody sid p hp] at hmissed
      cases hmissed
    have hcomplete : StageComplete (s.session.timeout ch) ↔ StageComplete s.session := by
      refine forall_congr' fun sid => ?_
      rw [hsame]
      rfl
    refine ⟨h.running, h.once, h.known, h.fresh, hkept, ?_, ?_, h.ready.timeout⟩
    · rw [hcomplete]
      refine h.unanswered.imp_right fun hopen sid p c hp => hopen sid p c (lookup_of_timeout hp)
    · intro c call hcall htaken
      refine (h.answered c call hcall htaken).imp_right fun ⟨hnew, hsel, hstage, hopen, p, hp, hdone, hchan⟩ => ?_
      exact ⟨hnew, hsel, hstage, fun hc => hopen (hcomplete.mp hc), p, (hsame _).trans hp, hdone, hchan⟩
  · -- nobody has done its part, so nobody waits
    refine ⟨h.running, h.once, h.known, h.fresh, hkept, .inl ?_, ?_, h.ready.timeout⟩
    · intro sid p hp
      rw [JoinSession.lookup_timeout, Option.filter_eq_some_iff] at hp
      rw [hall sid p hp.1] at hp
      exact absurd hp.2 (by decide)
    · intro c call hcall htaken
      left
      refine (h.answered c call hcall htaken).resolve_right fun ⟨_, _, _, _, p, hp, hdone, _⟩ => ?_
      have hmissed := hall _ p hp
      rw [h.ready.not_missed hp hdone] at hmissed
      cases hmissed

/-- A client calls. -/
theorem Inv.call (h : s.Inv btcEncode) (request : Request) :
    Inv btcEncode { s with calls := s.calls ++ [⟨request, false, .selecting⟩] } := by
  refine h.withCalls (updated_append s.calls request) fun c call hcall htaken => ?_
  rw [List.getElem?_append] at hcall
  split_ifs at hcall
  · exact h.answered c call hcall htaken
  · rw [List.mem_singleton.mp (List.mem_of_getElem? hcall)] at htaken
    cases htaken

/-- A handler gets what its goroutine made of the reply. -/
theorem Inv.handOff (h : s.Inv btcEncode) {c : ℕ} {request : Request} {resp : RpcResponse}
    (hcall : s.calls[c]? = some ⟨request, true, .selecting⟩) (hresp : (s.reply c).bind (encode btcEncode) = some resp) :
    Inv btcEncode { s with calls := s.calls.set c ⟨request, true, .returned resp⟩ } := by
  obtain ⟨res, hres, hencode⟩ := Option.bind_eq_some_iff.mp hresp
  obtain ⟨e, he, rfl⟩ := Option.map_eq_some_iff.mp hres
  have hmem := List.mem_of_find?_eq_some he
  have hkey : e.1 = c := by simpa using List.find?_some he
  refine h.withCalls (updated_set hcall rfl rfl) fun c' call hcall' htaken => ?_
  rcases of_getElem?_set hcall' with ⟨rfl, rfl⟩ | ⟨-, hcall'⟩
  · exact .inl ⟨e.2, hkey ▸ hmem, resp, hencode, .inl rfl⟩
  · exact h.answered c' call hcall' htaken

/-- `Run` gets through a call that fits. -/
theorem Fits.turn (ch : Choices) {c : ℕ} {request : Request} {handler : Handler} (hfits : Fits btcEncode s.session request)
    (h : s.Inv btcEncode) (hcall : s.calls[c]? = some ⟨request, false, handler⟩) :
    ∃ m', JoinSession.handle ch s.session (request.event c) = .ok m' ∧
      Turn btcEncode s.session request.sessionID c m' ∧ Ready btcEncode m' := by
  obtain ⟨hstage, p, hp, hnot, hrest⟩ := hfits
  have hothers := h.othersWait hp (hstage ▸ hnot)
  have howner := owner_of_call hcall
  have hc := h.notMem_replies hcall rfl
  cases request with
  | submitSplitTx sessionID splitTx =>
    have hnone : p.splitTx = none := Option.isSome_eq_false_iff.mp hnot |> Option.isNone_iff_eq_none.mp
    obtain ⟨m', hm', hturn⟩ :=
      addParticipantInput_turn ch h.ready hstage hp hnone hrest.1 hrest.2 hothers howner hc
    exact ⟨m', JoinSession.inStage_eq_ok.mpr (.inr ⟨hstage, .inr hm'⟩), hturn⟩
  | submitSignedTransaction sessionID tx =>
    obtain ⟨hfirst, hcoverIn, hcoverOut, hltIn, hltOut⟩ := hrest
    obtain ⟨m', hm', hturn⟩ := mergeSignedInput_turn ch h.ready hstage hp hfirst hcoverIn hcoverOut hltIn hltOut
      hothers howner hc
    exact ⟨m', JoinSession.inStage_eq_ok.mpr (.inr ⟨hstage, .inr hm'⟩), hturn⟩
  | publishResult sessionID tx =>
    obtain ⟨m', hm', hturn⟩ := publishTxResult_turn ch h.ready hstage hp hrest.1 hrest.2 hothers howner hc
    exact ⟨m', JoinSession.inStage_eq_ok.mpr (.inr ⟨hstage, .inr hm'⟩), hturn⟩

/-! ### Runs -/

theorem Inv.alive (h : s.Inv btcEncode) : ¬ s.dead = true := by
  rw [dead, h.running]
  decide

theorem inv_step {ev : Choices × Event} (h : s.Inv btcEncode) (hok : s.Proper btcEncode ev)
    (hstep : s.step btcEncode ev = some s') : s'.Inv btcEncode := by
  obtain ⟨ch, ev⟩ := ev
  rw [step, if_neg h.alive] at hstep
  cases ev with
  | call request =>
    cases hstep
    exact h.call request
  | take c =>
    rcases hcall : s.calls[c]? with _ | ⟨request, _ | _, handler⟩
    · simp only [h.running, hcall, reduceCtorEq] at hstep
    · have hfits := hok _ hcall
      obtain ⟨m', hm', hturn, hready⟩ := hfits.turn ch h hcall
      obtain ⟨hstage, p, hp, hnot, _⟩ := hfits
      simp only [h.running, hcall, hm', Option.some.injEq] at hstep
      subst hstep
      have htaken := h.take hcall hp (hstage ▸ hnot) hready hstage hturn
      rwa [h.running] at htaken
    · simp only [h.running, hcall, reduceCtorEq] at hstep
  | timeout =>
    dsimp only at hstep
    split_ifs at hstep
    cases hstep
    exact h.timeout hok
  | cancel c => exact absurd hok id
  | handOff c =>
    rcases hcall : s.calls[c]? with _ | ⟨request, _ | _, _ | _ | _⟩
    all_goals rcases hresp : (s.reply c).bind (encode btcEncode) with _ | resp
    all_goals simp only [hcall, hresp, reduceCtorEq, Option.some.injEq] at hstep
    subst hstep
    exact h.handOff hcall hresp

/-- **One reply a request, passed on, as long as every call is one the session can serve.** -/
theorem one_reply_per_request {randomIndex : Bool} {waitingPars : List ℕ}
    (h : RunsTo (step btcEncode) (Proper btcEncode) (start (newJoinSession randomIndex waitingPars)) s) :
    s.Served btcEncode :=
  (h.invariant (inv_start randomIndex waitingPars) fun _ _ _ => inv_step).served

/-! ### Calls in their stage, and others -/

/-- A number in `k` bytes, least significant first. -/
def littleEndian (k : ℕ) (n : ℤ) : Bytes := (List.range k).map fun i => UInt8.ofNat (n / 256 ^ i % 256).toNat

/-- `WriteVarInt`. -/
def varInt (n : ℕ) : Bytes :=
  if n < 0xfd then littleEndian 1 n
  else if n < 2 ^ 16 then 0xfd :: littleEndian 2 n
  else if n < 2 ^ 32 then 0xfe :: littleEndian 4 n
  else 0xff :: littleEndian 8 n

def varBytes (b : Bytes) : Bytes := varInt b.length ++ b

/-- Whether `BtcEncode` gets through: full serialization and no nil entry. -/
def encodable (tx : MsgTx) : Bool := tx.serType == 0 && tx.txIn.all Option.isSome && tx.txOut.all Option.isSome

theorem all_isSome {α : Type} {entries : List (Option α)} : entries.all Option.isSome = true ↔ none ∉ entries := by
  rw [List.all_eq_true]
  constructor
  · exact fun h hnone => Bool.false_ne_true (h none hnone)
  · exact fun h entry hentry => Option.isSome_iff_ne_none.mpr fun hnone => h (hnone ▸ hentry)

/-- `BtcEncode` of a transaction with its witness, the only kind here. -/
def encodeFull (tx : MsgTx) : Option Bytes :=
  if !encodable tx then none
  else
    let txIn := tx.txIn.reduceOption
    let txOut := tx.txOut.reduceOption
    some (littleEndian 4 tx.version ++
      varInt txIn.length ++ (txIn.flatMap fun i => i.previousOutPoint.hash ++ littleEndian 4 i.previousOutPoint.index ++
        littleEndian 1 i.previousOutPoint.tree ++ littleEndian 4 i.sequence) ++
      varInt txOut.length ++ (txOut.flatMap fun o => littleEndian 8 o.value ++ littleEndian 2 o.version ++
        varBytes o.pkScript) ++
      littleEndian 4 tx.lockTime ++ littleEndian 4 tx.expiry ++
      varInt txIn.length ++ txIn.flatMap fun i => littleEndian 8 i.valueIn ++ littleEndian 4 i.blockHeight ++
        littleEndian 4 i.blockIndex ++ varBytes i.signatureScript)

theorem encodable_encodeFull {tx : MsgTx} (h : tx.serType = 0) : Encodable encodeFull tx := by
  intro txIn txOut hin hout
  have hencodable : encodable { tx with txIn := txIn, txOut := txOut } = true := by
    simp only [encodable, h, all_isSome.mpr hin, all_isSome.mpr hout, BEq.rfl, Bool.and_self]
  rw [encodeFull, hencodable]
  rfl

/-- The calls are for split transactions that the session can merge. -/
def fitsSplit (s : Service) (ev : Choices × Event) : Bool :=
  match ev.2 with
  | .call _ => true
  | .take c =>
    match s.calls[c]? with
    | some ⟨.submitSplitTx sessionID splitTx, _, _⟩ =>
      s.session.progress = .rawTx && encodable splitTx &&
        (s.session.participants.lookup sessionID).any fun p => !submitted .rawTx p
    | _ => false
  | .handOff _ => true
  | _ => false

theorem proper_of_fitsSplit {ev : Choices × Event} (h : s.fitsSplit ev = true) : s.Proper encodeFull ev := by
  obtain ⟨ch, ev⟩ := ev
  cases ev with
  | call _ => exact trivial
  | take c =>
    intro call hcall
    obtain ⟨_ | _ | _, taken, handler⟩ := call
    · simp only [fitsSplit, hcall, encodable, Bool.and_eq_true, decide_eq_true_eq, beq_iff_eq, all_isSome,
        Option.any_eq_true, Bool.not_eq_true'] at h
      obtain ⟨⟨hstage, ⟨hser, hin⟩, hout⟩, p, hp, hnot⟩ := h
      exact ⟨hstage, p, hp, hnot, ⟨hin, hout⟩, fun _ => encodable_encodeFull hser⟩
    · simp only [fitsSplit, hcall, reduceCtorEq] at h
    · simp only [fitsSplit, hcall, reduceCtorEq] at h
  | timeout => cases h
  | cancel _ => cases h
  | handOff _ => exact trivial

/-- Two participants submit and are answered. -/
def twoCalls : List (Choices × Event) :=
  [(.plain, .call (.submitSplitTx 1 (JoinSession.smallTx 1))), (.plain, .take 0),
    (.plain, .call (.submitSplitTx 2 (JoinSession.smallTx 2))), (.plain, .take 1), (.plain, .handOff 1),
    (.plain, .handOff 0)]

theorem one_reply_per_request_two : ∃ s : Service, s.calls.length = 2 ∧
    (s.calls.all fun call => call.handler ≠ .selecting) = true ∧ s.Served encodeFull := by
  have hreached : (after (fun s ev => if fitsSplit s ev then step encodeFull s ev else none)
      (start (newJoinSession true [1, 2])) twoCalls).calls.length = 2 := by decide +kernel
  exact ⟨_, hreached, by decide +kernel,
    one_reply_per_request (.of_checked fitsSplit (fun _ _ => proper_of_fitsSplit) (foldlM_eq_after (by decide +kernel)))⟩

section Served
variable (h : s.Served btcEncode) {c : ℕ} {call : Call}
include h

/-- A refusal is not passed on. -/
theorem Served.not_refused (hcall : s.calls[c]? = some call) (htaken : call.taken = true) (err : Err) :
    (c, Response.err err) ∉ s.session.replies := by
  intro hmem
  rcases h.answered c call hcall htaken with ⟨res, hres, resp, hencode, _⟩ | ⟨hnew, _⟩
  · have heq : (c, res) = (c, .err err) := List.inj_on_of_nodup_map h.once hres hmem rfl
    cases heq
    cases hencode
  · exact hnew (List.mem_map_of_mem hmem)

/-- A handler that was cancelled gets nobody's result. -/
theorem Served.not_cancelled (hcall : s.calls[c]? = some call) (htaken : call.taken = true) :
    call.handler ≠ .sendingDone := by
  intro hdone
  rcases h.answered c call hcall htaken with ⟨_, _, _, _, hreturned | hselecting⟩ | ⟨_, hselecting, _⟩
  · rw [hdone] at hreturned
    cases hreturned
  · rw [hdone] at hselecting
    cases hselecting
  · rw [hdone] at hselecting
    cases hselecting

/-- Whoever waits is the one whose channel is kept. -/
theorem Served.chan_kept (hcall : s.calls[c]? = some call) (htaken : call.taken = true)
    (hnew : c ∉ s.session.replies.map Prod.fst) :
    (s.session.participants.lookup call.request.sessionID).bind (chan s.session.progress) = some c := by
  rcases h.answered c call hcall htaken with ⟨res, hres, _⟩ | ⟨_, _, _, _, p, hp, _, hchan⟩
  · exact absurd (List.mem_map_of_mem hres) hnew
  · rw [hp]
    exact hchan

end Served

/-- Calls of participants 1 and 2 that lead where not everybody is served. -/
def LeavesUnserved (evs : List Event) : Prop :=
  ∃ s : Service, (evs.map (Choices.plain, ·)).foldlM (step encodeFull) (start (newJoinSession false [1, 2])) = some s ∧
    ¬ s.Served encodeFull

/-- A call before its stage; a call twice; a context that is done; a call again after
the stage was answered, which has `SendTxData` send on a channel nobody reads. -/
theorem left_unanswered :
    LeavesUnserved [.call (.submitSignedTransaction 1 (JoinSession.smallTx 1)), .take 0] ∧
    LeavesUnserved [.call (.submitSplitTx 1 (JoinSession.smallTx 1)), .take 0,
      .call (.submitSplitTx 1 (JoinSession.smallTx 1)), .take 1] ∧
    LeavesUnserved [.call (.submitSplitTx 1 (JoinSession.smallTx 1)), .take 0, .cancel 0] ∧
    LeavesUnserved [.call (.submitSplitTx 1 (JoinSession.smallTx 1)), .take 0,
      .call (.submitSplitTx 2 (JoinSession.smallTx 2)), .take 1,
      .call (.submitSplitTx 1 (JoinSession.smallTx 1)), .take 2] := by
  refine ⟨?_, ?_, ?_, ?_⟩
  · refine ⟨_, foldlM_eq_after (by decide +kernel), fun h => ?_⟩
    exact h.not_refused (c := 0) rfl rfl .invalidRequest (by decide +kernel)
  · refine ⟨_, foldlM_eq_after (by decide +kernel), fun h => ?_⟩
    exact absurd (h.chan_kept (c := 0) rfl rfl (by decide +kernel)) (by decide +kernel)
  · refine ⟨_, foldlM_eq_after (by decide +kernel), fun h => ?_⟩
    exact h.not_cancelled (c := 0) rfl rfl rfl
  · refine ⟨_, foldlM_eq_after (by decide +kernel), fun h => ?_⟩
    exact absurd h.running (by decide +kernel)

end Service

end Dcrtxmatcher.Matcher
