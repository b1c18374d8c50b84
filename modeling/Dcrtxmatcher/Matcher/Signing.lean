import Dcrtxmatcher.Matcher.Signatures

/-! Where the inputs of the signed transaction come from.

The signing stage ends when every participant that is still there has signed. The
inputs of those that left stay in the transaction, so a departure is harmless only
when the participant's inputs have been taken from its own submission. Somebody that was
refused counts as having signed, and stays harmless under the same condition only: the
others may be sent the transaction before the loop is stuck at it. -/
namespace Dcrtxmatcher.Matcher
open Lib
open Coinjoin (TxIn TxOut)

/-- A session with its history: the participants that have left, and the signed
transactions that participants handed in while signing. -/
structure Tracked where
  session : JoinSession
  left : ℕ → Option SessionParticipant
  signed : List (ℕ × MsgTx)

namespace Tracked
variable {ch : Choices} {t t' : Tracked}

def start (m : JoinSession) : Tracked where
  session := m
  left _ := none
  signed := []

/-- Everybody that is or was a participant. -/
def roster (t : Tracked) (sid : ℕ) : Option SessionParticipant := (t.session.participants.lookup sid).or (t.left sid)

/-- The `InputIndes` of a participant, present or gone. -/
def indes (t : Tracked) (sid : ℕ) : List ℕ := (t.roster sid).elim [] SessionParticipant.inputIndes

/-- The submission that an event brings. -/
def handedIn (m : JoinSession) : JoinSession.Event → List (ℕ × MsgTx)
  | .submitSignedTx sessionID tx _ =>
    if m.progress = .signedTx ∧ sessionID ∈ m.participants.keys then [(sessionID, tx)] else []
  | _ => []

/-- The history goes on with the session behind a turn. -/
def advance (t : Tracked) (ev : Choices × JoinSession.Event) (m : JoinSession) : Tracked where
  session := m
  left sid := if (m.participants.lookup sid).isSome then none else t.roster sid
  signed := t.signed ++ handedIn t.session ev.2

def step (t : Tracked) (ev : Choices × JoinSession.Event) : Option Tracked := (t.session.step ev).map (t.advance ev)

/-- One turn, also when `Run` does not get through. -/
def attempt (t : Tracked) (ev : Choices × JoinSession.Event) : Option Tracked := (t.session.attempt ev).map (t.advance ev)

/-- An input of the signed transaction is the one that a participant has signed. -/
def Taken (t : Tracked) (sid i : ℕ) : Prop :=
  ∃ signedTx tx a, t.session.signedTx = some signedTx ∧ (sid, tx) ∈ t.signed ∧ tx.txIn[i]? = some (some a) ∧
    signedTx.txIn[i]? = some (some a)

/-- Every input of the signed transaction has an owner and is taken from a signed submission of the owner. -/
def FullySigned (t : Tracked) : Prop :=
  ∃ signedTx, t.session.signedTx = some signedTx ∧
    ∀ i < signedTx.txIn.length, ∃ sid, i ∈ t.indes sid ∧ t.Taken sid i

/-- The participant's last signed transaction was answered, which before the publishing stage is an error. -/
def Refused (m : JoinSession) (p : SessionParticipant) : Prop :=
  ∃ c, p.chanSubmitSignedTxRes = some c ∧ c ∈ m.replies.map Prod.fst

/-- Before the publishing stage a participant leaves only with all its inputs taken,
no owner of inputs submits a split transaction again, the first signed transaction has
no more inputs than the merged one, and when the last one signs whoever was refused
with its last signed transaction and is still there has all its inputs taken. -/
def Orderly (t : Tracked) (ev : Choices × JoinSession.Event) : Prop :=
  match ev.2 with
  | .clientTimeout => t.session.progress ≠ .publishTx → ∀ sid p, t.session.participants.lookup sid = some p →
      JoinSession.missed t.session.progress p = true → ∀ i ∈ p.inputIndes, t.Taken sid i
  | .removeSessionID sessionID => t.session.progress ≠ .publishTx → ∀ p,
      t.session.participants.lookup sessionID = some p → ∀ i ∈ p.inputIndes, t.Taken sessionID i
  | .submitSplitTx sessionID _ _ => t.session.progress = .rawTx → ∀ p,
      t.session.participants.lookup sessionID = some p → p.inputIndes = []
  | .submitSignedTx sessionID tx resp => t.session.progress = .signedTx → sessionID ∈ t.session.participants.keys →
      (t.session.signedTx = none → tx.txIn.length ≤ (t.session.mergedEntries inputs).length) ∧
        ((t.session.withSignedTx sessionID tx resp).checkInputsSigned = true → ∀ sid p, sid ≠ sessionID →
          t.session.participants.lookup sid = some p → Refused t.session p → ∀ i ∈ p.inputIndes, t.Taken sid i)
  | .publishResult _ _ _ => True

/-! ### The roster -/

theorem step_eq_some {ev : JoinSession.Event} (h : t.step (ch, ev) = some t') :
    JoinSession.handle ch t.session ev = .ok t'.session ∧
      (∀ sid, t'.left sid = if (t'.session.participants.lookup sid).isSome then none else t.roster sid) ∧
      t'.signed = t.signed ++ handedIn t.session ev := by
  obtain ⟨m, hstep, rfl⟩ := Option.map_eq_some_iff.mp h
  exact ⟨JoinSession.step_eq_some hstep, fun _ => rfl, rfl⟩

theorem indes_of_lookup {sid : ℕ} {p : SessionParticipant} (h : t.session.participants.lookup sid = some p) :
    t.indes sid = p.inputIndes := by
  rw [indes, roster, h]
  rfl

/-- Departures leave the roster as it is. -/
theorem indes_of_departure
    (hleft : ∀ sid, t'.left sid = if (t'.session.participants.lookup sid).isSome then none else t.roster sid)
    (hlookup : ∀ sid, t'.session.participants.lookup sid = t.session.participants.lookup sid ∨
      t'.session.participants.lookup sid = none) : t'.indes = t.indes := by
  funext sid
  have hroster : t'.roster sid = t.roster sid := by
    rw [roster, hleft]
    rcases hp : t'.session.participants.lookup sid with _ | p
    · rfl
    · rcases hlookup sid with hsame | hgone
      · rw [roster, ← hsame, hp]
        rfl
      · rw [hgone] at hp
        cases hp
  rw [indes, indes, hroster]

/-- So does what changes no indices. -/
theorem indes_of_map
    (hleft : ∀ sid, t'.left sid = if (t'.session.participants.lookup sid).isSome then none else t.roster sid)
    (hlookup : ∀ sid, ∃ f : SessionParticipant → SessionParticipant,
      t'.session.participants.lookup sid = (t.session.participants.lookup sid).map f ∧
        ∀ p, (f p).inputIndes = p.inputIndes) : t'.indes = t.indes := by
  funext sid
  obtain ⟨f, hf, hsame⟩ := hlookup sid
  rw [indes, roster, hleft, hf]
  rcases hp : t.session.participants.lookup sid with _ | p
  · rw [indes]
    rfl
  · rw [indes_of_lookup hp]
    exact hsame p

theorem Taken.of_eq {sid i : ℕ} (h : t.Taken sid i) (hsigned : t'.session.signedTx = t.session.signedTx)
    (hsub : t.signed ⊆ t'.signed) : t'.Taken sid i := by
  obtain ⟨signedTx, tx, a, hs, hmem, hown, hentry⟩ := h
  exact ⟨signedTx, tx, a, hsigned.trans hs, hsub hmem, hown, hentry⟩

theorem FullySigned.of_eq (h : t.FullySigned) (hsigned : t'.session.signedTx = t.session.signedTx)
    (hsub : t.signed ⊆ t'.signed) (hindes : t'.indes = t.indes) : t'.FullySigned := by
  obtain ⟨signedTx, hs, hall⟩ := h
  refine ⟨signedTx, hsigned.trans hs, fun i hi => ?_⟩
  obtain ⟨sid, hmem, htaken⟩ := hall i hi
  exact ⟨sid, hindes ▸ hmem, htaken.of_eq hsigned hsub⟩

/-! ### The invariant -/

/-- While split transactions are collected: those present share out the inputs, and
those that left have none. -/
structure Collecting (t : Tracked) : Prop where
  owned : t.session.Owned inputs
  unsigned : t.session.signedTx = none
  nobody : ∀ sid p, t.session.participants.lookup sid = some p → p.signedTx = none
  left : ∀ sid p, t.left sid = some p → p.inputIndes = []

/-- While signing: an input belongs to one participant, present or gone, and those
gone have theirs taken. Somebody present that has handed in a transaction has its
inputs taken too, or else was answered with an error. -/
structure Signing (t : Tracked) : Prop where
  disjoint : ∀ sid sid', sid ≠ sid' → (t.indes sid).Disjoint (t.indes sid')
  cover : ∀ i < (t.session.mergedEntries inputs).length, ∃ sid, i ∈ t.indes sid
  short : ∀ signedTx, t.session.signedTx = some signedTx →
    signedTx.txIn.length ≤ (t.session.mergedEntries inputs).length
  present : ∀ sid p, t.session.participants.lookup sid = some p → p.signedTx.isSome = true →
    (∃ c, p.chanSubmitSignedTxRes = some c ∧ c ∈ t.session.replies.map Prod.fst) ∨ ∀ i ∈ p.inputIndes, t.Taken sid i
  gone : ∀ sid p, t.left sid = some p → ∀ i ∈ p.inputIndes, t.Taken sid i

structure Inv (t : Tracked) : Prop where
  collecting : t.session.progress = .rawTx → t.Collecting
  signing : t.session.progress = .signedTx → t.Signing
  publishing : t.session.progress = .publishTx → t.FullySigned

theorem inv_start (randomIndex : Bool) (waitingPars : List ℕ) : (start (newJoinSession randomIndex waitingPars)).Inv where
  collecting _ :=
    { owned := JoinSession.owned_newJoinSession (fun _ => rfl) ..
      unsigned := rfl
      nobody := fun _ p hp => by
        rw [JoinSession.lookup_newJoinSession hp]
        rfl
      left := fun _ _ h => by cases h }
  signing h := by cases h
  publishing h := by cases h

/-! ### Departures and refusals -/

/-- Nothing changes but that some leave, with their inputs taken, and that replies are sent. -/
theorem Inv.depart (h : t.Inv)
    (hleft : ∀ sid, t'.left sid = if (t'.session.participants.lookup sid).isSome then none else t.roster sid)
    (hsigned : t'.signed = t.signed)
    (hlookup : ∀ sid, t'.session.participants.lookup sid = t.session.participants.lookup sid ∨
      t'.session.participants.lookup sid = none ∧ (t.session.progress ≠ .publishTx → ∀ p,
        t.session.participants.lookup sid = some p → ∀ i ∈ p.inputIndes, t.Taken sid i))
    (hmerged : t'.session.mergedSplitTx = t.session.mergedSplitTx)
    (hsignedTx : t'.session.signedTx = t.session.signedTx) (hprogress : t'.session.progress = t.session.progress)
    (hreplies : t.session.replies ⊆ t'.session.replies) : t'.Inv := by
  have hindes : t'.indes = t.indes := indes_of_departure hleft fun sid => (hlookup sid).imp_right And.left
  have hsub : t.signed ⊆ t'.signed := hsigned ▸ List.Subset.refl _
  have hentries : t'.session.mergedEntries inputs = t.session.mergedEntries inputs := by
    rw [JoinSession.mergedEntries, JoinSession.mergedEntries, hmerged]
  -- who was there before, and who has left now
  have hbefore : ∀ {sid p}, t'.session.participants.lookup sid = some p →
      t.session.participants.lookup sid = some p := by
    intro sid p hp
    rcases hlookup sid with hsame | ⟨hgone, _⟩
    · rwa [hsame] at hp
    · rw [hgone] at hp
      cases hp
  have hgone : ∀ {sid p}, t'.left sid = some p → t.left sid = some p ∨
      t.session.participants.lookup sid = some p ∧
        (t.session.progress ≠ .publishTx → ∀ i ∈ p.inputIndes, t.Taken sid i) := by
    intro sid p hp
    rw [hleft] at hp
    split_ifs at hp with hthere
    rw [roster] at hp
    rcases hq : t.session.participants.lookup sid with _ | q
    · rw [hq, Option.none_or] at hp
      exact .inl hp
    · rw [hq, Option.some_or] at hp
      cases hp
      rcases hlookup sid with hsame | ⟨_, htaken⟩
      · rw [hsame, hq] at hthere
        exact absurd rfl hthere
      · exact .inr ⟨rfl, fun hstage => htaken hstage p hq⟩
  refine ⟨fun hstage => ?_, fun hstage => ?_, fun hstage => ?_⟩
  · rw [hprogress] at hstage
    have hc := h.collecting hstage
    have hempty : ∀ {sid p}, t.session.participants.lookup sid = some p → (∀ i ∈ p.inputIndes, t.Taken sid i) →
        p.inputIndes = [] := by
      intro sid p _ htaken
      refine List.eq_nil_iff_forall_not_mem.mpr fun i hi => ?_
      obtain ⟨_, _, _, hs, _⟩ := htaken i hi
      rw [hc.unsigned] at hs
      cases hs
    have hbusy : t.session.progress ≠ .publishTx := by
      rw [hstage]
      decide
    refine ⟨hc.owned.leave (fun sid => ?_) hmerged, hsignedTx.trans hc.unsigned, ?_, ?_⟩
    · rcases hlookup sid with hsame | ⟨hnone, htaken⟩
      · exact .inl hsame
      · rcases hp : t.session.participants.lookup sid with _ | p
        · exact .inl hnone
        · exact .inr ⟨hnone, (JoinSession.places_of_lookup hp).trans (hempty hp (htaken hbusy p hp))⟩
    · exact fun sid p hp => hc.nobody sid p (hbefore hp)
    · intro sid p hp
      rcases hgone hp with hold | ⟨hq, htaken⟩
      · exact hc.left sid p hold
      · exact hempty hq (htaken hbusy)
  · rw [hprogress] at hstage
    have hs := h.signing hstage
    have hbusy : t.session.progress ≠ .publishTx := by
      rw [hstage]
      decide
    refine ⟨hindes ▸ hs.disjoint, hindes ▸ hentries ▸ hs.cover, ?_, ?_, ?_⟩
    · intro signedTx hs'
      rw [hentries]
      exact hs.short signedTx (hsignedTx.symm.trans hs')
    · intro sid p hp hsome
      rcases hs.present sid p (hbefore hp) hsome with ⟨c, hchan, hc⟩ | htaken
      · exact .inl ⟨c, hchan, List.map_subset _ hreplies hc⟩
      · exact .inr fun i hi => (htaken i hi).of_eq hsignedTx hsub
    · intro sid p hp i hi
      rcases hgone hp with hold | ⟨_, htaken⟩
      · exact (hs.gone sid p hold i hi).of_eq hsignedTx hsub
      · exact (htaken hbusy i hi).of_eq hsignedTx hsub
  · rw [hprogress] at hstage
    exact (h.publishing hstage).of_eq hsignedTx hsub hindes

/-- A request that is answered with an error changes nothing else. -/
theorem Inv.refused (h : t.Inv)
    (hleft : ∀ sid, t'.left sid = if (t'.session.participants.lookup sid).isSome then none else t.roster sid)
    (hsigned : t'.signed = t.signed) {c : ℕ} {err : Err}
    (hsend : t.session.send (some c) (.err err) = .ok t'.session) : t'.Inv := by
  obtain ⟨c', _, _, hsession⟩ := JoinSession.send_eq_ok.mp hsend
  apply h.depart hleft hsigned <;> rw [hsession]
  · exact fun _ => .inl rfl
  · exact List.subset_append_left _ _

/-! ### Collecting -/

theorem left_of_map
    (hleft : ∀ sid, t'.left sid = if (t'.session.participants.lookup sid).isSome then none else t.roster sid)
    (hlookup : ∀ sid, ∃ f : SessionParticipant → SessionParticipant,
      t'.session.participants.lookup sid = (t.session.participants.lookup sid).map f)
    {sid : ℕ} {p : SessionParticipant} (hp : t'.left sid = some p) :
    t.left sid = some p ∧ t.session.participants.lookup sid = none := by
  obtain ⟨f, hf⟩ := hlookup sid
  rw [hleft, hf] at hp
  rcases hq : t.session.participants.lookup sid with _ | q
  · rw [hq, roster, hq] at hp
    exact ⟨hp, rfl⟩
  · rw [hq] at hp
    cases hp

theorem indes_eq_places (h : ∀ sid p, t.left sid = some p → p.inputIndes = []) :
    t.indes = t.session.places inputs := by
  funext sid
  rw [JoinSession.places, indes, roster]
  rcases t.session.participants.lookup sid with _ | p
  · rw [Option.none_or]
    rcases hq : t.left sid with _ | q
    · rfl
    · exact h sid q hq
  · rfl

/-- The stage after a split transaction, whether the collection is complete or not. -/
theorem Collecting.inv (h : t.Collecting)
    (hleft : ∀ sid, t'.left sid = if (t'.session.participants.lookup sid).isSome then none else t.roster sid)
    (howned : t'.session.Owned inputs) (hunsigned : t'.session.signedTx = none)
    (hlookup : ∀ sid, ∃ f : SessionParticipant → SessionParticipant,
      t'.session.participants.lookup sid = (t.session.participants.lookup sid).map f ∧
        ∀ p, (f p).signedTx = p.signedTx) (hprogress : t'.session.progress ≠ .publishTx) : t'.Inv := by
  have hgone : ∀ sid p, t'.left sid = some p → p.inputIndes = [] := by
    intro sid p hp
    have hold := left_of_map hleft (fun sid => (hlookup sid).imp fun _ => And.left) hp
    exact h.left sid p hold.1
  have hnobody : ∀ sid p, t'.session.participants.lookup sid = some p → p.signedTx = none := by
    intro sid p hp
    obtain ⟨f, hf, hsame⟩ := hlookup sid
    rw [hf, Option.map_eq_some_iff] at hp
    obtain ⟨q, hq, rfl⟩ := hp
    rw [hsame]
    exact h.nobody sid q hq
  refine ⟨fun _ => ⟨howned, hunsigned, hnobody, hgone⟩, fun _ => ?_, fun hstage => absurd hstage hprogress⟩
  have hindes := indes_eq_places hgone
  refine ⟨hindes ▸ howned.disjoint, hindes ▸ howned.cover, ?_, ?_, ?_⟩
  · intro signedTx hs
    rw [hunsigned] at hs
    cases hs
  · intro sid p hp hsome
    rw [hnobody sid p hp] at hsome
    cases hsome
  · intro sid p hp i hi
    rw [hgone sid p hp] at hi
    cases hi

theorem Collecting.addParticipantInput {sid : ℕ} {splitTx : MsgTx} {resp : ℕ} (h : t.Collecting)
    (hstage : t.session.progress = .rawTx)
    (hleft : ∀ sid, t'.left sid = if (t'.session.participants.lookup sid).isSome then none else t.roster sid)
    (hok : ∀ p, t.session.participants.lookup sid = some p → p.inputIndes = [])
    (hadd : t.session.addParticipantInput ch sid splitTx resp = .ok (none, t'.session)) : t'.Inv := by
  rcases JoinSession.addParticipantInput_eq_ok.mp hadd with ⟨_, hnone, _⟩ |
    ⟨hmem, _, merged, inputIndes, outputIndes, hmerge, hadd⟩
  · cases hnone
  · obtain ⟨p, hp⟩ := GoMap.lookup_of_mem_keys hmem
    obtain ⟨htxIn, _, hinputs, _⟩ := JoinSession.mergeSplitTx_eq_ok hmerge
    have hparticipants :=
      JoinSession.participants_withSplitTx sid splitTx resp merged inputIndes outputIndes t.session
    have howned : (t.session.withSplitTx sid splitTx resp merged inputIndes outputIndes).Owned inputs :=
      JoinSession.owned_withSplitTx h.owned hmem ((JoinSession.places_of_lookup hp).trans (hok p hp)) hparticipants
        (fun _ => hinputs) (fun _ => rfl) htxIn
    have hadded : ∀ sid', ∃ f : SessionParticipant → SessionParticipant,
        (t.session.withSplitTx sid splitTx resp merged inputIndes outputIndes).participants.lookup sid' =
          (t.session.participants.lookup sid').map f ∧ ∀ p, (f p).signedTx = p.signedTx := by
      intro sid'
      rw [hparticipants]
      by_cases hsid : sid' = sid
      · rw [hsid, GoMap.lookup_modify_self]
        exact ⟨_, rfl, fun _ => rfl⟩
      · rw [GoMap.lookup_modify_ne hsid]
        exact ⟨id, by rw [Option.map_id, id], fun _ => rfl⟩
    split_ifs at hadd with hall
    · by_cases hrandom : (t.session.withSplitTx sid splitTx resp merged inputIndes outputIndes).randomIndex = true ∧
          1 < GoMap.len (t.session.withSplitTx sid splitTx resp merged inputIndes outputIndes).participants
      · obtain ⟨merged', m₁, m₂, hshuffled, hsend, hm₁, hsession⟩ := JoinSession.exists_shuffled rfl hrandom hadd
        obtain ⟨cs, _, _, _, rfl⟩ := JoinSession.sendMerged_eq_ok.mp hsend
        refine h.inv hleft ?_ ?_ ?_ ?_
        · rw [hsession]
          exact hshuffled.inputs howned
        · rw [hsession, hm₁]
          exact h.unsigned
        · intro sid'
          obtain ⟨f, hf, hsame⟩ := hadded sid'
          obtain ⟨ins, outs, hlookup⟩ := hshuffled.lookup sid'
          rw [hsession]
          refine ⟨fun p => { f p with inputIndes := ins, outputIndes := outs }, ?_, fun p => hsame p⟩
          show m₁.participants.lookup sid' = _
          rw [hlookup, hf, Option.map_map]
          rfl
        · rw [hsession]
          exact fun h => by cases h
      · obtain ⟨m₁, hsend, hsession⟩ := (JoinSession.sendTxData_plain hrandom).mp hadd
        obtain ⟨cs, _, _, _, rfl⟩ := JoinSession.sendMerged_eq_ok.mp hsend
        apply h.inv hleft <;> rw [hsession]
        · exact howned
        · exact h.unsigned
        · exact hadded
        · show t.session.progress ≠ _
          rw [hstage]
          decide
    · apply h.inv hleft <;> rw [hadd]
      · exact howned
      · exact h.unsigned
      · exact hadded
      · show t.session.progress ≠ _
        rw [hstage]
        decide

/-! ### Signing -/

/-- What a participant's signed transaction does to the inputs: the others' stay taken,
and all of its own are when none of them is nil. -/
structure Patched (t t' : Tracked) (sid : ℕ) (p : SessionParticipant) (all : Bool) : Prop where
  others : ∀ sid' i, sid' ≠ sid → i ∈ t.indes sid' → t.Taken sid' i → t'.Taken sid' i
  own : all = true → ∀ i ∈ p.inputIndes, t'.Taken sid i
  short : ∀ signedTx, t'.session.signedTx = some signedTx →
    signedTx.txIn.length ≤ (t.session.mergedEntries inputs).length

theorem Signing.patched {sid : ℕ} {tx base signedTx : MsgTx} {p : SessionParticipant} {all : Bool} (h : t.Signing)
    (hp : t.session.participants.lookup sid = some p)
    (hok : t.session.signedTx = none → tx.txIn.length ≤ (t.session.mergedEntries inputs).length)
    (hbase : JoinSession.signedBase tx t.session.signedTx = .ok base)
    (hin : JoinSession.mergeOwn tx.txIn p.inputIndes base.txIn = .ok (all, signedTx.txIn))
    (hsigned : t'.signed = t.signed ++ [(sid, tx)]) (hsession : t'.session.signedTx = some signedTx) :
    Patched t t' sid p all := by
  obtain ⟨hlength, heach, hall⟩ := JoinSession.mergeOwn_eq_ok hin
  refine ⟨?_, ?_, ?_⟩
  · intro sid' i hne hi ⟨old, tx', a, hs, hmem, hown, hentry⟩
    rw [hs] at hbase
    cases hbase
    refine ⟨signedTx, tx', a, hsession, ?_, hown, ?_⟩
    · rw [hsigned]
      exact List.mem_append_left _ hmem
    · rcases heach i with hsame | ⟨hi', _⟩
      · rw [hsame, hentry]
      · rw [← indes_of_lookup hp] at hi'
        exact absurd hi' (h.disjoint sid' sid hne hi)
  · intro htrue i hi
    obtain ⟨a, hown, hentry⟩ := hall htrue i hi
    refine ⟨signedTx, tx, a, hsession, ?_, hown, hentry⟩
    rw [hsigned]
    exact List.mem_append_right _ (List.mem_singleton.mpr rfl)
  · intro signedTx' hs
    rw [hsession] at hs
    cases hs
    rw [hlength]
    rcases hfirst : t.session.signedTx with _ | old
    · rw [hfirst, JoinSession.signedBase, MsgTx.copy] at hbase
      split_ifs at hbase
      cases hbase
      exact hok hfirst
    · rw [hfirst] at hbase
      cases hbase
      exact h.short base hfirst

/-- The stage goes on after a signed transaction: its inputs are all taken, or it is answered with an error. -/
theorem Signing.goOn {sid : ℕ} {tx : MsgTx} {resp : ℕ} {p : SessionParticipant} {all : Bool} (h : t.Signing)
    (hp : t.session.participants.lookup sid = some p) (hpatched : Patched t t' sid p all)
    (hleft : ∀ sid, t'.left sid = if (t'.session.participants.lookup sid).isSome then none else t.roster sid)
    (hparticipants : t'.session.participants = (t.session.withSignedTx sid tx resp).participants)
    (hmerged : t'.session.mergedSplitTx = t.session.mergedSplitTx)
    (hreplies : t.session.replies ⊆ t'.session.replies)
    (hanswer : all = true ∨ resp ∈ t'.session.replies.map Prod.fst) : t'.Signing := by
  rw [JoinSession.participants_withSignedTx] at hparticipants
  have hlookup : ∀ sid', ∃ f : SessionParticipant → SessionParticipant,
      t'.session.participants.lookup sid' = (t.session.participants.lookup sid').map f ∧
        ∀ p, (f p).inputIndes = p.inputIndes := by
    intro sid'
    rw [hparticipants]
    by_cases hsid : sid' = sid
    · rw [hsid, GoMap.lookup_modify_self]
      exact ⟨_, rfl, fun _ => rfl⟩
    · rw [GoMap.lookup_modify_ne hsid]
      exact ⟨id, by rw [Option.map_id, id], fun _ => rfl⟩
  have hindes := indes_of_map hleft hlookup
  have hentries : t'.session.mergedEntries inputs = t.session.mergedEntries inputs := by
    rw [JoinSession.mergedEntries, JoinSession.mergedEntries, hmerged]
  refine ⟨hindes ▸ h.disjoint, hindes ▸ hentries ▸ h.cover, hentries ▸ hpatched.short, ?_, ?_⟩
  · intro sid' q hq hsome
    rw [hparticipants] at hq
    by_cases hsid : sid' = sid
    · rw [hsid, GoMap.lookup_modify_self, hp] at hq
      cases hq
      rcases hanswer with hall | hresp
      · exact .inr (hsid ▸ hpatched.own hall)
      · exact .inl ⟨resp, rfl, hresp⟩
    · rw [GoMap.lookup_modify_ne hsid] at hq
      rcases h.present sid' q hq hsome with ⟨c, hchan, hc⟩ | htaken
      · exact .inl ⟨c, hchan, List.map_subset _ hreplies hc⟩
      · right
        intro i hi
        exact hpatched.others sid' i hsid (indes_of_lookup hq ▸ hi) (htaken i hi)
  · intro sid' q hq i hi
    obtain ⟨hold, hnone⟩ := left_of_map hleft (fun sid => (hlookup sid).imp fun _ => And.left) hq
    have hne : sid' ≠ sid := fun heq => by
      rw [heq, hp] at hnone
      cases hnone
    have hmem : i ∈ t.indes sid' := by
      rw [indes, roster, hnone, Option.none_or, hold]
      exact hi
    exact hpatched.others sid' i hne hmem (h.gone sid' q hold i hi)

/-- When the last one present has signed, all inputs are taken. -/
theorem Signing.complete {sid : ℕ} {tx signedTx : MsgTx} {resp : ℕ} {p : SessionParticipant} (h : t.Signing)
    (hp : t.session.participants.lookup sid = some p) (hpatched : Patched t t' sid p true)
    (hsession : t'.session.signedTx = some signedTx) (hindes : t'.indes = t.indes)
    (hall : (t.session.withSignedTx sid tx resp).checkInputsSigned = true)
    (hrefused : ∀ sid' q, sid' ≠ sid → t.session.participants.lookup sid' = some q → Refused t.session q →
      ∀ i ∈ q.inputIndes, t.Taken sid' i) : t'.FullySigned := by
  refine ⟨signedTx, hsession, fun i hi => ?_⟩
  obtain ⟨sid', hmem⟩ := h.cover i (Nat.lt_of_lt_of_le hi (hpatched.short signedTx hsession))
  refine ⟨sid', hindes ▸ hmem, ?_⟩
  by_cases hsid : sid' = sid
  · rw [hsid] at hmem ⊢
    exact hpatched.own rfl i (indes_of_lookup hp ▸ hmem)
  · refine hpatched.others sid' i hsid hmem ?_
    rcases hq : t.session.participants.lookup sid' with _ | q
    · -- gone: taken before it left
      rw [indes, roster, hq, Option.none_or] at hmem
      rcases hold : t.left sid' with _ | q
      · rw [hold] at hmem
        cases hmem
      · rw [hold] at hmem
        exact h.gone sid' q hold i hmem
    · -- present: it has signed, and was refused with its inputs taken or not at all
      have hnoted : (t.session.withSignedTx sid tx resp).participants.lookup sid' = some q := by
        rw [JoinSession.participants_withSignedTx, GoMap.lookup_modify_ne hsid, hq]
      have hsigned : q.signedTx.isSome = true :=
        List.all_eq_true.mp hall (sid', q) (GoMap.mem_toList.mpr hnoted)
      rw [indes_of_lookup hq] at hmem
      rcases h.present sid' q hq hsigned with hanswered | htaken
      · exact hrefused sid' q hsid hq hanswered i hmem
      · exact htaken i hmem

theorem Inv.mergeSignedInput {sid : ℕ} {tx : MsgTx} {resp : ℕ} (h : t.Inv) (hstage : t.session.progress = .signedTx)
    (hok : t.Orderly (ch, .submitSignedTx sid tx resp))
    (hleft : ∀ sid, t'.left sid = if (t'.session.participants.lookup sid).isSome then none else t.roster sid)
    (hsigned : t'.signed = t.signed ++ handedIn t.session (.submitSignedTx sid tx resp))
    {err : Option Err} {m : JoinSession} (hmerge : t.session.mergeSignedInput ch sid tx resp = .ok (err, m))
    (hanswer : JoinSession.answer resp (err, m) = .ok t'.session) : t'.Inv := by
  have hs := h.signing hstage
  have hmember : ∀ {p}, t.session.participants.lookup sid = some p →
      t'.signed = t.signed ++ [(sid, tx)] ∧
        (t.session.signedTx = none → tx.txIn.length ≤ (t.session.mergedEntries inputs).length) := by
    intro p hp
    have hkeys := GoMap.mem_keys_of_lookup hp
    rw [handedIn, if_pos ⟨hstage, hkeys⟩] at hsigned
    exact ⟨hsigned, (hok hstage hkeys).1⟩
  -- an answer with an error after the submission was noted
  have hrejected : ∀ {p all signedTx e}, t.session.participants.lookup sid = some p →
      (∀ t'' : Tracked, t''.signed = t.signed ++ [(sid, tx)] → t''.session.signedTx = some signedTx →
        Patched t t'' sid p all) →
      { t.session.withSignedTx sid tx resp with signedTx := some signedTx }.send (some resp) (.err e) =
        .ok t'.session → t'.Inv := by
    intro p all signedTx e hp hpatched hsend
    obtain ⟨c, hc, _, hsession⟩ := JoinSession.send_eq_ok.mp hsend
    cases hc
    have hprogress : t'.session.progress = .signedTx := by rw [hsession]; exact hstage
    refine ⟨fun h => ?_, fun _ => ?_, fun h => ?_⟩
    · rw [hprogress] at h
      cases h
    · refine hs.goOn hp (hpatched t' (hmember hp).1 (by rw [hsession])) hleft (by rw [hsession]) (by rw [hsession]; rfl) ?_ ?_
      · rw [hsession]
        exact List.subset_append_left _ _
      · right
        rw [hsession, List.map_append]
        exact List.mem_append_right _ (List.mem_singleton.mpr rfl)
    · rw [hprogress] at h
      cases h
  cases JoinSession.mergeSignedInput_eq_ok.mp hmerge with
  | unknown hnone =>
    refine h.refused hleft ?_ hanswer
    have hkeys : sid ∉ t.session.participants.keys := fun hmem => by
      obtain ⟨p, hp⟩ := GoMap.lookup_of_mem_keys hmem
      rw [hnone] at hp
      cases hp
    rw [hsigned, handedIn, if_neg (fun h => hkeys h.2), List.append_nil]
  | nilInput hp hbase hin =>
    exact hrejected hp (fun t'' hsigned' hsession' => hs.patched hp (hmember hp).2 hbase hin hsigned' hsession') hanswer
  | nilOutput hp hbase hin =>
    exact hrejected hp (fun t'' hsigned' hsession' => hs.patched hp (hmember hp).2 hbase hin hsigned' hsession') hanswer
  | waiting hp hbase hin =>
    have hsession := (Except.ok.inj hanswer).symm
    have hprogress : t'.session.progress = .signedTx := by rw [hsession]; exact hstage
    refine ⟨fun h => ?_, fun _ => ?_, fun h => ?_⟩
    · rw [hprogress] at h
      cases h
    · have hpatched : Patched t t' _ _ _ := hs.patched hp (hmember hp).2 hbase hin (hmember hp).1 (by rw [hsession])
      exact hs.goOn hp hpatched hleft (by rw [hsession]) (by rw [hsession]; rfl)
        (by rw [hsession]; exact List.Subset.refl _) (.inl rfl)
    · rw [hprogress] at h
      cases h
  | completed hp hbase hin _ hall hsend =>
    have hsession := (Except.ok.inj hanswer).symm
    have hkeeps := (JoinSession.keeps_withSignedTx sid tx resp _).trans (JoinSession.keeps_sendSigned hsend)
    have hkeys := GoMap.mem_keys_of_lookup hp
    obtain ⟨cs, _, _, _, rfl⟩ := JoinSession.sendSigned_eq_ok.mp hsend
    have hindes : t'.indes = t.indes := by
      refine indes_of_map hleft fun sid' => ?_
      obtain ⟨f, hf, hsame⟩ := hkeeps.participants sid'
      rw [hsession]
      exact ⟨f, hf, fun p => (hsame p).2.1⟩
    have hprogress : t'.session.progress = .publishTx := by rw [hsession]
    refine ⟨fun h => ?_, fun h => ?_, fun _ => ?_⟩
    · rw [hprogress] at h
      cases h
    · rw [hprogress] at h
      cases h
    · have hpatched : Patched t t' _ _ _ := hs.patched hp (hmember hp).2 hbase hin (hmember hp).1 (by rw [hsession])
      exact hs.complete hp hpatched (by rw [hsession]) hindes hall ((hok hstage hkeys).2 hall)

/-! ### Runs -/

theorem Inv.publishTxResult {sid : ℕ} {tx : Option MsgTx} {resp : ℕ} (h : t.Inv) (hstage : t.session.progress = .publishTx)
    (hleft : ∀ sid, t'.left sid = if (t'.session.participants.lookup sid).isSome then none else t.roster sid)
    (hsigned : t'.signed = t.signed) (hpublish : t.session.publishTxResult ch sid tx resp = .ok (none, t'.session)) :
    t'.Inv := by
  have hkeeps := JoinSession.keeps_publishTxResult hpublish
  have hindes : t'.indes = t.indes := by
    refine indes_of_map hleft fun sid' => ?_
    obtain ⟨f, hf, hsame⟩ := hkeeps.participants sid'
    exact ⟨f, hf, fun p => (hsame p).2.1⟩
  have hsame : t'.session.signedTx = t.session.signedTx ∧ t'.session.progress = t.session.progress := by
    rcases JoinSession.publishTxResult_eq_ok.mp hpublish with ⟨_, hnone, _⟩ | ⟨p, _, _, _, hpublish⟩
    · cases hnone
    · split_ifs at hpublish
      · obtain ⟨m₁, hsend, hsession⟩ := hpublish
        obtain ⟨cs, _, _, _, rfl⟩ := JoinSession.sendPublished_eq_ok.mp hsend
        rw [hsession]
        exact ⟨rfl, rfl⟩
      · rw [hpublish]
        exact ⟨rfl, rfl⟩
  have hprogress := hsame.2.trans hstage
  refine ⟨fun h => ?_, fun h => ?_, fun _ => (h.publishing hstage).of_eq hsame.1 (hsigned ▸ List.Subset.refl _) hindes⟩
  · rw [hprogress] at h
    cases h
  · rw [hprogress] at h
    cases h

theorem inv_step {ev : Choices × JoinSession.Event} (h : t.Inv) (hok : t.Orderly ev) (hstep : t.step ev = some t') :
    t'.Inv := by
  obtain ⟨ch, ev⟩ := ev
  obtain ⟨hrun, hleft, hsigned⟩ := step_eq_some hstep
  cases ev with
  | clientTimeout =>
    have hsession := (Except.ok.inj hrun).symm
    replace hsigned := hsigned.trans (List.append_nil _)
    refine h.depart hleft hsigned ?_ (by rw [hsession]; rfl) (by rw [hsession]; rfl) (by rw [hsession]; rfl)
      (by rw [hsession]; exact List.Subset.refl _)
    intro sid
    rw [hsession]
    rcases JoinSession.lookup_timeout_cases ch t.session sid with hsame | ⟨hgone, p, hp, hmissed⟩
    · exact .inl hsame
    · refine .inr ⟨hgone, fun hstage q hq => ?_⟩
      rw [hp] at hq
      cases hq
      exact hok hstage sid p hp hmissed
  | submitSplitTx sessionID splitTx resp =>
    replace hsigned := hsigned.trans (List.append_nil _)
    rcases JoinSession.inStage_eq_ok.mp hrun with ⟨_, hsend⟩ | ⟨hstage, ⟨err, m₁, hdone, hsend⟩ | hdone⟩
    · exact h.refused hleft hsigned hsend
    · rcases JoinSession.addParticipantInput_eq_ok.mp hdone with ⟨_, _, rfl⟩ | ⟨_, hnone, _⟩
      · exact h.refused hleft hsigned hsend
      · cases hnone
    · exact (h.collecting hstage).addParticipantInput hstage hleft (hok hstage) hdone
  | submitSignedTx sessionID tx resp =>
    rcases JoinSession.inStage_eq_ok.mp hrun with ⟨hstage, hsend⟩ | ⟨hstage, ⟨err, m₁, hdone, hsend⟩ | hdone⟩
    · refine h.refused hleft ?_ hsend
      rw [hsigned, handedIn, if_neg (fun h => hstage h.1), List.append_nil]
    · exact h.mergeSignedInput hstage hok hleft hsigned hdone hsend
    · exact h.mergeSignedInput hstage hok hleft hsigned hdone rfl
  | publishResult sessionID tx resp =>
    replace hsigned := hsigned.trans (List.append_nil _)
    rcases JoinSession.inStage_eq_ok.mp hrun with ⟨_, hsend⟩ | ⟨hstage, ⟨err, m₁, hdone, hsend⟩ | hdone⟩
    · exact h.refused hleft hsigned hsend
    · rcases JoinSession.publishTxResult_eq_ok.mp hdone with ⟨_, _, rfl⟩ | ⟨_, _, hnone, _⟩
      · exact h.refused hleft hsigned hsend
      · cases hnone
    · exact h.publishTxResult hstage hleft hsigned hdone
  | removeSessionID sessionID =>
    have hsession := (Except.ok.inj hrun).symm
    replace hsigned := hsigned.trans (List.append_nil _)
    refine h.depart hleft hsigned ?_ (by rw [hsession]; rfl) (by rw [hsession]; rfl) (by rw [hsession]; rfl)
      (by rw [hsession]; exact List.Subset.refl _)
    intro sid
    rw [hsession]
    rcases JoinSession.lookup_removeSessionID_cases t.session sessionID sid with
      hsame | ⟨hgone, p, hp, rfl⟩
    · exact .inl hsame
    · exact .inr ⟨hgone, fun hstage q hq => hok hstage q hq⟩

theorem inv_of_runsTo {randomIndex : Bool} {waitingPars : List ℕ}
    (h : RunsTo step Orderly (start (newJoinSession randomIndex waitingPars)) t) : t.Inv :=
  h.invariant (inv_start randomIndex waitingPars) fun _ _ _ => inv_step

theorem session_of_runsTo {m : JoinSession} (h : RunsTo step Orderly (start m) t) :
    RunsTo JoinSession.step (fun _ _ => True) m t.session := by
  induction h with
  | start => exact .start
  | step _ ev _ hstep ih =>
    obtain ⟨m', hsession, rfl⟩ := Option.map_eq_some_iff.mp hstep
    exact .step ih ev trivial hsession

/-! ### What is handed out -/

/-- In the publishing stage a turn that is stuck leaves the transaction as it is. -/
theorem FullySigned.stalled {ev : JoinSession.Event} {m : JoinSession} (h : t.FullySigned) (hstage : t.session.progress = .publishTx)
    (hstalled : JoinSession.Stalled ch t.session ev m) : (t.advance (ch, ev) m).FullySigned := by
  have hnot : ∀ {stage}, t.session.progress = stage → stage ≠ .publishTx → False := fun heq hne => hne (heq ▸ hstage)
  cases hstalled with
  | refused =>
    refine h.of_eq rfl (List.subset_append_left _ _) (indes_of_departure (fun _ => rfl) fun _ => .inl rfl)
  | merged hraw => exact (hnot hraw (by decide)).elim
  | invalid hsigning => exact (hnot hsigning (by decide)).elim
  | signed hsigning => exact (hnot hsigning (by decide)).elim
  | @published sid tx resp p _ _ _ hsend =>
    obtain ⟨new, rfl, -⟩ := JoinSession.sendPublished_stuck hsend
    refine h.of_eq rfl (List.subset_append_left _ _) (indes_of_map (fun _ => rfl) fun sid' => ?_)
    refine ⟨_, JoinSession.lookup_withPublished sid p.publisher tx resp sid' t.session, fun q => ?_⟩
    split_ifs
    · rfl
    · rfl

/-- When the last one has signed, what has gone out is fully signed, even if the loop is stuck. -/
theorem Signing.stalled {sid resp randIndex i : ℕ} {tx base : MsgTx} {p : SessionParticipant} {txIn : List (Option TxIn)}
    {txOut : List (Option TxOut)} {l : List (ℕ × SessionParticipant)} {m : JoinSession} (h : t.Signing)
    (hok : t.Orderly (ch, .submitSignedTx sid tx resp)) (hstage : t.session.progress = .signedTx)
    (hp : t.session.participants.lookup sid = some p) (hbase : JoinSession.signedBase tx t.session.signedTx = .ok base)
    (hin : JoinSession.mergeOwn tx.txIn p.inputIndes base.txIn = .ok (true, txIn))
    (hall : (t.session.withSignedTx sid tx resp).checkInputsSigned = true)
    (hsend : JoinSession.sendSigned randIndex { base with txIn := txIn, txOut := txOut } i l
      { t.session.withSignedTx sid tx resp with signedTx := some { base with txIn := txIn, txOut := txOut } } = .error (.send m)) :
    (t.advance (ch, .submitSignedTx sid tx resp) m).FullySigned := by
  obtain ⟨hlookup, new, hsession, -⟩ := JoinSession.sendSigned_stuck hsend
  have hkeys := GoMap.mem_keys_of_lookup hp
  have hsigned : (t.advance (ch, .submitSignedTx sid tx resp) m).signed = t.signed ++ [(sid, tx)] := by
    show t.signed ++ handedIn t.session (.submitSignedTx sid tx resp) = _
    rw [handedIn, if_pos ⟨hstage, hkeys⟩]
  have hstored : m.signedTx = some { base with txIn := txIn, txOut := txOut } := by rw [hsession]
  have hindes : (t.advance (ch, .submitSignedTx sid tx resp) m).indes = t.indes := by
    refine indes_of_map (fun _ => rfl) fun sid' => ?_
    obtain ⟨publisher, hlookup⟩ := hlookup sid'
    refine ⟨_, hlookup.trans (by rw [JoinSession.lookup_withSignedTx, Option.map_map]), fun q => ?_⟩
    rw [Function.comp_apply]
    split_ifs
    · rfl
    · rfl
  exact h.complete hp (h.patched hp (hok hstage hkeys).1 hbase hin hsigned hstored) hstored hindes hall ((hok hstage hkeys).2 hall)

/-- **A transaction goes out for publishing only fully signed, as long as nobody leaves
with inputs that are not taken yet, and nobody stays who was refused with such inputs.**
This holds of the publishing stage, and of every signed transaction that is sent, also
in a turn in which `Run` is stuck at a participant that does not receive any more. -/
theorem publish_fully_signed {randomIndex : Bool} {waitingPars : List ℕ}
    (h : RunsTo step Orderly (start (newJoinSession randomIndex waitingPars)) t) :
    (t.session.progress = .publishTx → t.FullySigned) ∧
      ∀ ev t', t.Orderly ev → t.attempt ev = some t' → ∀ c signedTx publisher,
        (c, .submitSignedTxRes signedTx publisher) ∈ t'.session.replies →
          t'.session.signedTx = some signedTx ∧ t'.FullySigned := by
  have hinv := inv_of_runsTo h
  have hrun := session_of_runsTo h
  have hstaged := JoinSession.staged_of_runsTo hrun
  have hcountersigned := JoinSession.countersigned_of_runsTo hrun
  refine ⟨hinv.publishing, fun ev t' hok hattempt c signedTx publisher hsent => ?_⟩
  obtain ⟨ch, ev⟩ := ev
  obtain ⟨m, hsession, rfl⟩ := Option.map_eq_some_iff.mp hattempt
  have hcountersigned' := JoinSession.countersigned_attempt hcountersigned (Submissions.held_of_runsTo hrun) hstaged hsession
  refine ⟨(hcountersigned'.sent c signedTx publisher hsent).1, ?_⟩
  rcases JoinSession.step_or_stalled hsession with hstep | hstalled
  · have hstep' : t.step (ch, ev) = some (t.advance (ch, ev) m) := Option.map_eq_some_iff.mpr ⟨m, hstep, rfl⟩
    have hwithheld := (JoinSession.countersigned_of_runsTo (session_of_runsTo (.step h (ch, ev) hok hstep'))).2
    exact (inv_step hinv hok hstep').publishing (by_contra fun hbusy => hwithheld hbusy c signedTx publisher hsent)
  · by_cases hstage : t.session.progress = .publishTx
    · exact (hinv.publishing hstage).stalled hstage hstalled
    · cases hstalled with
      | refused => exact absurd hsent (hcountersigned.2 hstage c signedTx publisher)
      | merged hraw _ _ _ hsend =>
        have hunsent := (JoinSession.unsigned_of_sendTxData_stuck rfl ((hstaged.withSplitTx hraw ..).unsigned hraw)
          (hcountersigned.2 hstage) hsend).2
        exact absurd hsent (hunsent c signedTx publisher)
      | invalid _ _ hinvalid =>
        have hunsent := hcountersigned.2 hstage c signedTx publisher
        cases hinvalid with
        | unknown => exact absurd hsent hunsent
        | nilInput => exact absurd hsent hunsent
        | nilOutput => exact absurd hsent hunsent
      | signed hsigning hp hbase hin _ hall hsend => exact (hinv.signing hsigning).stalled hok hsigning hp hbase hin hall hsend
      | published hlast => exact absurd hlast hstage

/-- `n` inputs and outputs, the inputs with a signature script. -/
def signedBy (n : ℕ) (script : Bytes) : MsgTx where
  serType := 0
  version := 1
  txIn := List.replicate n (some ⟨⟨[], 0, 0⟩, 0, 0, 0, 0, script⟩)
  txOut := List.replicate n (some ⟨0, 0, []⟩)
  lockTime := 0
  expiry := 0

/-- An input is taken, as far as it can be read off. -/
def takenIn (t : Tracked) (sid i : ℕ) : Bool :=
  t.signed.any fun e => e.1 = sid && ((e.2.txIn[i]?).join).isSome && t.session.signedTx.any fun tx => tx.txIn[i]? = e.2.txIn[i]?

theorem taken_of_takenIn {sid i : ℕ} (h : t.takenIn sid i = true) : t.Taken sid i := by
  obtain ⟨⟨sid', tx⟩, hmem, h⟩ := List.any_eq_true.mp h
  simp only [Bool.and_eq_true, decide_eq_true_eq, Option.any_eq_true] at h
  obtain ⟨⟨rfl, hsome⟩, signedTx, hsigned, hsame⟩ := h
  obtain ⟨a, ha⟩ := Option.isSome_iff_exists.mp hsome
  have hentry : tx.txIn[i]? = some (some a) := Option.join_eq_some_iff.mp ha
  exact ⟨signedTx, tx, a, hsigned, hmem, hentry, hsame.trans hentry⟩

/-- `Orderly` for runs in which nobody leaves. -/
def staying (t : Tracked) (ev : Choices × JoinSession.Event) : Bool :=
  match ev.2 with
  | .submitSplitTx sessionID _ _ => (t.indes sessionID).isEmpty
  | .submitSignedTx sessionID tx resp =>
    tx.txIn.length ≤ (t.session.mergedEntries inputs).length &&
      (!(t.session.withSignedTx sessionID tx resp).checkInputsSigned || (GoMap.toList t.session.participants).all fun e =>
        e.1 = sessionID || (e.2.chanSubmitSignedTxRes.all fun c => c ∉ t.session.replies.map Prod.fst) ||
          e.2.inputIndes.all fun i => t.takenIn e.1 i)
  | .publishResult _ _ _ => true
  | _ => false

theorem orderly_of_staying (t : Tracked) (ev : Choices × JoinSession.Event) (h : t.staying ev = true) : t.Orderly ev := by
  obtain ⟨ch, ev⟩ := ev
  cases ev with
  | submitSplitTx sessionID splitTx resp =>
    intro _ p hp
    rw [← indes_of_lookup hp]
    exact List.isEmpty_iff.mp h
  | submitSignedTx sessionID tx resp =>
    obtain ⟨hlength, hrest⟩ := Bool.and_eq_true_iff.mp h
    refine fun _ _ => ⟨fun _ => of_decide_eq_true hlength, fun hall sid p hne hp hrefused i hi => ?_⟩
    rw [hall, Bool.not_true, Bool.false_or] at hrest
    have hparticipant := List.all_eq_true.mp hrest (sid, p) (GoMap.mem_toList.mpr hp)
    obtain ⟨c, hchan, hanswered⟩ := hrefused
    simp only [hne, decide_false, Bool.false_or, hchan, Option.all_some, hanswered, not_true_eq_false, decide_false,
      List.all_eq_true] at hparticipant
    exact taken_of_takenIn (hparticipant i hi)
  | publishResult => trivial
  | clientTimeout => cases h
  | removeSessionID => cases h

/-- Two participants submit and sign. -/
def twoSign : List (Choices × JoinSession.Event) :=
  [(.plain, .submitSplitTx 1 (JoinSession.smallTx 1) 0), (.plain, .submitSplitTx 2 (JoinSession.smallTx 2) 1),
    (.plain, .submitSignedTx 1 (signedBy 2 [1]) 2), (.plain, .submitSignedTx 2 (signedBy 2 [2]) 3)]

/-- Of three the second is refused for its outputs; the third is sent the transaction before the loop is stuck. -/
def pairRefused : Tracked := after step (start (newJoinSession true [1, 2, 3])) JoinSession.refusing

def pairStuck : Tracked := after attempt pairRefused [(.plain, .submitSignedTx 3 (JoinSession.tripleTx 7) 5)]

theorem publish_fully_signed_two : (∃ t : Tracked, t.session.progress = .publishTx ∧ t.FullySigned) ∧
    pairRefused.step (.plain, .submitSignedTx 3 (JoinSession.tripleTx 7) 5) = none ∧ pairStuck.FullySigned := by
  have hstage : (after (fun t ev => if staying t ev then step t ev else none) (start (newJoinSession true [1, 2]))
      twoSign).session.progress = .publishTx := by decide +kernel
  have htwo := publish_fully_signed (t := after (fun t ev => if staying t ev then step t ev else none)
    (start (newJoinSession true [1, 2])) twoSign) (.of_checked staying orderly_of_staying (foldlM_eq_after (by decide +kernel)))
  have hrefused := publish_fully_signed (t := pairRefused) (.of_checked staying orderly_of_staying
    (show JoinSession.refusing.foldlM (fun t ev => if staying t ev then step t ev else none) (start (newJoinSession true [1, 2, 3])) =
      some pairRefused from rfl))
  refine ⟨⟨_, hstage, htwo.1 hstage⟩, rfl, ?_⟩
  obtain ⟨signedTx, hsent⟩ : ∃ signedTx, pairStuck.session.replies.getLast? = some (5, .submitSignedTxRes signedTx true) := ⟨_, rfl⟩
  exact (hrefused.2 (.plain, .submitSignedTx 3 (JoinSession.tripleTx 7) 5) pairStuck (orderly_of_staying _ _ (by decide +kernel)) rfl
    5 signedTx true (List.mem_of_getLast? hsent)).2

/-- Three participants submit, one leaves, the others sign. -/
def oneLeaves : List (Choices × JoinSession.Event) :=
  [(.plain, .submitSplitTx 1 (JoinSession.smallTx 1) 0), (.plain, .submitSplitTx 2 (JoinSession.smallTx 2) 1),
    (.plain, .submitSplitTx 3 (JoinSession.smallTx 3) 2), (.plain, .removeSessionID 3),
    (.plain, .submitSignedTx 1 (signedBy 3 [1]) 3), (.plain, .submitSignedTx 2 (signedBy 3 [2]) 4)]

/-- The input of the one that left goes out as another participant sent it. -/
theorem left_unsigned : ∃ t : Tracked,
    RunsTo step (fun _ _ => True) (start (newJoinSession true [1, 2, 3])) t ∧ t.session.progress = .publishTx ∧
      ¬ t.FullySigned := by
  refine ⟨after step (start (newJoinSession true [1, 2, 3])) oneLeaves,
    .of_events _ (foldlM_eq_after (by decide +kernel)), by decide +kernel, ?_⟩
  intro ⟨signedTx, hs, hall⟩
  have hlength : (after step (start (newJoinSession true [1, 2, 3])) oneLeaves).session.signedTx.map
      (fun tx => tx.txIn.length) = some 3 := by decide +kernel
  have hsigned : (after step (start (newJoinSession true [1, 2, 3])) oneLeaves).signed.map Prod.fst = [1, 2] := by
    decide +kernel
  rw [hs, Option.map_some, Option.some_inj] at hlength
  obtain ⟨sid, hmem, _, tx, _, _, htaken, _⟩ := hall 2 (by omega)
  have hsid : sid ∈ [1, 2] := hsigned ▸ List.mem_map.mpr ⟨(sid, tx), htaken, rfl⟩
  rcases List.mem_cons.mp hsid with rfl | hsid
  · exact absurd hmem (by decide +kernel)
  · cases List.mem_singleton.mp hsid
    exact absurd hmem (by decide +kernel)

end Tracked

end Dcrtxmatcher.Matcher
