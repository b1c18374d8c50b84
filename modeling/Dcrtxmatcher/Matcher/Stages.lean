import Dcrtxmatcher.Matcher.Service

/-! The stages of a session.

`Turned` says once what a turn can do, for every invariant that follows. In the first stage nobody has
signed, before the last nobody has published, and in the last everybody has signed. -/
namespace Dcrtxmatcher.Matcher
open Lib
open Coinjoin (TxIn TxOut OutPoint)

namespace JoinSession
variable {ch : Choices} {m m' : JoinSession}

/-! ### One turn -/

/-- The response channel of a request. -/
def Event.resp : Event → Option ℕ
  | .submitSplitTx _ _ resp => some resp
  | .submitSignedTx _ _ resp => some resp
  | .publishResult _ _ resp => some resp
  | _ => none

/-- A request in its stage, from a participant. -/
def Event.Served (m : JoinSession) : Event → Prop
  | .submitSplitTx sessionID _ _ => m.progress = .rawTx ∧ sessionID ∈ m.participants.keys
  | .submitSignedTx sessionID _ _ => m.progress = .signedTx ∧ sessionID ∈ m.participants.keys
  | .publishResult sessionID _ _ => m.progress = .publishTx ∧ sessionID ∈ m.participants.keys
  | _ => False

/-- What a turn of `Run` or a removal can do. -/
inductive Turned (ch : Choices) (m : JoinSession) : Event → JoinSession → Prop where
  | fired : Turned ch m .clientTimeout (m.timeout ch)
  | left (sessionID : ℕ) : Turned ch m (.removeSessionID sessionID) (m.removeSessionID sessionID)
  | refused {ev : Event} {resp : ℕ} {err : Err} (hresp : ev.resp = some resp) (hnot : ¬ ev.Served m) (hfree : resp ∉ m.replies.map Prod.fst) :
      Turned ch m ev { m with replies := m.replies ++ [(resp, .err err)] }
  | merging {sessionID : ℕ} {splitTx merged : MsgTx} {resp : ℕ} {inputIndes outputIndes : List ℕ}
      (hstage : m.progress = .rawTx) (hmem : sessionID ∈ m.participants.keys)
      (hmerge : mergeSplitTx splitTx m.mergedSplitTx = .ok (merged, inputIndes, outputIndes))
      (hopen : (m.withSplitTx sessionID splitTx resp merged inputIndes outputIndes).checkTxSubmitted = false) :
      Turned ch m (.submitSplitTx sessionID splitTx resp)
        (m.withSplitTx sessionID splitTx resp merged inputIndes outputIndes)
  | merged {sessionID : ℕ} {splitTx merged : MsgTx} {resp : ℕ} {inputIndes outputIndes : List ℕ} {m' : JoinSession}
      (hstage : m.progress = .rawTx) (hmem : sessionID ∈ m.participants.keys)
      (hmerge : mergeSplitTx splitTx m.mergedSplitTx = .ok (merged, inputIndes, outputIndes))
      (hall : (m.withSplitTx sessionID splitTx resp merged inputIndes outputIndes).checkTxSubmitted = true)
      (hsend : (m.withSplitTx sessionID splitTx resp merged inputIndes outputIndes).sendTxData ch merged = .ok m') :
      Turned ch m (.submitSplitTx sessionID splitTx resp) m'
  /-- A nil entry, with the submission noted all the same. -/
  | invalid {sessionID : ℕ} {tx : MsgTx} {resp : ℕ} {p : SessionParticipant} {err : Err} {m₁ : JoinSession}
      (hstage : m.progress = .signedTx) (hp : m.participants.lookup sessionID = some p)
      (hsigning : Signing ch sessionID tx resp m (some err) m₁) (hfree : resp ∉ m₁.replies.map Prod.fst) :
      Turned ch m (.submitSignedTx sessionID tx resp) { m₁ with replies := m₁.replies ++ [(resp, .err err)] }
  | signed {sessionID : ℕ} {tx : MsgTx} {resp : ℕ} {p : SessionParticipant} {m' : JoinSession}
      (hstage : m.progress = .signedTx) (hp : m.participants.lookup sessionID = some p)
      (hsigning : Signing ch sessionID tx resp m none m') : Turned ch m (.submitSignedTx sessionID tx resp) m'
  | publishing {sessionID : ℕ} {tx : Option MsgTx} {resp : ℕ} {p : SessionParticipant}
      (hstage : m.progress = .publishTx) (hp : m.participants.lookup sessionID = some p)
      (hopen : (m.withPublished sessionID p.publisher tx resp).checkAllSentPublished = false)
      (hwhole : p.publisher = true → ∀ result, tx = some result → result.Whole) :
      Turned ch m (.publishResult sessionID tx resp) (m.withPublished sessionID p.publisher tx resp)
  | published {sessionID : ℕ} {tx : Option MsgTx} {resp : ℕ} {p : SessionParticipant} {m₁ : JoinSession}
      (hstage : m.progress = .publishTx) (hp : m.participants.lookup sessionID = some p)
      (hall : (m.withPublished sessionID p.publisher tx resp).checkAllSentPublished = true)
      (hsend : (m.withPublished sessionID p.publisher tx resp).sendPublished ch = .ok m₁)
      (hwhole : p.publisher = true → ∀ result, tx = some result → result.Whole) :
      Turned ch m (.publishResult sessionID tx resp) { m₁ with finished := m₁.finished + 1 }

theorem turned_of_refused {ev : Event} {resp : ℕ} {err : Err} (hresp : ev.resp = some resp) (hnot : ¬ ev.Served m)
    (h : m.send (some resp) (.err err) = .ok m') : Turned ch m ev m' := by
  obtain ⟨c, hc, hfree, rfl⟩ := send_eq_ok.mp h
  cases hc
  exact .refused hresp hnot hfree

theorem turned_of_step {ev : Event} (h : m.step (ch, ev) = some m') : Turned ch m ev m' := by
  replace h := step_eq_some h
  cases ev with
  | clientTimeout =>
    cases h
    exact .fired
  | removeSessionID sessionID =>
    cases h
    exact .left sessionID
  | submitSplitTx sessionID splitTx resp =>
    rcases inStage_eq_ok.mp h with ⟨hstage, hsend⟩ | ⟨hstage, ⟨err, m₁, hdone, hsend⟩ | hdone⟩
    · exact turned_of_refused rfl (fun hserved => hstage hserved.1) hsend
    · rcases addParticipantInput_eq_ok.mp hdone with ⟨hnone, herr, rfl⟩ | ⟨_, herr, _⟩
      · exact turned_of_refused rfl (fun hserved => hnone hserved.2) hsend
      · cases herr
    · rcases addParticipantInput_eq_ok.mp hdone with ⟨_, herr, _⟩ | ⟨hmem, _, merged, inputIndes, outputIndes, hmerge, hrest⟩
      · cases herr
      · split_ifs at hrest with hall
        · exact .merged hstage hmem hmerge hall hrest
        · rw [hrest]
          exact .merging hstage hmem hmerge (Bool.eq_false_iff.mpr hall)
  | submitSignedTx sessionID tx resp =>
    rcases inStage_eq_ok.mp h with ⟨hstage, hsend⟩ | ⟨hstage, ⟨err, m₁, hdone, hsend⟩ | hdone⟩
    · exact turned_of_refused rfl (fun hserved => hstage hserved.1) hsend
    · have hsigning := mergeSignedInput_eq_ok.mp hdone
      rcases hp : m.participants.lookup sessionID with _ | p
      · cases hsigning with
        | unknown => exact turned_of_refused rfl (fun hserved => AList.lookup_eq_none.mp hp hserved.2) hsend
        | nilInput hp' => rw [hp] at hp'; cases hp'
        | nilOutput hp' => rw [hp] at hp'; cases hp'
      · obtain ⟨c, hc, hfree, rfl⟩ := send_eq_ok.mp hsend
        cases hc
        exact .invalid hstage hp hsigning hfree
    · have hsigning := mergeSignedInput_eq_ok.mp hdone
      obtain ⟨p, hp⟩ : ∃ p, m.participants.lookup sessionID = some p := by
        cases hsigning with
        | waiting hp => exact ⟨_, hp⟩
        | completed hp => exact ⟨_, hp⟩
      exact .signed hstage hp hsigning
  | publishResult sessionID tx resp =>
    rcases inStage_eq_ok.mp h with ⟨hstage, hsend⟩ | ⟨hstage, ⟨err, m₁, hdone, hsend⟩ | hdone⟩
    · exact turned_of_refused rfl (fun hserved => hstage hserved.1) hsend
    · rcases publishTxResult_eq_ok.mp hdone with ⟨hnone, _, rfl⟩ | ⟨_, _, herr, _⟩
      · exact turned_of_refused rfl (fun hserved => AList.lookup_eq_none.mp hnone hserved.2) hsend
      · cases herr
    · rcases publishTxResult_eq_ok.mp hdone with ⟨_, herr, _⟩ | ⟨p, hp, _, hwhole, hrest⟩
      · cases herr
      · split_ifs at hrest with hall
        · obtain ⟨m₁, hsend, rfl⟩ := hrest
          exact .published hstage hp hall hsend hwhole
        · rw [hrest]
          exact .publishing hstage hp (Bool.eq_false_iff.mpr hall) hwhole

/-! ### Turns that are stuck -/

/-- A computation that can panic but has nothing to send. -/
def NoSend {β : Type} (x : Except Halt β) : Prop := ∀ m, x ≠ .error (.send m)

namespace NoSend

theorem ok {β : Type} (b : β) : NoSend (.ok b) := fun _ h => by cases h

theorem panic {β : Type} : NoSend (.error .panic : Except Halt β) := fun _ h => by cases h

theorem bind {β γ : Type} {x : Except Halt β} {f : β → Except Halt γ} (hx : NoSend x) (hf : ∀ b, NoSend (f b)) :
    NoSend (x >>= f) := by
  intro m h
  rcases bind_eq_error.mp h with h | ⟨b, -, h⟩
  · exact hx m h
  · exact hf b m h

theorem ite {β : Type} {c : Prop} [Decidable c] {x y : Except Halt β} (hx : NoSend x) (hy : NoSend y) : NoSend (if c then x else y) := by
  split_ifs
  · exact hx
  · exact hy

end NoSend

theorem copy_noSend (tx : MsgTx) : NoSend tx.copy := .ite .panic (.ok _)

theorem signedBase_noSend (tx : MsgTx) (signedTx : Option MsgTx) : NoSend (signedBase tx signedTx) := by
  cases signedTx with
  | none => exact copy_noSend tx
  | some signedTx => exact .ok _

theorem mergeSplitTx_noSend (splitTx : MsgTx) (merged : Option MsgTx) : NoSend (mergeSplitTx splitTx merged) := by
  cases merged with
  | none => exact (copy_noSend splitTx).bind fun _ => .ok _
  | some merged => exact .ok _

theorem logPublished_noSend (publisher : Bool) (tx : Option MsgTx) : NoSend (logPublished publisher tx) := by
  cases publisher with
  | false => exact .ok _
  | true =>
    cases tx with
    | none => exact .ok _
    | some result => exact .ite .panic (.ok _)

theorem shuffle_noSend {α : Type} (perm : List ℕ) (old : List (Option α)) (indes : List ℕ) (new : List (Option α)) :
    NoSend (shuffle perm old indes new) := by
  induction indes generalizing new with
  | nil => exact .ok _
  | cons i rest ih =>
    rw [shuffle]
    split
    · exact (ih _).bind fun _ => .ok _
    · exact .panic

theorem shuffleAll_noSend (permIn permOut : List ℕ) (merged : MsgTx) (l : List (ℕ × SessionParticipant)) (txIn : List (Option TxIn))
    (txOut : List (Option TxOut)) (participants : GoMap ℕ SessionParticipant) :
    NoSend (shuffleAll permIn permOut merged l txIn txOut participants) := by
  induction l generalizing txIn txOut participants with
  | nil => exact .ok _
  | cons e rest ih =>
    obtain ⟨sid, p⟩ := e
    exact NoSend.bind (shuffle_noSend _ _ _ _) fun _ => NoSend.bind (shuffle_noSend _ _ _ _) fun _ => ih _ _ _

theorem mergeOwn_noSend {α : Type} (own : List (Option α)) (indes : List ℕ) (signed : List (Option α)) :
    NoSend (mergeOwn own indes signed) := by
  induction indes generalizing signed with
  | nil => exact .ok _
  | cons i rest ih =>
    rw [mergeOwn]
    split
    · exact .panic
    · exact .ok _
    · exact .ite (ih _) .panic

/-- A turn that is stuck: an answer that nobody takes, or a loop of sends that has come to somebody who does not
receive any more. -/
inductive Stalled (ch : Choices) (m : JoinSession) : Event → JoinSession → Prop where
  | refused {ev : Event} (hnot : ¬ ev.Served m) : Stalled ch m ev m
  | merged {sessionID : ℕ} {splitTx merged : MsgTx} {resp : ℕ} {inputIndes outputIndes : List ℕ} {m' : JoinSession}
      (hstage : m.progress = .rawTx) (hmem : sessionID ∈ m.participants.keys)
      (hmerge : mergeSplitTx splitTx m.mergedSplitTx = .ok (merged, inputIndes, outputIndes))
      (hall : (m.withSplitTx sessionID splitTx resp merged inputIndes outputIndes).checkTxSubmitted = true)
      (hsend : (m.withSplitTx sessionID splitTx resp merged inputIndes outputIndes).sendTxData ch merged = .error (.send m')) :
      Stalled ch m (.submitSplitTx sessionID splitTx resp) m'
  | invalid {sessionID : ℕ} {tx : MsgTx} {resp : ℕ} {p : SessionParticipant} {err : Err} {m₁ : JoinSession}
      (hstage : m.progress = .signedTx) (hp : m.participants.lookup sessionID = some p)
      (hsigning : Signing ch sessionID tx resp m (some err) m₁) : Stalled ch m (.submitSignedTx sessionID tx resp) m₁
  | signed {sessionID : ℕ} {tx : MsgTx} {resp : ℕ} {p : SessionParticipant} {base : MsgTx} {txIn : List (Option TxIn)}
      {txOut : List (Option TxOut)} {m' : JoinSession} (hstage : m.progress = .signedTx)
      (hp : m.participants.lookup sessionID = some p) (hbase : signedBase tx m.signedTx = .ok base)
      (hin : mergeOwn tx.txIn p.inputIndes base.txIn = .ok (true, txIn))
      (hout : mergeOwn tx.txOut p.outputIndes base.txOut = .ok (true, txOut))
      (hall : (m.withSignedTx sessionID tx resp).checkInputsSigned = true)
      (hsend : sendSigned (ch.intn (GoMap.len (m.withSignedTx sessionID tx resp).participants))
        { base with txIn := txIn, txOut := txOut } 0
        (GoMap.range ch.order [271] (m.withSignedTx sessionID tx resp).participants)
        { m.withSignedTx sessionID tx resp with signedTx := some { base with txIn := txIn, txOut := txOut } } = .error (.send m')) :
      Stalled ch m (.submitSignedTx sessionID tx resp) m'
  | published {sessionID : ℕ} {tx : Option MsgTx} {resp : ℕ} {p : SessionParticipant} {m' : JoinSession}
      (hstage : m.progress = .publishTx) (hp : m.participants.lookup sessionID = some p)
      (hsend : (m.withPublished sessionID p.publisher tx resp).sendPublished ch = .error (.send m')) :
      Stalled ch m (.publishResult sessionID tx resp) m'

theorem addParticipantInput_stuck {sessionID : ℕ} {splitTx : MsgTx} {resp : ℕ} (hstage : m.progress = .rawTx)
    (h : m.addParticipantInput ch sessionID splitTx resp = .error (.send m')) :
    Stalled ch m (.submitSplitTx sessionID splitTx resp) m' := by
  rw [addParticipantInput] at h
  split_ifs at h with hmem
  rcases bind_eq_error.mp h with hmerge | ⟨⟨merged, inputIndes, outputIndes⟩, hmerge, h⟩
  · exact absurd hmerge (mergeSplitTx_noSend _ _ m')
  · dsimp only at h
    split_ifs at h with hall
    rcases bind_eq_error.mp h with hsend | ⟨m₁, -, h⟩
    · exact .merged hstage hmem hmerge hall hsend
    · cases h

theorem mergeSignedInput_stuck {sessionID : ℕ} {tx : MsgTx} {resp : ℕ} (hstage : m.progress = .signedTx)
    (h : m.mergeSignedInput ch sessionID tx resp = .error (.send m')) :
    Stalled ch m (.submitSignedTx sessionID tx resp) m' := by
  rw [mergeSignedInput] at h
  split at h
  · cases h
  · rename_i p hp
    rcases bind_eq_error.mp h with hbase | ⟨base, hbase, h⟩
    · exact absurd hbase (signedBase_noSend _ _ m')
    rcases bind_eq_error.mp h with hin | ⟨⟨inputs, txIn⟩, hin, h⟩
    · exact absurd hin (mergeOwn_noSend _ _ _ m')
    cases inputs with
    | false => cases h
    | true =>
      rcases bind_eq_error.mp h with hout | ⟨⟨outputs, txOut⟩, hout, h⟩
      · exact absurd hout (mergeOwn_noSend _ _ _ m')
      cases outputs with
      | false => cases h
      | true =>
        dsimp only at h
        by_cases hall : (m.withSignedTx sessionID tx resp).checkInputsSigned = true
        · rcases bind_eq_error.mp ((if_pos hall).symm.trans h) with hsend | ⟨m₁, -, h⟩
          · exact .signed hstage hp hbase hin hout hall hsend
          · cases h
        · cases (if_neg hall).symm.trans h

theorem publishTxResult_stuck {sessionID : ℕ} {tx : Option MsgTx} {resp : ℕ} (hstage : m.progress = .publishTx)
    (h : m.publishTxResult ch sessionID tx resp = .error (.send m')) :
    Stalled ch m (.publishResult sessionID tx resp) m' := by
  rw [publishTxResult] at h
  split at h
  · cases h
  · rename_i p hp
    rcases bind_eq_error.mp h with hlog | ⟨-, -, h⟩
    · exact absurd hlog (logPublished_noSend _ _ m')
    split_ifs at h with hall
    rcases bind_eq_error.mp h with hsend | ⟨m₁, -, h⟩
    · exact .published hstage hp hsend
    · cases h

/-- A request that is stuck: it is refused, its handler is, or its answer. -/
theorem inStage_stuck {stage : Progress} {resp : ℕ} {handler : JoinSession → Except Halt (Option Err × JoinSession)}
    (h : inStage stage resp handler m = .error (.send m')) :
    (m.progress ≠ stage ∧ m' = m) ∨ m.progress = stage ∧
      (handler m = .error (.send m') ∨ ∃ err, handler m = .ok (some err, m')) := by
  rw [inStage] at h
  by_cases hstage : m.progress = stage
  · rw [if_neg (not_not.mpr hstage)] at h
    refine .inr ⟨hstage, ?_⟩
    rcases bind_eq_error.mp h with h | ⟨⟨err, m₁⟩, hdone, h⟩
    · exact .inl h
    · cases err with
      | none => cases h
      | some err =>
        have hsend : m₁.send (some resp) (.err err) = .error (.send m') := h
        cases send_eq_error hsend
        exact .inr ⟨err, hdone⟩
  · rw [if_pos hstage] at h
    cases send_eq_error h
    exact .inl ⟨hstage, rfl⟩

theorem stalled_of_stuck {ev : Event} (h : handle ch m ev = .error (.send m')) : Stalled ch m ev m' := by
  cases ev with
  | clientTimeout => cases h
  | removeSessionID => cases h
  | submitSplitTx sessionID splitTx resp =>
    rcases inStage_stuck h with ⟨hstage, rfl⟩ | ⟨hstage, hstuck | ⟨err, hdone⟩⟩
    · exact .refused fun hserved => hstage hserved.1
    · exact addParticipantInput_stuck hstage hstuck
    · rcases addParticipantInput_eq_ok.mp hdone with ⟨hnone, -, rfl⟩ | ⟨-, herr, -⟩
      · exact .refused fun hserved => hnone hserved.2
      · cases herr
  | submitSignedTx sessionID tx resp =>
    rcases inStage_stuck h with ⟨hstage, rfl⟩ | ⟨hstage, hstuck | ⟨err, hdone⟩⟩
    · exact .refused fun hserved => hstage hserved.1
    · exact mergeSignedInput_stuck hstage hstuck
    · have hsigning := mergeSignedInput_eq_ok.mp hdone
      rcases hp : m.participants.lookup sessionID with _ | p
      · cases hsigning with
        | unknown => exact .refused fun hserved => AList.lookup_eq_none.mp hp hserved.2
        | nilInput hp' => rw [hp] at hp'; cases hp'
        | nilOutput hp' => rw [hp] at hp'; cases hp'
      · exact .invalid hstage hp hsigning
  | publishResult sessionID tx resp =>
    rcases inStage_stuck h with ⟨hstage, rfl⟩ | ⟨hstage, hstuck | ⟨err, hdone⟩⟩
    · exact .refused fun hserved => hstage hserved.1
    · exact publishTxResult_stuck hstage hstuck
    · rcases publishTxResult_eq_ok.mp hdone with ⟨hnone, -, rfl⟩ | ⟨-, -, herr, -⟩
      · exact .refused fun hserved => AList.lookup_eq_none.mp hnone hserved.2
      · cases herr

theorem leaves_eq_some {x : Except Halt JoinSession} : leaves x = some m ↔ x = .ok m ∨ x = .error (.send m) := by
  rcases x with (_ | m₁) | m₁
  · simp [leaves]
  · simp [leaves]
  · simp [leaves]

/-- A turn gets through or is stuck. -/
theorem step_or_stalled {ev : Event} (h : m.attempt (ch, ev) = some m') : m.step (ch, ev) = some m' ∨ Stalled ch m ev m' := by
  cases ev with
  | clientTimeout =>
    rw [attempt] at h
    dsimp only at h
    split_ifs at h with htimer
    left
    rw [step]
    dsimp only
    rw [if_pos htimer]
    cases h
    rfl
  | removeSessionID => exact .inl h
  | submitSplitTx => exact (leaves_eq_some.mp h).imp toOption_eq_some.mpr stalled_of_stuck
  | submitSignedTx => exact (leaves_eq_some.mp h).imp toOption_eq_some.mpr stalled_of_stuck
  | publishResult => exact (leaves_eq_some.mp h).imp toOption_eq_some.mpr stalled_of_stuck

/-- A loop over the participants that is stuck has sent some of them what it sends. -/
theorem sendAll_stuck {chanOf : SessionParticipant → Option ℕ} {res : SessionParticipant → Response} {o : VisitOrder ℕ} {site : List ℕ}
    (h : (GoMap.values o site m.participants).foldlM (fun m p => m.send (chanOf p) (res p)) m = .error (.send m')) :
    ∃ new : List (ℕ × Response), m' = { m with replies := m.replies ++ new } ∧
      ∀ e ∈ new, ∃ sid p, m.participants.lookup sid = some p ∧ chanOf p = some e.1 ∧ res p = e.2 := by
  obtain ⟨new, heq, hnew⟩ := foldlM_send_eq_error h
  cases heq
  refine ⟨new, rfl, fun e he => ?_⟩
  obtain ⟨p, hp, hsent⟩ := hnew e he
  obtain ⟨sid, hsid⟩ := GoMap.mem_values.mp hp
  exact ⟨sid, p, hsid, hsent⟩

theorem sendTxData_stuck {merged : MsgTx} (h : m.sendTxData ch merged = .error (.send m')) :
    (∃ txIn txOut participants,
      shuffleAll (ch.perm 406 merged.txIn.length) (ch.perm 407 merged.txOut.length) merged
          (GoMap.range ch.order [421] m.participants) (List.replicate merged.txIn.length none)
          (List.replicate merged.txOut.length none) m.participants = .ok (txIn, txOut, participants) ∧
        sendMerged ch 446 { merged with txIn := txIn, txOut := txOut }
          { m with participants := participants
                   mergedSplitTx := some { merged with txIn := txIn, txOut := txOut } } = .error (.send m')) ∨
      m.sendMerged ch 461 merged = .error (.send m') := by
  rw [sendTxData] at h
  by_cases hrandom : m.randomIndex = true ∧ 1 < GoMap.len m.participants
  · rw [if_pos hrandom] at h
    rcases bind_eq_error.mp h with hshuffle | ⟨⟨txIn, txOut, participants⟩, hshuffle, h⟩
    · exact absurd hshuffle (shuffleAll_noSend _ _ _ _ _ _ _ m')
    · rcases bind_eq_error.mp h with hsend | ⟨m₁, -, h⟩
      · exact .inl ⟨txIn, txOut, participants, hshuffle, hsend⟩
      · cases h
  · rw [if_neg hrandom] at h
    rcases bind_eq_error.mp h with hsend | ⟨m₁, -, h⟩
    · exact .inr hsend
    · cases h

/-! ### What a turn leaves of a participant -/

theorem lookup_withSplitTx {sessionID sid : ℕ} {splitTx merged : MsgTx} {resp : ℕ} {inputIndes outputIndes : List ℕ}
    {p' : SessionParticipant}
    (h : (m.withSplitTx sessionID splitTx resp merged inputIndes outputIndes).participants.lookup sid = some p') :
    ∃ p, m.participants.lookup sid = some p ∧ p'.signedTx = p.signedTx ∧ p'.sentPublished = p.sentPublished ∧
      p'.publisher = p.publisher := by
  rw [participants_withSplitTx] at h
  by_cases hsid : sid = sessionID
  · rw [hsid, GoMap.lookup_modify_self, Option.map_eq_some_iff] at h
    obtain ⟨p, hp, rfl⟩ := h
    exact ⟨p, hsid ▸ hp, rfl, rfl, rfl⟩
  · rw [GoMap.lookup_modify_ne hsid] at h
    exact ⟨p', h, rfl, rfl, rfl⟩

/-- `SendTxData` changes nothing in a participant but its indices. -/
theorem lookup_sendTxData {merged : MsgTx} (hmerged : m.mergedSplitTx = some merged) (h : m.sendTxData ch merged = .ok m')
    (sid : ℕ) : ∃ ins outs : SessionParticipant → List ℕ, m'.participants.lookup sid =
      (m.participants.lookup sid).map fun p => { p with inputIndes := ins p, outputIndes := outs p } := by
  by_cases hrandom : m.randomIndex = true ∧ 1 < GoMap.len m.participants
  · obtain ⟨merged', m₁, m₂, hshuffled, hsend, -, rfl⟩ := exists_shuffled hmerged hrandom h
    obtain ⟨ins, outs, hlookup⟩ := hshuffled.lookup sid
    obtain ⟨-, -, hsent⟩ := sendAll_of_ok hsend
    refine ⟨fun _ => ins, fun _ => outs, ?_⟩
    show m₂.participants.lookup sid = _
    rw [hsent]
    exact hlookup
  · obtain ⟨m₁, hsend, rfl⟩ := (sendTxData_plain hrandom).mp h
    obtain ⟨-, -, hsent⟩ := sendAll_of_ok hsend
    refine ⟨fun p => p.inputIndes, fun p => p.outputIndes, ?_⟩
    show m₁.participants.lookup sid = _
    rw [hsent]
    exact Option.map_id'.symm

/-- The rest of the session after `SendTxData`. -/
theorem sendTxData_rest {merged : MsgTx} (h : m.sendTxData ch merged = .ok m') :
    m'.publishedTx = m.publishedTx ∧ m'.finished = m.finished ∧ m'.signedTx = m.signedTx ∧
      m'.progress = if m.randomIndex = true ∧ 1 < GoMap.len m.participants then .signedTx else m.progress := by
  by_cases hrandom : m.randomIndex = true ∧ 1 < GoMap.len m.participants
  · obtain ⟨txIn, txOut, participants, m₁, -, hsend, rfl⟩ := (sendTxData_random hrandom).mp h
    obtain ⟨-, -, hsent⟩ := sendAll_of_ok hsend
    rw [if_pos hrandom]
    exact ⟨by rw [hsent], by rw [hsent], by rw [hsent], rfl⟩
  · obtain ⟨m₁, hsend, rfl⟩ := (sendTxData_plain hrandom).mp h
    obtain ⟨-, -, hsent⟩ := sendAll_of_ok hsend
    rw [if_neg hrandom]
    exact ⟨by rw [hsent], by rw [hsent], by rw [hsent], by rw [hsent]⟩

theorem lookup_withSignedTx (sessionID : ℕ) (tx : MsgTx) (resp sid : ℕ) (m : JoinSession) :
    (m.withSignedTx sessionID tx resp).participants.lookup sid = (m.participants.lookup sid).map fun p =>
      if sid = sessionID then { p with signedTx := some tx, chanSubmitSignedTxRes := some resp } else p := by
  rw [participants_withSignedTx]
  by_cases hsid : sid = sessionID
  · subst hsid
    simp
  · rw [GoMap.lookup_modify_ne hsid]
    simp [hsid]

/-- After a signed transaction the participants are as with the submission noted, but for the publisher. -/
theorem Signing.lookup {sessionID : ℕ} {tx : MsgTx} {resp : ℕ} {p : SessionParticipant} {err : Option Err}
    (hp : m.participants.lookup sessionID = some p) (h : Signing ch sessionID tx resp m err m') (sid : ℕ) :
    ∃ publisher : SessionParticipant → Bool, m'.participants.lookup sid =
      ((m.withSignedTx sessionID tx resp).participants.lookup sid).map fun p => { p with publisher := publisher p } := by
  have hsame : ∀ m₁ : JoinSession, m₁.participants = (m.withSignedTx sessionID tx resp).participants →
      ∃ publisher : SessionParticipant → Bool, m₁.participants.lookup sid =
        ((m.withSignedTx sessionID tx resp).participants.lookup sid).map fun p => { p with publisher := publisher p } :=
    fun m₁ heq => ⟨SessionParticipant.publisher, by rw [heq]; exact Option.map_id'.symm⟩
  cases h with
  | unknown hnone =>
    rw [hp] at hnone
    cases hnone
  | nilInput => exact hsame _ rfl
  | nilOutput => exact hsame _ rfl
  | waiting => exact hsame _ rfl
  | completed _ _ _ _ _ hsend =>
    obtain ⟨cs, -, -, -, rfl⟩ := sendSigned_eq_ok.mp hsend
    exact lookup_markPublisher ..

/-- The same when handing out the signed transaction is stuck: some have it. -/
theorem sendSigned_stuck {sessionID : ℕ} {tx signedTx : MsgTx} {resp randIndex i : ℕ} {l : List (ℕ × SessionParticipant)}
    (h : sendSigned randIndex signedTx i l { m.withSignedTx sessionID tx resp with signedTx := some signedTx } = .error (.send m')) :
    (∀ sid, ∃ publisher : SessionParticipant → Bool, m'.participants.lookup sid =
        ((m.withSignedTx sessionID tx resp).participants.lookup sid).map fun p => { p with publisher := publisher p }) ∧
      ∃ new : List (ℕ × Response), m' = { m with
          participants := m'.participants
          signedTx := some signedTx
          replies := m.replies ++ new } ∧
        ∀ e ∈ new, ∃ publisher, e.2 = .submitSignedTxRes signedTx publisher := by
  obtain ⟨visited, new, heq, hnew⟩ := sendSigned_eq_error h
  cases heq
  exact ⟨fun sid => lookup_markPublisher .., new, rfl, hnew⟩

/-- Either the stage goes on, and nothing but the submission is new, or it is complete. -/
theorem Signing.rest {sessionID : ℕ} {tx : MsgTx} {resp : ℕ} {p : SessionParticipant} {err : Option Err}
    (hp : m.participants.lookup sessionID = some p) (h : Signing ch sessionID tx resp m err m') :
    m'.publishedTx = m.publishedTx ∧ m'.finished = m.finished ∧
      (m'.progress = m.progress ∧ m'.participants = (m.withSignedTx sessionID tx resp).participants ∨
        m'.progress = .publishTx ∧
          ∀ sid q, (m.withSignedTx sessionID tx resp).participants.lookup sid = some q → q.signedTx.isSome = true) := by
  cases h with
  | unknown hnone =>
    rw [hp] at hnone
    cases hnone
  | nilInput => exact ⟨rfl, rfl, .inl ⟨rfl, rfl⟩⟩
  | nilOutput => exact ⟨rfl, rfl, .inl ⟨rfl, rfl⟩⟩
  | waiting => exact ⟨rfl, rfl, .inl ⟨rfl, rfl⟩⟩
  | completed _ _ _ _ hall hsend =>
    obtain ⟨cs, -, -, -, rfl⟩ := sendSigned_eq_ok.mp hsend
    refine ⟨rfl, rfl, .inr ⟨rfl, fun sid q hq => ?_⟩⟩
    exact List.all_eq_true.mp hall (sid, q) (GoMap.mem_toList.mpr hq)

theorem lookup_withPublished (sessionID : ℕ) (publisher : Bool) (tx : Option MsgTx) (resp sid : ℕ) (m : JoinSession) :
    (m.withPublished sessionID publisher tx resp).participants.lookup sid = (m.participants.lookup sid).map fun p =>
      if sid = sessionID then { p with sentPublished := true, chanPublishedTxRes := some resp } else p := by
  rw [participants_withPublished]
  by_cases hsid : sid = sessionID
  · subst hsid
    simp
  · rw [GoMap.lookup_modify_ne hsid]
    simp [hsid]

/-! ### The stages -/

/-- What holds in each stage. -/
structure Staged (m : JoinSession) : Prop where
  unsigned : m.progress = .rawTx → ∀ sid p, m.participants.lookup sid = some p → p.signedTx = none
  signed : m.progress = .publishTx → ∀ sid p, m.participants.lookup sid = some p → p.signedTx.isSome = true
  unpublished : m.progress ≠ .publishTx → ∀ sid p, m.participants.lookup sid = some p →
    p.sentPublished = false ∧ p.publisher = false
  unfinished : m.progress ≠ .publishTx → m.publishedTx = none ∧ m.finished = 0

theorem staged_newJoinSession (randomIndex : Bool) (waitingPars : List ℕ) : (newJoinSession randomIndex waitingPars).Staged where
  unsigned _ sid p hp := by
    rw [lookup_newJoinSession hp]
    rfl
  signed h := by cases h
  unpublished _ sid p hp := by
    rw [lookup_newJoinSession hp]
    exact ⟨rfl, rfl⟩
  unfinished _ := ⟨rfl, rfl⟩

/-- Only the participants, the progress and the outcome matter. -/
theorem Staged.leave (h : m.Staged)
    (hlookup : ∀ sid p, m'.participants.lookup sid = some p → m.participants.lookup sid = some p)
    (hprogress : m'.progress = m.progress) (hpublished : m'.publishedTx = m.publishedTx) (hfinished : m'.finished = m.finished) :
    m'.Staged where
  unsigned hstage sid p hp := h.unsigned (hprogress ▸ hstage) sid p (hlookup sid p hp)
  signed hstage sid p hp := h.signed (hprogress ▸ hstage) sid p (hlookup sid p hp)
  unpublished hstage sid p hp := h.unpublished (hprogress ▸ hstage) sid p (hlookup sid p hp)
  unfinished hstage := by
    rw [hpublished, hfinished]
    exact h.unfinished (hprogress ▸ hstage)

theorem Staged.withSplitTx (h : m.Staged) (hstage : m.progress = .rawTx) (sessionID : ℕ) (splitTx : MsgTx) (resp : ℕ)
    (merged : MsgTx) (inputIndes outputIndes : List ℕ) :
    (m.withSplitTx sessionID splitTx resp merged inputIndes outputIndes).Staged := by
  refine ⟨fun _ sid p' hp' => ?_, fun h' => ?_, fun hne sid p' hp' => ?_, fun hne => h.unfinished hne⟩
  · obtain ⟨p, hp, hsigned, -, -⟩ := lookup_withSplitTx hp'
    rw [hsigned]
    exact h.unsigned hstage sid p hp
  · rw [show (m.withSplitTx sessionID splitTx resp merged inputIndes outputIndes).progress = .rawTx from hstage] at h'
    cases h'
  · obtain ⟨p, hp, -, hsent, hpublisher⟩ := lookup_withSplitTx hp'
    rw [hsent, hpublisher]
    exact h.unpublished hne sid p hp

theorem Staged.sendTxData {merged : MsgTx} (h : m.Staged) (hstage : m.progress = .rawTx) (hmerged : m.mergedSplitTx = some merged)
    (hsend : m.sendTxData ch merged = .ok m') : m'.Staged := by
  obtain ⟨hpublished, hfinished, -, hprogress⟩ := sendTxData_rest hsend
  have hnot : m.progress ≠ .publishTx := by
    rw [hstage]
    decide
  have hnot' : m'.progress ≠ .publishTx := by
    rw [hprogress]
    split_ifs
    · decide
    · exact hnot
  have hback : ∀ sid p', m'.participants.lookup sid = some p' → ∃ p, m.participants.lookup sid = some p ∧
      p'.signedTx = p.signedTx ∧ p'.sentPublished = p.sentPublished ∧ p'.publisher = p.publisher := by
    intro sid p' hp'
    obtain ⟨ins, outs, hlookup⟩ := lookup_sendTxData hmerged hsend sid
    rw [hlookup, Option.map_eq_some_iff] at hp'
    obtain ⟨p, hp, rfl⟩ := hp'
    exact ⟨p, hp, rfl, rfl, rfl⟩
  refine ⟨fun _ sid p' hp' => ?_, fun h' => absurd h' hnot', fun _ sid p' hp' => ?_, fun _ => ?_⟩
  · obtain ⟨p, hp, hsigned, -, -⟩ := hback sid p' hp'
    rw [hsigned]
    exact h.unsigned hstage sid p hp
  · obtain ⟨p, hp, -, hsent, hpublisher⟩ := hback sid p' hp'
    rw [hsent, hpublisher]
    exact h.unpublished hnot sid p hp
  · rw [hpublished, hfinished]
    exact h.unfinished hnot

theorem Staged.signing {sessionID : ℕ} {tx : MsgTx} {resp : ℕ} {p : SessionParticipant} {err : Option Err} (h : m.Staged)
    (hstage : m.progress = .signedTx) (hp : m.participants.lookup sessionID = some p)
    (hsigning : Signing ch sessionID tx resp m err m') : m'.Staged := by
  obtain ⟨hpublished, hfinished, hrest⟩ := hsigning.rest hp
  have hnot : m.progress ≠ .publishTx := by
    rw [hstage]
    decide
  refine ⟨fun h' => ?_, fun h' sid q hq => ?_, fun h' sid q hq => ?_, fun h' => ?_⟩
  · rcases hrest with ⟨hsame, -⟩ | ⟨hlast, -⟩
    · rw [hsame, hstage] at h'
      cases h'
    · rw [hlast] at h'
      cases h'
  · rcases hrest with ⟨hsame, -⟩ | ⟨-, hall⟩
    · exact absurd (hsame ▸ h') hnot
    · obtain ⟨publisher, hlookup⟩ := hsigning.lookup hp sid
      rw [hlookup, Option.map_eq_some_iff] at hq
      obtain ⟨q', hq', rfl⟩ := hq
      exact hall sid q' hq'
  · rcases hrest with ⟨-, hsame⟩ | ⟨hlast, -⟩
    · rw [hsame, lookup_withSignedTx, Option.map_eq_some_iff] at hq
      obtain ⟨q', hq', rfl⟩ := hq
      have hold := h.unpublished hnot sid q' hq'
      split_ifs
      · exact hold
      · exact hold
    · exact absurd hlast h'
  · rw [hpublished, hfinished]
    exact h.unfinished hnot

theorem Staged.withPublished (h : m.Staged) (hstage : m.progress = .publishTx) (sessionID : ℕ) (publisher : Bool)
    (tx : Option MsgTx) (resp : ℕ) : (m.withPublished sessionID publisher tx resp).Staged := by
  refine ⟨fun h' => ?_, fun _ sid q hq => ?_, fun h' => absurd hstage h', fun h' => absurd hstage h'⟩
  · rw [show (m.withPublished sessionID publisher tx resp).progress = .publishTx from hstage] at h'
    cases h'
  · rw [lookup_withPublished, Option.map_eq_some_iff] at hq
    obtain ⟨q', hq', rfl⟩ := hq
    have hold := h.signed hstage sid q' hq'
    split_ifs
    · exact hold
    · exact hold

theorem staged_step {ev : Choices × Event} (h : m.Staged) (hstep : m.step ev = some m') : m'.Staged := by
  obtain ⟨ch, ev⟩ := ev
  cases turned_of_step hstep with
  | fired =>
    refine h.leave (fun sid p hp => ?_) rfl rfl rfl
    rcases lookup_timeout_cases ch m sid with hsame | ⟨hgone, -⟩
    · exact hsame ▸ hp
    · rw [hgone] at hp
      cases hp
  | left sessionID =>
    refine h.leave (fun sid p hp => ?_) rfl rfl rfl
    rcases lookup_removeSessionID_cases m sessionID sid with hsame | ⟨hgone, -⟩
    · exact hsame ▸ hp
    · rw [hgone] at hp
      cases hp
  | refused => exact ⟨h.unsigned, h.signed, h.unpublished, h.unfinished⟩
  | merging hstage => exact h.withSplitTx hstage ..
  | merged hstage _ _ _ hsend => exact (h.withSplitTx hstage ..).sendTxData hstage rfl hsend
  | invalid hstage hp hsigning =>
    have hsigned := h.signing hstage hp hsigning
    exact ⟨hsigned.unsigned, hsigned.signed, hsigned.unpublished, hsigned.unfinished⟩
  | signed hstage hp hsigning => exact h.signing hstage hp hsigning
  | publishing hstage hp => exact h.withPublished hstage ..
  | @published sessionID tx resp p m₁ hstage hp _ hsend =>
    have hpublished := h.withPublished hstage sessionID p.publisher tx resp
    obtain ⟨-, -, hsent⟩ := sendAll_of_ok hsend
    rw [hsent]
    exact ⟨hpublished.unsigned, hpublished.signed, hpublished.unpublished, fun h' => absurd hstage h'⟩

/-- The stages hold in every reachable session. -/
theorem staged_of_runsTo {ok : JoinSession → Choices × Event → Prop} {randomIndex : Bool} {waitingPars : List ℕ}
    (h : RunsTo step ok (newJoinSession randomIndex waitingPars) m) : m.Staged :=
  h.invariant (staged_newJoinSession randomIndex waitingPars) fun _ _ _ hm _ hstep => staged_step hm hstep

end JoinSession

end Dcrtxmatcher.Matcher
