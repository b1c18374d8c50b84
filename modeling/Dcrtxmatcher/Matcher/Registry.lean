import Dcrtxmatcher.Lib.GoMap
import Dcrtxmatcher.Lib.Runs

/-! The registry of join sessions (`matcher/jointicker.go`).

`Run` and `RemoveSession` change the map under the lock of the `JoinTicker`;
`RemoveSession` sends on `done` before it gives the lock back. `Stop` reads the
length without the lock and then receives from `done`. A step runs from one of
these points to the next, so that every interleaving of the calls is a run. -/
namespace Dcrtxmatcher.Matcher
open Lib

/-- Where `Stop(true)` is. Once it has returned: how many sessions were registered then. -/
inductive StopCall where
  | notCalled
  /-- Past the check, at `<-joinTicker.done`. -/
  | waiting
  | returned (registered : ℕ)
  deriving DecidableEq, Repr

/-- `JoinTicker`, as far as the registry goes. -/
structure JoinTicker (Session : Type) where
  joinSessions : GoMap ℕ Session
  /-- Whether the one-slot buffer of `done` is full. -/
  done : Bool
  /-- Whether a `RemoveSession` that emptied the map is at `joinTicker.done <- true`; it holds the lock. -/
  sending : Bool
  stopCall : StopCall

/-- `NewTicketJoiner`. -/
def newTicketJoiner (Session : Type) : JoinTicker Session where
  joinSessions := ∅
  done := false
  sending := false
  stopCall := .notCalled

namespace JoinTicker
variable {Session : Type}

inductive Event (Session : Type) where
  /-- `Run` registers the session it has made. -/
  | run (joinSessionID : ℕ) (joinSession : Session)
  /-- `RemoveSession`, up to its send or its return. -/
  | removeSession (joinId : ℕ)
  /-- The send in `RemoveSession`, and its return. -/
  | send
  /-- `Stop(true)`, up to its receive or its return. -/
  | stop
  /-- The receive in `Stop(true)`, and its return. -/
  | receive

def step (joinTicker : JoinTicker Session) : Event Session → Option (JoinTicker Session)
  | .run joinSessionID joinSession =>
    if joinTicker.sending then none
    else some { joinTicker with joinSessions := joinTicker.joinSessions.insert joinSessionID joinSession }
  | .removeSession joinId =>
    if joinTicker.sending then none
    else
      let joinSessions := joinTicker.joinSessions.erase joinId
      some { joinTicker with joinSessions := joinSessions, sending := GoMap.len joinSessions = 0 }
  | .send =>
    if joinTicker.sending ∧ !joinTicker.done then some { joinTicker with done := true, sending := false } else none
  | .stop =>
    if joinTicker.stopCall ≠ .notCalled then none
    else if GoMap.len joinTicker.joinSessions ≠ 0 then some { joinTicker with stopCall := .waiting }
    else some { joinTicker with stopCall := .returned 0 }
  | .receive =>
    if joinTicker.stopCall = .waiting ∧ joinTicker.done then
      some { joinTicker with done := false, stopCall := .returned (GoMap.len joinTicker.joinSessions) }
    else none

/-- A `RemoveSession` that cannot send: it keeps the lock. -/
def Blocked (joinTicker : JoinTicker Session) : Prop := joinTicker.sending = true ∧ joinTicker.done = true

/-- No `RemoveSession` is blocked, and a `Stop(true)` that has returned did so with no session registered. -/
def Orderly (joinTicker : JoinTicker Session) : Prop :=
  ¬ joinTicker.Blocked ∧ ∀ registered, joinTicker.stopCall = .returned registered → registered = 0

/-- The token of an earlier emptying is not in the way: a call that leaves the map
empty finds the buffer empty, so does a `Stop(true)` that has to wait, and no
session is registered between the token for a waiting `Stop(true)` and its receive. -/
def TokenSpent (joinTicker : JoinTicker Session) : Event Session → Prop
  | .removeSession joinId => GoMap.len (joinTicker.joinSessions.erase joinId) = 0 → joinTicker.done = false
  | .stop => GoMap.len joinTicker.joinSessions ≠ 0 → joinTicker.done = false
  | .run _ _ => ¬ (joinTicker.stopCall = .waiting ∧ joinTicker.done = true)
  | _ => True

/-- A send is due to an empty map and finds room; a token that `Stop(true)` can receive stands for an empty map. -/
structure Settled (joinTicker : JoinTicker Session) : Prop where
  sending : joinTicker.sending = true → GoMap.len joinTicker.joinSessions = 0 ∧ joinTicker.done = false
  waiting : joinTicker.stopCall = .waiting → joinTicker.done = true → GoMap.len joinTicker.joinSessions = 0
  returned : ∀ registered, joinTicker.stopCall = .returned registered → registered = 0

theorem Settled.orderly {joinTicker : JoinTicker Session} (h : joinTicker.Settled) : joinTicker.Orderly := by
  refine ⟨?_, h.returned⟩
  intro ⟨hsending, hdone⟩
  have hroom := (h.sending hsending).2
  rw [hdone] at hroom
  cases hroom

theorem settled_newTicketJoiner : (newTicketJoiner Session).Settled := by
  refine ⟨fun h => ?_, fun h => ?_, fun _ h => ?_⟩ <;> cases h

theorem settled_run {joinTicker joinTicker' : JoinTicker Session} {joinSessionID : ℕ} {joinSession : Session}
    (h : joinTicker.Settled) (hok : joinTicker.TokenSpent (.run joinSessionID joinSession))
    (hstep : joinTicker.step (.run joinSessionID joinSession) = some joinTicker') : joinTicker'.Settled := by
  rw [step] at hstep
  by_cases hsending : joinTicker.sending = true
  · rw [if_pos hsending] at hstep
    cases hstep
  · rw [if_neg hsending] at hstep
    cases hstep
    exact ⟨fun hs => absurd hs hsending, fun hwaiting hdone => absurd ⟨hwaiting, hdone⟩ hok, h.returned⟩

theorem settled_removeSession {joinTicker joinTicker' : JoinTicker Session} {joinId : ℕ} (h : joinTicker.Settled)
    (hok : joinTicker.TokenSpent (.removeSession joinId))
    (hstep : joinTicker.step (.removeSession joinId) = some joinTicker') : joinTicker'.Settled := by
  rw [step] at hstep
  by_cases hsending : joinTicker.sending = true
  · rw [if_pos hsending] at hstep
    cases hstep
  · rw [if_neg hsending] at hstep
    cases hstep
    refine ⟨?_, ?_, h.returned⟩
    · intro hs
      have hempty : GoMap.len (joinTicker.joinSessions.erase joinId) = 0 := of_decide_eq_true hs
      exact ⟨hempty, hok hempty⟩
    · intro hwaiting hdone
      -- what was empty stays empty
      have hempty := h.waiting hwaiting hdone
      have hle : GoMap.len (joinTicker.joinSessions.erase joinId) ≤ GoMap.len joinTicker.joinSessions := by
        rw [← GoMap.length_keys, ← GoMap.length_keys, AList.keys_erase]
        exact List.length_erase_le
      show GoMap.len (joinTicker.joinSessions.erase joinId) = 0
      omega

theorem settled_send {joinTicker joinTicker' : JoinTicker Session} (h : joinTicker.Settled)
    (hstep : joinTicker.step .send = some joinTicker') : joinTicker'.Settled := by
  rw [step] at hstep
  by_cases hsend : joinTicker.sending = true ∧ (!joinTicker.done) = true
  · rw [if_pos hsend] at hstep
    cases hstep
    exact ⟨fun hs => (by cases hs), fun _ _ => (h.sending hsend.1).1, h.returned⟩
  · rw [if_neg hsend] at hstep
    cases hstep

theorem settled_stop {joinTicker joinTicker' : JoinTicker Session} (h : joinTicker.Settled)
    (hok : joinTicker.TokenSpent .stop) (hstep : joinTicker.step .stop = some joinTicker') : joinTicker'.Settled := by
  rw [step] at hstep
  split_ifs at hstep with _ hregistered
  · cases hstep
    refine ⟨h.sending, ?_, fun _ hreturned => by cases hreturned⟩
    intro _ hdone
    have hroom := hok hregistered
    rw [show joinTicker.done = true from hdone] at hroom
    cases hroom
  · cases hstep
    refine ⟨h.sending, fun hwaiting => (by cases hwaiting), ?_⟩
    intro registered hreturned
    cases hreturned
    rfl

theorem settled_receive {joinTicker joinTicker' : JoinTicker Session} (h : joinTicker.Settled)
    (hstep : joinTicker.step .receive = some joinTicker') : joinTicker'.Settled := by
  rw [step] at hstep
  by_cases hreceive : joinTicker.stopCall = .waiting ∧ joinTicker.done = true
  · rw [if_pos hreceive] at hstep
    cases hstep
    refine ⟨fun hs => ⟨(h.sending hs).1, rfl⟩, ?_, ?_⟩
    · intro hwaiting
      cases hwaiting
    · intro registered hreturned
      cases hreturned
      exact h.waiting hreceive.1 hreceive.2
  · rw [if_neg hreceive] at hstep
    cases hstep

theorem settled_step {joinTicker joinTicker' : JoinTicker Session} {ev : Event Session} (h : joinTicker.Settled)
    (hok : joinTicker.TokenSpent ev) (hstep : joinTicker.step ev = some joinTicker') : joinTicker'.Settled := by
  cases ev with
  | run joinSessionID joinSession => exact settled_run h hok hstep
  | removeSession joinId => exact settled_removeSession h hok hstep
  | send => exact settled_send h hstep
  | stop => exact settled_stop h hok hstep
  | receive => exact settled_receive h hstep

/-- **The registry is orderly as long as no token is left over.** -/
theorem registry_orderly {joinTicker : JoinTicker Session}
    (h : RunsTo step TokenSpent (newTicketJoiner Session) joinTicker) : joinTicker.Orderly :=
  (h.invariant settled_newTicketJoiner fun _ _ _ => settled_step).orderly

/-- One session comes and goes while `Stop(true)` waits for it. -/
theorem registry_orderly_once :
    ∃ joinTicker : JoinTicker Unit, joinTicker.stopCall = .returned 0 ∧ joinTicker.Orderly :=
  ⟨⟨∅, false, false, .returned 0⟩, rfl,
    registry_orderly (.step (.step (.step (.step (.step .start (.run 1 ()) (fun h => by cases h.1) rfl) .stop (fun _ => rfl) rfl)
      (.removeSession 1) (fun _ => rfl) rfl) .send trivial rfl) .receive trivial rfl)⟩

/-- Two sessions one after the other: the second `RemoveSession` cannot send. And a
`Stop(true)` after a session has come and gone takes its token while another is registered. -/
theorem token_left_over :
    (∃ joinTicker : JoinTicker Unit,
      RunsTo step (fun _ _ => True) (newTicketJoiner Unit) joinTicker ∧ joinTicker.Blocked) ∧
    ∃ joinTicker : JoinTicker Unit,
      RunsTo step (fun _ _ => True) (newTicketJoiner Unit) joinTicker ∧ joinTicker.stopCall = .returned 1 :=
  ⟨⟨_, .of_events [.run 1 (), .removeSession 1, .send, .run 2 (), .removeSession 2] rfl, rfl, rfl⟩,
    ⟨_, .of_events [.run 1 (), .removeSession 1, .send, .run 2 (), .stop, .receive] rfl, rfl⟩⟩

end JoinTicker

end Dcrtxmatcher.Matcher
