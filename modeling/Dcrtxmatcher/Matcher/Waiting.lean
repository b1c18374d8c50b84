import Dcrtxmatcher.Matcher.Registry
import Dcrtxmatcher.Matcher.Session

/-! From a call of `FindMatches` to a join session (`service.go`, `matcher/jointicker.go`).

Each call has a handler, which selects between its context and the unbuffered channel
`done`, and a goroutine in `AddParticipant`, which hands the request to
`JoinTicker.Run` and waits for the answer. `Run` reads the number of waiting
participants without the lock and then makes a session of those it finds with it.
`RemoveWaitingID` is called in between, and also while the request is still on its
way: then it finds nothing, and the participant is taken in later without a client. -/
namespace Dcrtxmatcher.Matcher
open Lib

/-- `Config`, as far as `JoinTicker.Run` reads it. -/
structure Config where
  minParticipants : ℤ
  randomIndex : Bool

/-- `addParticipantReq`; the session id also stands for the response channel. -/
structure AddParticipantReq where
  maxAmount : ℕ
  sessID : ℕ
  deriving DecidableEq, Repr

/-- Where `AddParticipant` is: at the send of the request, at `<-req.resp`, or past it
with the session of the participant it was sent. -/
inductive Adding where
  | sending
  | waiting
  | answered (joinSessionID : ℕ)
  deriving DecidableEq, Repr

/-- Where the handler is: in its select, at `done <- true` behind `ctx.Done()`, with
whether `RemoveWaitingID` found the id, or returned with a `JoinId`. -/
inductive Finding where
  | selecting
  | sendingDone (found : Bool)
  | returned (joinId : ℕ)
  deriving DecidableEq, Repr

/-- A call of `FindMatches`. -/
structure FindCall where
  amount : ℕ
  adding : Adding
  handler : Finding
  deriving DecidableEq, Repr

/-- Where `Run` is: in the select, behind `sessSize`, with how many were taken out of
the queue since, or before `joinTicker.Lock()`. -/
inductive RunPc where
  | select
  | sized (sessSize left : ℕ)
  | registering (joinSessionID : ℕ) (joinSession : JoinSession)

/-- A session as `Run` made it, with the number it had read before and how many were
taken out in between. -/
structure Formed where
  joinSessionID : ℕ
  sessSize : ℕ
  left : ℕ
  session : JoinSession

/-- The service with the queue and the ticker. The calls are known by the session ids
they were given; `formed` and `removed` are the sessions made and the ids that
`RemoveSession` was called with, so far. -/
structure SplitTxMatcherService where
  joinTicker : JoinTicker JoinSession
  waitingPars : GoMap ℕ AddParticipantReq
  run : RunPc
  calls : GoMap ℕ FindCall
  formed : List Formed
  removed : List ℕ

/-- `NewSplitTxMatcherService`, with a new ticker and a new queue. -/
def newSplitTxMatcherService : SplitTxMatcherService where
  joinTicker := newTicketJoiner JoinSession
  waitingPars := ∅
  run := .select
  calls := ∅
  formed := []
  removed := []

/-- One was taken out of the queue. -/
def RunPc.leave : RunPc → RunPc
  | .sized sessSize left => .sized sessSize (left + 1)
  | run => run

namespace SplitTxMatcherService

/-- `RemoveWaitingID`: whether the id was in the queue. -/
def removeWaitingID (sessionID : ℕ) (svc : SplitTxMatcherService) : Bool × SplitTxMatcherService :=
  if sessionID ∈ svc.waitingPars.keys then
    (true, { svc with waitingPars := svc.waitingPars.erase sessionID, run := svc.run.leave })
  else (false, svc)

def setCall (sessID : ℕ) (f : FindCall → FindCall) (svc : SplitTxMatcherService) : SplitTxMatcherService :=
  { svc with calls := GoMap.modify sessID f svc.calls }

/-- The sends on the response channels in `Run`; each blocks unless the call is at its receive. -/
def respond (joinSessionID : ℕ) : List ℕ → GoMap ℕ FindCall → Option (GoMap ℕ FindCall)
  | [], calls => some calls
  | sessID :: rest, calls =>
    if (calls.lookup sessID).any fun call => call.adding = .waiting then
      respond joinSessionID rest (GoMap.modify sessID (fun call => { call with adding := .answered joinSessionID }) calls)
    else none

inductive Event where
  /-- `FindMatches`, up to its select. -/
  | findMatches (sessID amount : ℕ)
  /-- `Run` receives the request of a call. -/
  | receive (sessID : ℕ)
  /-- The ticker, up to the end of the case or the lock. -/
  | tick
  /-- From the lock to the end of the session's set-up. -/
  | form (ch : Choices) (joinSessionID : ℕ)
  | register
  /-- The context of a call is done. -/
  | cancel (sessID : ℕ)
  /-- Goroutine and handler meet at `done`. -/
  | handOff (sessID : ℕ)
  /-- `RemoveSession`, up to its send or its return. -/
  | removeSession (joinId : ℕ)
  /-- The other steps of `RemoveSession` and `Stop`. -/
  | send
  | stop
  | receiveDone

def step (cfg : Config) (svc : SplitTxMatcherService) : Event → Option SplitTxMatcherService
  | .findMatches sessID amount =>
    some { svc with calls := svc.calls.insert sessID ⟨amount, .sending, .selecting⟩ }
  | .receive sessID =>
    match svc.run, svc.calls.lookup sessID with
    | .select, some call =>
      if call.adding = .sending then
        some ({ svc with waitingPars := svc.waitingPars.insert sessID ⟨call.amount, sessID⟩ }.setCall sessID
          fun call => { call with adding := .waiting })
      else none
    | _, _ => none
  | .tick =>
    match svc.run with
    | .select =>
      let sessSize := GoMap.len svc.waitingPars
      if sessSize = 0 then some svc
      else if (sessSize : ℤ) < cfg.minParticipants then some svc
      else some { svc with run := .sized sessSize 0 }
    | _ => none
  | .form ch joinSessionID =>
    match svc.run with
    | .sized sessSize left =>
      let waitingPars := (GoMap.values ch.order [139] svc.waitingPars).map (·.sessID)
      let joinSession := newJoinSession cfg.randomIndex waitingPars
      (respond joinSessionID waitingPars svc.calls).map fun calls =>
        { svc with
          waitingPars := ∅
          run := .registering joinSessionID joinSession
          calls := calls
          formed := svc.formed ++ [⟨joinSessionID, sessSize, left, joinSession⟩] }
    | _ => none
  | .register =>
    match svc.run with
    | .registering joinSessionID joinSession =>
      (svc.joinTicker.step (.run joinSessionID joinSession)).map fun joinTicker =>
        { svc with joinTicker := joinTicker, run := .select }
    | _ => none
  | .cancel sessID =>
    match svc.calls.lookup sessID with
    | some call =>
      if call.handler = .selecting then
        let (found, svc) := svc.removeWaitingID sessID
        some (svc.setCall sessID fun call => { call with handler := .sendingDone found })
      else none
    | none => none
  | .handOff sessID =>
    match svc.calls.lookup sessID with
    | some ⟨_, .answered joinSessionID, .selecting⟩ =>
      some (svc.setCall sessID fun call => { call with handler := .returned joinSessionID })
    | _ => none
  | .removeSession joinId =>
    (svc.joinTicker.step (.removeSession joinId)).map fun joinTicker =>
      { svc with joinTicker := joinTicker, removed := joinId :: svc.removed }
  | .send => (svc.joinTicker.step .send).map fun joinTicker => { svc with joinTicker := joinTicker }
  | .stop => (svc.joinTicker.step .stop).map fun joinTicker => { svc with joinTicker := joinTicker }
  | .receiveDone => (svc.joinTicker.step .receive).map fun joinTicker => { svc with joinTicker := joinTicker }

/-- No id is drawn twice by `xid.New`. -/
def Fresh (svc : SplitTxMatcherService) : Event → Prop
  | .findMatches sessID _ => sessID ∉ svc.calls.keys
  | .form _ joinSessionID => joinSessionID ∉ svc.formed.map (·.joinSessionID)
  | _ => True

/-- The states of the service. -/
def Reachable (cfg : Config) (svc : SplitTxMatcherService) : Prop :=
  RunsTo (step cfg) Fresh newSplitTxMatcherService svc

/-! ### The steps -/

/-- What a step can do. -/
inductive Stepped (cfg : Config) (svc : SplitTxMatcherService) : Event → SplitTxMatcherService → Prop
  | findMatches {sessID amount : ℕ} : Stepped cfg svc (.findMatches sessID amount)
      { svc with calls := svc.calls.insert sessID ⟨amount, .sending, .selecting⟩ }
  | receive {sessID : ℕ} {call : FindCall} (hrun : svc.run = .select) (hcall : svc.calls.lookup sessID = some call)
      (hadding : call.adding = .sending) : Stepped cfg svc (.receive sessID)
        ({ svc with waitingPars := svc.waitingPars.insert sessID ⟨call.amount, sessID⟩ }.setCall sessID
          fun call => { call with adding := .waiting })
  | idle (hrun : svc.run = .select) : Stepped cfg svc .tick svc
  | sized (hrun : svc.run = .select) (hsome : GoMap.len svc.waitingPars ≠ 0)
      (hmin : cfg.minParticipants ≤ GoMap.len svc.waitingPars) :
      Stepped cfg svc .tick { svc with run := .sized (GoMap.len svc.waitingPars) 0 }
  | form {ch : Choices} {joinSessionID sessSize left : ℕ} {waitingPars : List ℕ} {calls : GoMap ℕ FindCall}
      (hrun : svc.run = .sized sessSize left)
      (hwaiting : waitingPars = (GoMap.values ch.order [139] svc.waitingPars).map (·.sessID))
      (hrespond : respond joinSessionID waitingPars svc.calls = some calls) :
      Stepped cfg svc (.form ch joinSessionID)
        { svc with
          waitingPars := ∅
          run := .registering joinSessionID (newJoinSession cfg.randomIndex waitingPars)
          calls := calls
          formed := svc.formed ++ [⟨joinSessionID, sessSize, left, newJoinSession cfg.randomIndex waitingPars⟩] }
  | register {joinSessionID : ℕ} {joinSession : JoinSession} {joinTicker : JoinTicker JoinSession}
      (hrun : svc.run = .registering joinSessionID joinSession)
      (h : svc.joinTicker.step (.run joinSessionID joinSession) = some joinTicker) :
      Stepped cfg svc .register { svc with joinTicker := joinTicker, run := .select }
  | withdrawn {sessID : ℕ} {call : FindCall} (hcall : svc.calls.lookup sessID = some call)
      (hhandler : call.handler = .selecting) (hfound : sessID ∈ svc.waitingPars.keys) : Stepped cfg svc (.cancel sessID)
        ({ svc with waitingPars := svc.waitingPars.erase sessID, run := svc.run.leave }.setCall sessID
          fun call => { call with handler := .sendingDone true })
  | deserted {sessID : ℕ} {call : FindCall} (hcall : svc.calls.lookup sessID = some call)
      (hhandler : call.handler = .selecting) (hfound : sessID ∉ svc.waitingPars.keys) : Stepped cfg svc (.cancel sessID)
        (svc.setCall sessID fun call => { call with handler := .sendingDone false })
  | handOff {sessID amount joinSessionID : ℕ}
      (hcall : svc.calls.lookup sessID = some ⟨amount, .answered joinSessionID, .selecting⟩) :
      Stepped cfg svc (.handOff sessID) (svc.setCall sessID fun call => { call with handler := .returned joinSessionID })
  | removeSession {joinId : ℕ} {joinTicker : JoinTicker JoinSession}
      (h : svc.joinTicker.step (.removeSession joinId) = some joinTicker) :
      Stepped cfg svc (.removeSession joinId) { svc with joinTicker := joinTicker, removed := joinId :: svc.removed }
  | registry {ev : Event} {rev : JoinTicker.Event JoinSession} {joinTicker : JoinTicker JoinSession}
      (h : svc.joinTicker.step rev = some joinTicker) (hrun : ∀ id joinSession, rev ≠ .run id joinSession)
      (hremove : ∀ id, rev ≠ .removeSession id) : Stepped cfg svc ev { svc with joinTicker := joinTicker }

theorem stepped_of_step {cfg : Config} {svc svc' : SplitTxMatcherService} {ev : Event} (h : svc.step cfg ev = some svc') :
    Stepped cfg svc ev svc' := by
  cases ev with
  | findMatches sessID amount =>
    cases h
    exact .findMatches
  | receive sessID =>
    simp only [step] at h
    split at h
    · split_ifs at h with hadding
      cases h
      exact .receive ‹_› ‹_› hadding
    · cases h
  | tick =>
    simp only [step] at h
    split at h
    · split_ifs at h with hzero hmin
      · cases h
        exact .idle ‹_›
      · cases h
        exact .idle ‹_›
      · cases h
        exact .sized ‹_› hzero (not_lt.mp hmin)
    · cases h
  | form ch joinSessionID =>
    simp only [step] at h
    split at h
    · obtain ⟨calls, hrespond, rfl⟩ := Option.map_eq_some_iff.mp h
      exact .form ‹_› rfl hrespond
    · cases h
  | register =>
    simp only [step] at h
    split at h
    · obtain ⟨joinTicker, hstep, rfl⟩ := Option.map_eq_some_iff.mp h
      exact .register ‹_› hstep
    · cases h
  | cancel sessID =>
    simp only [step, removeWaitingID] at h
    split at h
    · by_cases hfound : sessID ∈ svc.waitingPars.keys
      · rw [if_pos hfound] at h
        split_ifs at h with hhandler
        cases h
        exact .withdrawn ‹_› hhandler hfound
      · rw [if_neg hfound] at h
        split_ifs at h with hhandler
        cases h
        exact .deserted ‹_› hhandler hfound
    · cases h
  | handOff sessID =>
    simp only [step] at h
    split at h
    · cases h
      exact .handOff ‹_›
    · cases h
  | removeSession joinId =>
    obtain ⟨joinTicker, hstep, rfl⟩ := Option.map_eq_some_iff.mp h
    exact .removeSession hstep
  | send =>
    obtain ⟨joinTicker, hstep, rfl⟩ := Option.map_eq_some_iff.mp h
    exact .registry hstep (fun _ _ => by simp) fun _ => by simp
  | stop =>
    obtain ⟨joinTicker, hstep, rfl⟩ := Option.map_eq_some_iff.mp h
    exact .registry hstep (fun _ _ => by simp) fun _ => by simp
  | receiveDone =>
    obtain ⟨joinTicker, hstep, rfl⟩ := Option.map_eq_some_iff.mp h
    exact .registry hstep (fun _ _ => by simp) fun _ => by simp

end SplitTxMatcherService

end Dcrtxmatcher.Matcher
