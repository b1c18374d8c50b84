import Dcrtxmatcher.Coinjoin.Types

/-! A join session of the matcher (`matcher/matcher.go`).

`Run` takes one request at a time; a call is known by the number of its response
channel. `RemoveSessionID` is called from outside of `Run`, here between two of its
turns. Map loops and `rand.Perm` are named by the line they stand on. -/
namespace Dcrtxmatcher.Matcher
open Lib
open Coinjoin (TxIn TxOut OutPoint)

/-- `wire.MsgTx`. Entries are pointers: `none` is nil, as `BtcDecode` leaves it
behind an error and `SendTxData` at a place that nobody owns. -/
structure MsgTx where
  serType : ℕ
  version : ℕ
  txIn : List (Option TxIn)
  txOut : List (Option TxOut)
  lockTime : ℕ
  expiry : ℕ
  deriving DecidableEq, Repr

/-- No entry is nil. -/
def MsgTx.Whole (tx : MsgTx) : Prop := none ∉ tx.txIn ∧ none ∉ tx.txOut

inductive Progress where
  | rawTx
  | signedTx
  | publishTx
  deriving DecidableEq, Repr

/-- The errors a request can be answered with. -/
inductive Err where
  /-- `ErrSessionNotFound`. -/
  | sessionNotFound
  /-- `ErrInvalidRequest`. -/
  | invalidRequest
  /-- `ErrPublishTxNotSent`. -/
  | publishTxNotSent
  /-- "SessionID %v submit invalid(nil) input". -/
  | nilInput (sessionID : ℕ)
  deriving DecidableEq, Repr

/-- What is sent on a response channel: `submitSplitTxRes`, `submitSignedTxRes` and
`publishedTxRes` with a result, or any of them with an error. -/
inductive Response where
  | submitSplitTxRes (tx : MsgTx) (inputIndes outputIndes : List ℕ)
  | submitSignedTxRes (tx : MsgTx) (publisher : Bool)
  | publishedTxRes (tx : MsgTx)
  | err (err : Err)
  deriving DecidableEq, Repr

/-- `SessionParticipant`; a channel is the number of its call. -/
structure SessionParticipant where
  id : ℕ
  splitTx : Option MsgTx
  signedTx : Option MsgTx
  inputIndes : List ℕ
  outputIndes : List ℕ
  publisher : Bool
  sentPublished : Bool
  chanSubmitSplitTxRes : Option ℕ
  chanSubmitSignedTxRes : Option ℕ
  chanPublishedTxRes : Option ℕ
  deriving DecidableEq, Repr

/-- A participant as `JoinTicker.Run` makes it. -/
def newParticipant (sessID : ℕ) : SessionParticipant where
  id := sessID
  splitTx := none
  signedTx := none
  inputIndes := []
  outputIndes := []
  publisher := false
  sentPublished := false
  chanSubmitSplitTxRes := none
  chanSubmitSignedTxRes := none
  chanPublishedTxRes := none

/-- `JoinSession` and its `SessionData`. `clientTimeout` is whether the timer is still
to fire, `replies` what was sent on response channels, oldest first, `finished` how
often the session was taken off the registry. -/
structure JoinSession where
  randomIndex : Bool
  participants : GoMap ℕ SessionParticipant
  mergedSplitTx : Option MsgTx
  signedTx : Option MsgTx
  publishedTx : Option MsgTx
  clientTimeout : Bool
  progress : Progress
  replies : List (ℕ × Response)
  finished : ℕ

/-- Ways in which `Run` does not get past a statement. -/
inductive Halt where
  /-- An index out of range or a nil dereference; the process ends. -/
  | panic
  /-- A send on a channel from which nobody receives any more, and the session as it
  stands then: what was sent before has gone out. -/
  | send (m : JoinSession)

/-- `Copy` follows every pointer. -/
def MsgTx.copy (tx : MsgTx) : Except Halt MsgTx :=
  if none ∈ tx.txIn ∨ none ∈ tx.txOut then .error .panic else .ok tx

/-- `TxHash` follows every pointer too. The hash itself is only logged. -/
def MsgTx.txHash (tx : MsgTx) : Except Halt Unit :=
  if none ∈ tx.txIn ∨ none ∈ tx.txOut then .error .panic else .ok ()

/-- `NewJoinSession` and the set-up in `JoinTicker.Run` for the waiting participants. -/
def newJoinSession (randomIndex : Bool) (waitingPars : List ℕ) : JoinSession where
  randomIndex := randomIndex
  participants := GoMap.ofList (waitingPars.map fun sessID => (sessID, newParticipant sessID))
  mergedSplitTx := none
  signedTx := none
  publishedTx := none
  clientTimeout := true
  progress := .rawTx
  replies := []
  finished := 0

/-- What Go leaves open in one turn. -/
structure Choices where
  order : VisitOrder ℕ
  /-- `rand.Perm`. -/
  perm : ℕ → ℕ → List ℕ
  perm_range : ∀ site n, (perm site n).Perm (List.range n)
  /-- `rand.Intn`. -/
  intn : ℕ → ℕ

/-- Maps in their listed order, identity permutations, the first of a draw. -/
def Choices.plain : Choices where
  order := .listed
  perm _ n := List.range n
  perm_range _ _ := .refl _
  intn _ := 0

namespace JoinSession

/-! ### Session data -/

/-- `CheckTxSubmitted`. -/
def checkTxSubmitted (m : JoinSession) : Bool := (GoMap.toList m.participants).all fun e => e.2.splitTx.isSome

/-- `CheckInputsSigned`. -/
def checkInputsSigned (m : JoinSession) : Bool := (GoMap.toList m.participants).all fun e => e.2.signedTx.isSome

/-- `CheckAllSentPublished`. -/
def checkAllSentPublished (m : JoinSession) : Bool := (GoMap.toList m.participants).all fun e => e.2.sentPublished

/-- A send on a response channel: its call receives once. -/
def send (chan : Option ℕ) (res : Response) (m : JoinSession) : Except Halt JoinSession :=
  match chan with
  | none => .error (.send m)
  | some c =>
    if c ∈ m.replies.map Prod.fst then .error (.send m) else .ok { m with replies := m.replies ++ [(c, res)] }

/-! ### Split transactions -/

/-- The loop over one list of indices in `SendTxData`: every entry goes to where the
permutation puts it, and the index with it. -/
def shuffle {α : Type} (perm : List ℕ) (old : List (Option α)) :
    List ℕ → List (Option α) → Except Halt (List (Option α) × List ℕ)
  | [], new => .ok (new, [])
  | i :: rest, new =>
    match perm[i]?, old[i]? with
    | some index, some entry => do
      let (new, indes) ← shuffle perm old rest (new.set index entry)
      .ok (new, index :: indes)
    | _, _ => .error .panic

/-- The loop over the participants in `SendTxData`. -/
def shuffleAll (permIn permOut : List ℕ) (merged : MsgTx) :
    List (ℕ × SessionParticipant) → List (Option TxIn) → List (Option TxOut) → GoMap ℕ SessionParticipant →
      Except Halt (List (Option TxIn) × List (Option TxOut) × GoMap ℕ SessionParticipant)
  | [], txIn, txOut, participants => .ok (txIn, txOut, participants)
  | (sid, p) :: rest, txIn, txOut, participants => do
    let (txIn, inputIndes) ← shuffle permIn merged.txIn p.inputIndes txIn
    let (txOut, outputIndes) ← shuffle permOut merged.txOut p.outputIndes txOut
    shuffleAll permIn permOut merged rest txIn txOut
      (GoMap.modify sid (fun p => { p with inputIndes := inputIndes, outputIndes := outputIndes }) participants)

/-- The merged transaction to everybody, each with the indices it owns. -/
def sendMerged (ch : Choices) (site : ℕ) (merged : MsgTx) (m : JoinSession) : Except Halt JoinSession :=
  (GoMap.values ch.order [site] m.participants).foldlM (fun m p =>
    m.send p.chanSubmitSplitTxRes (.submitSplitTxRes merged p.inputIndes p.outputIndes)) m

/-- `SendTxData`. The session moves on in the first branch only. -/
def sendTxData (ch : Choices) (merged : MsgTx) (m : JoinSession) : Except Halt JoinSession :=
  if m.randomIndex ∧ 1 < GoMap.len m.participants then do
    let permIn := ch.perm 406 merged.txIn.length
    let permOut := ch.perm 407 merged.txOut.length
    let (txIn, txOut, participants) ← shuffleAll permIn permOut merged (GoMap.range ch.order [421] m.participants)
      (List.replicate merged.txIn.length none) (List.replicate merged.txOut.length none) m.participants
    let merged := { merged with txIn := txIn, txOut := txOut }
    let m ← sendMerged ch 446 merged { m with participants := participants, mergedSplitTx := some merged }
    .ok { m with progress := .signedTx, clientTimeout := true }
  else do
    let m ← sendMerged ch 461 merged m
    .ok { m with clientTimeout := true }

/-- `MergedSplitTx` with a further transaction, and the indices its entries get. -/
def mergeSplitTx (splitTx : MsgTx) : Option MsgTx → Except Halt (MsgTx × List ℕ × List ℕ)
  | none => do
    let merged ← splitTx.copy
    .ok (merged, List.range' 0 merged.txIn.length, List.range' 0 merged.txOut.length)
  | some merged =>
    .ok ({ merged with txIn := merged.txIn ++ splitTx.txIn, txOut := merged.txOut ++ splitTx.txOut },
      List.range' merged.txIn.length splitTx.txIn.length, List.range' merged.txOut.length splitTx.txOut.length)

/-- The session with a participant's split transaction taken over. -/
def withSplitTx (sessionID : ℕ) (splitTx : MsgTx) (resp : ℕ) (merged : MsgTx) (inputIndes outputIndes : List ℕ)
    (m : JoinSession) : JoinSession :=
  { m with
    mergedSplitTx := some merged
    participants := GoMap.modify sessionID (fun p =>
      { p with
        splitTx := some splitTx
        chanSubmitSplitTxRes := some resp
        inputIndes := inputIndes
        outputIndes := outputIndes }) m.participants }

/-- `addParticipantInput`. -/
def addParticipantInput (ch : Choices) (sessionID : ℕ) (splitTx : MsgTx) (resp : ℕ) (m : JoinSession) :
    Except Halt (Option Err × JoinSession) :=
  if sessionID ∈ m.participants.keys then do
    let (merged, inputIndes, outputIndes) ← mergeSplitTx splitTx m.mergedSplitTx
    let m := m.withSplitTx sessionID splitTx resp merged inputIndes outputIndes
    if m.checkTxSubmitted then do
      let m ← m.sendTxData ch merged
      .ok (none, m)
    else .ok (none, m)
  else .ok (some .sessionNotFound, m)

/-! ### Signed transactions -/

/-- The loop over one list of indices in `mergeSignedInput`: the participant's own
entries into the session's transaction, `false` at the first nil. -/
def mergeOwn {α : Type} (own : List (Option α)) : List ℕ → List (Option α) → Except Halt (Bool × List (Option α))
  | [], signed => .ok (true, signed)
  | i :: rest, signed =>
    match own[i]? with
    | none => .error .panic
    | some none => .ok (false, signed)
    | some (some entry) =>
      if i < signed.length then mergeOwn own rest (signed.set i (some entry)) else .error .panic

/-- The fully signed transaction to everybody; the participant at `randIndex` is to publish it. -/
def sendSigned (randIndex : ℕ) (signedTx : MsgTx) :
    ℕ → List (ℕ × SessionParticipant) → JoinSession → Except Halt JoinSession
  | _, [], m => .ok m
  | i, (sid, p) :: rest, m => do
    let m := if i = randIndex then
        { m with participants := GoMap.modify sid (fun p => { p with publisher := true }) m.participants }
      else m
    let m ← m.send p.chanSubmitSignedTxRes (.submitSignedTxRes signedTx (i = randIndex))
    sendSigned randIndex signedTx (i + 1) rest m

/-- `SignedTx` when a participant signs: the first one's transaction is copied. -/
def signedBase (tx : MsgTx) : Option MsgTx → Except Halt MsgTx
  | none => tx.copy
  | some signedTx => .ok signedTx

/-- The session with a participant's signed transaction noted. -/
def withSignedTx (sessionID : ℕ) (tx : MsgTx) (resp : ℕ) (m : JoinSession) : JoinSession :=
  { m with
    participants := GoMap.modify sessionID (fun p =>
      { p with signedTx := some tx, chanSubmitSignedTxRes := some resp }) m.participants }

/-- `mergeSignedInput`. -/
def mergeSignedInput (ch : Choices) (sessionID : ℕ) (tx : MsgTx) (resp : ℕ) (m : JoinSession) :
    Except Halt (Option Err × JoinSession) :=
  match m.participants.lookup sessionID with
  | none => .ok (some .sessionNotFound, m)
  | some participant => do
    let m := m.withSignedTx sessionID tx resp
    let signedTx ← signedBase tx m.signedTx
    let (inputs, txIn) ← mergeOwn tx.txIn participant.inputIndes signedTx.txIn
    if !inputs then .ok (some (.nilInput participant.id), { m with signedTx := some { signedTx with txIn := txIn } })
    else do
      let (outputs, txOut) ← mergeOwn tx.txOut participant.outputIndes signedTx.txOut
      let signedTx := { signedTx with txIn := txIn, txOut := txOut }
      let m := { m with signedTx := some signedTx }
      if !outputs then .ok (some (.nilInput participant.id), m)
      else if m.checkInputsSigned then do
        let m ← sendSigned (ch.intn (GoMap.len m.participants)) signedTx 0 (GoMap.range ch.order [271] m.participants) m
        .ok (none, { m with progress := .publishTx })
      else .ok (none, m)

/-! ### The published transaction -/

/-- The outcome to everybody. -/
def sendPublished (ch : Choices) (m : JoinSession) : Except Halt JoinSession :=
  let res := match m.publishedTx with
    | some tx => .publishedTxRes tx
    | none => .err .publishTxNotSent
  (GoMap.values ch.order [309] m.participants).foldlM (fun m p => m.send p.chanPublishedTxRes res) m

/-- The session with a participant's publish result noted. -/
def withPublished (sessionID : ℕ) (publisher : Bool) (tx : Option MsgTx) (resp : ℕ) (m : JoinSession) : JoinSession :=
  { m with
    participants := GoMap.modify sessionID (fun p =>
      { p with sentPublished := true, chanPublishedTxRes := some resp }) m.participants
    publishedTx := if publisher then tx else m.publishedTx }

/-- The log entry for a publish result. Only the publisher's transaction is hashed. -/
def logPublished : Bool → Option MsgTx → Except Halt Unit
  | true, some tx => tx.txHash
  | _, _ => .ok ()

/-- `publishTxResult`. -/
def publishTxResult (ch : Choices) (sessionID : ℕ) (tx : Option MsgTx) (resp : ℕ) (m : JoinSession) :
    Except Halt (Option Err × JoinSession) :=
  match m.participants.lookup sessionID with
  | none => .ok (some .sessionNotFound, m)
  | some participant => do
    let m := m.withPublished sessionID participant.publisher tx resp
    logPublished participant.publisher tx
    if m.checkAllSentPublished then do
      let m ← m.sendPublished ch
      .ok (none, { m with finished := m.finished + 1 })
    else .ok (none, m)

/-! ### Departures -/

/-- `RemoveSessionID`; its error is not looked at. -/
def removeSessionID (sessionID : ℕ) (m : JoinSession) : JoinSession :=
  { m with participants := m.participants.erase sessionID }

/-- What the timeout looks for in a participant. While publishing it looks at the
signed transaction again. -/
def missed : Progress → SessionParticipant → Bool
  | .rawTx, p => p.splitTx = none
  | .signedTx, p => p.signedTx = none
  | .publishTx, p => p.signedTx = none

/-- The timeout. Who is left is not looked at. -/
def timeout (ch : Choices) (m : JoinSession) : JoinSession :=
  let missedP := (GoMap.range ch.order [149] m.participants).filter fun e => missed m.progress e.2
  { m with
    participants := (missedP.map Prod.fst).foldl (fun participants sid => participants.erase sid) m.participants
    clientTimeout := false }

/-! ### The loop -/

/-- An error is the answer to the request. -/
def answer (resp : ℕ) : Option Err × JoinSession → Except Halt JoinSession
  | (none, m) => .ok m
  | (some err, m) => m.send (some resp) (.err err)

/-- A request in the stage it belongs to, or the answer that it does not. -/
def inStage (stage : Progress) (resp : ℕ) (handler : JoinSession → Except Halt (Option Err × JoinSession))
    (m : JoinSession) : Except Halt JoinSession :=
  if m.progress ≠ stage then m.send (some resp) (.err .invalidRequest) else handler m >>= answer resp

inductive Event where
  | clientTimeout
  | submitSplitTx (sessionID : ℕ) (splitTx : MsgTx) (resp : ℕ)
  | submitSignedTx (sessionID : ℕ) (tx : MsgTx) (resp : ℕ)
  | publishResult (sessionID : ℕ) (tx : Option MsgTx) (resp : ℕ)
  | removeSessionID (sessionID : ℕ)

/-- One turn of `Run`, or a removal. -/
def handle (ch : Choices) (m : JoinSession) : Event → Except Halt JoinSession
  | .clientTimeout => .ok (m.timeout ch)
  | .submitSplitTx sessionID splitTx resp => inStage .rawTx resp (addParticipantInput ch sessionID splitTx resp) m
  | .submitSignedTx sessionID tx resp => inStage .signedTx resp (mergeSignedInput ch sessionID tx resp) m
  | .publishResult sessionID tx resp => inStage .publishTx resp (publishTxResult ch sessionID tx resp) m
  | .removeSessionID sessionID => .ok (m.removeSessionID sessionID)

/-- Nothing when the timer is not set or `Run` does not get through. -/
def step (m : JoinSession) (ev : Choices × Event) : Option JoinSession :=
  match ev.2 with
  | .clientTimeout => if m.clientTimeout then (handle ev.1 m ev.2).toOption else none
  | _ => (handle ev.1 m ev.2).toOption

/-- The session behind a turn, or the one in which `Run` is stuck; nothing after a panic. -/
def leaves : Except Halt JoinSession → Option JoinSession
  | .ok m => some m
  | .error (.send m) => some m
  | .error .panic => none

/-- One turn, also when `Run` does not get through. -/
def attempt (m : JoinSession) (ev : Choices × Event) : Option JoinSession :=
  match ev.2 with
  | .clientTimeout => if m.clientTimeout then leaves (handle ev.1 m ev.2) else none
  | _ => leaves (handle ev.1 m ev.2)

end JoinSession

end Dcrtxmatcher.Matcher
