import Dcrtxmatcher.Matcher.Ownership

/-! The RPC handlers of the matcher (`service.go`) around one session.

Each call of `SubmitSplitTx`, `SubmitSignedTransaction` or `PublishResult` has a
handler, which selects between its context and the unbuffered channel `done`, and a
goroutine that hands the request to `Run`, waits for the reply, encodes it and sends
on `done`. After an error, of the session or of the encoding, the goroutine returns
without sending; after `ctx.Done()` the handler sends on `done` itself. -/
namespace Dcrtxmatcher.Matcher
open Lib

/-- A call, with the session id and the decoded transaction of its request. -/
inductive Request where
  | submitSplitTx (sessionID : ℕ) (splitTx : MsgTx)
  | submitSignedTransaction (sessionID : ℕ) (tx : MsgTx)
  | publishResult (sessionID : ℕ) (tx : Option MsgTx)
  deriving DecidableEq, Repr

namespace Request

def sessionID : Request → ℕ
  | submitSplitTx sessionID _ => sessionID
  | submitSignedTransaction sessionID _ => sessionID
  | publishResult sessionID _ => sessionID

/-- The stage the call is for. -/
def stage : Request → Progress
  | submitSplitTx _ _ => .rawTx
  | submitSignedTransaction _ _ => .signedTx
  | publishResult _ _ => .publishTx

/-- The request as `Run` gets it. -/
def event (resp : ℕ) : Request → JoinSession.Event
  | submitSplitTx sessionID splitTx => .submitSplitTx sessionID splitTx resp
  | submitSignedTransaction sessionID tx => .submitSignedTx sessionID tx resp
  | publishResult sessionID tx => .publishResult sessionID tx resp

end Request

/-- What a handler returns to its client, the transaction encoded. -/
inductive RpcResponse where
  | submitInputTxRes (ticketTx : Bytes) (inputsIds outputIds : List ℕ)
  | signTransactionResponse (ticketTx : Bytes) (publisher : Bool)
  | publishResultResponse (ticketTx : Bytes)
  deriving DecidableEq, Repr

/-- Where a handler is: in its select, at `done <- true` after `ctx.Done()`, or returned. -/
inductive Handler where
  | selecting
  | sendingDone
  | returned (resp : RpcResponse)
  deriving DecidableEq, Repr

/-- `taken` is whether `Run` has received the request. -/
structure Call where
  request : Request
  taken : Bool
  handler : Handler
  deriving DecidableEq, Repr

/-- A session with the calls made for it, numbered by their response channels.
`halted` is where `Run` is stuck, if it is. -/
structure Service where
  session : JoinSession
  halted : Option Halt
  calls : List Call

namespace Service

def start (m : JoinSession) : Service where
  session := m
  halted := none
  calls := []

/-- What the goroutine makes of a reply; `none` when it returns without sending on `done`. -/
def encode (btcEncode : MsgTx → Option Bytes) : Response → Option RpcResponse
  | .submitSplitTxRes tx inputIndes outputIndes =>
    (btcEncode tx).map fun buff => .submitInputTxRes buff inputIndes outputIndes
  | .submitSignedTxRes tx publisher => (btcEncode tx).map fun buff => .signTransactionResponse buff publisher
  | .publishedTxRes tx => (btcEncode tx).map .publishResultResponse
  | .err _ => none

/-- The reply on a response channel. -/
def reply (s : Service) (c : ℕ) : Option Response :=
  (s.session.replies.find? fun e => e.1 = c).map Prod.snd

inductive Event where
  /-- A client calls, and the session is found. -/
  | call (request : Request)
  /-- `Run` receives the request of a call. -/
  | take (c : ℕ)
  /-- The stage timer. -/
  | timeout
  /-- The context of a call is done. -/
  | cancel (c : ℕ)
  /-- Goroutine and handler meet at `done`. -/
  | handOff (c : ℕ)

/-- A panic has ended the process. -/
def dead (s : Service) : Bool :=
  match s.halted with
  | some .panic => true
  | _ => false

/-- `btcEncode` is `BtcEncode`, without a result where it fails or panics. Handlers and
goroutines go on when `Run` is stuck in a send, with what was sent before. -/
def step (btcEncode : MsgTx → Option Bytes) (s : Service) (ev : Choices × Event) : Option Service :=
  if s.dead then none else
  match ev.2 with
  | .call request => some { s with calls := s.calls ++ [⟨request, false, .selecting⟩] }
  | .take c =>
    match s.halted, s.calls[c]? with
    | none, some ⟨request, false, handler⟩ =>
      let calls := s.calls.set c ⟨request, true, handler⟩
      match JoinSession.handle ev.1 s.session (request.event c) with
      | .ok session => some { s with session := session, calls := calls }
      | .error .panic => some { s with halted := some .panic, calls := calls }
      | .error (.send session) => some { s with session := session, halted := some (.send session), calls := calls }
    | _, _ => none
  | .timeout =>
    if s.halted = none ∧ s.session.clientTimeout then some { s with session := s.session.timeout ev.1 } else none
  | .cancel c =>
    match s.calls[c]? with
    | some ⟨request, taken, .selecting⟩ =>
      some { s with
        session := s.session.removeSessionID request.sessionID
        calls := s.calls.set c ⟨request, taken, .sendingDone⟩ }
    | _ => none
  | .handOff c =>
    match s.calls[c]?, (s.reply c).bind (encode btcEncode) with
    | some ⟨request, true, .selecting⟩, some resp =>
      some { s with calls := s.calls.set c ⟨request, true, .returned resp⟩ }
    | _, _ => none

/-! ### The property -/

/-- Whether a participant has done its part in a stage. -/
def submitted : Progress → SessionParticipant → Bool
  | .rawTx, p => p.splitTx.isSome
  | .signedTx, p => p.signedTx.isSome
  | .publishTx, p => p.sentPublished

/-- The response channel kept for a participant in a stage. -/
def chan : Progress → SessionParticipant → Option ℕ
  | .rawTx, p => p.chanSubmitSplitTxRes
  | .signedTx, p => p.chanSubmitSignedTxRes
  | .publishTx, p => p.chanPublishedTxRes

/-- Everybody present has done its part in the present stage. -/
def StageComplete (m : JoinSession) : Prop :=
  ∀ sid p, m.participants.lookup sid = some p → submitted m.progress p = true

/-- The handler has passed the reply on, or can do so now. -/
def PassedOn (btcEncode : MsgTx → Option Bytes) (call : Call) (res : Response) : Prop :=
  ∃ resp, encode btcEncode res = some resp ∧ (call.handler = .returned resp ∨ call.handler = .selecting)

/-- A call that waits for its stage: its channel is kept, and somebody has not done its part yet. -/
def Pending (s : Service) (c : ℕ) (call : Call) : Prop :=
  call.handler = .selecting ∧ call.request.stage = s.session.progress ∧ ¬ StageComplete s.session ∧
    ∃ p, s.session.participants.lookup call.request.sessionID = some p ∧
      submitted s.session.progress p = true ∧ chan s.session.progress p = some c

/-- `Run` is not stuck, nobody is answered twice, and every call that was taken in was
answered and the answer passed on, or waits for its stage to complete. -/
structure Served (btcEncode : MsgTx → Option Bytes) (s : Service) : Prop where
  running : s.halted = none
  once : (s.session.replies.map Prod.fst).Nodup
  answered : ∀ c call, s.calls[c]? = some call → call.taken = true →
    (∃ res, (c, res) ∈ s.session.replies ∧ PassedOn btcEncode call res) ∨
      c ∉ s.session.replies.map Prod.fst ∧ s.Pending c call

/-- The header of a transaction is one that `BtcEncode` can write. -/
def Encodable (btcEncode : MsgTx → Option Bytes) (tx : MsgTx) : Prop :=
  ∀ txIn txOut, none ∉ txIn → none ∉ txOut → (btcEncode { tx with txIn := txIn, txOut := txOut }).isSome = true

/-- Every entry of a list that an index list points at is there and not nil. -/
def Covers {α : Type} (entries : List (Option α)) (indes : List ℕ) : Prop := ∀ i ∈ indes, ∃ a, entries[i]? = some (some a)

/-- What a call is that the session can serve. -/
def Fits (btcEncode : MsgTx → Option Bytes) (m : JoinSession) (request : Request) : Prop :=
  m.progress = request.stage ∧ ∃ p, m.participants.lookup request.sessionID = some p ∧
    submitted request.stage p = false ∧
      match request with
      | .submitSplitTx _ splitTx => splitTx.Whole ∧ (m.mergedSplitTx = none → Encodable btcEncode splitTx)
      | .submitSignedTransaction _ tx =>
        (m.signedTx = none → tx.Whole ∧ Encodable btcEncode tx) ∧
          Covers tx.txIn p.inputIndes ∧ Covers tx.txOut p.outputIndes ∧
            (∀ i ∈ p.inputIndes, i < (m.signedTx.getD tx).txIn.length) ∧
              ∀ i ∈ p.outputIndes, i < (m.signedTx.getD tx).txOut.length
      | .publishResult sessionID tx =>
        (p.publisher = true → ∀ result, tx = some result → result.Whole) ∧
          ((∀ sid q, m.participants.lookup sid = some q → sid ≠ sessionID → q.sentPublished = true) →
            ∃ result, (if p.publisher then tx else m.publishedTx) = some result ∧ (btcEncode result).isSome = true)

/-- Calls come in their stage and once for each participant, no context is done before
its call is answered, and a timeout removes everybody or nobody. -/
def Proper (btcEncode : MsgTx → Option Bytes) (s : Service) (ev : Choices × Event) : Prop :=
  match ev.2 with
  | .call _ => True
  | .take c => ∀ call, s.calls[c]? = some call → Fits btcEncode s.session call.request
  | .timeout =>
    (∀ sid p, s.session.participants.lookup sid = some p → JoinSession.missed s.session.progress p = false) ∨
      ∀ sid p, s.session.participants.lookup sid = some p → JoinSession.missed s.session.progress p = true
  | .cancel _ => False
  | .handOff _ => True

end Service

end Dcrtxmatcher.Matcher
