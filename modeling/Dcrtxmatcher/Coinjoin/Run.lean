import Dcrtxmatcher.Coinjoin.Replay

/-! The goroutines of a session: the loop of `run` and, for each peer, the reader
and the writer of its connection (`ReadMessages`, `WriteMessages`).

A goroutine's step runs from where it waits to where it releases the mutex; the
arguments of a `pushMaliciousInfo` after the release are read at the release. The
session loop and a reader meet at an unbuffered channel: the reader holds an
admitted message until the loop takes it. -/
namespace Dcrtxmatcher.Coinjoin
open Lib

/-! ### The timeout -/

/-- What the timeout looks for in a peer. In the xor round it looks at the
exponential vector again. -/
def missing : SessionState → PeerInfo → Bool
  | .keyExchange, peer => peer.pk = []
  | .dcExponential, peer => peer.dcExpVector = []
  | .dcXor, peer => peer.dcExpVector = []
  | .txInput, peer => peer.txIns = none
  | .txSign, peer => peer.signedTx = none
  | .revealSecret, peer => peer.vk = []
  | .txPublish, _ => false
  | .completed, _ => false

/-- The loop over the peers in `TxPublish`: the publisher is removed and another
chosen, who may be visited in turn. `false` stands for the `return`s on the way. -/
def changePublishers (pkgs : Packages) (ch : Choices) :
    List (ℕ × PeerInfo) → JoinSession → Except Fault (Bool × JoinSession)
  | [], js => .ok (true, js)
  | (_, peer) :: rest, js =>
    if js.publisher = peer.id then
      let js := js.removePeer peer.id
      if GoMap.len js.peers = 0 then .ok (false, js)
      else do
        let (changed, js) ← js.changePublisher pkgs ch [284, peer.id]
        if changed then changePublishers pkgs ch rest js else .ok (false, js)
    else changePublishers pkgs ch rest js

/-- The end of the case: `missedPeers` is never emptied again, and outside of the
key exchange it is handed to `pushMaliciousInfo` with the mutex held. -/
def informMissed (ch : Choices) (js : JoinSession) : Handled :=
  if js.missedPeers = [] then js.unlockAnd .next
  else if js.state = .keyExchange then (js.removePeers js.missedPeers).unlockAnd .next
  else do
    let js ← js.pushMaliciousInfo ch js.missedPeers
    let js := { js with state := .keyExchange }
    js.unlockAnd .next

def timeout (pkgs : Packages) (ch : Choices) (js : JoinSession) : Handled := do
  let js ← js.lock
  let visited := GoMap.range ch.order [229] js.peers
  let missed := (visited.filter fun e => missing js.state e.2).map fun e => e.2.id
  let js := { js with missedPeers := js.missedPeers ++ missed }
  if js.state = .txPublish then do
    let (completed, js) ← changePublishers pkgs ch visited js
    if completed then informMissed ch js else js.unlockAnd ⟨none, .ret⟩
  else informMissed ch js

/-! ### The session loop -/

/-- The cases of the select. -/
def handle (pkgs : Packages) (ch : Choices) (js : JoinSession) : ClientMessage → Handled
  | .keyExchange req => keyExchange pkgs ch req js
  | .dcExpVector data => dcExpVector pkgs ch data js
  | .dcXorVector data => dcXorVector pkgs ch data js
  | .txInputs txins => txInputs pkgs ch txins js
  | .txSigned signedTx => txSigned pkgs ch signedTx js
  | .txPublishResult pubResult => txPublishResult ch pubResult js
  | .revealSecret rvSecret => revealSecret pkgs ch rvSecret js
  | .msgNotFound data => msgNotFound ch data js

/-- From the end of a case to the next select, or out of `run`: `false` when the
loop has ended. -/
def finish (ch : Choices) (d : Done) (js : JoinSession) : Except Fault (Bool × JoinSession) := do
  let js ← match d.push with
    | none => .ok js
    | some peerIds => js.pushMaliciousInfo ch peerIds
  match d.exit with
  | .next => .ok (GoMap.len js.peers ≠ 0, js)
  | .ret => .ok (false, js)
  | .breakLoop =>
    match js.errm with
    | none => .ok (false, js)
    | some _ => do
      let js ← js.unlock
      .ok (false, js.terminate ch)

/-- A message through the loop, from the select to the next one. -/
def deliver (pkgs : Packages) (ch : Choices) (msg : ClientMessage) (js : JoinSession) :
    Except Fault (Bool × JoinSession) := do
  let (d, js) ← handle pkgs ch js msg
  finish ch d js

/-- Messages one after the other, as long as the loop runs. -/
def deliverAll (pkgs : Packages) : List (Choices × ClientMessage) → JoinSession → Except Fault (Bool × JoinSession)
  | [], js => .ok (true, js)
  | (ch, msg) :: rest, js => do
    let (running, js) ← deliver pkgs ch msg js
    if running then deliverAll pkgs rest js else .ok (false, js)

/-! ### Readers -/

/-- The message types a reader has a case for. -/
inductive Kind where
  | keyExchange
  | dcExpVector
  | dcXorVector
  | txInputs
  | txSigned
  | txPublishResult
  | revealSecret
  | msgNotFound
  deriving DecidableEq, Repr

def ClientMessage.kind : ClientMessage → Kind
  | .keyExchange _ => .keyExchange
  | .dcExpVector _ => .dcExpVector
  | .dcXorVector _ => .dcXorVector
  | .txInputs _ => .txInputs
  | .txSigned _ => .txSigned
  | .txPublishResult _ => .txPublishResult
  | .revealSecret _ => .revealSecret
  | .msgNotFound _ => .msgNotFound

/-- The message under the id of the connection's peer. A publish result keeps the
id it came with: there the assignment stands before `Unmarshal`. -/
def ClientMessage.withPeerId (peerId : ℕ) : ClientMessage → ClientMessage
  | .keyExchange req => .keyExchange { req with peerId := peerId }
  | .dcExpVector data => .dcExpVector { data with peerId := peerId }
  | .dcXorVector data => .dcXorVector { data with peerId := peerId }
  | .txInputs txins => .txInputs { txins with peerId := peerId }
  | .txSigned signedTx => .txSigned { signedTx with peerId := peerId }
  | .txPublishResult pubResult => .txPublishResult pubResult
  | .revealSecret rvSecret => .revealSecret { rvSecret with peerId := peerId }
  | .msgNotFound data => .msgNotFound { data with peerId := peerId }

/-- What comes out of the connection. -/
inductive RawMessage where
  /-- A text frame, or one that `ParseMessage` refuses. -/
  | ignored
  /-- A message of a type the reader has no case for. -/
  | unknown
  /-- A payload that cannot be unmarshalled. -/
  | malformed (kind : Kind)
  | message (msg : ClientMessage)

/-- The states in which a kind of message is taken. -/
def Kind.validIn : Kind → SessionState → Bool
  | .keyExchange, state => state = .keyExchange
  | .dcExpVector, state => state = .dcExponential
  | .dcXorVector, state => state = .dcXor
  | .txInputs, state => state = .txInput
  | .txSigned, state => state = .txSign
  | .txPublishResult, state => state = .txPublish
  | .revealSecret, state => state = .dcExponential ∨ state = .dcXor ∨ state = .txInput ∨ state = .revealSecret
  | .msgNotFound, state => state = .dcXor ∨ state = .txInput

/-- The outcome of a reader's checks before it unmarshals. -/
inductive Admission where
  | accepted
  | refused
  /-- `continue` without `Unlock`. -/
  | refusedLocked
  deriving DecidableEq, Repr

def admission (kind : Kind) (peerId : ℕ) (js : JoinSession) : Admission :=
  if !kind.validIn js.state then .refused
  else if kind = .txPublishResult ∧ peerId ≠ js.publisher then .refused
  else if kind = .msgNotFound ∧ js.maliciousFinding then .refusedLocked
  else .accepted

/-- Where a reader is. A message it holds keeps the session's id and state at its
admission. -/
inductive ReaderPc where
  | reading
  | sending (sessionId : ℕ) (state : SessionState) (msg : ClientMessage)
  /-- Before `pushMaliciousInfo` for a payload that cannot be unmarshalled. -/
  | pushing (peerId : ℕ)
  /-- Before `removePeer`, outside of the mutex, for such a key exchange. -/
  | removing (peerId : ℕ)
  | returned

/-- One turn of a reader's loop. -/
def readMessage (peer : PeerInfo) (raw : RawMessage) (js : JoinSession) : Except Fault (ReaderPc × JoinSession) :=
  match raw with
  | .ignored => .ok (.reading, js)
  | .unknown => do
    let js ← js.lock
    .ok (.reading, js)
  | .malformed kind => do
    let js ← js.lock
    match admission kind peer.id js with
    | .refusedLocked => .ok (.reading, js)
    | .refused => do
      let js ← js.unlock
      .ok (.reading, js)
    | .accepted => do
      let js ← js.unlock
      .ok (if kind = .keyExchange then .removing peer.id else .pushing peer.id, js)
  | .message msg => do
    let js ← js.lock
    match admission msg.kind peer.id js with
    | .refusedLocked => .ok (.reading, js)
    | .refused => do
      let js ← js.unlock
      .ok (.reading, js)
    | .accepted => do
      let js := if msg.kind = .msgNotFound then { js with maliciousFinding := true } else js
      let js ← js.unlock
      .ok (.sending js.id js.state (msg.withPeerId peer.id), js)

/-- The end of a reader whose connection fails. -/
def readError (pkgs : Packages) (ch : Choices) (peer : PeerInfo) (js : JoinSession) :
    Except Fault JoinSession := do
  let js ← js.lock
  match js.state with
  | .keyExchange => (js.removePeer peer.id).unlock
  | .dcExponential | .dcXor | .txInput | .txSign =>
    if peer.id ∈ js.peers.keys then do
      let js ← js.pushMaliciousInfo ch [peer.id]
      { js with state := .keyExchange }.unlock
    else js.unlock
  | .txPublish =>
    if peer.id ∈ js.peers.keys ∧ js.publisher = peer.id then
      let js := js.removePeer peer.id
      if GoMap.len js.peers = 0 then js.unlock
      else do
        let (_, js) ← js.changePublisher pkgs ch [448]
        js.unlock
    else js.unlock
  | .completed | .revealSecret => js.unlock

/-! ### Writers -/

/-- The end of a writer whose connection fails. It does not ask whether the peer is
still a member, and leaves without `Unlock` when the transaction cannot be encoded. -/
def writeError (pkgs : Packages) (ch : Choices) (peer : PeerInfo) (js : JoinSession) :
    Except Fault JoinSession := do
  let js ← js.lock
  match js.state with
  | .keyExchange => (js.removePeer peer.id).unlock
  | .dcExponential | .dcXor | .txInput | .txSign => do
    let js ← js.pushMaliciousInfo ch [peer.id]
    { js with state := .keyExchange }.unlock
  | .txPublish =>
    if js.publisher = peer.id then do
      let (changed, js) ← (js.removePeer peer.id).changePublisher pkgs ch [354]
      if changed then js.unlock else .ok js
    else js.unlock
  | .completed | .revealSecret => js.unlock

/-! ### The whole -/

/-- Where the session loop is: waiting in the select, for a timer among others, or
past the last `Unlock` of a case, or at its end. -/
inductive LoopPc where
  | select (timer : Timer)
  | rest (d : Done)
  | returned

/-- A session with its goroutines, the readers and writers by connection, and the
numbers of the timers that have fired. -/
structure System where
  session : JoinSession
  loop : LoopPc
  readers : ℕ → ReaderPc
  /-- Whether the writer is still running. -/
  writers : ℕ → Bool
  fired : List ℕ

inductive Event where
  | timeout
  | deliver (conn : ℕ)
  | rest
  | read (conn : ℕ) (raw : RawMessage)
  | push (conn : ℕ)
  | remove (conn : ℕ)
  | readError (conn : ℕ)
  | writeError (conn : ℕ)

/-- The peer of a connection, a member or not any more. -/
def JoinSession.peerOf (conn : ℕ) (js : JoinSession) : Option PeerInfo :=
  ((GoMap.toList js.peers).map Prod.snd ++ js.former).find? fun peer => peer.conn = conn

namespace System

/-- The loop after `finish`. -/
def loopTo (js : JoinSession) (running : Bool) : LoopPc :=
  if running then .select js.roundTimeout else .returned

def setReader (s : System) (conn : ℕ) (pc : ReaderPc) : ℕ → ReaderPc := Function.update s.readers conn pc

/-- One step, nothing when the event cannot happen or the goroutine does not get
through it. -/
def step (pkgs : Packages) (ch : Choices) (s : System) : Event → Option System
  | .timeout =>
    match s.loop with
    | .select timer =>
      if timer.seq ∈ s.fired then none
      else do
        let (d, js) ← (timeout pkgs ch s.session).toOption
        some { s with session := js, loop := .rest d, fired := timer.seq :: s.fired }
    | _ => none
  | .deliver conn =>
    match s.loop, s.readers conn with
    | .select _, .sending _ _ msg => do
      let (d, js) ← (handle pkgs ch s.session msg).toOption
      some { s with session := js, loop := .rest d, readers := s.setReader conn .reading }
    | _, _ => none
  | .rest =>
    match s.loop with
    | .rest d => do
      let (running, js) ← (finish ch d s.session).toOption
      some { s with session := js, loop := loopTo js running }
    | _ => none
  | .read conn raw =>
    match s.readers conn, s.session.peerOf conn with
    | .reading, some peer => do
      let (pc, js) ← (readMessage peer raw s.session).toOption
      some { s with session := js, readers := s.setReader conn pc }
    | _, _ => none
  | .push conn =>
    match s.readers conn with
    | .pushing peerId => do
      let js ← (s.session.pushMaliciousInfo ch [peerId]).toOption
      some { s with session := js, readers := s.setReader conn .reading }
    | _ => none
  | .remove conn =>
    match s.readers conn with
    | .removing peerId =>
      some { s with session := s.session.removePeer peerId, readers := s.setReader conn .reading }
    | _ => none
  | .readError conn =>
    match s.readers conn, s.session.peerOf conn with
    | .reading, some peer => do
      let js ← (readError pkgs ch peer s.session).toOption
      some { s with session := js, readers := s.setReader conn .returned }
    | _, _ => none
  | .writeError conn =>
    match s.writers conn, s.session.peerOf conn with
    | true, some peer => do
      let js ← (writeError pkgs ch peer s.session).toOption
      some { s with session := js, writers := Function.update s.writers conn false }
    | _, _ => none

/-- The goroutines of a session at its start; `run` first looks whether there are peers. -/
def start (js : JoinSession) : System where
  session := js
  loop := loopTo js (GoMap.len js.peers ≠ 0)
  readers := fun _ => .reading
  writers := fun _ => true
  fired := []

/-- A run, given by its events and what is chosen at each. -/
def run (pkgs : Packages) (s : System) : List (Choices × Event) → Option System
  | [] => some s
  | (ch, ev) :: rest => (s.step pkgs ch ev).bind fun s' => run pkgs s' rest

end System

/-- The peers of a queue, given by connection and id. -/
def queuePeers (queue : List (ℕ × ℕ)) : GoMap ℕ PeerInfo :=
  GoMap.ofList (queue.map fun (conn, id) => (id, newPeer conn id))

theorem lookup_queuePeers {queue : List (ℕ × ℕ)} {p : ℕ} {peer : PeerInfo}
    (h : (queuePeers queue).lookup p = some peer) : ∃ conn, (conn, p) ∈ queue ∧ peer = newPeer conn p := by
  obtain ⟨⟨conn, id⟩, hmem, heq⟩ := List.mem_map.mp (GoMap.mem_of_lookup_ofList h)
  cases heq
  exact ⟨conn, hmem, rfl⟩

/-- At the start every peer is new. -/
theorem lookup_newJoinSession (sessionId roundTimeOut : ℕ) (serverPublish : Bool) {queue : List (ℕ × ℕ)} {p : ℕ}
    {peer : PeerInfo}
    (h : (newJoinSession sessionId roundTimeOut serverPublish (queuePeers queue)).peers.lookup p = some peer) :
    ∃ conn, (conn, p) ∈ queue ∧ peer = { newPeer conn p with sessionId := sessionId } := by
  rw [newJoinSession, GoMap.lookup_mapVal, Option.map_eq_some_iff] at h
  obtain ⟨_, hp, rfl⟩ := h
  obtain ⟨conn, hmem, rfl⟩ := lookup_queuePeers hp
  exact ⟨conn, hmem, rfl⟩

/-- The states a session can get to from the queue it is made from. -/
inductive Reachable (pkgs : Packages) : System → Prop where
  | start (sessionId roundTimeOut : ℕ) (serverPublish : Bool) (queue : List (ℕ × ℕ))
      (hconn : (queue.map Prod.fst).Nodup) (hid : (queue.map Prod.snd).Nodup) :
      Reachable pkgs (.start (newJoinSession sessionId roundTimeOut serverPublish (queuePeers queue)))
  | step {s s' : System} {ch : Choices} {ev : Event} (hs : Reachable pkgs s)
      (h : s.step pkgs ch ev = some s') : Reachable pkgs s'

end Dcrtxmatcher.Coinjoin
