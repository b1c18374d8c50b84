import Dcrtxmatcher.Coinjoin.Types

/-! What the handlers of a session are made of: the mutex, sending, removing peers,
restarting (`pushMaliciousInfo`), choosing a publisher.

The mutex is a flag. Locking it while it is set blocks the caller for ever, since
every goroutine that takes it finishes with it inside one step of the model;
unlocking it while it is not set stops the process. -/
namespace Dcrtxmatcher.Coinjoin
open Lib

namespace JoinSession

/-! ### The mutex -/

def lock (js : JoinSession) : Except Fault JoinSession :=
  if js.mu then .error .selfDeadlock else .ok { js with mu := true }

def unlock (js : JoinSession) : Except Fault JoinSession :=
  if js.mu then .ok { js with mu := false } else .error .unlockOfUnlocked

theorem lock_of_free {js : JoinSession} (h : js.mu = false) : js.lock = .ok { js with mu := true } := by
  simp [lock, h]

theorem unlock_of_held {js : JoinSession} (h : js.mu = true) : js.unlock = .ok { js with mu := false } := by
  simp [unlock, h]

@[simp] theorem lock_eq_ok {js js' : JoinSession} :
    js.lock = .ok js' ↔ js.mu = false ∧ js' = { js with mu := true } := by
  unfold lock
  cases js.mu <;> simp [eq_comm]

@[simp] theorem unlock_eq_ok {js js' : JoinSession} :
    js.unlock = .ok js' ↔ js.mu = true ∧ js' = { js with mu := false } := by
  unfold unlock
  cases js.mu <;> simp [eq_comm]

/-! ### Peers and connections -/

/-- Every peer is stored under its own id. -/
def WellKeyed (peers : GoMap ℕ PeerInfo) : Prop := ∀ p peer, peers.lookup p = some peer → peer.id = p

instance (peers : GoMap ℕ PeerInfo) : Decidable (WellKeyed peers) :=
  decidable_of_iff (∀ e ∈ GoMap.toList peers, e.2.id = e.1)
    ⟨fun h p peer hp => h (p, peer) (GoMap.mem_toList.mpr hp), fun h e he => h e.1 e.2 (GoMap.mem_toList.mp he)⟩

def send (conn : ℕ) (msg : ServerMessage) (js : JoinSession) : JoinSession :=
  { js with out := js.out ++ [.send conn msg] }

/-- The loop over `Peers` on line `site` that sends one message to everybody. -/
def broadcast (ch : Choices) (site : ℕ) (msg : ServerMessage) (js : JoinSession) : JoinSession :=
  { js with out := js.out ++ (GoMap.values ch.order [site] js.peers).map fun peer => .send peer.conn msg }

/-- What a handler writes through its pointer to a peer of the map. -/
def setPeer (peerId : ℕ) (f : PeerInfo → PeerInfo) (js : JoinSession) : JoinSession :=
  { js with peers := GoMap.modify peerId f js.peers }

def newTimer (seconds : ℕ) (js : JoinSession) : JoinSession :=
  { js with roundTimeout := ⟨js.roundTimeout.seq + 1, seconds⟩ }

/-- `allSubmit`: no peer of the map is left without the round's datum. -/
def allSubmit (submitted : PeerInfo → Bool) (js : JoinSession) : Bool :=
  (GoMap.toList js.peers).all fun e => submitted e.2

def removePeer (peerId : ℕ) (js : JoinSession) : JoinSession :=
  match js.peers.lookup peerId with
  | some peer =>
    { js with
      peers := js.peers.erase peerId
      former := js.former ++ [peer]
      out := js.out ++ [.close peer.conn] }
  | none => js

def removePeers (peerIds : List ℕ) (js : JoinSession) : JoinSession :=
  peerIds.foldl (fun js peerId => js.removePeer peerId) js

def terminate (ch : Choices) (js : JoinSession) : JoinSession :=
  { js with out := js.out ++ (GoMap.values ch.order [156] js.peers).map fun peer => .close peer.conn }

/-! ### Restarting -/

/-- The map of the renewed peers: of two with one id the later replaces the earlier. -/
def newPeers (peers : List PeerInfo) : GoMap ℕ PeerInfo := GoMap.ofList (peers.map fun peer => (peer.id, peer))

/-- The peers that a later one of the same id replaces. -/
def replaced : List PeerInfo → List PeerInfo
  | [] => []
  | peer :: rest => if rest.any fun later => later.id = peer.id then peer :: replaced rest else replaced rest

/-- The survivors in the order they are visited, reset under their new ids. -/
def renewed (ch : Choices) (js : JoinSession) : List PeerInfo :=
  (GoMap.values ch.order [128] js.peers).zipIdx.map fun (peer, i) =>
    peer.resetData (ch.genId (i + 1)) (ch.genId 0)

/-- The restart proper, with at least one survivor. `TmpData`, the marshalled
message that waits for the map to be complete, is rebuilt from the peer's id. -/
def restart (ch : Choices) (missedPeers : List ℕ) (js : JoinSession) : JoinSession :=
  let peers := newPeers (js.renewed ch)
  { js with
    peers := peers
    former := js.former ++ replaced (js.renewed ch)
    joinedTx := none
    peersMsgInfo := []
    id := ch.genId 0
    state := .keyExchange
    totalMsg := 0
    out := js.out ++ (GoMap.values ch.order [146] peers).map fun peer =>
      .send peer.conn (.maliciousPeers missedPeers (ch.genId 0) peer.id) }

/-- `pushMaliciousInfo`. -/
def pushMaliciousInfo (ch : Choices) (missedPeers : List ℕ) (js : JoinSession) : Except Fault JoinSession := do
  let js ← js.lock
  let js := js.removePeers missedPeers
  if GoMap.len js.peers = 0 then js.unlock
  else (js.restart ch missedPeers).unlock

/-! ### Publishing -/

/-- `randomPublisher`. -/
def randomPublisher (ch : Choices) (js : JoinSession) : Except Fault ℕ :=
  if GoMap.len js.peers = 0 then .error .panic
  else do
    let peer ← index (GoMap.values ch.order [1249] js.peers) (ch.intn (GoMap.len js.peers))
    .ok peer.id

/-- `JoinedTx.BtcEncode`, a nil dereference when there is no joined transaction. -/
def encodeJoinedTx (pkgs : Packages) (js : JoinSession) : Except Fault (Option Bytes) :=
  match js.joinedTx with
  | some tx => .ok (pkgs.btcEncode tx)
  | none => .error .panic

/-- A random peer becomes publisher and is sent the joined transaction. -/
def selectPublisher (ch : Choices) (tx : Bytes) (seconds : ℕ) (js : JoinSession) : Except Fault JoinSession := do
  let pubId ← js.randomPublisher ch
  let js := { js with publisher := pubId }
  match js.peers.lookup pubId with
  | some publisher => .ok ((js.send publisher.conn (.txSign tx)).newTimer seconds)
  | none => .error .panic

/-- The change of publisher that the timeout, the readers and the writers share,
with the lines of their `Marshal` calls: nothing when the transaction cannot be
encoded, and then the session has been terminated. -/
def changePublisher (pkgs : Packages) (ch : Choices) (site : List ℕ) (js : JoinSession) :
    Except Fault (Bool × JoinSession) := do
  match ← js.encodeJoinedTx pkgs with
  | none => .ok (false, js.terminate ch)
  | some tx =>
    if ch.marshal site then do
      let js ← js.selectPublisher ch tx js.roundTimeOut
      .ok (true, js)
    else .ok (false, js.terminate ch)

end JoinSession

end Dcrtxmatcher.Coinjoin
