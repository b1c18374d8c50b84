import Mathlib
import Dcrtxmatcher.Flint.Solver
import Dcrtxmatcher.Lib.GoMap
import Mathlib.NumberTheory.LucasLehmer

/-! The data of a join session (`coinjoin/coinjoin.go`, `coinjoin/joinsession.go`).

Peers are told apart by their connection: ids change at every restart of a
session, the connection and the goroutines that read and write it do not.
Packages whose source is elsewhere are the fields of `Packages`; what Go leaves
open in one step (the order of map loops, random draws, failures of `Marshal` and
of the network) is `Choices`. -/
namespace Dcrtxmatcher.Coinjoin
open Lib

/-- `field.Prime`. -/
def fieldPrime : ℕ := 2 ^ 127 - 1

theorem fieldPrime_prime : fieldPrime.Prime := lucas_lehmer_sufficiency 127 (by simp) (by norm_num)

instance : Fact fieldPrime.Prime := ⟨fieldPrime_prime⟩

/-- `field.Field`: arithmetic modulo the prime, `N` being the representative. -/
abbrev Field := ZMod fieldPrime

/-- `messages.PkScriptHashSize`. -/
def pkScriptHashSize : ℕ := 16

/-- `messages.PkScriptSize`. -/
def pkScriptSize : ℕ := 25

/-- `messages.ExpRandSize`. -/
def expRandSize : ℕ := 12

/-! ### Transactions (`wire`) -/

structure OutPoint where
  hash : Bytes
  index : ℕ
  tree : ℤ
  deriving DecidableEq, Repr

structure TxIn where
  previousOutPoint : OutPoint
  sequence : ℕ
  valueIn : ℤ
  blockHeight : ℕ
  blockIndex : ℕ
  signatureScript : Bytes
  deriving DecidableEq, Repr

structure TxOut where
  value : ℤ
  version : ℕ
  pkScript : Bytes
  deriving DecidableEq, Repr

structure MsgTx where
  serType : ℕ
  version : ℕ
  txIn : List TxIn
  txOut : List TxOut
  lockTime : ℕ
  expiry : ℕ
  deriving DecidableEq, Repr

/-- `wire.NewTxOut`, with `DefaultPkScriptVersion`. -/
def newTxOut (value : ℤ) (pkScript : Bytes) : TxOut := ⟨value, 0, pkScript⟩

/-! ### Messages -/

/-- `pb.PeerInfo`, an entry of the key exchange list. -/
structure PeerMsgInfo where
  peerId : ℕ
  pk : Bytes
  numMsg : ℕ
  deriving DecidableEq, Repr

structure KeyExchangeReq where
  peerId : ℕ
  pk : Bytes
  numMsg : ℕ

/-- `pb.DcExpVector` and `pb.DcXorVector`. Go slices up to the capacity of
`Vector`: `spare` is what lies there past its length. -/
structure DcVector where
  peerId : ℕ
  len : ℕ
  vector : Bytes
  spare : Bytes

structure TxInputs where
  peerId : ℕ
  txins : Bytes
  ticketPrice : ℤ

structure JoinTx where
  peerId : ℕ
  tx : Bytes

structure PublishResult where
  peerId : ℕ
  tx : Bytes

structure RevealSecret where
  peerId : ℕ
  vk : Bytes

structure MsgNotFound where
  peerId : ℕ

/-- What a reader hands to the session loop, one constructor a channel. -/
inductive ClientMessage where
  | keyExchange (req : KeyExchangeReq)
  | dcExpVector (data : DcVector)
  | dcXorVector (data : DcVector)
  | txInputs (txins : TxInputs)
  | txSigned (signedTx : JoinTx)
  | txPublishResult (pubResult : PublishResult)
  | revealSecret (rvSecret : RevealSecret)
  | msgNotFound (data : MsgNotFound)

/-- What the server sends, one constructor a message type. -/
inductive ServerMessage where
  | maliciousPeers (peerIds : List ℕ) (sessionId peerId : ℕ)
  | keyExchange (peers : List PeerMsgInfo)
  | dcExpVector (len : ℕ) (msgs : Bytes)
  | dcXorVector (msgs : Bytes)
  | joinedTx (tx : Bytes)
  | txSign (tx : Bytes)
  | txPublishResult (tx : Bytes)
  | revealSecret
  deriving DecidableEq, Repr

/-- What leaves the server: a message to a connection, closing one, and posting a
serialized transaction to the publishing service. -/
inductive Output where
  | send (conn : ℕ) (msg : ServerMessage)
  | close (conn : ℕ)
  | post (tx : Bytes)
  deriving DecidableEq, Repr

/-! ### The session -/

inductive SessionState where
  | keyExchange
  | dcExponential
  | dcXor
  | txInput
  | txSign
  | txPublish
  | completed
  | revealSecret
  deriving DecidableEq, Repr

/-- The errors `run` keeps in `errm`. Their texts are only logged. -/
inductive Errm where
  | invalidPkscriptHash (peerId : ℕ) (hash : List Char)
  | pkscriptHashSize (size : ℕ)
  | marshal
  | btcDecode
  | alreadySigned
  | btcEncode
  | sharedSecret
  | randBytes
  deriving DecidableEq, Repr

structure PeerInfo where
  conn : ℕ
  id : ℕ
  sessionId : ℕ
  pk : Bytes
  vk : Bytes
  numMsg : ℕ
  inputIndex : List ℕ
  dcExpVector : List Field
  dcXorVector : List Bytes
  txIns : Option MsgTx
  signedTx : Option MsgTx
  ticketPrice : ℤ
  deriving DecidableEq

/-- `ResetData`: everything but the connection and the ticket price. -/
def PeerInfo.resetData (peer : PeerInfo) (id sessionId : ℕ) : PeerInfo :=
  { peer with
    id := id
    sessionId := sessionId
    inputIndex := []
    dcExpVector := []
    dcXorVector := []
    pk := []
    vk := []
    txIns := none
    signedTx := none
    numMsg := 0 }

/-- `time.NewTimer`; timers are numbered as they are made. -/
structure Timer where
  seq : ℕ
  seconds : ℕ
  deriving DecidableEq, Repr

/-- `JoinSession`, the locals that `run` keeps between messages (`allPkScripts`,
`missedPeers`, `errm`), the peers that have left the map but whose goroutines still
refer to the session (`former`) and everything sent so far, oldest first (`out`). -/
structure JoinSession where
  id : ℕ
  mu : Bool
  peers : GoMap ℕ PeerInfo
  roundTimeOut : ℕ
  serverPublish : Bool
  state : SessionState
  totalMsg : ℕ
  peersMsgInfo : List PeerMsgInfo
  joinedTx : Option MsgTx
  publisher : ℕ
  maliciousFinding : Bool
  roundTimeout : Timer
  allPkScripts : List Bytes
  missedPeers : List ℕ
  errm : Option Errm
  former : List PeerInfo
  out : List Output

/-- `NewJoinSession` and the set-up in `DiceMix.Run` for the peers of the queue. -/
def newJoinSession (sessionId roundTimeOut : ℕ) (serverPublish : Bool) (peers : GoMap ℕ PeerInfo) :
    JoinSession where
  id := sessionId
  mu := false
  peers := GoMap.mapVal (fun _ peer => { peer with sessionId := sessionId }) peers
  roundTimeOut := roundTimeOut
  serverPublish := serverPublish
  state := .keyExchange
  totalMsg := 0
  peersMsgInfo := []
  joinedTx := none
  publisher := 0
  maliciousFinding := false
  roundTimeout := ⟨0, roundTimeOut⟩
  allPkScripts := []
  missedPeers := []
  errm := none
  former := []
  out := []

/-- `NewPeer`, before it has sent anything. -/
def newPeer (conn id : ℕ) : PeerInfo where
  conn := conn
  id := id
  sessionId := 0
  pk := []
  vk := []
  numMsg := 0
  inputIndex := []
  dcExpVector := []
  dcXorVector := []
  txIns := none
  signedTx := none
  ticketPrice := 0

/-! ### What is not in this repository -/

/-- The functions the session calls in other packages. A key is the bytes it is
read from. `Option` stands for a value and an error. -/
structure Packages where
  flint : Flint.Library
  /-- `ecdh`: whether the bytes are a public key. -/
  unmarshal : Bytes → Bool
  genSharedSecret : Bytes → Bytes → Option Bytes
  genSharedSecret32 : Bytes → Bytes → Option Bytes
  /-- `chacharng.RandBytes`. -/
  randBytes : Bytes → ℕ → Option Bytes
  /-- `field.FromBytes`. -/
  fromBytes : Bytes → ℕ
  /-- `Uint128.GetBytes`. -/
  getBytes : ℕ → Bytes
  /-- `field.Uint128FromString`; the error is only logged. -/
  uint128FromString : List Char → ℕ
  /-- `util.XorBytes`; the error is only logged. -/
  xorBytes : Bytes → Bytes → Bytes
  /-- `ripemd128`, `Write` and `Sum127`. -/
  sum127 : Bytes → Bytes
  btcEncode : MsgTx → Option Bytes
  btcDecode : Bytes → Option MsgTx

/-- `util.XorBytes` on byte strings of one length, and on an empty accumulator. -/
structure Packages.XorLaws (pkgs : Packages) : Prop where
  nil : ∀ b, pkgs.xorBytes [] b = b
  xor : ∀ a b, a.length = b.length → pkgs.xorBytes a b = List.zipWith (· ^^^ ·) a b

/-- What Go leaves open in one step. Map loops and calls of `Marshal` are named by
the line they stand on, and by the indices of the loops around them. -/
structure Choices where
  order : VisitOrder ℕ
  /-- `GenId`: first the session's id, then one for each peer. -/
  genId : ℕ → ℕ
  /-- `rand.Intn`. -/
  intn : ℕ → ℕ
  intn_lt : ∀ n, 0 < n → intn n < n
  /-- Whether `proto.Marshal` succeeds. -/
  marshal : List ℕ → Bool
  /-- `GenerateKey`, private and public key, at each turn of the loop. -/
  generateKey : ℕ → Bytes × Bytes
  /-- Whether `publishTx` succeeds at each attempt. -/
  publishTx : ℕ → Bool

end Dcrtxmatcher.Coinjoin
