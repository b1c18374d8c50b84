import Dcrtxmatcher.Coinjoin.Transactions

/-! The replay of the protocol once every peer has revealed its secret key
(`revealSecretChan` in `run`).

Three checks, each with its own list of malicious peers: the key pairs, the
exponential vectors and, unless the session is still in the exponential or the
xor round, the xor vectors. -/
namespace Dcrtxmatcher.Coinjoin
open Lib

/-- How the replay can stop: a panic, or `errm` and `break LOOP`. -/
inductive Stop where
  | fault (f : Fault)
  | errm (err : Errm)
  deriving DecidableEq, Repr

def Stop.lift {α : Type} : Except Fault α → Except Stop α
  | .ok a => .ok a
  | .error f => .error (.fault f)

@[simp] theorem Stop.lift_eq_ok {α : Type} {x : Except Fault α} {a : α} : Stop.lift x = .ok a ↔ x = .ok a := by
  cases x <;> simp [Stop.lift]

/-- The value of a call that returns a value and an error. -/
def Stop.require {α : Type} (err : Errm) : Option α → Except Stop α
  | some a => .ok a
  | none => .error (.errm err)

@[simp] theorem Stop.require_eq_ok {α : Type} {err : Errm} {x : Option α} {a : α} :
    Stop.require err x = .ok a ↔ x = some a := by
  cases x <;> simp [Stop.require]

/-- `PeerReplayInfo`: what the replay knows about one peer's pads with another. -/
structure PeerReplayInfo where
  id : ℕ
  dcExpPadding : Field
  dcXorRng : Bytes
  deriving DecidableEq

/-- `PeerSlotInfo`, with the pads of the peer (`replayPeers[Id]`). -/
structure PeerSlotInfo where
  id : ℕ
  pkScriptsHash : List ℕ
  replayPeer : GoMap ℕ PeerReplayInfo

/-! ### Keys -/

/-- The loop that compares, for each peer, the secrets shared with a key pair of
the server: the ids of the peers whose key pair is not one. -/
def keyCheck (pkgs : Packages) (ch : Choices) : List (PeerInfo × ℕ) → Except Stop (List ℕ)
  | [] => .ok []
  | (p, turn) :: rest => do
    let (serverPrivKey, serverPubKey) := ch.generateKey turn
    let shareKey1 ← Stop.require .sharedSecret (pkgs.genSharedSecret p.vk serverPubKey)
    let shareKey2 ← Stop.require .sharedSecret (pkgs.genSharedSecret serverPrivKey p.pk)
    let maliciousIds ← keyCheck pkgs ch rest
    .ok (if shareKey1 ≠ shareKey2 then p.id :: maliciousIds else maliciousIds)

/-- The secrets one peer shares with the others, from its revealed key. -/
def sharedKeys (pkgs : Packages) (p : PeerInfo) : List PeerInfo → Except Stop (List (ℕ × Bytes))
  | [] => .ok []
  | op :: rest =>
    if p.id = op.id then sharedKeys pkgs p rest
    else do
      let sharedKey ← Stop.require .sharedSecret (pkgs.genSharedSecret32 p.vk op.pk)
      let keys ← sharedKeys pkgs p rest
      .ok ((op.id, sharedKey) :: keys)

/-- `replayPeers`, with the shared keys filled in. -/
def replayKeys (pkgs : Packages) (ch : Choices) (peers : GoMap ℕ PeerInfo) :
    Except Stop (GoMap ℕ (GoMap ℕ Bytes)) := do
  let entries ← (GoMap.values ch.order [898] peers).mapM fun p => do
    let keys ← sharedKeys pkgs p (GoMap.values ch.order [901, p.id] peers)
    .ok (p.id, GoMap.ofList keys)
  .ok (GoMap.ofList entries)

/-! ### Exponential vectors -/

/-- The pads that come out of a shared key; the one of the exponential round is
filled up with four zero bytes in front. -/
def replayInfo (pkgs : Packages) (opid : ℕ) (sharedKey : Bytes) : Except Stop PeerReplayInfo := do
  let dcexpRng ← Stop.require .randBytes (pkgs.randBytes sharedKey expRandSize)
  let dcXorRng ← Stop.require .randBytes (pkgs.randBytes sharedKey pkScriptSize)
  .ok ⟨opid, newFF pkgs ([0, 0, 0, 0] ++ dcexpRng), dcXorRng⟩

/-- Taking one pad off the first `numMsg` entries. -/
def stripPad (pid opid : ℕ) (padding : Field) (numMsg : ℕ) (expVector : List Field) :
    Except Fault (List Field) :=
  if pid ≠ opid ∧ expVector.length < numMsg then .error .panic
  else .ok (expVector.zipIdx.map fun (x, i) =>
    if i < numMsg then (if opid < pid then x - padding else if pid < opid then x + padding else x) else x)

/-- The loop over the other peers: the vector without pads, and the pads. -/
def stripPads (pkgs : Packages) (pid numMsg : ℕ) :
    List (ℕ × Bytes) → List Field → Except Stop (List Field × List PeerReplayInfo)
  | [], expVector => .ok (expVector, [])
  | (opid, sharedKey) :: rest, expVector => do
    let opInfo ← replayInfo pkgs opid sharedKey
    let expVector ← Stop.lift (stripPad pid opid opInfo.dcExpPadding numMsg expVector)
    let (expVector, opInfos) ← stripPads pkgs pid numMsg rest expVector
    .ok (expVector, opInfo :: opInfos)

/-- One entry of a vector with the peer's pads put on. -/
def padEntry (pid : ℕ) (x : Field) (opInfos : List PeerReplayInfo) : Field :=
  opInfos.foldl (fun x opInfo =>
    if opInfo.id < pid then x + opInfo.dcExpPadding
    else if pid < opInfo.id then x - opInfo.dcExpPadding
    else x) x

/-- `sentVector`: the vector the peer should have sent for its messages. -/
def sentVector (ch : Choices) (site totalMsg pid : ℕ) (msgs : List Field)
    (replayPeer : GoMap ℕ PeerReplayInfo) : List Field :=
  (List.range totalMsg).map fun i =>
    padEntry pid (msgs.map (· ^ (i + 1))).sum (GoMap.values ch.order [site, pid, i] replayPeer)

/-- The comparison with what the peer did send, from entry `i` on. -/
def differs (pkgs : Packages) (dcExpVector : List Field) (i : ℕ) : List Field → Except Fault Bool
  | [] => .ok false
  | sent :: rest => do
    let x ← index dcExpVector i
    if pkgs.getBytes x.val ≠ pkgs.getBytes sent.val then .ok true else differs pkgs dcExpVector (i + 1) rest

/-- One turn of the loop over the peers: whether the peer is malicious, and its
slot information unless its polynomial has no solution or it has no messages. -/
def expReplay (pkgs : Packages) (ch : Choices) (totalMsg : ℕ) (keys : GoMap ℕ Bytes) (pid : ℕ)
    (pInfo : PeerInfo) : Except Stop (Bool × Option PeerSlotInfo) := do
  let (expVector, opInfos) ← stripPads pkgs pid pInfo.numMsg (GoMap.range ch.order [977, pid] keys) pInfo.dcExpVector
  let replayPeer := GoMap.ofList (opInfos.map fun opInfo => (opInfo.id, opInfo))
  if 1 < pInfo.numMsg then do
    let firsts ← Stop.lift (slice expVector 0 pInfo.numMsg)
    let (ret, roots) ← Stop.lift (Flint.getRoots pkgs.flint (Hex.hexStr fieldPrime) firsts pInfo.numMsg)
    if ret ≠ 0 then .ok (true, none)
    else do
      let msgHash := roots.map pkgs.uint128FromString
      let sent := sentVector ch 1049 totalMsg pid (msgHash.map (Nat.cast : ℕ → Field)) replayPeer
      let malicious ← Stop.lift (differs pkgs pInfo.dcExpVector 0 sent)
      .ok (malicious, some ⟨pid, msgHash, replayPeer⟩)
  else if pInfo.numMsg = 1 then do
    let ff ← Stop.lift (index expVector 0)
    let sent := sentVector ch 1092 totalMsg pid [ff] replayPeer
    let malicious ← Stop.lift (differs pkgs pInfo.dcExpVector 0 sent)
    .ok (malicious, some ⟨pid, [ff.val], replayPeer⟩)
  else .ok (false, none)

/-! ### Xor vectors -/

/-- `SlotIndex`: where the peer's hashes stand among all hashes. -/
def slotIndex (allMsgHash pkScriptsHash : List ℕ) : List ℕ :=
  pkScriptsHash.flatMap fun msg => (List.range allMsgHash.length).filter fun i => allMsgHash[i]? = some msg

/-- `PkScripts`: the peer's xor vector with its pads taken off. -/
def pkScripts (pkgs : Packages) (ch : Choices) (slotInfo : PeerSlotInfo) (dcXorVector : List Bytes) : List Bytes :=
  dcXorVector.zipIdx.map fun (realMsg, i) =>
    (GoMap.values ch.order [1161, slotInfo.id, i] slotInfo.replayPeer).foldl
      (fun realMsg replay => pkgs.xorBytes realMsg replay.dcXorRng) realMsg

/-- Whether the entry at slot `i` is neither a script of the peer in the peer's
slot nor zero bytes, which print as fifty zeros, in another's. -/
def badSlot (pkgs : Packages) (allMsgHash slots : List ℕ) (i : ℕ) (pkScript : Bytes) : Bool :=
  if i ∈ slots then pkgs.getBytes (allMsgHash.getD i 0) ≠ pkgs.sum127 pkScript
  else pkScript ≠ List.replicate pkScriptSize 0

/-- `allMsgHash`, sorted. -/
def sortedHashes (ch : Choices) (peerSlotInfos : GoMap ℕ PeerSlotInfo) : List ℕ :=
  ((GoMap.values ch.order [1125] peerSlotInfos).flatMap (·.pkScriptsHash)).insertionSort (· ≤ ·)

/-- Whether one of the peer's slots is bad. -/
def xorReplay (pkgs : Packages) (ch : Choices) (allMsgHash : List ℕ) (slotInfo : PeerSlotInfo)
    (dcXorVector : List Bytes) : Bool :=
  (pkScripts pkgs ch slotInfo dcXorVector).zipIdx.any fun (pkScript, i) =>
    badSlot pkgs allMsgHash (slotIndex allMsgHash slotInfo.pkScriptsHash) i pkScript

/-! ### The handler -/

/-- What the replay found out: the total number of messages it used and the
malicious peers by each check. -/
structure Findings where
  totalMsg : ℕ
  keyIds : List ℕ
  expIds : List ℕ
  xorIds : List ℕ
  deriving DecidableEq, Repr

/-- `maliciousIds`. -/
def Findings.maliciousIds (f : Findings) : List ℕ := f.keyIds ++ f.expIds ++ f.xorIds

/-- The results of the loop over the peers, in the order visited. -/
def expReplays (pkgs : Packages) (ch : Choices) (totalMsg : ℕ) (replayPeers : GoMap ℕ (GoMap ℕ Bytes))
    (peers : GoMap ℕ PeerInfo) : Except Stop (List (ℕ × Bool × Option PeerSlotInfo)) :=
  (GoMap.range ch.order [971] peers).mapM fun (pid, pInfo) => do
    let verdict ← expReplay pkgs ch totalMsg ((replayPeers.lookup pid).getD ∅) pid pInfo
    .ok (pid, verdict)

/-- `peerSlotInfos`. -/
def slotInfos (verdicts : List (ℕ × Bool × Option PeerSlotInfo)) : GoMap ℕ PeerSlotInfo :=
  GoMap.ofList (verdicts.filterMap fun (pid, _, slotInfo) => slotInfo.map (pid, ·))

/-- The peers with a bad slot, in the order visited. -/
def xorReplays (pkgs : Packages) (ch : Choices) (peerSlotInfos : GoMap ℕ PeerSlotInfo)
    (peers : GoMap ℕ PeerInfo) : List ℕ :=
  (GoMap.range ch.order [1173] peerSlotInfos).filterMap fun (pid, slotInfo) =>
    if xorReplay pkgs ch (sortedHashes ch peerSlotInfos) slotInfo
      ((peers.lookup pid).elim [] (·.dcXorVector)) then some pid else none

/-- The replay. `errm` may be left over from an earlier message, and `TotalMsg`
from an earlier replay. -/
def replay (pkgs : Packages) (ch : Choices) (js : JoinSession) : Except Stop Findings := do
  let keyIds ← keyCheck pkgs ch (GoMap.values ch.order [869] js.peers).zipIdx
  match js.errm with
  | some err => .error (.errm err)
  | none =>
    let replayPeers ← replayKeys pkgs ch js.peers
    let totalMsg := js.totalMsg + ((GoMap.values ch.order [898] js.peers).map (·.numMsg)).sum
    let verdicts ← expReplays pkgs ch totalMsg replayPeers js.peers
    let expIds := verdicts.filterMap fun (pid, malicious, _) => if malicious then some pid else none
    let xorIds :=
      if js.state = .txInput ∨ js.state = .revealSecret then xorReplays pkgs ch (slotInfos verdicts) js.peers
      else []
    .ok ⟨totalMsg, keyIds, expIds, xorIds⟩

def revealSecret (pkgs : Packages) (ch : Choices) (rvSecret : RevealSecret) (js : JoinSession) : Handled := do
  let js ← js.lock
  match js.peers.lookup rvSecret.peerId with
  | none => js.unlockAnd .next
  | some _ =>
    let js := js.setPeer rvSecret.peerId fun peer => { peer with vk := rvSecret.vk }
    if js.allSubmit (fun peer => peer.vk ≠ []) then
      match replay pkgs ch js with
      | .error (.fault f) => .error f
      | .error (.errm err) => js.failWith err
      | .ok findings =>
        let js := { js with totalMsg := findings.totalMsg, maliciousFinding := false }
        js.unlockAnd ⟨if findings.maliciousIds = [] then none else some findings.maliciousIds, .next⟩
    else
      let js := { js with maliciousFinding := false }
      js.unlockAnd .next

end Dcrtxmatcher.Coinjoin
