import Dcrtxmatcher.Coinjoin.Session

/-! The message handlers of `run`, round by round.

A handler starts at the select and ends where control leaves its case: falling
through or `continue`, `break LOOP`, `return`. What the code does after its last
`Unlock` is left to the caller (`Done.push`), as another goroutine may get in
between. -/
namespace Dcrtxmatcher.Coinjoin
open Lib

/-- How control leaves a case of the select. -/
inductive Exit where
  | next
  | breakLoop
  | ret
  deriving DecidableEq, Repr

/-- The rest of a case: a call of `pushMaliciousInfo` with the mutex released, then
the exit. -/
structure Done where
  push : Option (List ℕ)
  exit : Exit
  deriving DecidableEq, Repr

def Done.next : Done := ⟨none, .next⟩

/-- What handlers return. -/
abbrev Handled := Except Fault (Done × JoinSession)

/-- `joinSession.mu.Unlock()` and then leaving the case. -/
def JoinSession.unlockAnd (d : Done) (js : JoinSession) : Handled := do
  let js ← js.unlock
  .ok (d, js)

/-- Setting `errm` and `break LOOP`, the mutex still held. -/
def JoinSession.failWith (err : Errm) (js : JoinSession) : Handled :=
  .ok ({ push := none, exit := .breakLoop }, { js with errm := some err })

/-! ### Key exchange -/

def keyExchange (pkgs : Packages) (ch : Choices) (req : KeyExchangeReq) (js : JoinSession) : Handled := do
  let js ← js.lock
  match js.peers.lookup req.peerId with
  | none => js.unlockAnd .next
  | some peer =>
    if !pkgs.unmarshal req.pk then (js.removePeer req.peerId).unlockAnd .next
    else
      let js := js.setPeer req.peerId fun peer => { peer with pk := req.pk, numMsg := req.numMsg }
      let info : PeerMsgInfo := ⟨peer.id, req.pk, req.numMsg⟩
      let js := { js with peersMsgInfo := js.peersMsgInfo ++ [info] }
      if GoMap.len js.peers = js.peersMsgInfo.length then
        if !ch.marshal [355] then (js.removePeer req.peerId).unlockAnd .next
        else
          let js := (js.broadcast ch 365 (.keyExchange js.peersMsgInfo)).newTimer js.roundTimeOut
          let js := { js with state := .dcExponential }
          js.unlockAnd .next
      else js.unlockAnd .next

/-! ### The exponential round -/

/-- `field.NewFF(field.FromBytes(b))`. -/
def newFF (pkgs : Packages) (b : Bytes) : Field := pkgs.fromBytes b

/-- The loop over the entries of a vector, from entry `i` on for `n` entries: the
ones before the first zero, and the error for that one. -/
def readEntries (pkgs : Packages) (peerId : ℕ) (buf : Bytes) (i : ℕ) :
    ℕ → Except Fault (List Field × Option Errm)
  | 0 => .ok ([], none)
  | n + 1 => do
    let b ← slice buf (i * pkScriptHashSize) ((i + 1) * pkScriptHashSize)
    let ff := newFF pkgs b
    if ff = 0 then .ok ([], some (.invalidPkscriptHash peerId (Hex.hexStr ff.val)))
    else do
      let (vector, err) ← readEntries pkgs peerId buf (i + 1) n
      .ok (ff :: vector, err)

/-- `dcCombine[i] = dcCombine[i].Add(vector[i])` for every entry of one peer's vector. -/
def addVector (dcCombine vector : List Field) : Except Fault (List Field) :=
  if dcCombine.length < vector.length then .error .panic
  else .ok (dcCombine.zipIdx.map fun (x, i) => x + vector.getD i 0)

/-- The sum of all vectors, `polyDegree` entries of it. -/
def combine (polyDegree : ℕ) (vectors : List (List Field)) : Except Fault (List Field) :=
  vectors.foldlM addVector (List.replicate polyDegree 0)

/-- `fmt.Sprintf("%032v", root)`. -/
def padRoot (root : List Char) : List Char := List.leftpad 32 '0' root

/-- The roots as 16 bytes each, or the error for the first that has another size. -/
def encodeRoots : List (List Char) → Except Errm Bytes
  | [] => .ok []
  | root :: roots =>
    let bytes := Hex.decodeString (padRoot root)
    if bytes.length = pkScriptHashSize then (encodeRoots roots).map (bytes ++ ·)
    else .error (.pkscriptHashSize bytes.length)

/-- The end of the exponential round, once every peer has sent its vector. -/
def solveExponential (pkgs : Packages) (ch : Choices) (polyDegree : ℕ) (js : JoinSession) : Handled := do
  let dcCombine ← combine polyDegree ((GoMap.values ch.order [423] js.peers).map (·.dcExpVector))
  let (ret, roots) ← Flint.getRoots pkgs.flint (Hex.hexStr fieldPrime) dcCombine polyDegree
  if ret ≠ 0 then (js.broadcast ch 443 .revealSecret).unlockAnd .next
  else
    match encodeRoots roots with
    | .error err => js.failWith err
    | .ok allMsgHash =>
      if !ch.marshal [474] then js.failWith .marshal
      else
        let js := (js.broadcast ch 482 (.dcExpVector roots.length allMsgHash)).newTimer js.roundTimeOut
        let js := { js with state := .dcXor }
        js.unlockAnd .next

def dcExpVector (pkgs : Packages) (ch : Choices) (data : DcVector) (js : JoinSession) : Handled := do
  let js ← js.lock
  match js.peers.lookup data.peerId with
  | none => js.unlockAnd .next
  | some peerInfo =>
    if data.vector.length < pkScriptHashSize * 2 then js.unlockAnd ⟨some [data.peerId], .breakLoop⟩
    else do
      let (vector, err) ← readEntries pkgs peerInfo.id (data.vector ++ data.spare) 0 data.len
      let js := { js with errm := err.or js.errm }
      -- `errm` may also be left over from an earlier message
      if js.errm.isSome then js.unlockAnd ⟨some [peerInfo.id], .next⟩
      else
        let js := js.setPeer data.peerId fun peer => { peer with dcExpVector := vector }
        if js.allSubmit (fun peer => peer.dcExpVector ≠ []) then solveExponential pkgs ch vector.length js
        else js.unlockAnd .next

/-! ### The xor round -/

/-- The entries of a vector, from entry `i` on for `n` entries. -/
def readMessages (buf : Bytes) (i : ℕ) : ℕ → Except Fault (List Bytes)
  | 0 => .ok []
  | n + 1 => do
    let msg ← slice buf (i * pkScriptSize) ((i + 1) * pkScriptSize)
    let msgs ← readMessages buf (i + 1) n
    .ok (msg :: msgs)

/-- `allPkScripts[i]`: the `i`-th entries of all peers, xored in the order visited. -/
def xorSlot (pkgs : Packages) (i : ℕ) (vectors : List (List Bytes)) : Except Fault Bytes :=
  vectors.foldlM (fun acc vector => do
    let msg ← index vector i
    .ok (pkgs.xorBytes acc msg)) []

/-- The loop over the slots, every slot with its own loop over the peers. -/
def xorSlots (pkgs : Packages) (ch : Choices) (peers : GoMap ℕ PeerInfo) (n : ℕ) : Except Fault (List Bytes) :=
  (List.range n).mapM fun i => xorSlot pkgs i ((GoMap.values ch.order [531, i] peers).map (·.dcXorVector))

def dcXorVector (pkgs : Packages) (ch : Choices) (data : DcVector) (js : JoinSession) : Handled := do
  let js ← js.lock
  if data.vector.length < pkScriptSize * 2 then js.unlockAnd ⟨some [data.peerId], .breakLoop⟩
  else do
    let dcXor ← readMessages (data.vector ++ data.spare) 0 data.len
    match js.peers.lookup data.peerId with
    | none => js.unlockAnd .next
    | some _ =>
      let js := js.setPeer data.peerId fun peer => { peer with dcXorVector := dcXor }
      if js.allSubmit (fun peer => peer.dcXorVector ≠ []) then do
        let allPkScripts ← xorSlots pkgs ch js.peers dcXor.length
        let js := { js with allPkScripts := allPkScripts }
        if !ch.marshal [551] then js.failWith .marshal
        else
          let js := { (js.newTimer js.roundTimeOut) with state := .txInput }
          (js.broadcast ch 562 (.dcXorVector allPkScripts.flatten)).unlockAnd .next
      else
        let js := { js with allPkScripts := List.replicate dcXor.length [] }
        js.unlockAnd .next

end Dcrtxmatcher.Coinjoin
