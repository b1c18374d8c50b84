import Dcrtxmatcher.Coinjoin.Rounds

/-! The handlers of `run` after the DC-net: collecting inputs, building the joined
transaction, collecting signatures, publishing. -/
namespace Dcrtxmatcher.Coinjoin
open Lib

/-! ### Inputs -/

/-- The loop over the inputs: their total up to the first one that is already
signed, and whether there is one. -/
def sumInputs (txAmount : ℤ) : List TxIn → ℤ × Bool
  | [] => (txAmount, false)
  | txin :: rest =>
    if txin.signatureScript ≠ [] then (txAmount, true)
    else sumInputs (wrap64 (txAmount + txin.valueIn)) rest

/-- `peer.InputIndex = append(peer.InputIndex, i + endIndex)` for each of the peer's inputs. -/
def appendIndex (peerId endIndex : ℕ) (txIns : MsgTx) (peers : GoMap ℕ PeerInfo) : GoMap ℕ PeerInfo :=
  GoMap.modify peerId (fun peer =>
    { peer with inputIndex := peer.inputIndex ++ (List.range txIns.txIn.length).map (· + endIndex) }) peers

/-- The loop that joins the transactions in the order the peers are visited. -/
def joinTxs : List (ℕ × MsgTx) → Option MsgTx → GoMap ℕ PeerInfo → Option MsgTx × GoMap ℕ PeerInfo
  | [], joinedtx, peers => (joinedtx, peers)
  | (peerId, txIns) :: rest, none, peers => joinTxs rest (some txIns) (appendIndex peerId 0 txIns peers)
  | (peerId, txIns) :: rest, some joinedtx, peers =>
    joinTxs rest
      (some { joinedtx with
        txIn := joinedtx.txIn ++ txIns.txIn
        txOut := joinedtx.txOut ++ txIns.txOut })
      (appendIndex peerId joinedtx.txIn.length txIns peers)

/-- The transactions in the order visited; every peer has one when they are joined. -/
def submittedTxs (ch : Choices) (peers : GoMap ℕ PeerInfo) : List (ℕ × MsgTx) :=
  (GoMap.range ch.order [647] peers).filterMap fun (peerId, peer) => peer.txIns.map (peerId, ·)

/-- `AddTxOut` for every script of the xor round. -/
def addScripts (ticketPrice : ℤ) (scripts : List Bytes) (tx : MsgTx) : MsgTx :=
  { tx with txOut := tx.txOut ++ scripts.map (newTxOut ticketPrice) }

/-- The unsigned joined transaction. It is the transaction object of the peer
visited first, which thus keeps it as its own. -/
def buildJoinedTx (ch : Choices) (ticketPrice : ℤ) (js : JoinSession) : Except Fault (MsgTx × JoinSession) :=
  let visited := submittedTxs ch js.peers
  match visited, joinTxs visited none js.peers with
  | (first, _) :: _, (some joinedtx, peers) =>
    let joinedtx := addScripts ticketPrice js.allPkScripts joinedtx
    .ok (joinedtx, { js with peers := GoMap.modify first (fun peer => { peer with txIns := some joinedtx }) peers })
  | _, _ => .error .panic

/-- The end of the round, once every peer has sent its inputs. -/
def sendJoinedTx (pkgs : Packages) (ch : Choices) (ticketPrice : ℤ) (js : JoinSession) : Handled := do
  let (joinedtx, js) ← buildJoinedTx ch ticketPrice js
  match pkgs.btcEncode joinedtx with
  | none => js.failWith .btcEncode
  | some tx =>
    if !ch.marshal [681] then js.failWith .marshal
    else
      let js := (js.broadcast ch 688 (.joinedTx tx)).newTimer js.roundTimeOut
      let js := { js with state := .txSign }
      js.unlockAnd .next

def txInputs (pkgs : Packages) (ch : Choices) (txins : TxInputs) (js : JoinSession) : Handled := do
  let js ← js.lock
  match js.peers.lookup txins.peerId with
  | none => js.unlockAnd .next
  | some peer =>
    let js := js.setPeer txins.peerId fun peer => { peer with ticketPrice := txins.ticketPrice }
    if txins.ticketPrice ≤ 0 then js.unlockAnd ⟨some [peer.id], .breakLoop⟩
    else
      match pkgs.btcDecode txins.txins with
      | none => js.failWith .btcDecode
      | some tx =>
        let js := js.setPeer txins.peerId fun peer => { peer with txIns := some tx }
        let (txAmount, signed) := sumInputs 0 tx.txIn
        -- an input that is already signed only sets `errm`
        let js := if signed then { js with errm := some .alreadySigned } else js
        match tx.txOut with
        | [] => .error .panic
        | change :: _ =>
          let txoutValue := wrap64 (change.value + wrap64 (peer.numMsg * txins.ticketPrice))
          -- this `break` leaves the select with the mutex held
          if dcr txAmount < dcr txoutValue then .ok (.next, js)
          else if js.allSubmit (fun peer => peer.txIns.isSome) then sendJoinedTx pkgs ch txins.ticketPrice js
          else js.unlockAnd .next

/-! ### Signatures -/

/-- Whether one of the peer's inputs is not the submitted one with a signature. -/
def invalidInput (tx : MsgTx) (own : List TxIn) (i : ℕ) : List ℕ → Except Fault Bool
  | [] => .ok false
  | idx :: rest => do
    let signed ← index tx.txIn idx
    let sent ← index own i
    if signed.valueIn ≠ sent.valueIn ∨ signed.previousOutPoint.hash ≠ sent.previousOutPoint.hash ∨
        signed.previousOutPoint.index ≠ sent.previousOutPoint.index ∨ signed.signatureScript = []
    then .ok true
    else invalidInput tx own (i + 1) rest

/-- `joinSession.JoinedTx.TxIn[index] = tx.TxIn[index]` for each of the peer's indices. -/
def patchInputs (tx : MsgTx) : List ℕ → MsgTx → Except Fault MsgTx
  | [], joinedTx => .ok joinedTx
  | idx :: rest, joinedTx => do
    let txin ← index tx.txIn idx
    if idx < joinedTx.txIn.length then
      patchInputs tx rest { joinedTx with txIn := joinedTx.txIn.set idx txin }
    else .error .panic

/-- The attempts to publish from the server, at most `n` more. -/
def publish (ch : Choices) (tx : Bytes) (cnt : ℕ) : ℕ → List Output × Bool
  | 0 => ([], false)
  | n + 1 =>
    if ch.publishTx cnt then ([.post tx], true)
    else
      let (posts, published) := publish ch tx (cnt + 1) n
      (.post tx :: posts, published)

/-- The end of the round, once every peer has signed. -/
def publishJoinedTx (pkgs : Packages) (ch : Choices) (js : JoinSession) : Handled := do
  match ← js.encodeJoinedTx pkgs with
  | none => js.failWith .btcEncode
  | some tx =>
    let (posts, published) := if js.serverPublish then publish ch tx 0 3 else ([], false)
    let js := { js with out := js.out ++ posts }
    if published then
      let js := { (js.broadcast ch 786 (.txPublishResult tx)) with state := .completed }
      js.unlockAnd ⟨none, .breakLoop⟩
    else if !ch.marshal [812] then js.failWith .marshal
    else do
      let js ← js.selectPublisher ch tx (js.roundTimeOut / 3)
      let js := { js with state := .txPublish }
      js.unlockAnd .next

/-- Merging an accepted signed transaction: the first becomes the joined one, the
others give their own inputs. -/
def mergeSigned (tx : MsgTx) (inputIndex : List ℕ) (js : JoinSession) : Except Fault JoinSession :=
  match js.joinedTx with
  | none => .ok { js with joinedTx := some tx }
  | some joinedTx => do
    let joinedTx ← patchInputs tx inputIndex joinedTx
    .ok { js with joinedTx := some joinedTx }

def txSigned (pkgs : Packages) (ch : Choices) (signedTx : JoinTx) (js : JoinSession) : Handled := do
  let js ← js.lock
  match js.peers.lookup signedTx.peerId with
  | none => js.unlockAnd .next
  | some peer =>
    match pkgs.btcDecode signedTx.tx with
    | none => js.failWith .btcDecode
    | some tx =>
      if peer.signedTx.isSome then js.unlockAnd .next
      else do
        let js := js.setPeer signedTx.peerId fun peer => { peer with signedTx := some tx }
        let own := (peer.txIns.map (·.txIn)).getD []
        if ← invalidInput tx own 0 peer.inputIndex then js.unlockAnd ⟨some [peer.id], .next⟩
        else do
          let js ← mergeSigned tx peer.inputIndex js
          if js.allSubmit (fun peer => peer.signedTx.isSome) then publishJoinedTx pkgs ch js
          else js.unlockAnd .next

/-! ### Publishing -/

def txPublishResult (ch : Choices) (pubResult : PublishResult) (js : JoinSession) : Handled := do
  let js ← js.lock
  let js := js.broadcast ch 834 (.txPublishResult pubResult.tx)
  let js := { js with state := .completed }
  js.unlockAnd ⟨none, .breakLoop⟩

/-! ### A message that was not found -/

def msgNotFound (ch : Choices) (data : MsgNotFound) (js : JoinSession) : Handled := do
  let js ← js.lock
  match js.peers.lookup data.peerId with
  | none => js.unlockAnd .next
  | some _ =>
    let js := (js.broadcast ch 1228 .revealSecret).newTimer js.roundTimeOut
    let js := { js with state := .revealSecret }
    js.unlockAnd .next

end Dcrtxmatcher.Coinjoin
