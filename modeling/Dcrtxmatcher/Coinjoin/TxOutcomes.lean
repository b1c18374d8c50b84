import Dcrtxmatcher.Coinjoin.Outcomes

/-! What the handlers after the DC-net can do: inputs, signatures, publishing, the
revealed secrets. -/
namespace Dcrtxmatcher.Coinjoin
open Lib

/-! ### Inputs -/

theorem buildJoinedTx_onlyPanics (ch : Choices) (ticketPrice : ℤ) (js : JoinSession) :
    OnlyPanics (buildJoinedTx ch ticketPrice js) := by
  rw [buildJoinedTx]
  split
  · exact .ok _
  · exact .panic

/-- The end of the round. -/
def unsignedTx (ch : Choices) (tx : Bytes) (js : JoinSession) : JoinSession :=
  { ((js.broadcast ch 688 (.joinedTx tx)).newTimer js.roundTimeOut) with state := .txSign }

/-- The ends of the round, for the session with all inputs in it. -/
inductive JoinedOutcome (pkgs : Packages) (ch : Choices) (ticketPrice : ℤ) (js : JoinSession) : Handled → Prop
  | panic : JoinedOutcome pkgs ch ticketPrice js (.error .panic)
  | failed {joinedtx : MsgTx} {js' : JoinSession} (hbuild : buildJoinedTx ch ticketPrice js = .ok (joinedtx, js'))
      (err : Errm) : JoinedOutcome pkgs ch ticketPrice js (failed err js')
  | sent {joinedtx : MsgTx} {js' : JoinSession} {tx : Bytes} (hbuild : buildJoinedTx ch ticketPrice js = .ok (joinedtx, js'))
      (hencode : pkgs.btcEncode joinedtx = some tx) :
      JoinedOutcome pkgs ch ticketPrice js (.ok (.next, unsignedTx ch tx js'))

/-- Building the transaction has nothing to do with the mutex. -/
theorem buildJoinedTx_withMu (ch : Choices) (ticketPrice : ℤ) (js : JoinSession) (b : Bool) :
    buildJoinedTx ch ticketPrice (js.withMu b) =
      (buildJoinedTx ch ticketPrice js).map fun (joinedtx, js) => (joinedtx, js.withMu b) := by
  simp only [buildJoinedTx, JoinSession.peers_withMu]
  split <;> rfl

theorem mu_buildJoinedTx {ch : Choices} {ticketPrice : ℤ} {js js' : JoinSession} {joinedtx : MsgTx}
    (h : buildJoinedTx ch ticketPrice js = .ok (joinedtx, js')) : js'.mu = js.mu := by
  simp only [buildJoinedTx] at h
  split at h
  · cases h
    rfl
  · cases h

theorem sendJoinedTx_outcome (pkgs : Packages) (ch : Choices) (ticketPrice : ℤ) {js : JoinSession}
    (hmu : js.mu = false) : JoinedOutcome pkgs ch ticketPrice js (sendJoinedTx pkgs ch ticketPrice (js.withMu true)) := by
  rw [sendJoinedTx, buildJoinedTx_withMu]
  rcases hbuild : buildJoinedTx ch ticketPrice js with e | ⟨joinedtx, js'⟩
  · obtain rfl := buildJoinedTx_onlyPanics _ _ _ e hbuild
    exact .panic
  have hmu' : js'.mu = false := (mu_buildJoinedTx hbuild).trans hmu
  rw [Except.map, ok_bind]
  dsimp only
  rcases hencode : pkgs.btcEncode joinedtx with _ | tx
  · exact .failed hbuild .btcEncode
  change JoinedOutcome pkgs ch ticketPrice js
    (if !ch.marshal [681] then failed .marshal js' else ((unsignedTx ch tx js').withMu true).unlockAnd .next)
  split_ifs
  · exact .failed hbuild .marshal
  · exact JoinSession.of_unlockAnd _ hmu' (.sent hbuild hencode)

/-- The session with the sender's ticket price. -/
def storePrice (txins : TxInputs) (js : JoinSession) : JoinSession :=
  js.setPeer txins.peerId fun peer => { peer with ticketPrice := txins.ticketPrice }

/-- The session with the sender's transaction, and the error for one that is signed. -/
def storeInputs (txins : TxInputs) (tx : MsgTx) (js : JoinSession) : JoinSession :=
  let js := (storePrice txins js).setPeer txins.peerId fun peer => { peer with txIns := some tx }
  if (sumInputs 0 tx.txIn).2 then { js with errm := some .alreadySigned } else js

theorem storeInputs_withMu (txins : TxInputs) (tx : MsgTx) (js : JoinSession) (b : Bool) :
    storeInputs txins tx (js.withMu b) = (storeInputs txins tx js).withMu b := by
  simp only [storeInputs]
  split <;> rfl

@[simp] theorem mu_storeInputs (txins : TxInputs) (tx : MsgTx) (js : JoinSession) :
    (storeInputs txins tx js).mu = js.mu := by
  simp only [storeInputs]
  split <;> rfl

inductive TxInputsOutcome (pkgs : Packages) (ch : Choices) (txins : TxInputs) (js : JoinSession) : Handled → Prop
  | stranger (hp : js.peers.lookup txins.peerId = none) : TxInputsOutcome pkgs ch txins js (.ok (.next, js))
  | unpriced {peer : PeerInfo} (hp : js.peers.lookup txins.peerId = some peer) (hprice : txins.ticketPrice ≤ 0) :
      TxInputsOutcome pkgs ch txins js (.ok (⟨some [peer.id], .breakLoop⟩, storePrice txins js))
  | undecodable {peer : PeerInfo} (hp : js.peers.lookup txins.peerId = some peer) (hprice : ¬txins.ticketPrice ≤ 0)
      (hdecode : pkgs.btcDecode txins.txins = none) :
      TxInputsOutcome pkgs ch txins js (failed .btcDecode (storePrice txins js))
  | panic {tx : MsgTx} (hprice : ¬txins.ticketPrice ≤ 0) (hdecode : pkgs.btcDecode txins.txins = some tx) (hout : tx.txOut = []) :
      TxInputsOutcome pkgs ch txins js (.error .panic)
  /-- The mutex is kept. -/
  | overspent {peer : PeerInfo} {tx : MsgTx} {change : TxOut} {outs : List TxOut}
      (hp : js.peers.lookup txins.peerId = some peer) (hprice : ¬txins.ticketPrice ≤ 0)
      (hdecode : pkgs.btcDecode txins.txins = some tx) (hout : tx.txOut = change :: outs)
      (hspend : dcr (sumInputs 0 tx.txIn).1 < dcr (wrap64 (change.value + wrap64 (peer.numMsg * txins.ticketPrice)))) :
      TxInputsOutcome pkgs ch txins js (.ok (.next, (storeInputs txins tx js).withMu true))
  | waiting {peer : PeerInfo} {tx : MsgTx} {change : TxOut} {outs : List TxOut}
      (hp : js.peers.lookup txins.peerId = some peer) (hprice : ¬txins.ticketPrice ≤ 0)
      (hdecode : pkgs.btcDecode txins.txins = some tx) (hout : tx.txOut = change :: outs)
      (hspend : ¬dcr (sumInputs 0 tx.txIn).1 < dcr (wrap64 (change.value + wrap64 (peer.numMsg * txins.ticketPrice))))
      (hall : (storeInputs txins tx js).allSubmit (fun peer => peer.txIns.isSome) = false) :
      TxInputsOutcome pkgs ch txins js (.ok (.next, storeInputs txins tx js))
  | joined {peer : PeerInfo} {tx : MsgTx} {change : TxOut} {outs : List TxOut}
      (hp : js.peers.lookup txins.peerId = some peer) (hprice : ¬txins.ticketPrice ≤ 0)
      (hdecode : pkgs.btcDecode txins.txins = some tx) (hout : tx.txOut = change :: outs)
      (hspend : ¬dcr (sumInputs 0 tx.txIn).1 < dcr (wrap64 (change.value + wrap64 (peer.numMsg * txins.ticketPrice))))
      (hall : (storeInputs txins tx js).allSubmit (fun peer => peer.txIns.isSome) = true) {r : Handled}
      (h : JoinedOutcome pkgs ch txins.ticketPrice (storeInputs txins tx js) r) : TxInputsOutcome pkgs ch txins js r

theorem txInputs_outcome (pkgs : Packages) (ch : Choices) (txins : TxInputs) {js : JoinSession}
    (hmu : js.mu = false) : TxInputsOutcome pkgs ch txins js (txInputs pkgs ch txins js) := by
  rw [txInputs, js.lock_eq hmu, ok_bind, JoinSession.peers_withMu]
  rcases hp : js.peers.lookup txins.peerId with _ | peer
  · exact JoinSession.of_unlockAnd _ hmu (.stranger hp)
  dsimp only
  by_cases hprice : txins.ticketPrice ≤ 0
  · rw [if_pos hprice]
    exact JoinSession.of_unlockAnd (storePrice txins js) hmu (.unpriced hp hprice)
  rw [if_neg hprice]
  rcases hdecode : pkgs.btcDecode txins.txins with _ | tx
  · exact .undecodable hp hprice hdecode
  dsimp only
  rcases hout : tx.txOut with _ | ⟨change, outs⟩
  · exact .panic hprice hdecode hout
  change TxInputsOutcome pkgs ch txins js
    (if dcr (sumInputs 0 tx.txIn).1 < dcr (wrap64 (change.value + wrap64 (peer.numMsg * txins.ticketPrice))) then
      .ok (.next, storeInputs txins tx (js.withMu true))
    else if (storeInputs txins tx (js.withMu true)).allSubmit (fun peer => peer.txIns.isSome) then
      sendJoinedTx pkgs ch txins.ticketPrice (storeInputs txins tx (js.withMu true))
    else (storeInputs txins tx (js.withMu true)).unlockAnd .next)
  rw [storeInputs_withMu]
  split_ifs with hspend hall
  · exact .overspent hp hprice hdecode hout hspend
  · exact .joined hp hprice hdecode hout hspend hall (sendJoinedTx_outcome pkgs ch txins.ticketPrice (by simpa))
  · exact JoinSession.of_unlockAnd _ (by simpa) (.waiting hp hprice hdecode hout hspend (by simpa using hall))

/-! ### Signatures -/

theorem invalidInput_onlyPanics (tx : MsgTx) (own : List TxIn) (i : ℕ) (inputIndex : List ℕ) :
    OnlyPanics (invalidInput tx own i inputIndex) := by
  induction inputIndex generalizing i with
  | nil => exact .ok _
  | cons idx rest ih =>
    refine OnlyPanics.bind (index_onlyPanics _ _) fun signed _ => OnlyPanics.bind (index_onlyPanics _ _) fun sent _ => ?_
    split_ifs
    · exact .ok _
    · exact ih (i + 1)

theorem patchInputs_onlyPanics (tx : MsgTx) (inputIndex : List ℕ) (joinedTx : MsgTx) :
    OnlyPanics (patchInputs tx inputIndex joinedTx) := by
  induction inputIndex generalizing joinedTx with
  | nil => exact .ok _
  | cons idx rest ih =>
    refine OnlyPanics.bind (index_onlyPanics _ _) fun txin _ => ?_
    split_ifs
    · exact ih _
    · exact .panic

theorem mergeSigned_onlyPanics (tx : MsgTx) (inputIndex : List ℕ) (js : JoinSession) :
    OnlyPanics (mergeSigned tx inputIndex js) := by
  rw [mergeSigned]
  split
  · exact .ok _
  · exact OnlyPanics.bind (patchInputs_onlyPanics _ _ _) fun _ _ => .ok _

theorem mergeSigned_withMu (tx : MsgTx) (inputIndex : List ℕ) (js : JoinSession) (b : Bool) :
    mergeSigned tx inputIndex (js.withMu b) = (mergeSigned tx inputIndex js).map (·.withMu b) := by
  rw [mergeSigned, mergeSigned, show (js.withMu b).joinedTx = js.joinedTx from rfl]
  cases js.joinedTx with
  | none => rfl
  | some joinedTx =>
    dsimp only
    cases patchInputs tx inputIndex joinedTx <;> rfl

/-- Merging is about the joined transaction only. -/
theorem mergeSigned_eq_ok {tx : MsgTx} {inputIndex : List ℕ} {js js' : JoinSession}
    (h : mergeSigned tx inputIndex js = .ok js') : ∃ joinedTx, js' = { js with joinedTx := some joinedTx } := by
  rw [mergeSigned] at h
  split at h
  · cases h
    exact ⟨tx, rfl⟩
  · obtain ⟨joinedTx, -, h⟩ := bind_eq_ok.mp h
    cases h
    exact ⟨joinedTx, rfl⟩

namespace JoinSession

theorem randomPublisher_onlyPanics (ch : Choices) (js : JoinSession) : OnlyPanics (js.randomPublisher ch) := by
  rw [randomPublisher]
  split_ifs
  · exact .panic
  · exact OnlyPanics.bind (index_onlyPanics _ _) fun _ _ => .ok _

theorem encodeJoinedTx_onlyPanics (pkgs : Packages) (js : JoinSession) : OnlyPanics (js.encodeJoinedTx pkgs) := by
  rw [encodeJoinedTx]
  split
  · exact .ok _
  · exact .panic

/-- The session with another publisher, who has been sent the transaction. -/
def delegated (pubId : ℕ) (publisher : PeerInfo) (tx : Bytes) (seconds : ℕ) (js : JoinSession) : JoinSession :=
  (JoinSession.send publisher.conn (.txSign tx) { js with publisher := pubId }).newTimer seconds

/-- Some member becomes the publisher. -/
inductive SelectOutcome (tx : Bytes) (seconds : ℕ) (js : JoinSession) : Except Fault JoinSession → Prop
  | panic : SelectOutcome tx seconds js (.error .panic)
  | selected {pubId : ℕ} {publisher : PeerInfo} (hp : js.peers.lookup pubId = some publisher) :
      SelectOutcome tx seconds js (.ok (js.delegated pubId publisher tx seconds))

theorem selectPublisher_outcome (ch : Choices) (tx : Bytes) (seconds : ℕ) (js : JoinSession) :
    SelectOutcome tx seconds js (js.selectPublisher ch tx seconds) := by
  rw [selectPublisher]
  rcases hpub : js.randomPublisher ch with e | pubId
  · obtain rfl := randomPublisher_onlyPanics _ _ e hpub
    exact .panic
  rw [ok_bind]
  dsimp only
  split
  · exact .selected ‹_›
  · exact .panic

/-- The change of publisher. -/
inductive ChangeOutcome (pkgs : Packages) (ch : Choices) (site : List ℕ) (js : JoinSession) :
    Except Fault (Bool × JoinSession) → Prop
  | panic (hpanic : ∀ joinedTx, js.joinedTx = some joinedTx →
      (pkgs.btcEncode joinedTx).isSome = true ∧ ch.marshal site = true) : ChangeOutcome pkgs ch site js (.error .panic)
  | failed {joinedTx : MsgTx} (hjoined : js.joinedTx = some joinedTx)
      (hfail : pkgs.btcEncode joinedTx = none ∨ ch.marshal site = false) :
      ChangeOutcome pkgs ch site js (.ok (false, js.terminate ch))
  | changed {joinedTx : MsgTx} {tx : Bytes} {pubId : ℕ} {publisher : PeerInfo} (hjoined : js.joinedTx = some joinedTx)
      (hencode : pkgs.btcEncode joinedTx = some tx) (hmarshal : ch.marshal site = true)
      (hp : js.peers.lookup pubId = some publisher) :
      ChangeOutcome pkgs ch site js (.ok (true, js.delegated pubId publisher tx js.roundTimeOut))

theorem encodeJoinedTx_eq_ok {pkgs : Packages} {js : JoinSession} {tx : Option Bytes} (h : js.encodeJoinedTx pkgs = .ok tx) :
    ∃ joinedTx, js.joinedTx = some joinedTx ∧ pkgs.btcEncode joinedTx = tx := by
  rw [encodeJoinedTx] at h
  split at h
  · cases h
    exact ⟨_, ‹_›, rfl⟩
  · cases h

theorem changePublisher_outcome (pkgs : Packages) (ch : Choices) (site : List ℕ) (js : JoinSession) :
    ChangeOutcome pkgs ch site js (js.changePublisher pkgs ch site) := by
  rw [changePublisher]
  rcases hencode : js.encodeJoinedTx pkgs with e | tx
  · obtain rfl := encodeJoinedTx_onlyPanics _ _ e hencode
    refine .panic fun joinedTx hjoined => ?_
    rw [encodeJoinedTx, hjoined] at hencode
    cases hencode
  rw [ok_bind]
  obtain ⟨joinedTx, hjoined, rfl⟩ := encodeJoinedTx_eq_ok hencode
  rcases htx : pkgs.btcEncode joinedTx with _ | tx
  · exact .failed hjoined (.inl htx)
  dsimp only
  split_ifs with hmarshal
  · have hselect := selectPublisher_outcome ch tx js.roundTimeOut js
    generalize js.selectPublisher ch tx js.roundTimeOut = r at hselect ⊢
    cases hselect with
    | panic =>
      refine .panic fun other hother => ⟨?_, hmarshal⟩
      cases hjoined.symm.trans hother
      rw [htx]
      rfl
    | selected hp => exact .changed hjoined htx hmarshal hp
  · exact .failed hjoined (.inr (by simpa using hmarshal))

end JoinSession

/-- The session once its transaction is published by the server. -/
def serverPublished (ch : Choices) (posts : List Output) (tx : Bytes) (js : JoinSession) : JoinSession :=
  { JoinSession.broadcast ch 786 (.txPublishResult tx) { js with out := js.out ++ posts } with state := .completed }

/-- The session once a peer has been asked to publish. -/
def peerPublishes (posts : List Output) (pubId : ℕ) (publisher : PeerInfo) (tx : Bytes) (js : JoinSession) : JoinSession :=
  { JoinSession.delegated pubId publisher tx (js.roundTimeOut / 3) { js with out := js.out ++ posts } with
    state := .txPublish }

/-- What the server posts on its own. -/
def serverPosts (ch : Choices) (js : JoinSession) (tx : Bytes) : List Output × Bool :=
  if js.serverPublish then publish ch tx 0 3 else ([], false)

/-- The ends of the round, for the session with all signatures in it. -/
inductive PublishOutcome (pkgs : Packages) (ch : Choices) (js : JoinSession) : Handled → Prop
  | panic (hpanic : ∀ joinedTx tx, js.joinedTx = some joinedTx → pkgs.btcEncode joinedTx = some tx →
      (serverPosts ch js tx).2 = false) : PublishOutcome pkgs ch js (.error .panic)
  | unencodable {joinedTx : MsgTx} (hjoined : js.joinedTx = some joinedTx) (hencode : pkgs.btcEncode joinedTx = none) :
      PublishOutcome pkgs ch js (failed .btcEncode js)
  | published {joinedTx : MsgTx} {tx : Bytes} (hjoined : js.joinedTx = some joinedTx)
      (hencode : pkgs.btcEncode joinedTx = some tx) (hpost : (serverPosts ch js tx).2 = true) :
      PublishOutcome pkgs ch js (.ok (⟨none, .breakLoop⟩, serverPublished ch (serverPosts ch js tx).1 tx js))
  | unmarshalled {joinedTx : MsgTx} {tx : Bytes} (hjoined : js.joinedTx = some joinedTx)
      (hencode : pkgs.btcEncode joinedTx = some tx) (hpost : (serverPosts ch js tx).2 = false) :
      PublishOutcome pkgs ch js (failed .marshal { js with out := js.out ++ (serverPosts ch js tx).1 })
  | delegated {joinedTx : MsgTx} {tx : Bytes} {pubId : ℕ} {publisher : PeerInfo} (hjoined : js.joinedTx = some joinedTx)
      (hencode : pkgs.btcEncode joinedTx = some tx) (hpost : (serverPosts ch js tx).2 = false)
      (hp : js.peers.lookup pubId = some publisher) :
      PublishOutcome pkgs ch js (.ok (.next, peerPublishes (serverPosts ch js tx).1 pubId publisher tx js))

theorem publishJoinedTx_outcome (pkgs : Packages) (ch : Choices) {js : JoinSession} (hmu : js.mu = false) :
    PublishOutcome pkgs ch js (publishJoinedTx pkgs ch (js.withMu true)) := by
  rw [publishJoinedTx]
  change PublishOutcome pkgs ch js (js.encodeJoinedTx pkgs >>= _)
  rcases hencode : js.encodeJoinedTx pkgs with e | tx
  · obtain rfl := JoinSession.encodeJoinedTx_onlyPanics _ _ e hencode
    refine .panic fun joinedTx tx hjoined => ?_
    rw [JoinSession.encodeJoinedTx, hjoined] at hencode
    cases hencode
  rw [ok_bind]
  obtain ⟨joinedTx, hjoined, rfl⟩ := JoinSession.encodeJoinedTx_eq_ok hencode
  rcases htx : pkgs.btcEncode joinedTx with _ | tx
  · exact .unencodable hjoined htx
  change PublishOutcome pkgs ch js (if (serverPosts ch js tx).2 then
      ((serverPublished ch (serverPosts ch js tx).1 tx js).withMu true).unlockAnd ⟨none, .breakLoop⟩
    else if !ch.marshal [812] then failed .marshal { js with out := js.out ++ (serverPosts ch js tx).1 }
    else do
      let js ← (JoinSession.withMu { js with out := js.out ++ (serverPosts ch js tx).1 } true).selectPublisher ch tx
        (js.roundTimeOut / 3)
      JoinSession.unlockAnd .next { js with state := .txPublish })
  split_ifs with hpost
  · exact JoinSession.of_unlockAnd _ hmu (.published hjoined htx hpost)
  · exact .unmarshalled hjoined htx (by simpa using hpost)
  · have hselect := JoinSession.selectPublisher_outcome ch tx (js.roundTimeOut / 3)
      (JoinSession.withMu { js with out := js.out ++ (serverPosts ch js tx).1 } true)
    generalize JoinSession.selectPublisher ch tx (js.roundTimeOut / 3) _ = r at hselect ⊢
    cases hselect with
    | panic =>
      refine .panic fun other bytes hother hbytes => ?_
      cases hjoined.symm.trans hother
      cases htx.symm.trans hbytes
      simpa using hpost
    | @selected pubId publisher hp =>
      exact JoinSession.of_unlockAnd (peerPublishes (serverPosts ch js tx).1 pubId publisher tx js) hmu
        (.delegated hjoined htx (by simpa using hpost) hp)

/-- The session with the sender's signed transaction. -/
def storeSigned (signedTx : JoinTx) (tx : MsgTx) (js : JoinSession) : JoinSession :=
  js.setPeer signedTx.peerId fun peer => { peer with signedTx := some tx }

/-- The inputs a peer has submitted. -/
def PeerInfo.ownInputs (peer : PeerInfo) : List TxIn := (peer.txIns.map (·.txIn)).getD []

inductive TxSignedOutcome (pkgs : Packages) (ch : Choices) (signedTx : JoinTx) (js : JoinSession) : Handled → Prop
  | stranger (hp : js.peers.lookup signedTx.peerId = none) : TxSignedOutcome pkgs ch signedTx js (.ok (.next, js))
  | undecodable {peer : PeerInfo} (hp : js.peers.lookup signedTx.peerId = some peer)
      (hdecode : pkgs.btcDecode signedTx.tx = none) : TxSignedOutcome pkgs ch signedTx js (failed .btcDecode js)
  | again {peer : PeerInfo} {tx : MsgTx} (hp : js.peers.lookup signedTx.peerId = some peer)
      (hdecode : pkgs.btcDecode signedTx.tx = some tx) (hsigned : peer.signedTx.isSome = true) :
      TxSignedOutcome pkgs ch signedTx js (.ok (.next, js))
  | panic {peer : PeerInfo} {tx : MsgTx} (hp : js.peers.lookup signedTx.peerId = some peer)
      (hdecode : pkgs.btcDecode signedTx.tx = some tx)
      (hpanic : ∀ invalid, invalidInput tx peer.ownInputs 0 peer.inputIndex = .ok invalid →
        invalid = false ∧ ∀ js', mergeSigned tx peer.inputIndex (storeSigned signedTx tx js) ≠ .ok js') :
      TxSignedOutcome pkgs ch signedTx js (.error .panic)
  | invalid {peer : PeerInfo} {tx : MsgTx} (hp : js.peers.lookup signedTx.peerId = some peer)
      (hdecode : pkgs.btcDecode signedTx.tx = some tx) (hsigned : ¬peer.signedTx.isSome = true)
      (hinvalid : invalidInput tx peer.ownInputs 0 peer.inputIndex = .ok true) :
      TxSignedOutcome pkgs ch signedTx js (.ok (⟨some [peer.id], .next⟩, storeSigned signedTx tx js))
  | waiting {peer : PeerInfo} {tx : MsgTx} {js' : JoinSession} (hp : js.peers.lookup signedTx.peerId = some peer)
      (hdecode : pkgs.btcDecode signedTx.tx = some tx) (hsigned : ¬peer.signedTx.isSome = true)
      (hvalid : invalidInput tx peer.ownInputs 0 peer.inputIndex = .ok false)
      (hmerge : mergeSigned tx peer.inputIndex (storeSigned signedTx tx js) = .ok js')
      (hall : js'.allSubmit (fun peer => peer.signedTx.isSome) = false) :
      TxSignedOutcome pkgs ch signedTx js (.ok (.next, js'))
  | ended {peer : PeerInfo} {tx : MsgTx} {js' : JoinSession} (hp : js.peers.lookup signedTx.peerId = some peer)
      (hdecode : pkgs.btcDecode signedTx.tx = some tx) (hsigned : ¬peer.signedTx.isSome = true)
      (hvalid : invalidInput tx peer.ownInputs 0 peer.inputIndex = .ok false)
      (hmerge : mergeSigned tx peer.inputIndex (storeSigned signedTx tx js) = .ok js')
      (hall : js'.allSubmit (fun peer => peer.signedTx.isSome) = true) {r : Handled} (h : PublishOutcome pkgs ch js' r) :
      TxSignedOutcome pkgs ch signedTx js r

theorem txSigned_outcome (pkgs : Packages) (ch : Choices) (signedTx : JoinTx) {js : JoinSession} (hmu : js.mu = false) :
    TxSignedOutcome pkgs ch signedTx js (txSigned pkgs ch signedTx js) := by
  rw [txSigned, js.lock_eq hmu, ok_bind, JoinSession.peers_withMu]
  rcases hp : js.peers.lookup signedTx.peerId with _ | peer
  · exact JoinSession.of_unlockAnd _ hmu (.stranger hp)
  dsimp only
  rcases hdecode : pkgs.btcDecode signedTx.tx with _ | tx
  · exact .undecodable hp hdecode
  dsimp only
  by_cases hsigned : peer.signedTx.isSome = true
  · rw [if_pos hsigned]
    exact JoinSession.of_unlockAnd _ hmu (.again hp hdecode hsigned)
  rw [if_neg hsigned]
  change TxSignedOutcome pkgs ch signedTx js (invalidInput tx peer.ownInputs 0 peer.inputIndex >>= fun invalid =>
    if invalid = true then ((storeSigned signedTx tx js).withMu true).unlockAnd ⟨some [peer.id], .next⟩
    else do
      let js ← mergeSigned tx peer.inputIndex ((storeSigned signedTx tx js).withMu true)
      if js.allSubmit (fun peer => peer.signedTx.isSome) then publishJoinedTx pkgs ch js
      else js.unlockAnd .next)
  rcases hinvalid : invalidInput tx peer.ownInputs 0 peer.inputIndex with e | invalid
  · obtain rfl := invalidInput_onlyPanics _ _ _ _ e hinvalid
    refine .panic hp hdecode fun invalid hok => ?_
    rw [hinvalid] at hok
    cases hok
  rw [ok_bind]
  cases invalid with
  | true => exact JoinSession.of_unlockAnd _ hmu (.invalid hp hdecode hsigned hinvalid)
  | false =>
    rw [if_neg (by simp), mergeSigned_withMu]
    rcases hmerge : mergeSigned tx peer.inputIndex (storeSigned signedTx tx js) with e | js'
    · obtain rfl := mergeSigned_onlyPanics _ _ _ e hmerge
      refine .panic hp hdecode fun invalid hok => ⟨Except.ok.inj (hok.symm.trans hinvalid), fun js' hsome => ?_⟩
      rw [hmerge] at hsome
      cases hsome
    have hmu' : js'.mu = false := by
      obtain ⟨_, rfl⟩ := mergeSigned_eq_ok hmerge
      exact hmu
    change TxSignedOutcome pkgs ch signedTx js (if js'.allSubmit (fun peer => peer.signedTx.isSome) then
      publishJoinedTx pkgs ch (js'.withMu true) else (js'.withMu true).unlockAnd .next)
    split_ifs with hall
    · exact .ended hp hdecode hsigned hinvalid hmerge hall (publishJoinedTx_outcome pkgs ch hmu')
    · exact JoinSession.of_unlockAnd _ hmu' (.waiting hp hdecode hsigned hinvalid hmerge (by simpa using hall))

/-! ### Publishing -/

/-- The session once the result of a peer has been passed on. -/
def resultSent (ch : Choices) (tx : Bytes) (js : JoinSession) : JoinSession :=
  { js.broadcast ch 834 (.txPublishResult tx) with state := .completed }

theorem txPublishResult_eq (ch : Choices) (pubResult : PublishResult) {js : JoinSession} (hmu : js.mu = false) :
    txPublishResult ch pubResult js = .ok (⟨none, .breakLoop⟩, resultSent ch pubResult.tx js) := by
  rw [txPublishResult, js.lock_eq hmu, ok_bind]
  exact JoinSession.of_unlockAnd (P := (· = _)) (resultSent ch pubResult.tx js) hmu rfl

/-! ### Secrets -/

/-- A replay that stops at a fault stops at a panic. -/
def Stop.OnlyPanics {α : Type} (x : Except Stop α) : Prop := ∀ f, x = .error (.fault f) → f = .panic

namespace Stop.OnlyPanics

theorem ok {α : Type} (a : α) : Stop.OnlyPanics (.ok a) := fun _ h => by cases h

theorem bind {α β : Type} {x : Except Stop α} {g : α → Except Stop β} (hx : Stop.OnlyPanics x)
    (hg : ∀ a, Stop.OnlyPanics (g a)) : Stop.OnlyPanics (x >>= g) := by
  intro f h
  cases x with
  | error e =>
    cases h
    exact hx f rfl
  | ok a => exact hg a f h

theorem lift {α : Type} {x : Except Fault α} (hx : Dcrtxmatcher.OnlyPanics x) : Stop.OnlyPanics (Stop.lift x) := by
  intro f h
  cases x with
  | error e =>
    cases h
    exact hx f rfl
  | ok a => cases h

theorem require {α : Type} (err : Errm) (x : Option α) : Stop.OnlyPanics (Stop.require err x) := by
  intro f h
  cases x <;> cases h

theorem mapM {α β : Type} {g : α → Except Stop β} (hg : ∀ a, Stop.OnlyPanics (g a)) (l : List α) :
    Stop.OnlyPanics (l.mapM g) := by
  induction l with
  | nil => exact ok _
  | cons a l ih =>
    rw [List.mapM_cons]
    exact bind (hg a) fun b => bind ih fun bs => ok _

end Stop.OnlyPanics

section Replay
variable (pkgs : Packages) (ch : Choices)

theorem keyCheck_onlyPanics (visited : List (PeerInfo × ℕ)) : Stop.OnlyPanics (keyCheck pkgs ch visited) := by
  induction visited with
  | nil => exact .ok _
  | cons e visited ih =>
    exact .bind (.require _ _) fun _ => .bind (.require _ _) fun _ => .bind ih fun _ => .ok _

theorem sharedKeys_onlyPanics (p : PeerInfo) (others : List PeerInfo) : Stop.OnlyPanics (sharedKeys pkgs p others) := by
  induction others with
  | nil => exact .ok _
  | cons op others ih =>
    rw [sharedKeys]
    split_ifs
    · exact ih
    · exact .bind (.require _ _) fun _ => .bind ih fun _ => .ok _

theorem stripPad_onlyPanics (pid opid : ℕ) (padding : Field) (numMsg : ℕ) (expVector : List Field) :
    OnlyPanics (stripPad pid opid padding numMsg expVector) := by
  rw [stripPad]
  by_cases hshort : pid ≠ opid ∧ expVector.length < numMsg
  · rw [if_pos hshort]
    exact .panic
  · rw [if_neg hshort]
    exact .ok _

theorem stripPads_onlyPanics (pid numMsg : ℕ) (keys : List (ℕ × Bytes)) (expVector : List Field) :
    Stop.OnlyPanics (stripPads pkgs pid numMsg keys expVector) := by
  induction keys generalizing expVector with
  | nil => exact .ok _
  | cons e keys ih =>
    exact .bind (.bind (.require _ _) fun _ => .bind (.require _ _) fun _ => .ok _) fun opInfo =>
      .bind (.lift (stripPad_onlyPanics _ _ _ _ _)) fun v => .bind (ih v) fun _ => .ok _

theorem differs_onlyPanics (v : List Field) (i : ℕ) (sent : List Field) : OnlyPanics (differs pkgs v i sent) := by
  induction sent generalizing i with
  | nil => exact .ok _
  | cons y sent ih =>
    refine OnlyPanics.bind (index_onlyPanics _ _) fun x _ => ?_
    split_ifs
    · exact .ok _
    · exact ih (i + 1)

theorem expReplay_onlyPanics (totalMsg : ℕ) (keys : GoMap ℕ Bytes) (pid : ℕ) (pInfo : PeerInfo) :
    Stop.OnlyPanics (expReplay pkgs ch totalMsg keys pid pInfo) := by
  refine .bind (stripPads_onlyPanics _ _ _ _ _) fun r => ?_
  dsimp only
  split_ifs
  · refine .bind (.lift (slice_onlyPanics _ _ _)) fun _ => .bind (.lift (getRoots_onlyPanics _ _ _ _)) fun r => ?_
    split_ifs
    · exact .ok _
    · exact .bind (.lift (differs_onlyPanics _ _ _ _)) fun _ => .ok _
  · exact .bind (.lift (index_onlyPanics _ _)) fun _ => .bind (.lift (differs_onlyPanics _ _ _ _)) fun _ => .ok _
  · exact .ok _

theorem replay_onlyPanics (js : JoinSession) : Stop.OnlyPanics (replay pkgs ch js) := by
  refine .bind (keyCheck_onlyPanics _ _ _) fun _ => ?_
  split
  · intro f h
    cases h
  · exact .bind (.bind (.mapM (fun _ => .bind (sharedKeys_onlyPanics _ _ _) fun _ => .ok _) _) fun _ => .ok _) fun _ =>
      .bind (.mapM (fun _ => .bind (expReplay_onlyPanics _ _ _ _ _ _) fun _ => .ok _) _) fun _ => .ok _

end Replay

/-- The session with the sender's secret. -/
def storeSecret (rvSecret : RevealSecret) (js : JoinSession) : JoinSession :=
  js.setPeer rvSecret.peerId fun peer => { peer with vk := rvSecret.vk }

/-- What is left to do after a replay. -/
def afterReplay (js : JoinSession) : Except Stop Findings → Handled
  | .error (.fault f) => .error f
  | .error (.errm err) => failed err js
  | .ok findings =>
    (JoinSession.withMu { js with totalMsg := findings.totalMsg, maliciousFinding := false } true).unlockAnd
      ⟨if findings.maliciousIds = [] then none else some findings.maliciousIds, .next⟩

inductive RevealOutcome (pkgs : Packages) (ch : Choices) (rvSecret : RevealSecret) (js : JoinSession) : Handled → Prop
  | stranger (hp : js.peers.lookup rvSecret.peerId = none) : RevealOutcome pkgs ch rvSecret js (.ok (.next, js))
  | panic : RevealOutcome pkgs ch rvSecret js (.error .panic)
  | failed (err : Errm) : RevealOutcome pkgs ch rvSecret js (failed err (storeSecret rvSecret js))
  | found {findings : Findings} (hreplay : replay pkgs ch (storeSecret rvSecret js) = .ok findings) :
      RevealOutcome pkgs ch rvSecret js
        (.ok (⟨if findings.maliciousIds = [] then none else some findings.maliciousIds, .next⟩,
          { storeSecret rvSecret js with totalMsg := findings.totalMsg, maliciousFinding := false }))
  | waiting : RevealOutcome pkgs ch rvSecret js (.ok (.next, { storeSecret rvSecret js with maliciousFinding := false }))

theorem revealSecret_outcome (pkgs : Packages) (ch : Choices) (rvSecret : RevealSecret) {js : JoinSession}
    (hmu : js.mu = false) : RevealOutcome pkgs ch rvSecret js (revealSecret pkgs ch rvSecret js) := by
  rw [revealSecret, js.lock_eq hmu, ok_bind, JoinSession.peers_withMu]
  rcases hp : js.peers.lookup rvSecret.peerId with _ | peer
  · exact JoinSession.of_unlockAnd _ hmu (.stranger hp)
  change RevealOutcome pkgs ch rvSecret js
    (if (storeSecret rvSecret js).allSubmit (fun peer => peer.vk ≠ []) then
      afterReplay (storeSecret rvSecret js) (replay pkgs ch (storeSecret rvSecret js))
    else (JoinSession.withMu { storeSecret rvSecret js with maliciousFinding := false } true).unlockAnd .next)
  split_ifs
  · rcases hreplay : replay pkgs ch (storeSecret rvSecret js) with (f | err) | findings
    · obtain rfl := replay_onlyPanics _ _ _ f hreplay
      exact .panic
    · exact .failed err
    · exact JoinSession.of_unlockAnd _ hmu (.found hreplay)
  · exact JoinSession.of_unlockAnd _ hmu .waiting

/-- The session once all peers have been asked for their secrets. -/
def secretsAsked (ch : Choices) (js : JoinSession) : JoinSession :=
  { (js.broadcast ch 1228 .revealSecret).newTimer js.roundTimeOut with state := .revealSecret }

inductive MsgNotFoundOutcome (ch : Choices) (data : MsgNotFound) (js : JoinSession) : Handled → Prop
  | stranger (hp : js.peers.lookup data.peerId = none) : MsgNotFoundOutcome ch data js (.ok (.next, js))
  | asked {peer : PeerInfo} (hp : js.peers.lookup data.peerId = some peer) :
      MsgNotFoundOutcome ch data js (.ok (.next, secretsAsked ch js))

theorem msgNotFound_outcome (ch : Choices) (data : MsgNotFound) {js : JoinSession} (hmu : js.mu = false) :
    MsgNotFoundOutcome ch data js (msgNotFound ch data js) := by
  rw [msgNotFound, js.lock_eq hmu, ok_bind, JoinSession.peers_withMu]
  rcases hp : js.peers.lookup data.peerId with _ | peer
  · exact JoinSession.of_unlockAnd _ hmu (.stranger hp)
  · exact JoinSession.of_unlockAnd (secretsAsked ch js) hmu (.asked hp)

end Dcrtxmatcher.Coinjoin
