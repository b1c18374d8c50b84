import Dcrtxmatcher.Coinjoin.Leftovers
import Dcrtxmatcher.Coinjoin.TxOutcomes

/-! What the handlers do to two sessions that are alike.

Every handler goes the same way in both and leaves them alike: the members agree but
for their prices, and what else differs is not looked at. -/
namespace Dcrtxmatcher.Coinjoin
open Lib

/-! ### Lists of members -/

/-- Members that differ in their prices are renewed in one order, and get the same ids. -/
theorem renewed_unpriced {js fresh : JoinSession} (h : unpriced js.peers = unpriced fresh.peers) (ch : Choices) :
    (js.renewed ch).map PeerInfo.unpriced = (fresh.renewed ch).map PeerInfo.unpriced := by
  have hread : ∀ js : JoinSession, (js.renewed ch).map PeerInfo.unpriced =
      (((GoMap.values ch.order [128] js.peers).map PeerInfo.unpriced).zipIdx.map fun e =>
        (e.1.resetData (ch.genId (e.2 + 1)) (ch.genId 0)).unpriced) := by
    intro js
    rw [List.zipIdx_map, List.map_map, JoinSession.renewed, List.map_map]
    rfl
  rw [hread, hread, map_values_of_unpriced h ch.order [128] fun _ => rfl]

/-- Of two peers with one id the map keeps the same one, with or without prices. -/
theorem unpriced_newPeers (peers : List PeerInfo) :
    unpriced (JoinSession.newPeers peers) = JoinSession.newPeers (peers.map PeerInfo.unpriced) := by
  rw [unpriced, JoinSession.newPeers, GoMap.mapVal_ofList, JoinSession.newPeers, List.map_map, List.map_map]
  rfl

theorem replaced_unpriced (peers : List PeerInfo) :
    (JoinSession.replaced peers).map PeerInfo.unpriced = JoinSession.replaced (peers.map PeerInfo.unpriced) := by
  induction peers with
  | nil => rfl
  | cons peer rest ih =>
    have hany : (rest.map PeerInfo.unpriced).any (fun later => later.id = peer.unpriced.id) =
        rest.any fun later => later.id = peer.id := by
      rw [List.any_map]
      rfl
    rw [JoinSession.replaced, List.map_cons, JoinSession.replaced, hany, ← ih]
    split_ifs <;> rfl

namespace Alike
variable {past : Past} {held : Prop} {js fresh : JoinSession} (h : Alike past held js fresh)
include h

/-! ### Restarting -/

theorem broadcast_eq (ch : Choices) (site : ℕ) {msg msg' : ServerMessage} (hmsg : msg = msg') :
    Alike past held (js.broadcast ch site msg) (fresh.broadcast ch site msg') := by
  rw [hmsg]
  exact h.broadcast ch site msg'

theorem send (conn : ℕ) (msg : ServerMessage) : Alike past held (js.send conn msg) (fresh.send conn msg) := h.append rfl

/-- The restart of a restart: `resetData` keeps the prices, and nothing else of the old members. -/
theorem restart (ch : Choices) (ps : List ℕ) : Alike past held (js.restart ch ps) (fresh.restart ch ps) := by
  have hrenewed := renewed_unpriced h.peers ch
  have hpeers : unpriced (JoinSession.newPeers (js.renewed ch)) = unpriced (JoinSession.newPeers (fresh.renewed ch)) := by
    rw [unpriced_newPeers, unpriced_newPeers, hrenewed]
  constructor
  · change { js.essence with
        peers := unpriced (JoinSession.newPeers (js.renewed ch)), joinedTx := none, peersMsgInfo := [], id := ch.genId 0
        state := .keyExchange, totalMsg := 0 } = { fresh.essence with
        peers := unpriced (JoinSession.newPeers (fresh.renewed ch)), joinedTx := none, peersMsgInfo := [], id := ch.genId 0
        state := .keyExchange, totalMsg := 0 }
    rw [hpeers, h.essence]
  · intro hread
    cases hread
  · intro hread
    rcases hread with hheld | hread
    · exact h.scripts (.inl hheld)
    · cases hread
  · exact h.timer
  · simp only [JoinSession.restart, List.map_append, replaced_unpriced, hrenewed, h.former, List.append_assoc]
  · simp only [JoinSession.restart, h.out, List.append_assoc]
    congr 2
    exact map_values_of_unpriced hpeers ch.order [146] fun _ => rfl

/-- Both are emptied, or both start over. -/
theorem pushMaliciousInfo (ch : Choices) (ps : List ℕ) :
    Agree (Alike past held) (js.pushMaliciousInfo ch ps) (fresh.pushMaliciousInfo ch ps) := by
  unfold JoinSession.pushMaliciousInfo
  refine h.lock.bind fun js fresh h => ?_
  have hremoved := h.removePeers ps
  exact .ite (by rw [hremoved.len]) (fun _ => hremoved.unlock) fun _ => (hremoved.restart ch ps).unlock

/-! ### Publishing -/

/-- The publisher is drawn among the ids, which the two share. -/
theorem randomPublisher (ch : Choices) : js.randomPublisher ch = fresh.randomPublisher ch := by
  have hread : ∀ js : JoinSession, js.randomPublisher ch =
      if GoMap.len js.peers = 0 then .error .panic
      else index ((GoMap.values ch.order [1249] js.peers).map (·.id)) (ch.intn (GoMap.len js.peers)) := by
    intro js
    rw [JoinSession.randomPublisher, index, index, List.getElem?_map]
    cases (GoMap.values ch.order [1249] js.peers)[ch.intn (GoMap.len js.peers)]? <;> rfl
  rw [hread, hread, h.len, h.map_values ch [1249] fun _ => rfl]

theorem encodeJoinedTx (pkgs : Packages) : js.encodeJoinedTx pkgs = fresh.encodeJoinedTx pkgs :=
  h.read (·.encodeJoinedTx pkgs) fun _ => rfl

theorem withPublisher (p : ℕ) : Alike past held { js with publisher := p } { fresh with publisher := p } :=
  { h with publisher := fun _ => rfl }

/-- The publisher that was left over is replaced before it is looked at. -/
theorem selectPublisher (ch : Choices) (tx : Bytes) (seconds seconds' : ℕ) :
    Agree (fun js fresh => Alike past held js fresh ∧ js.publisher = fresh.publisher)
      (js.selectPublisher ch tx seconds) (fresh.selectPublisher ch tx seconds') := by
  unfold JoinSession.selectPublisher
  refine .bind_of_eq (h.randomPublisher ch) fun p => ?_
  have hchosen := h.withPublisher p
  rcases hchosen.lookup p with ⟨hjs, hfresh⟩ | ⟨peer, price, hjs, hfresh⟩
  · dsimp only at hjs hfresh ⊢
    rw [hjs, hfresh]
    exact .error _
  · dsimp only at hjs hfresh ⊢
    rw [hjs, hfresh]
    exact .ok ⟨(hchosen.send peer.conn _).newTimer _ _, rfl⟩

/-- A change that goes through leaves both with one publisher. -/
theorem changePublisher (pkgs : Packages) (ch : Choices) (site : List ℕ) :
    Agree (fun r r' => Paired past held r r' ∧ (r.1 = true → r.2.publisher = r'.2.publisher))
      (js.changePublisher pkgs ch site) (fresh.changePublisher pkgs ch site) := by
  unfold JoinSession.changePublisher
  refine .bind_of_eq (h.encodeJoinedTx pkgs) fun tx => ?_
  cases tx with
  | none => exact .ok ⟨⟨rfl, h.terminate ch⟩, nofun⟩
  | some tx =>
    refine .ite Iff.rfl (fun _ => ?_) fun _ => .ok ⟨⟨rfl, h.terminate ch⟩, nofun⟩
    exact (h.selectPublisher ch tx _ _).bind fun js fresh h => .ok ⟨⟨rfl, h.1⟩, fun _ => h.2⟩

/-! ### The rounds -/

/-- The list that is compared with the members is one that a restart empties. -/
theorem keyExchange (pkgs : Packages) (ch : Choices) (req : KeyExchangeReq) :
    Agree (Paired past held) (Coinjoin.keyExchange pkgs ch req js) (Coinjoin.keyExchange pkgs ch req fresh) := by
  unfold Coinjoin.keyExchange
  refine h.lock.bind fun js fresh h => ?_
  rcases h.lookup req.peerId with ⟨hjs, hfresh⟩ | ⟨peer, price, hjs, hfresh⟩
  · rw [hjs, hfresh]
    exact h.unlockAnd _
  rw [hjs, hfresh]
  refine .ite Iff.rfl (fun _ => (h.removePeer _).unlockAnd _) fun _ => ?_
  have hset := h.setPeer req.peerId (g := fun peer => { peer with pk := req.pk, numMsg := req.numMsg }) fun _ => rfl
  have hinfo : Alike past held (announce req peer js) (announce req peer fresh) :=
    { hset with essence := congrArg (fun js : JoinSession =>
        { js with peersMsgInfo := js.peersMsgInfo ++ [(⟨peer.id, req.pk, req.numMsg⟩ : PeerMsgInfo)] }) hset.essence }
  have hcount : GoMap.len (announce req peer js).peers = (announce req peer js).peersMsgInfo.length ↔
      GoMap.len (announce req peer fresh).peers = (announce req peer fresh).peersMsgInfo.length := by
    rw [hinfo.len, hinfo.peersMsgInfo]
  refine .ite hcount (fun _ => ?_) fun _ => hinfo.unlockAnd _
  refine .ite Iff.rfl (fun _ => (hinfo.removePeer _).unlockAnd _) fun _ => ?_
  have hsent := (hinfo.broadcast_eq ch 365 (congrArg ServerMessage.keyExchange hinfo.peersMsgInfo)).newTimer js.roundTimeOut fresh.roundTimeOut
  exact (hsent.advance .dcExponential nofun nofun).unlockAnd _

/-- The sums are over the members' vectors, which both have. -/
theorem solveExponential (pkgs : Packages) (ch : Choices) (n : ℕ) :
    Agree (Paired past held) (Coinjoin.solveExponential pkgs ch n js) (Coinjoin.solveExponential pkgs ch n fresh) := by
  unfold Coinjoin.solveExponential
  refine .bind_of_eq (by rw [h.map_values ch [423] fun _ => rfl]) fun dcCombine => ?_
  refine .bind_of_eq rfl fun r => ?_
  refine .ite Iff.rfl (fun _ => (h.broadcast ch 443 _).unlockAnd _) fun _ => ?_
  cases encodeRoots r.2 with
  | error err => exact h.failWith err
  | ok allMsgHash =>
    refine .ite Iff.rfl (fun _ => h.failWith _) fun _ => ?_
    have hsent := (h.broadcast ch 482 (.dcExpVector r.2.length allMsgHash)).newTimer js.roundTimeOut fresh.roundTimeOut
    exact (hsent.advance .dcXor nofun nofun).unlockAnd _

/-- Here the error of an earlier round would be looked at; `Alike` has the same in both. -/
theorem dcExpVector (pkgs : Packages) (ch : Choices) (data : DcVector) :
    Agree (Paired past held) (Coinjoin.dcExpVector pkgs ch data js) (Coinjoin.dcExpVector pkgs ch data fresh) := by
  unfold Coinjoin.dcExpVector
  refine h.lock.bind fun js fresh h => ?_
  rcases h.lookup data.peerId with ⟨hjs, hfresh⟩ | ⟨peer, price, hjs, hfresh⟩
  · rw [hjs, hfresh]
    exact h.unlockAnd _
  rw [hjs, hfresh]
  refine .ite Iff.rfl (fun _ => h.unlockAnd _) fun _ => ?_
  refine .bind_of_eq rfl fun r => ?_
  have herr : Alike past held { js with errm := r.2.or js.errm } { fresh with errm := r.2.or fresh.errm } :=
    { h with essence := congrArg (fun js => { js with errm := r.2.or js.errm }) h.essence }
  refine .ite (by rw [herr.errm]) (fun _ => herr.unlockAnd _) fun _ => ?_
  have hset := herr.setPeer data.peerId (g := fun peer => { peer with dcExpVector := r.1 }) fun _ => rfl
  refine .ite (by rw [hset.allSubmit fun _ => rfl]) (fun _ => hset.solveExponential pkgs ch _) fun _ => hset.unlockAnd _

/-- The end of the xor round replaces what was left of an earlier one. -/
theorem withScripts (scripts : List Bytes) :
    Alike past held { js with allPkScripts := scripts } { fresh with allPkScripts := scripts } :=
  { h with scripts := fun _ => rfl }

theorem xorSlots (pkgs : Packages) (ch : Choices) (n : ℕ) :
    Coinjoin.xorSlots pkgs ch js.peers n = Coinjoin.xorSlots pkgs ch fresh.peers n := by
  unfold Coinjoin.xorSlots
  congr 1
  funext i
  rw [h.map_values ch [531, i] fun _ => rfl]

/-- The length is looked at before the sender is, so this goes for strangers as well. -/
theorem dcXorVector (pkgs : Packages) (ch : Choices) (data : DcVector) :
    Agree (Paired past held) (Coinjoin.dcXorVector pkgs ch data js) (Coinjoin.dcXorVector pkgs ch data fresh) := by
  unfold Coinjoin.dcXorVector
  refine h.lock.bind fun js fresh h => ?_
  refine .ite Iff.rfl (fun _ => h.unlockAnd _) fun _ => ?_
  refine .bind_of_eq rfl fun dcXor => ?_
  rcases h.lookup data.peerId with ⟨hjs, hfresh⟩ | ⟨peer, price, hjs, hfresh⟩
  · rw [hjs, hfresh]
    exact h.unlockAnd _
  rw [hjs, hfresh]
  have hset := h.setPeer data.peerId (g := fun peer => { peer with dcXorVector := dcXor }) fun _ => rfl
  refine .ite (by rw [hset.allSubmit fun _ => rfl]) (fun _ => ?_) fun _ => (hset.withScripts _).unlockAnd _
  refine .bind_of_eq (hset.xorSlots pkgs ch _) fun allPkScripts => ?_
  have hstored := hset.withScripts allPkScripts
  refine .ite Iff.rfl (fun _ => hstored.failWith _) fun _ => ?_
  have htimer := (hstored.newTimer js.roundTimeOut fresh.roundTimeOut).withState .txInput nofun fun _ => rfl
  exact (htimer.broadcast ch 562 _).unlockAnd _

end Alike

/-! ### Joining transactions -/

/-- What is joined does not depend on the prices that earlier submitters sent. -/
theorem submittedTxs_of_unpriced (ch : Choices) {peers peers' : GoMap ℕ PeerInfo} (h : unpriced peers = unpriced peers') :
    submittedTxs ch peers = submittedTxs ch peers' := by
  have hread : ∀ peers, submittedTxs ch peers =
      ((GoMap.range ch.order [647] peers).map fun e => e.2.txIns.map (e.1, ·)).filterMap id := by
    intro peers
    rw [List.filterMap_map, submittedTxs]
    rfl
  rw [hread, hread, map_range_of_unpriced h ch.order [647] fun _ _ => rfl]

theorem joinTxs_of_unpriced (l : List (ℕ × MsgTx)) (joinedtx : Option MsgTx) {peers peers' : GoMap ℕ PeerInfo}
    (h : unpriced peers = unpriced peers') : (joinTxs l joinedtx peers).1 = (joinTxs l joinedtx peers').1 ∧
      unpriced (joinTxs l joinedtx peers).2 = unpriced (joinTxs l joinedtx peers').2 := by
  have hindex : ∀ {peers peers' : GoMap ℕ PeerInfo}, unpriced peers = unpriced peers' → ∀ p n tx,
      unpriced (appendIndex p n tx peers) = unpriced (appendIndex p n tx peers') := by
    intro peers peers' h p n tx
    unfold appendIndex
    rw [unpriced_modify fun _ => rfl, unpriced_modify fun _ => rfl, h]
  induction l generalizing joinedtx peers peers' with
  | nil => exact ⟨rfl, h⟩
  | cons e rest ih =>
    cases joinedtx with
    | none => exact ih _ (hindex h _ _ _)
    | some tx => exact ih _ (hindex h _ _ _)

namespace Alike
variable {past : Past} {held : Prop} {js fresh : JoinSession} (h : Alike past held js fresh)
include h

/-- The price is that of the message at hand, and the scripts are those of this session. -/
theorem buildJoinedTx (hscripts : js.allPkScripts = fresh.allPkScripts) (ch : Choices) (ticketPrice : ℤ) :
    Agree (Paired past held) (Coinjoin.buildJoinedTx ch ticketPrice js) (Coinjoin.buildJoinedTx ch ticketPrice fresh) := by
  unfold Coinjoin.buildJoinedTx
  rw [submittedTxs_of_unpriced ch h.peers]
  cases submittedTxs ch fresh.peers with
  | nil => exact .error _
  | cons e rest =>
    obtain ⟨htx, hpeers⟩ := joinTxs_of_unpriced (e :: rest) none h.peers
    dsimp only
    generalize joinTxs (e :: rest) none js.peers = r at htx hpeers ⊢
    generalize joinTxs (e :: rest) none fresh.peers = r' at htx hpeers ⊢
    obtain ⟨joinedtx, peers⟩ := r
    obtain ⟨joinedtx', peers'⟩ := r'
    obtain rfl : joinedtx = joinedtx' := htx
    cases joinedtx with
    | none => exact .error _
    | some joinedtx =>
      have hjoined : addScripts ticketPrice js.allPkScripts joinedtx = addScripts ticketPrice fresh.allPkScripts joinedtx := by
        rw [hscripts]
      refine .ok ⟨hjoined, h.withPeers ?_⟩
      rw [unpriced_modify fun _ => rfl, unpriced_modify fun _ => rfl, hpeers, hjoined]

theorem sendJoinedTx (hscripts : js.allPkScripts = fresh.allPkScripts) (pkgs : Packages) (ch : Choices) (ticketPrice : ℤ) :
    Agree (Paired past held) (Coinjoin.sendJoinedTx pkgs ch ticketPrice js)
      (Coinjoin.sendJoinedTx pkgs ch ticketPrice fresh) := by
  unfold Coinjoin.sendJoinedTx
  refine (h.buildJoinedTx hscripts ch ticketPrice).bind fun r r' hr => ?_
  obtain ⟨joinedtx, js⟩ := r
  obtain ⟨joinedtx', fresh⟩ := r'
  obtain ⟨rfl, h⟩ := hr
  dsimp only
  cases pkgs.btcEncode joinedtx with
  | none => exact h.failWith _
  | some tx =>
    refine .ite Iff.rfl (fun _ => h.failWith _) fun _ => ?_
    have hsent := (h.broadcast ch 688 (.joinedTx tx)).newTimer js.roundTimeOut fresh.roundTimeOut
    exact (hsent.advance .txSign nofun nofun).unlockAnd _

/-- A message with inputs was admitted in its state, so the scripts agree by then. -/
theorem txInputs (hheld : held) (pkgs : Packages) (ch : Choices) (txins : TxInputs) :
    Agree (Paired past held) (Coinjoin.txInputs pkgs ch txins js) (Coinjoin.txInputs pkgs ch txins fresh) := by
  unfold Coinjoin.txInputs
  refine h.lock.bind fun js fresh h => ?_
  rcases h.lookup txins.peerId with ⟨hjs, hfresh⟩ | ⟨peer, price, hjs, hfresh⟩
  · rw [hjs, hfresh]
    exact h.unlockAnd _
  rw [hjs, hfresh]
  have hpriced := h.setPeer txins.peerId (g := fun peer => { peer with ticketPrice := txins.ticketPrice }) fun _ => rfl
  refine .ite Iff.rfl (fun _ => hpriced.unlockAnd _) fun _ => ?_
  cases pkgs.btcDecode txins.txins with
  | none => exact hpriced.failWith _
  | some tx =>
    have hset := hpriced.setPeer txins.peerId (g := fun peer => { peer with txIns := some tx }) fun _ => rfl
    have hsummed : Alike past held (storeInputs txins tx js) (storeInputs txins tx fresh) := by
      unfold storeInputs
      split_ifs
      · exact { hset with essence := congrArg (fun js : JoinSession => { js with errm := some .alreadySigned }) hset.essence }
      · exact hset
    dsimp only
    cases tx.txOut with
    | nil => exact .error _
    | cons change rest =>
      refine .ite Iff.rfl (fun _ => .ok ⟨rfl, hsummed⟩) fun _ => ?_
      have hall : (storeInputs txins tx js).allSubmit (fun peer => peer.txIns.isSome) = true ↔
          (storeInputs txins tx fresh).allSubmit (fun peer => peer.txIns.isSome) = true := by
        rw [hsummed.allSubmit fun _ => rfl]
      refine .ite hall (fun _ => ?_) fun _ => hsummed.unlockAnd _
      exact hsummed.sendJoinedTx (hsummed.scripts (.inl hheld)) pkgs ch _

/-! ### Signatures -/

/-- The first signed transaction becomes the joined one, of which a restart leaves none. -/
theorem mergeSigned (tx : MsgTx) (inputIndex : List ℕ) :
    Agree (Alike past held) (Coinjoin.mergeSigned tx inputIndex js) (Coinjoin.mergeSigned tx inputIndex fresh) := by
  have hjoined : ∀ tx, Alike past held { js with joinedTx := some tx } { fresh with joinedTx := some tx } := fun tx =>
    { h with essence := congrArg (fun js : JoinSession => { js with joinedTx := some tx }) h.essence }
  unfold Coinjoin.mergeSigned
  rw [h.joinedTx]
  cases fresh.joinedTx with
  | none => exact .ok (hjoined tx)
  | some joinedTx => exact .bind_of_eq rfl fun joinedTx => .ok (hjoined joinedTx)

/-- From here on the publisher is looked at, and it has just been drawn. -/
theorem publishJoinedTx (pkgs : Packages) (ch : Choices) :
    Agree (Paired past held) (Coinjoin.publishJoinedTx pkgs ch js) (Coinjoin.publishJoinedTx pkgs ch fresh) := by
  unfold Coinjoin.publishJoinedTx
  refine .bind_of_eq (h.encodeJoinedTx pkgs) fun tx => ?_
  cases tx with
  | none => exact h.failWith _
  | some tx =>
    dsimp only
    have hposts : (if js.serverPublish = true then publish ch tx 0 3 else ([], false)) =
        if fresh.serverPublish = true then publish ch tx 0 3 else ([], false) := by rw [h.serverPublish]
    rw [hposts]
    generalize (if fresh.serverPublish = true then publish ch tx 0 3 else ([], false)) = r
    have hposted := h.append (rfl : r.1 = r.1)
    refine .ite Iff.rfl (fun _ => ?_) fun _ => .ite Iff.rfl (fun _ => hposted.failWith _) fun _ => ?_
    · exact ((hposted.broadcast ch 786 _).advance .completed nofun nofun).unlockAnd _
    · refine (hposted.selectPublisher ch tx _ _).bind fun js fresh h => ?_
      exact (h.1.withState .txPublish (fun _ => h.2) nofun).unlockAnd _

theorem txSigned (pkgs : Packages) (ch : Choices) (signedTx : JoinTx) :
    Agree (Paired past held) (Coinjoin.txSigned pkgs ch signedTx js) (Coinjoin.txSigned pkgs ch signedTx fresh) := by
  unfold Coinjoin.txSigned
  refine h.lock.bind fun js fresh h => ?_
  rcases h.lookup signedTx.peerId with ⟨hjs, hfresh⟩ | ⟨peer, price, hjs, hfresh⟩
  · rw [hjs, hfresh]
    exact h.unlockAnd _
  rw [hjs, hfresh]
  cases pkgs.btcDecode signedTx.tx with
  | none => exact h.failWith _
  | some tx =>
    refine .ite Iff.rfl (fun _ => h.unlockAnd _) fun _ => ?_
    have hset := h.setPeer signedTx.peerId (g := fun peer => { peer with signedTx := some tx }) fun _ => rfl
    refine .bind_of_eq rfl fun invalid => ?_
    refine .ite Iff.rfl (fun _ => hset.unlockAnd _) fun _ => ?_
    refine (hset.mergeSigned tx peer.inputIndex).bind fun js fresh h => ?_
    exact .ite (by rw [h.allSubmit fun _ => rfl]) (fun _ => h.publishJoinedTx pkgs ch) fun _ => h.unlockAnd _

theorem txPublishResult (ch : Choices) (pubResult : PublishResult) :
    Agree (Paired past held) (Coinjoin.txPublishResult ch pubResult js) (Coinjoin.txPublishResult ch pubResult fresh) := by
  unfold Coinjoin.txPublishResult
  refine h.lock.bind fun js fresh h => ?_
  exact ((h.broadcast ch 834 _).advance .completed nofun nofun).unlockAnd _

theorem msgNotFound (ch : Choices) (data : MsgNotFound) :
    Agree (Paired past held) (Coinjoin.msgNotFound ch data js) (Coinjoin.msgNotFound ch data fresh) := by
  unfold Coinjoin.msgNotFound
  refine h.lock.bind fun js fresh h => ?_
  rcases h.lookup data.peerId with ⟨hjs, hfresh⟩ | ⟨peer, price, hjs, hfresh⟩
  · rw [hjs, hfresh]
    exact h.unlockAnd _
  rw [hjs, hfresh]
  have hsent := (h.broadcast ch 1228 .revealSecret).newTimer js.roundTimeOut fresh.roundTimeOut
  exact (hsent.advance .revealSecret nofun nofun).unlockAnd _

end Alike

/-! ### The replay -/

theorem keyCheck_unpriced (pkgs : Packages) (ch : Choices) (l : List (PeerInfo × ℕ)) :
    keyCheck pkgs ch (l.map fun e => (e.1.unpriced, e.2)) = keyCheck pkgs ch l := by
  induction l with
  | nil => rfl
  | cons e rest ih =>
    rw [List.map_cons]
    unfold keyCheck
    rw [ih]
    rfl

theorem sharedKeys_unpriced (pkgs : Packages) (p : PeerInfo) (l : List PeerInfo) :
    sharedKeys pkgs p.unpriced (l.map PeerInfo.unpriced) = sharedKeys pkgs p l := by
  induction l with
  | nil => rfl
  | cons op rest ih =>
    rw [List.map_cons]
    unfold sharedKeys
    rw [ih]
    rfl

theorem replayKeys_unpriced (pkgs : Packages) (ch : Choices) (peers : GoMap ℕ PeerInfo) :
    replayKeys pkgs ch (unpriced peers) = replayKeys pkgs ch peers := by
  unfold replayKeys
  simp only [unpriced, GoMap.values_mapVal, List.mapM_map, Function.comp_def, sharedKeys_unpriced]
  rfl

theorem expReplays_unpriced (pkgs : Packages) (ch : Choices) (totalMsg : ℕ) (replayPeers : GoMap ℕ (GoMap ℕ Bytes))
    (peers : GoMap ℕ PeerInfo) :
    expReplays pkgs ch totalMsg replayPeers (unpriced peers) = expReplays pkgs ch totalMsg replayPeers peers := by
  unfold expReplays
  rw [unpriced, GoMap.range_mapVal, List.mapM_map]
  rfl

theorem xorReplays_unpriced (pkgs : Packages) (ch : Choices) (peerSlotInfos : GoMap ℕ PeerSlotInfo)
    (peers : GoMap ℕ PeerInfo) : xorReplays pkgs ch peerSlotInfos (unpriced peers) = xorReplays pkgs ch peerSlotInfos peers := by
  unfold xorReplays
  congr 1
  funext e
  obtain ⟨pid, slotInfo⟩ := e
  dsimp only
  rw [unpriced, GoMap.lookup_mapVal]
  cases peers.lookup pid <;> rfl

/-- The replay looks at keys, vectors and numbers of messages alone. -/
theorem replay_essence (pkgs : Packages) (ch : Choices) (js : JoinSession) :
    replay pkgs ch js.essence = replay pkgs ch js := by
  have hkeys : keyCheck pkgs ch (GoMap.values ch.order [869] (unpriced js.peers)).zipIdx =
      keyCheck pkgs ch (GoMap.values ch.order [869] js.peers).zipIdx := by
    rw [unpriced, GoMap.values_mapVal, List.zipIdx_map]
    exact keyCheck_unpriced pkgs ch _
  have hnum : (GoMap.values ch.order [898] (unpriced js.peers)).map (·.numMsg) =
      (GoMap.values ch.order [898] js.peers).map (·.numMsg) := by
    rw [unpriced, GoMap.values_mapVal, List.map_map]
    rfl
  unfold replay
  simp only [JoinSession.essence, hkeys, hnum, replayKeys_unpriced, expReplays_unpriced, xorReplays_unpriced]

/-! ### The handlers -/

namespace Alike
variable {past : Past} {held : Prop} {js fresh : JoinSession} (h : Alike past held js fresh)
include h

theorem withFinding (b : Bool) :
    Alike past held { js with maliciousFinding := b } { fresh with maliciousFinding := b } :=
  { h with essence := congrArg (fun js : JoinSession => { js with maliciousFinding := b }) h.essence }

theorem withTotalMsg (n : ℕ) : Alike past held { js with totalMsg := n } { fresh with totalMsg := n } :=
  { h with essence := congrArg (fun js : JoinSession => { js with totalMsg := n }) h.essence }

theorem addMissed {ps ps' : List ℕ} (hps : ps = ps') :
    Alike past held { js with missedPeers := js.missedPeers ++ ps } { fresh with missedPeers := fresh.missedPeers ++ ps' } := by
  subst hps
  exact { h with essence := congrArg (fun js : JoinSession => { js with missedPeers := js.missedPeers ++ ps }) h.essence }

/-- Whoever reveals last is judged for all, and the flag of a finding goes down in both. -/
theorem revealSecret (pkgs : Packages) (ch : Choices) (rvSecret : RevealSecret) :
    Agree (Paired past held) (Coinjoin.revealSecret pkgs ch rvSecret js) (Coinjoin.revealSecret pkgs ch rvSecret fresh) := by
  unfold Coinjoin.revealSecret
  refine h.lock.bind fun js fresh h => ?_
  rcases h.lookup rvSecret.peerId with ⟨hjs, hfresh⟩ | ⟨peer, price, hjs, hfresh⟩
  · rw [hjs, hfresh]
    exact h.unlockAnd _
  rw [hjs, hfresh]
  have hset := h.setPeer rvSecret.peerId (g := fun peer => { peer with vk := rvSecret.vk }) fun _ => rfl
  refine .ite (by rw [hset.allSubmit fun _ => rfl]) (fun _ => ?_) fun _ => ?_
  · rw [hset.read (replay pkgs ch) (replay_essence pkgs ch)]
    generalize replay pkgs ch _ = r
    cases r with
    | error stop =>
      cases stop with
      | fault f => exact .error f
      | errm err => exact hset.failWith err
    | ok findings => exact ((hset.withTotalMsg findings.totalMsg).withFinding false).unlockAnd _
  · exact (hset.withFinding false).unlockAnd _

/-- Every handler, with the scripts for the one that reads them. -/
theorem handle (pkgs : Packages) (ch : Choices) {msg : ClientMessage} (hheld : ∀ txins, msg = .txInputs txins → held) :
    Agree (Paired past held) (Coinjoin.handle pkgs ch js msg) (Coinjoin.handle pkgs ch fresh msg) := by
  cases msg with
  | keyExchange req => exact h.keyExchange pkgs ch req
  | dcExpVector data => exact h.dcExpVector pkgs ch data
  | dcXorVector data => exact h.dcXorVector pkgs ch data
  | txInputs txins => exact h.txInputs (hheld txins rfl) pkgs ch txins
  | txSigned signedTx => exact h.txSigned pkgs ch signedTx
  | txPublishResult pubResult => exact h.txPublishResult ch pubResult
  | revealSecret rvSecret => exact h.revealSecret pkgs ch rvSecret
  | msgNotFound data => exact h.msgNotFound ch data

/-! ### The timeout -/

/-- The list of those who were late is never emptied; `Alike` has the same in both. -/
theorem informMissed (ch : Choices) : Agree (Paired past held) (Coinjoin.informMissed ch js) (Coinjoin.informMissed ch fresh) := by
  unfold Coinjoin.informMissed
  rw [h.missedPeers]
  refine .ite Iff.rfl (fun _ => h.unlockAnd _) fun _ => ?_
  refine .ite (by rw [h.state]) (fun _ => (h.removePeers _).unlockAnd _) fun _ => ?_
  refine (h.pushMaliciousInfo ch _).bind fun js fresh h => ?_
  exact (h.advance .keyExchange nofun nofun).unlockAnd _

omit h in
/-- The two are visited in the same order. -/
theorem changePublishers (pkgs : Packages) (ch : Choices) {visited visited' : List (ℕ × PeerInfo)}
    (hvisited : visited.map (fun e => e.2.id) = visited'.map fun e => e.2.id) (h : Alike past held js fresh)
    (hpublisher : js.publisher = fresh.publisher) :
    Agree (Paired past held) (Coinjoin.changePublishers pkgs ch visited js)
      (Coinjoin.changePublishers pkgs ch visited' fresh) := by
  induction visited generalizing visited' js fresh with
  | nil =>
    obtain rfl := List.map_eq_nil_iff.mp hvisited.symm
    exact .ok ⟨rfl, h⟩
  | cons e rest ih =>
    cases visited' with
    | nil => cases hvisited
    | cons e' rest' =>
      obtain ⟨hhead, hrest⟩ := List.cons.inj hvisited
      have hid : e.2.id = e'.2.id := hhead
      unfold Coinjoin.changePublishers
      refine .ite (by rw [hpublisher, hid]) (fun _ => ?_) fun _ => ih hrest h hpublisher
      have hremoved := h.removePeer e.2.id
      rw [← hid]
      refine .ite (by rw [hremoved.len]) (fun _ => .ok ⟨rfl, hremoved⟩) fun _ => ?_
      refine (hremoved.changePublisher pkgs ch _).bind fun r r' hr => ?_
      obtain ⟨changed, js⟩ := r
      obtain ⟨changed', fresh⟩ := r'
      obtain ⟨⟨rfl, h⟩, hchanged⟩ := hr
      exact .ite Iff.rfl (fun hc => ih hrest h (hchanged hc)) fun _ => .ok ⟨rfl, h⟩

/-- Who is late is asked of the round and of what was sent in it. -/
theorem missed (ch : Choices) :
    ((GoMap.range ch.order [229] js.peers).filter fun e => missing js.state e.2).map (fun e => e.2.id) =
      ((GoMap.range ch.order [229] fresh.peers).filter fun e => missing fresh.state e.2).map fun e => e.2.id := by
  have hread : ∀ js : JoinSession,
      ((GoMap.range ch.order [229] js.peers).filter fun e => missing js.state e.2).map (fun e => e.2.id) =
        ((GoMap.range ch.order [229] js.essence.peers).filter fun e => missing js.essence.state e.2).map fun e => e.2.id := by
    intro js
    have hpeers : js.essence.peers = unpriced js.peers := rfl
    rw [hpeers, unpriced, GoMap.range_mapVal, List.filter_map, List.map_map]
    congr 1
    apply List.filter_congr
    intro e _
    cases hstate : js.state <;> simp [missing, hstate, PeerInfo.unpriced, JoinSession.essence]
  rw [hread js, h.essence, ← hread]

theorem timeout (pkgs : Packages) (ch : Choices) :
    Agree (Paired past held) (Coinjoin.timeout pkgs ch js) (Coinjoin.timeout pkgs ch fresh) := by
  unfold Coinjoin.timeout
  refine h.lock.bind fun js fresh h => ?_
  dsimp only
  have hadded := h.addMissed (h.missed ch)
  refine .ite (by rw [h.state]) (fun hpublish => ?_) fun _ => hadded.informMissed ch
  have hvisited := map_range_of_unpriced h.peers ch.order [229] (g := fun e => e.2.id) fun _ _ => rfl
  refine (changePublishers pkgs ch hvisited hadded (h.publisher hpublish)).bind fun r r' hr => ?_
  obtain ⟨completed, js⟩ := r
  obtain ⟨completed', fresh⟩ := r'
  obtain ⟨rfl, h⟩ := hr
  exact .ite Iff.rfl (fun _ => h.informMissed ch) fun _ => h.unlockAnd _

/-- What a case does after its `Unlock`: it pushes, and goes on or ends. -/
theorem finish (ch : Choices) (d : Done) :
    Agree (Paired past held) (Coinjoin.finish ch d js) (Coinjoin.finish ch d fresh) := by
  obtain ⟨push, exit⟩ := d
  have hexit : ∀ {js fresh : JoinSession}, Alike past held js fresh →
      Agree (Paired past held) (Coinjoin.finish ch ⟨none, exit⟩ js) (Coinjoin.finish ch ⟨none, exit⟩ fresh) := by
    intro js fresh h
    unfold Coinjoin.finish
    cases exit with
    | next => exact .ok ⟨by simp only [h.len], h⟩
    | ret => exact .ok ⟨rfl, h⟩
    | breakLoop =>
      dsimp only [ok_bind]
      rw [h.errm]
      cases fresh.errm with
      | none => exact .ok ⟨rfl, h⟩
      | some err => exact h.unlock.bind fun js fresh h => .ok ⟨rfl, h.terminate ch⟩
  cases push with
  | none => exact hexit h
  | some peerIds => exact (h.pushMaliciousInfo ch peerIds).bind fun js fresh h => hexit h

/-! ### Readers and writers -/

/-- A reader compares the publisher in `txPublish` only, where the two have one. -/
theorem admission (kind : Kind) (p : ℕ) : Coinjoin.admission kind p js = Coinjoin.admission kind p fresh := by
  unfold Coinjoin.admission
  rw [h.state, h.maliciousFinding]
  by_cases hvalid : kind.validIn fresh.state = true
  swap
  · simp [hvalid]
  by_cases hkind : kind = .txPublishResult
  · subst hkind
    have hstate : fresh.state = .txPublish := of_decide_eq_true hvalid
    rw [h.publisher (h.state.trans hstate)]
  · simp [hkind]

/-- A reader takes in the same, and holds it with the same id and round. -/
theorem readMessage {peer peer' : PeerInfo} (hid : peer.id = peer'.id) (raw : RawMessage) :
    Agree (Paired past held) (Coinjoin.readMessage peer raw js) (Coinjoin.readMessage peer' raw fresh) := by
  unfold Coinjoin.readMessage
  cases raw with
  | ignored => exact .ok ⟨rfl, h⟩
  | unknown => exact h.lock.bind fun js fresh h => .ok ⟨rfl, h⟩
  | malformed kind =>
    refine h.lock.bind fun js fresh h => ?_
    rw [hid, h.admission]
    cases Coinjoin.admission kind peer'.id fresh with
    | refusedLocked => exact .ok ⟨rfl, h⟩
    | refused => exact h.unlock.bind fun js fresh h => .ok ⟨rfl, h⟩
    | accepted => exact h.unlock.bind fun js fresh h => .ok ⟨rfl, h⟩
  | message msg =>
    refine h.lock.bind fun js fresh h => ?_
    dsimp only
    rw [hid, h.admission]
    cases Coinjoin.admission msg.kind peer'.id fresh with
    | refusedLocked => exact .ok ⟨rfl, h⟩
    | refused => exact h.unlock.bind fun js fresh h => .ok ⟨rfl, h⟩
    | accepted =>
      have hfound : Alike past held (if msg.kind = .msgNotFound then { js with maliciousFinding := true } else js)
          (if msg.kind = .msgNotFound then { fresh with maliciousFinding := true } else fresh) := by
        split_ifs
        · exact { h with essence := congrArg (fun js : JoinSession => { js with maliciousFinding := true }) h.essence }
        · exact h
      exact hfound.unlock.bind fun js fresh h => .ok ⟨by rw [h.id, h.state], h⟩

theorem readError (pkgs : Packages) (ch : Choices) {peer peer' : PeerInfo} (hid : peer.id = peer'.id) :
    Agree (Alike past held) (Coinjoin.readError pkgs ch peer js) (Coinjoin.readError pkgs ch peer' fresh) := by
  unfold Coinjoin.readError
  refine h.lock.bind fun js fresh h => ?_
  have hpush : Agree (Alike past held)
      (if peer'.id ∈ js.peers.keys then do
        let js ← js.pushMaliciousInfo ch [peer'.id]
        { js with state := .keyExchange }.unlock
      else js.unlock)
      (if peer'.id ∈ fresh.peers.keys then do
        let js ← fresh.pushMaliciousInfo ch [peer'.id]
        { js with state := .keyExchange }.unlock
      else fresh.unlock) := by
    refine .ite (by rw [h.keys]) (fun _ => ?_) fun _ => h.unlock
    exact (h.pushMaliciousInfo ch _).bind fun js fresh h => (h.advance .keyExchange nofun nofun).unlock
  rw [hid]
  cases hstate : fresh.state with
  | keyExchange =>
    rw [h.state, hstate]
    exact (h.removePeer _).unlock
  | txPublish =>
    have hpublish : js.state = .txPublish := h.state.trans hstate
    rw [hpublish]
    refine .ite (by rw [h.keys, h.publisher hpublish]) (fun _ => ?_) fun _ => h.unlock
    have hremoved := h.removePeer peer'.id
    refine .ite (by rw [hremoved.len]) (fun _ => hremoved.unlock) fun _ => ?_
    exact (hremoved.changePublisher pkgs ch _).bind fun r r' hr => hr.1.2.unlock
  | completed =>
    rw [h.state, hstate]
    exact h.unlock
  | revealSecret =>
    rw [h.state, hstate]
    exact h.unlock
  | _ =>
    rw [h.state, hstate]
    exact hpush

theorem writeError (pkgs : Packages) (ch : Choices) {peer peer' : PeerInfo} (hid : peer.id = peer'.id) :
    Agree (Alike past held) (Coinjoin.writeError pkgs ch peer js) (Coinjoin.writeError pkgs ch peer' fresh) := by
  unfold Coinjoin.writeError
  refine h.lock.bind fun js fresh h => ?_
  have hpush : Agree (Alike past held)
      (do
        let js ← js.pushMaliciousInfo ch [peer'.id]
        { js with state := .keyExchange }.unlock)
      (do
        let js ← fresh.pushMaliciousInfo ch [peer'.id]
        { js with state := .keyExchange }.unlock) :=
    (h.pushMaliciousInfo ch _).bind fun js fresh h => (h.advance .keyExchange nofun nofun).unlock
  rw [hid]
  cases hstate : fresh.state with
  | keyExchange =>
    rw [h.state, hstate]
    exact (h.removePeer _).unlock
  | txPublish =>
    have hpublish : js.state = .txPublish := h.state.trans hstate
    rw [hpublish]
    refine .ite (by rw [h.publisher hpublish]) (fun _ => ?_) fun _ => h.unlock
    refine ((h.removePeer peer'.id).changePublisher pkgs ch _).bind fun r r' hr => ?_
    obtain ⟨changed, js⟩ := r
    obtain ⟨changed', fresh⟩ := r'
    obtain ⟨⟨rfl, h⟩, -⟩ := hr
    exact .ite Iff.rfl (fun _ => h.unlock) fun _ => .ok h
  | completed =>
    rw [h.state, hstate]
    exact h.unlock
  | revealSecret =>
    rw [h.state, hstate]
    exact h.unlock
  | _ =>
    rw [h.state, hstate]
    exact hpush

end Alike

end Dcrtxmatcher.Coinjoin
