import Dcrtxmatcher.Coinjoin.Run

/-! What the handlers of the session loop can do.

Each handler is taken apart once: started with the mutex free, it panics or ends in
one of the ways listed, and every later fact about a step is read off the list. All
ways but one leave the mutex free when the loop goes on; the sessions with `mu` set
are the ones that end with it held. -/
namespace Dcrtxmatcher.Coinjoin
open Lib

namespace JoinSession
variable (js : JoinSession) (b : Bool)

/-- The session with the mutex held or free. -/
def withMu : JoinSession := { js with mu := b }

@[simp] theorem withMu_self (h : js.mu = b) : js.withMu b = js := by
  subst h
  rfl

@[simp] theorem withMu_withMu (c : Bool) : (js.withMu b).withMu c = js.withMu c := rfl
@[simp] theorem mu_withMu : (js.withMu b).mu = b := rfl
@[simp] theorem peers_withMu : (js.withMu b).peers = js.peers := rfl
@[simp] theorem state_withMu : (js.withMu b).state = js.state := rfl
@[simp] theorem errm_withMu : (js.withMu b).errm = js.errm := rfl

theorem removePeer_withMu (p : ℕ) : (js.withMu b).removePeer p = (js.removePeer p).withMu b := by
  simp only [removePeer, peers_withMu]
  split <;> rfl

theorem removePeers_withMu (ps : List ℕ) : (js.withMu b).removePeers ps = (js.removePeers ps).withMu b := by
  induction ps generalizing js with
  | nil => rfl
  | cons p ps ih =>
    rw [removePeers, List.foldl_cons, removePeer_withMu]
    exact ih (js.removePeer p)

/-- Apart from the members, and whom it closes the connection of, a removal leaves
the session as it is. -/
theorem removePeer_eq (p : ℕ) : js.removePeer p =
    { js with peers := (js.removePeer p).peers, former := (js.removePeer p).former, out := (js.removePeer p).out } := by
  rw [removePeer]
  split <;> rfl

@[simp] theorem mu_removePeer (p : ℕ) : (js.removePeer p).mu = js.mu := by rw [removePeer_eq]
@[simp] theorem state_removePeer (p : ℕ) : (js.removePeer p).state = js.state := by rw [removePeer_eq]
@[simp] theorem errm_removePeer (p : ℕ) : (js.removePeer p).errm = js.errm := by rw [removePeer_eq]
@[simp] theorem roundTimeOut_removePeer (p : ℕ) : (js.removePeer p).roundTimeOut = js.roundTimeOut := by
  rw [removePeer_eq]
@[simp] theorem joinedTx_removePeer (p : ℕ) : (js.removePeer p).joinedTx = js.joinedTx := by rw [removePeer_eq]
@[simp] theorem missedPeers_removePeer (p : ℕ) : (js.removePeer p).missedPeers = js.missedPeers := by
  rw [removePeer_eq]

@[simp] theorem mu_removePeers (ps : List ℕ) : (js.removePeers ps).mu = js.mu := by
  induction ps generalizing js with
  | nil => rfl
  | cons p ps ih => exact (ih _).trans (mu_removePeer ..)

@[simp] theorem mu_setPeer (p : ℕ) (f : PeerInfo → PeerInfo) : (js.setPeer p f).mu = js.mu := rfl
@[simp] theorem mu_broadcast (ch : Choices) (site : ℕ) (msg : ServerMessage) :
    (js.broadcast ch site msg).mu = js.mu := rfl
@[simp] theorem mu_newTimer (seconds : ℕ) : (js.newTimer seconds).mu = js.mu := rfl

theorem lock_eq (h : js.mu = false) : js.lock = .ok (js.withMu true) := lock_of_free h

@[simp] theorem allSubmit_withMu (submitted : PeerInfo → Bool) :
    (js.withMu b).allSubmit submitted = js.allSubmit submitted := rfl

variable {js}

/-- Leaving with `Unlock`, whatever has been done to the session that was locked. -/
theorem of_unlockAnd (js : JoinSession) {P : Handled → Prop} {d : Done} (hmu : js.mu = false) (h : P (.ok (d, js))) :
    P ((js.withMu true).unlockAnd d) := by
  have hres : (js.withMu true).unlockAnd d = .ok (d, js.withMu false) := rfl
  rwa [hres, js.withMu_self _ hmu]

end JoinSession

/-! ### Key exchange -/

/-- A valid announcement, before the lists are compared. -/
def announce (req : KeyExchangeReq) (peer : PeerInfo) (js : JoinSession) : JoinSession :=
  let js := js.setPeer req.peerId fun peer => { peer with pk := req.pk, numMsg := req.numMsg }
  { js with peersMsgInfo := js.peersMsgInfo ++ [⟨peer.id, req.pk, req.numMsg⟩] }

@[simp] theorem mu_announce (req : KeyExchangeReq) (peer : PeerInfo) (js : JoinSession) :
    (announce req peer js).mu = js.mu := rfl

@[simp] theorem len_announce (req : KeyExchangeReq) (peer : PeerInfo) (js : JoinSession) :
    GoMap.len (announce req peer js).peers = GoMap.len js.peers := GoMap.len_modify ..

@[simp] theorem peersMsgInfo_announce (req : KeyExchangeReq) (peer : PeerInfo) (js : JoinSession) :
    (announce req peer js).peersMsgInfo = js.peersMsgInfo ++ [⟨peer.id, req.pk, req.numMsg⟩] := rfl

/-- The end of the key exchange. -/
def keyList (ch : Choices) (js : JoinSession) : JoinSession :=
  { ((js.broadcast ch 365 (.keyExchange js.peersMsgInfo)).newTimer js.roundTimeOut) with state := .dcExponential }

inductive KeyExchangeOutcome (pkgs : Packages) (ch : Choices) (req : KeyExchangeReq) (js : JoinSession) : Handled → Prop
  | stranger (hp : js.peers.lookup req.peerId = none) : KeyExchangeOutcome pkgs ch req js (.ok (.next, js))
  | invalid {peer : PeerInfo} (hp : js.peers.lookup req.peerId = some peer) (hpk : pkgs.unmarshal req.pk = false) :
      KeyExchangeOutcome pkgs ch req js (.ok (.next, js.removePeer req.peerId))
  | waiting {peer : PeerInfo} (hp : js.peers.lookup req.peerId = some peer) (hpk : pkgs.unmarshal req.pk = true)
      (hlen : GoMap.len js.peers ≠ js.peersMsgInfo.length + 1) :
      KeyExchangeOutcome pkgs ch req js (.ok (.next, announce req peer js))
  /-- The list cannot be marshalled, and the last peer has to go. -/
  | unmarshalled {peer : PeerInfo} (hp : js.peers.lookup req.peerId = some peer) (hpk : pkgs.unmarshal req.pk = true)
      (hlen : GoMap.len js.peers = js.peersMsgInfo.length + 1) (hmarshal : ch.marshal [355] = false) :
      KeyExchangeOutcome pkgs ch req js (.ok (.next, (announce req peer js).removePeer req.peerId))
  | complete {peer : PeerInfo} (hp : js.peers.lookup req.peerId = some peer) (hpk : pkgs.unmarshal req.pk = true)
      (hlen : GoMap.len js.peers = js.peersMsgInfo.length + 1) (hmarshal : ch.marshal [355] = true) :
      KeyExchangeOutcome pkgs ch req js (.ok (.next, keyList ch (announce req peer js)))

theorem keyExchange_outcome (pkgs : Packages) (ch : Choices) (req : KeyExchangeReq) {js : JoinSession}
    (hmu : js.mu = false) : KeyExchangeOutcome pkgs ch req js (keyExchange pkgs ch req js) := by
  rw [keyExchange, js.lock_eq hmu, ok_bind, JoinSession.peers_withMu]
  rcases hp : js.peers.lookup req.peerId with _ | peer
  · exact JoinSession.of_unlockAnd _ hmu (.stranger hp)
  change KeyExchangeOutcome pkgs ch req js
    (if !pkgs.unmarshal req.pk then ((js.withMu true).removePeer req.peerId).unlockAnd .next
    else if GoMap.len (announce req peer js).peers = (announce req peer js).peersMsgInfo.length then
      if !ch.marshal [355] then (((announce req peer js).withMu true).removePeer req.peerId).unlockAnd .next
      else ((keyList ch (announce req peer js)).withMu true).unlockAnd .next
    else ((announce req peer js).withMu true).unlockAnd .next)
  rw [len_announce, peersMsgInfo_announce, List.length_append, List.length_singleton,
    JoinSession.removePeer_withMu, JoinSession.removePeer_withMu]
  split_ifs with hpk hall hmarshal
  · exact JoinSession.of_unlockAnd _ (by simpa) (.invalid hp (by simpa using hpk))
  · exact JoinSession.of_unlockAnd _ (by simpa) (.unmarshalled hp (by simpa using hpk) hall (by simpa using hmarshal))
  · exact JoinSession.of_unlockAnd _ hmu (.complete hp (by simpa using hpk) hall (by simpa using hmarshal))
  · exact JoinSession.of_unlockAnd _ (by simpa) (.waiting hp (by simpa using hpk) hall)

/-! ### The exponential round -/

theorem readEntries_onlyPanics (pkgs : Packages) (peerId : ℕ) (buf : Bytes) (i n : ℕ) :
    OnlyPanics (readEntries pkgs peerId buf i n) := by
  induction n generalizing i with
  | zero => exact .ok _
  | succ n ih =>
    refine OnlyPanics.bind (slice_onlyPanics _ _ _) fun b _ => ?_
    dsimp only
    split_ifs
    · exact .ok _
    · exact OnlyPanics.bind (ih (i + 1)) fun _ _ => .ok _

theorem combine_onlyPanics (polyDegree : ℕ) (vectors : List (List Field)) : OnlyPanics (combine polyDegree vectors) := by
  refine .foldlM (fun sums vector => ?_) _ _
  rw [addVector]
  split_ifs
  · exact .panic
  · exact .ok _

theorem getRoots_onlyPanics (fl : Flint.Library) (ps : List Char) (powersums : List Field) (size : ℕ) :
    OnlyPanics (Flint.getRoots fl ps powersums size) := by
  rw [Flint.getRoots]
  split_ifs
  · exact .panic
  · exact .ok _

/-- Leaving the loop with an error and the mutex. -/
def failed (err : Errm) (js : JoinSession) : Handled :=
  .ok (⟨none, .breakLoop⟩, JoinSession.withMu { js with errm := some err } true)

/-- The end of the exponential round. -/
def hashList (ch : Choices) (len : ℕ) (allMsgHash : Bytes) (js : JoinSession) : JoinSession :=
  { ((js.broadcast ch 482 (.dcExpVector len allMsgHash)).newTimer js.roundTimeOut) with state := .dcXor }

/-- The ends of the round, for the session with all vectors in it. -/
inductive SolveOutcome (pkgs : Packages) (ch : Choices) (polyDegree : ℕ) (js : JoinSession) : Handled → Prop
  | panic : SolveOutcome pkgs ch polyDegree js (.error .panic)
  | unsolved {sums : List Field} {ret : ℕ} {roots : List (List Char)}
      (hcombine : combine polyDegree ((GoMap.values ch.order [423] js.peers).map (·.dcExpVector)) = .ok sums)
      (hroots : Flint.getRoots pkgs.flint (Hex.hexStr fieldPrime) sums polyDegree = .ok (ret, roots)) (hret : ret ≠ 0) :
      SolveOutcome pkgs ch polyDegree js (.ok (.next, js.broadcast ch 443 .revealSecret))
  | failed (err : Errm) : SolveOutcome pkgs ch polyDegree js (failed err js)
  | solved {sums : List Field} {roots : List (List Char)} {allMsgHash : Bytes}
      (hcombine : combine polyDegree ((GoMap.values ch.order [423] js.peers).map (·.dcExpVector)) = .ok sums)
      (hroots : Flint.getRoots pkgs.flint (Hex.hexStr fieldPrime) sums polyDegree = .ok (0, roots))
      (hencode : encodeRoots roots = .ok allMsgHash) :
      SolveOutcome pkgs ch polyDegree js (.ok (.next, hashList ch roots.length allMsgHash js))

theorem solveExponential_outcome (pkgs : Packages) (ch : Choices) (polyDegree : ℕ) {js : JoinSession}
    (hmu : js.mu = false) : SolveOutcome pkgs ch polyDegree js (solveExponential pkgs ch polyDegree (js.withMu true)) := by
  rw [solveExponential, JoinSession.peers_withMu]
  rcases hcombine : combine polyDegree ((GoMap.values ch.order [423] js.peers).map (·.dcExpVector)) with e | sums
  · obtain rfl := combine_onlyPanics _ _ e hcombine
    rw [hcombine]
    exact .panic
  rw [hcombine, ok_bind]
  rcases hroots : Flint.getRoots pkgs.flint (Hex.hexStr fieldPrime) sums polyDegree with e | ⟨ret, roots⟩
  · obtain rfl := getRoots_onlyPanics _ _ _ _ e hroots
    exact .panic
  rw [ok_bind]
  dsimp only
  by_cases hret : ret ≠ 0
  · rw [if_pos hret]
    exact JoinSession.of_unlockAnd (js.broadcast ch 443 .revealSecret) hmu (SolveOutcome.unsolved hcombine hroots hret)
  rw [not_not] at hret
  subst hret
  rw [if_neg (not_not.mpr rfl)]
  rcases hencode : encodeRoots roots with err | allMsgHash
  · exact .failed err
  change SolveOutcome pkgs ch polyDegree js (if !ch.marshal [474] then failed .marshal js
    else ((hashList ch roots.length allMsgHash js).withMu true).unlockAnd .next)
  split_ifs
  · exact .failed .marshal
  · exact JoinSession.of_unlockAnd _ hmu (.solved hcombine hroots hencode)

/-- The session with the sender's vector. -/
def storeExp (data : DcVector) (vector : List Field) (js : JoinSession) : JoinSession :=
  js.setPeer data.peerId fun peer => { peer with dcExpVector := vector }

inductive DcExpOutcome (pkgs : Packages) (ch : Choices) (data : DcVector) (js : JoinSession) : Handled → Prop
  | stranger (hp : js.peers.lookup data.peerId = none) : DcExpOutcome pkgs ch data js (.ok (.next, js))
  | short {peerInfo : PeerInfo} (hp : js.peers.lookup data.peerId = some peerInfo)
      (hshort : data.vector.length < pkScriptHashSize * 2) :
      DcExpOutcome pkgs ch data js (.ok (⟨some [data.peerId], .breakLoop⟩, js))
  | panic {peerInfo : PeerInfo} (hp : js.peers.lookup data.peerId = some peerInfo)
      (hsize : ¬data.vector.length < pkScriptHashSize * 2)
      (hread : readEntries pkgs peerInfo.id (data.vector ++ data.spare) 0 data.len = .error .panic) :
      DcExpOutcome pkgs ch data js (.error .panic)
  | rejected {peerInfo : PeerInfo} {vector : List Field} {err : Option Errm}
      (hp : js.peers.lookup data.peerId = some peerInfo) (hsize : ¬data.vector.length < pkScriptHashSize * 2)
      (hread : readEntries pkgs peerInfo.id (data.vector ++ data.spare) 0 data.len = .ok (vector, err))
      (herrm : (err.or js.errm).isSome = true) :
      DcExpOutcome pkgs ch data js (.ok (⟨some [peerInfo.id], .next⟩, { js with errm := err.or js.errm }))
  | waiting {peerInfo : PeerInfo} {vector : List Field} (hp : js.peers.lookup data.peerId = some peerInfo)
      (hsize : ¬data.vector.length < pkScriptHashSize * 2)
      (hread : readEntries pkgs peerInfo.id (data.vector ++ data.spare) 0 data.len = .ok (vector, none))
      (herrm : js.errm = none) (hall : (storeExp data vector js).allSubmit (fun peer => peer.dcExpVector ≠ []) = false) :
      DcExpOutcome pkgs ch data js (.ok (.next, storeExp data vector js))
  | ended {peerInfo : PeerInfo} {vector : List Field} (hp : js.peers.lookup data.peerId = some peerInfo)
      (hsize : ¬data.vector.length < pkScriptHashSize * 2)
      (hread : readEntries pkgs peerInfo.id (data.vector ++ data.spare) 0 data.len = .ok (vector, none))
      (herrm : js.errm = none) (hall : (storeExp data vector js).allSubmit (fun peer => peer.dcExpVector ≠ []) = true)
      {r : Handled} (h : SolveOutcome pkgs ch vector.length (storeExp data vector js) r) : DcExpOutcome pkgs ch data js r

theorem dcExpVector_outcome (pkgs : Packages) (ch : Choices) (data : DcVector) {js : JoinSession}
    (hmu : js.mu = false) : DcExpOutcome pkgs ch data js (dcExpVector pkgs ch data js) := by
  rw [dcExpVector, js.lock_eq hmu, ok_bind, JoinSession.peers_withMu]
  rcases hp : js.peers.lookup data.peerId with _ | peerInfo
  · exact JoinSession.of_unlockAnd _ hmu (.stranger hp)
  dsimp only
  split_ifs with hshort
  · exact JoinSession.of_unlockAnd _ hmu (.short hp hshort)
  rcases hread : readEntries pkgs peerInfo.id (data.vector ++ data.spare) 0 data.len with e | ⟨vector, err⟩
  · obtain rfl := readEntries_onlyPanics _ _ _ _ _ e hread
    exact .panic hp hshort hread
  rw [ok_bind]
  change DcExpOutcome pkgs ch data js (if (err.or js.errm).isSome then
      (JoinSession.withMu { js with errm := err.or js.errm } true).unlockAnd ⟨some [peerInfo.id], .next⟩
    else if (storeExp data vector { js with errm := err.or js.errm }).allSubmit (fun peer => peer.dcExpVector ≠ []) then
      solveExponential pkgs ch vector.length ((storeExp data vector { js with errm := err.or js.errm }).withMu true)
    else ((storeExp data vector { js with errm := err.or js.errm }).withMu true).unlockAnd .next)
  split_ifs with herrm hall
  · exact JoinSession.of_unlockAnd _ hmu (.rejected hp hshort hread herrm)
  all_goals
    -- no error, neither a new one nor one left over
    obtain ⟨rfl, hnone⟩ := Option.or_eq_none_iff.mp (Option.not_isSome_iff_eq_none.mp herrm)
    have hsame : ({ js with errm := none.or js.errm } : JoinSession) = js := by rw [Option.none_or]
    rw [hsame] at hall ⊢
  · exact .ended hp hshort hread hnone hall (solveExponential_outcome pkgs ch vector.length hmu)
  · exact JoinSession.of_unlockAnd _ hmu (.waiting hp hshort hread hnone (by simpa using hall))

/-! ### The xor round -/

theorem readMessages_onlyPanics (buf : Bytes) (i n : ℕ) : OnlyPanics (readMessages buf i n) := by
  induction n generalizing i with
  | zero => exact .ok _
  | succ n ih =>
    exact OnlyPanics.bind (slice_onlyPanics _ _ _) fun b _ => OnlyPanics.bind (ih (i + 1)) fun _ _ => .ok _

theorem xorSlots_onlyPanics (pkgs : Packages) (ch : Choices) (peers : GoMap ℕ PeerInfo) (n : ℕ) :
    OnlyPanics (xorSlots pkgs ch peers n) := by
  refine .mapM (fun i => .foldlM (fun acc vector => ?_) _ _) _
  exact OnlyPanics.bind (index_onlyPanics _ _) fun _ _ => .ok _

/-- The session with the sender's vector. -/
def storeXor (data : DcVector) (dcXor : List Bytes) (js : JoinSession) : JoinSession :=
  js.setPeer data.peerId fun peer => { peer with dcXorVector := dcXor }

/-- The end of the xor round. -/
def scriptList (ch : Choices) (js : JoinSession) : JoinSession :=
  JoinSession.broadcast ch 562 (.dcXorVector js.allPkScripts.flatten)
    { (js.newTimer js.roundTimeOut) with state := .txInput }

inductive DcXorOutcome (pkgs : Packages) (ch : Choices) (data : DcVector) (js : JoinSession) : Handled → Prop
  | short (hshort : data.vector.length < pkScriptSize * 2) :
      DcXorOutcome pkgs ch data js (.ok (⟨some [data.peerId], .breakLoop⟩, js))
  | panic (hsize : ¬data.vector.length < pkScriptSize * 2) : DcXorOutcome pkgs ch data js (.error .panic)
  | stranger (hp : js.peers.lookup data.peerId = none) (hsize : ¬data.vector.length < pkScriptSize * 2) :
      DcXorOutcome pkgs ch data js (.ok (.next, js))
  | waiting {peer : PeerInfo} {dcXor : List Bytes} (hp : js.peers.lookup data.peerId = some peer)
      (hsize : ¬data.vector.length < pkScriptSize * 2)
      (hread : readMessages (data.vector ++ data.spare) 0 data.len = .ok dcXor)
      (hall : (storeXor data dcXor js).allSubmit (fun peer => peer.dcXorVector ≠ []) = false) :
      DcXorOutcome pkgs ch data js
        (.ok (.next, { storeXor data dcXor js with allPkScripts := List.replicate dcXor.length [] }))
  | failed {peer : PeerInfo} {dcXor allPkScripts : List Bytes} (hp : js.peers.lookup data.peerId = some peer)
      (hsize : ¬data.vector.length < pkScriptSize * 2)
      (hread : readMessages (data.vector ++ data.spare) 0 data.len = .ok dcXor) :
      DcXorOutcome pkgs ch data js (failed .marshal { storeXor data dcXor js with allPkScripts := allPkScripts })
  | complete {peer : PeerInfo} {dcXor allPkScripts : List Bytes} (hp : js.peers.lookup data.peerId = some peer)
      (hsize : ¬data.vector.length < pkScriptSize * 2)
      (hread : readMessages (data.vector ++ data.spare) 0 data.len = .ok dcXor)
      (hall : (storeXor data dcXor js).allSubmit (fun peer => peer.dcXorVector ≠ []) = true)
      (hslots : xorSlots pkgs ch (storeXor data dcXor js).peers dcXor.length = .ok allPkScripts) :
      DcXorOutcome pkgs ch data js
        (.ok (.next, scriptList ch { storeXor data dcXor js with allPkScripts := allPkScripts }))

theorem dcXorVector_outcome (pkgs : Packages) (ch : Choices) (data : DcVector) {js : JoinSession}
    (hmu : js.mu = false) : DcXorOutcome pkgs ch data js (dcXorVector pkgs ch data js) := by
  rw [dcXorVector, js.lock_eq hmu, ok_bind]
  by_cases hshort : data.vector.length < pkScriptSize * 2
  · rw [if_pos hshort]
    exact JoinSession.of_unlockAnd _ hmu (.short hshort)
  rw [if_neg hshort]
  rcases hread : readMessages (data.vector ++ data.spare) 0 data.len with e | dcXor
  · obtain rfl := readMessages_onlyPanics _ _ _ e hread
    exact .panic hshort
  rw [ok_bind, JoinSession.peers_withMu]
  rcases hp : js.peers.lookup data.peerId with _ | peer
  · exact JoinSession.of_unlockAnd _ hmu (.stranger hp hshort)
  change DcXorOutcome pkgs ch data js
    (if (storeXor data dcXor js).allSubmit (fun peer => peer.dcXorVector ≠ []) then do
      let allPkScripts ← xorSlots pkgs ch (storeXor data dcXor js).peers dcXor.length
      if !ch.marshal [551] then failed .marshal { storeXor data dcXor js with allPkScripts := allPkScripts }
      else
        ((scriptList ch { storeXor data dcXor js with allPkScripts := allPkScripts }).withMu true).unlockAnd .next
    else
      (JoinSession.withMu { storeXor data dcXor js with allPkScripts := List.replicate dcXor.length [] } true).unlockAnd .next)
  by_cases hall : (storeXor data dcXor js).allSubmit (fun peer => peer.dcXorVector ≠ []) = true
  · rw [if_pos hall]
    rcases hslots : xorSlots pkgs ch (storeXor data dcXor js).peers dcXor.length with e | allPkScripts
    · obtain rfl := xorSlots_onlyPanics _ _ _ _ e hslots
      exact .panic hshort
    rw [ok_bind]
    split_ifs
    · exact .failed hp hshort hread
    · exact JoinSession.of_unlockAnd _ hmu (.complete hp hshort hread hall hslots)
  · rw [if_neg hall]
    exact JoinSession.of_unlockAnd _ hmu (.waiting hp hshort hread (by simpa using hall))

end Dcrtxmatcher.Coinjoin
