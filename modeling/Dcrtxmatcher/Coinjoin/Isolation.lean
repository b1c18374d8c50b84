import Dcrtxmatcher.Coinjoin.Culprit
import Dcrtxmatcher.Coinjoin.Sending

/-! Rounds and messages that are under way.

A reader checks the state of the session when it admits a message; the loop that
handles it does not check again. What a message meets is the round it was admitted
in, as long as no round is completed and no session restarted while another reader
holds a message that matters (`Undisturbed`). -/
namespace Dcrtxmatcher.Coinjoin
open Lib

/-! ### Rounds -/

/-- The rounds in their order; the secrets are asked for at the end. -/
def SessionState.rank : SessionState → ℕ
  | .keyExchange => 0
  | .dcExponential => 1
  | .dcXor => 2
  | .txInput => 3
  | .txSign => 4
  | .txPublish => 5
  | .completed => 6
  | .revealSecret => 7

/-- The states that a kind of message can lead to. -/
def Kind.next : Kind → List SessionState
  | .keyExchange => [.dcExponential]
  | .dcExpVector => [.dcXor]
  | .dcXorVector => [.txInput]
  | .txInputs => [.txSign]
  | .txSigned => [.txPublish, .completed]
  | .txPublishResult => [.completed]
  | .revealSecret => []
  | .msgNotFound => [.revealSecret]

/-- A message in its own round leads to a later one. -/
theorem Kind.rank_lt {kind : Kind} {state next : SessionState} (hstate : kind.validIn state = true) (hnext : next ∈ kind.next) :
    state.rank < next.rank := by
  revert hnext hstate
  cases kind <;> cases state <;> cases next <;> decide

/-- Whether everybody but the sender of the message has sent what the round is
waiting for. -/
def Completes (js : JoinSession) : ClientMessage → Prop
  | .keyExchange _ => GoMap.len js.peers = js.peersMsgInfo.length + 1
  | .dcExpVector data => ∀ p peer, js.peers.lookup p = some peer → p ≠ data.peerId → peer.dcExpVector ≠ []
  | .dcXorVector data => ∀ p peer, js.peers.lookup p = some peer → p ≠ data.peerId → peer.dcXorVector ≠ []
  | .txInputs txins => ∀ p peer, js.peers.lookup p = some peer → p ≠ txins.peerId → peer.txIns.isSome = true
  | .txSigned signedTx => ∀ p peer, js.peers.lookup p = some peer → p ≠ signedTx.peerId → peer.signedTx.isSome = true
  | .revealSecret _ => False
  | .txPublishResult _ | .msgNotFound _ => True

/-- When all have submitted after one of them is changed, the others had. -/
theorem submitted_of_allSubmit (submitted : PeerInfo → Bool) {js js' : JoinSession} {q : ℕ}
    (hpeers : ∀ p, p ≠ q → js'.peers.lookup p = js.peers.lookup p) (hall : js'.allSubmit submitted = true) {p : ℕ}
    {peer : PeerInfo} (hp : js.peers.lookup p = some peer) (hne : p ≠ q) : submitted peer = true :=
  List.all_eq_true.mp hall (p, peer) (GoMap.mem_toList.mpr ((hpeers p hne).trans hp))

theorem lookup_storeInputs {txins : TxInputs} {tx : MsgTx} {js : JoinSession} {p : ℕ} (hne : p ≠ txins.peerId) :
    (storeInputs txins tx js).peers.lookup p = js.peers.lookup p := by
  have hstore : (storeInputs txins tx js).peers =
      ((storePrice txins js).setPeer txins.peerId fun peer => { peer with txIns := some tx }).peers := by
    simp only [storeInputs]
    split <;> rfl
  rw [hstore]
  exact (GoMap.lookup_modify_ne hne _ _).trans (GoMap.lookup_modify_ne hne _ _)

section Handlers
variable {pkgs : Packages} {ch : Choices} {js js' : JoinSession} {d : Done}

/-- Whether the output is the result of a round. -/
def Output.isResult : Output → Bool
  | .send _ (.dcExpVector ..) | .send _ (.dcXorVector _) | .send _ (.joinedTx _) => true
  | _ => false

/-- A handler goes on to the next round when the round is complete, or keeps the state
and sends no result. -/
def Advances (js js' : JoinSession) (msg : ClientMessage) : Prop :=
  js'.state ∈ msg.kind.next ∧ Completes js msg ∨
    js'.state = js.state ∧ Sends (fun o => !o.isResult) js js'

theorem advances_keyExchange {req : KeyExchangeReq} (h : KeyExchangeOutcome pkgs ch req js (.ok (d, js'))) :
    Advances js js' (.keyExchange req) := by
  cases h with
  | stranger => exact .inr ⟨rfl, .refl js⟩
  | invalid => exact .inr ⟨js.state_removePeer _, (Sends.refl js).removePeer (fun _ => rfl) _⟩
  | waiting => exact .inr ⟨rfl, (Sends.refl js).congr rfl⟩
  | unmarshalled =>
    refine .inr ⟨JoinSession.state_removePeer .., Sends.removePeer ?_ (fun _ => rfl) _⟩
    exact (Sends.refl js).congr rfl
  | complete _ _ hlen => exact .inl ⟨List.mem_singleton.mpr rfl, hlen⟩

theorem advances_dcExpVector {data : DcVector} (h : DcExpOutcome pkgs ch data js (.ok (d, js'))) :
    Advances js js' (.dcExpVector data) := by
  cases h with
  | stranger => exact .inr ⟨rfl, .refl js⟩
  | short => exact .inr ⟨rfl, .refl js⟩
  | rejected => exact .inr ⟨rfl, (Sends.refl js).congr rfl⟩
  | waiting => exact .inr ⟨rfl, (Sends.refl js).congr rfl⟩
  | ended _ _ _ _ hall hsolve =>
    cases hsolve with
    | unsolved => exact .inr ⟨rfl, (Sends.refl js).broadcast rfl fun _ => rfl⟩
    | failed => exact .inr ⟨rfl, (Sends.refl js).congr rfl⟩
    | solved =>
      refine .inl ⟨List.mem_singleton.mpr rfl, fun p peer hp hne => ?_⟩
      simpa using submitted_of_allSubmit _ (fun _ hne => GoMap.lookup_modify_ne hne _ _) hall hp hne

theorem advances_dcXorVector {data : DcVector} (h : DcXorOutcome pkgs ch data js (.ok (d, js'))) :
    Advances js js' (.dcXorVector data) := by
  cases h with
  | short => exact .inr ⟨rfl, .refl js⟩
  | stranger => exact .inr ⟨rfl, .refl js⟩
  | waiting => exact .inr ⟨rfl, (Sends.refl js).congr rfl⟩
  | failed => exact .inr ⟨rfl, (Sends.refl js).congr rfl⟩
  | complete _ _ _ hall =>
    refine .inl ⟨List.mem_singleton.mpr rfl, fun p peer hp hne => ?_⟩
    simpa using submitted_of_allSubmit _ (fun _ hne => GoMap.lookup_modify_ne hne _ _) hall hp hne

theorem state_storeInputs (txins : TxInputs) (tx : MsgTx) (js : JoinSession) :
    (storeInputs txins tx js).state = js.state := by
  simp only [storeInputs]
  split <;> rfl

theorem state_buildJoinedTx {ticketPrice : ℤ} {joinedtx : MsgTx}
    (h : buildJoinedTx ch ticketPrice js = .ok (joinedtx, js')) : js'.state = js.state := by
  simp only [buildJoinedTx] at h
  split at h
  · cases h
    rfl
  · cases h

theorem advances_txInputs {txins : TxInputs} (h : TxInputsOutcome pkgs ch txins js (.ok (d, js'))) :
    Advances js js' (.txInputs txins) := by
  have hsame : ∀ tx, Sends (fun o => !o.isResult) js (storeInputs txins tx js) := fun tx =>
    (Sends.refl js).congr (out_storeInputs txins tx js)
  cases h with
  | stranger => exact .inr ⟨rfl, .refl js⟩
  | unpriced => exact .inr ⟨rfl, (Sends.refl js).congr rfl⟩
  | undecodable => exact .inr ⟨rfl, (Sends.refl js).congr rfl⟩
  | overspent => exact .inr ⟨state_storeInputs .., (hsame _).congr rfl⟩
  | waiting => exact .inr ⟨state_storeInputs .., hsame _⟩
  | joined _ _ _ _ _ hall hjoined =>
    cases hjoined with
    | failed hbuild =>
      exact .inr ⟨(state_buildJoinedTx hbuild).trans (state_storeInputs ..),
        ((hsame _).congr (out_buildJoinedTx hbuild)).congr rfl⟩
    | sent =>
      refine .inl ⟨List.mem_singleton.mpr rfl, fun p peer hp hne => ?_⟩
      exact submitted_of_allSubmit _ (fun _ hne => lookup_storeInputs hne) hall hp hne

theorem advances_txSigned {signedTx : JoinTx} (h : TxSignedOutcome pkgs ch signedTx js (.ok (d, js'))) :
    Advances js js' (.txSigned signedTx) := by
  cases h with
  | stranger => exact .inr ⟨rfl, .refl js⟩
  | undecodable => exact .inr ⟨rfl, (Sends.refl js).congr rfl⟩
  | again => exact .inr ⟨rfl, .refl js⟩
  | invalid => exact .inr ⟨rfl, (Sends.refl js).congr rfl⟩
  | waiting _ _ _ _ hmerge =>
    obtain ⟨_, rfl⟩ := mergeSigned_eq_ok hmerge
    exact .inr ⟨rfl, (Sends.refl js).congr rfl⟩
  | ended _ _ _ _ hmerge hall hpublish =>
    obtain ⟨_, rfl⟩ := mergeSigned_eq_ok hmerge
    have hcomplete : Completes js (.txSigned signedTx) := fun p peer hp hne =>
      submitted_of_allSubmit (fun peer => peer.signedTx.isSome)
        (fun _ hne => GoMap.lookup_modify_ne hne _ _) hall hp hne
    cases hpublish with
    | unencodable => exact .inr ⟨rfl, (Sends.refl js).congr rfl⟩
    | published => exact .inl ⟨by simp [ClientMessage.kind, Kind.next, serverPublished], hcomplete⟩
    | unmarshalled =>
      refine .inr ⟨rfl, (Sends.refl js).append rfl fun o ho => ?_⟩
      rw [post_of_mem_serverPosts ho]
      rfl
    | delegated => exact .inl ⟨by simp [ClientMessage.kind, Kind.next, peerPublishes], hcomplete⟩

theorem advances_handle {msg : ClientMessage} (h : HandleOutcome pkgs ch js msg (.ok (d, js'))) : Advances js js' msg := by
  cases msg with
  | keyExchange req => exact advances_keyExchange h
  | dcExpVector data => exact advances_dcExpVector h
  | dcXorVector data => exact advances_dcXorVector h
  | txInputs txins => exact advances_txInputs h
  | txSigned signedTx => exact advances_txSigned h
  | txPublishResult pubResult =>
    cases h
    exact .inl ⟨List.mem_singleton.mpr rfl, trivial⟩
  | revealSecret rvSecret =>
    change RevealOutcome pkgs ch rvSecret js _ at h
    cases h <;> exact .inr ⟨rfl, (Sends.refl js).congr rfl⟩
  | msgNotFound data =>
    change MsgNotFoundOutcome ch data js _ at h
    cases h with
    | stranger => exact .inr ⟨rfl, .refl js⟩
    | asked => exact .inl ⟨List.mem_singleton.mpr rfl, trivial⟩

theorem id_handle {msg : ClientMessage} (h : HandleOutcome pkgs ch js msg (.ok (d, js'))) : js'.id = js.id := by
  rcases kept_handle h with hkept | ⟨req, rfl, hkey⟩
  · exact hkept.id
  · exact id_keyExchange hkey

end Handlers

/-! ### Messages that do not matter -/

/-- Whether the loop drops the message when its sender is not a member. A publish
result is taken from anybody, and a xor vector is read before its sender is looked up. -/
def Harmless : ClientMessage → Prop
  | .txPublishResult _ => False
  | .dcXorVector data =>
    ¬data.vector.length < pkScriptSize * 2 ∧ ∃ msgs, readMessages (data.vector ++ data.spare) 0 data.len = .ok msgs
  | _ => True

/-- The message comes from somebody who is not a member and does no harm. -/
def Ignored (js : JoinSession) (msg : ClientMessage) : Prop := Harmless msg ∧ msg.peerId ∉ js.peers.keys

theorem handle_of_ignored (pkgs : Packages) (ch : Choices) {js : JoinSession} {msg : ClientMessage} (hmu : js.mu = false)
    (h : Ignored js msg) : handle pkgs ch js msg = .ok (.next, js) := by
  obtain ⟨hharmless, hstranger⟩ := h
  have hnone : js.peers.lookup msg.peerId = none :=
    AList.lookup_eq_none.mpr fun hmem => hstranger (AList.mem_keys.mp hmem)
  have hunlock : (js.withMu true).unlockAnd .next = .ok (.next, js) := JoinSession.of_unlockAnd (P := (· = _)) js hmu rfl
  cases msg with
  | keyExchange req =>
    rw [handle, keyExchange, js.lock_eq hmu, ok_bind, JoinSession.peers_withMu, show js.peers.lookup req.peerId = none from hnone]
    exact hunlock
  | dcExpVector data =>
    rw [handle, dcExpVector, js.lock_eq hmu, ok_bind, JoinSession.peers_withMu, show js.peers.lookup data.peerId = none from hnone]
    exact hunlock
  | dcXorVector data =>
    obtain ⟨hsize, msgs, hread⟩ := hharmless
    rw [handle, dcXorVector, js.lock_eq hmu, ok_bind, if_neg hsize, hread, ok_bind, JoinSession.peers_withMu,
      show js.peers.lookup data.peerId = none from hnone]
    exact hunlock
  | txInputs txins =>
    rw [handle, txInputs, js.lock_eq hmu, ok_bind, JoinSession.peers_withMu, show js.peers.lookup txins.peerId = none from hnone]
    exact hunlock
  | txSigned signedTx =>
    rw [handle, txSigned, js.lock_eq hmu, ok_bind, JoinSession.peers_withMu,
      show js.peers.lookup signedTx.peerId = none from hnone]
    exact hunlock
  | txPublishResult pubResult => exact hharmless.elim
  | revealSecret rvSecret =>
    rw [handle, revealSecret, js.lock_eq hmu, ok_bind, JoinSession.peers_withMu,
      show js.peers.lookup rvSecret.peerId = none from hnone]
    exact hunlock
  | msgNotFound data =>
    rw [handle, msgNotFound, js.lock_eq hmu, ok_bind, JoinSession.peers_withMu, show js.peers.lookup data.peerId = none from hnone]
    exact hunlock

/-! ### The other steps keep the state -/

theorem state_removePeers (ps : List ℕ) (js : JoinSession) : (js.removePeers ps).state = js.state := by
  induction ps generalizing js with
  | nil => rfl
  | cons p ps ih => exact (ih _).trans (js.state_removePeer p)

section Quiet
variable {pkgs : Packages} {ch : Choices} {js js' : JoinSession} {peer : PeerInfo}

theorem JoinSession.ChangeOutcome.state {site : List ℕ} {b : Bool}
    (h : JoinSession.ChangeOutcome pkgs ch site js (.ok (b, js'))) : js'.state = js.state := by
  cases h <;> rfl

theorem state_timeout {d : Done} (h : timeout pkgs ch js = .ok (d, js')) : js'.state = js.state := by
  have houtcome := timeout_outcome pkgs ch (mu_of_timeout h)
  rw [h] at houtcome
  cases houtcome with
  | returned _ _ hrep => exact hrep.state
  | republished _ _ hrep hinform =>
    cases hinform with
    | nobody => exact hrep.state
    | dropped => exact (state_removePeers ..).trans hrep.state
  | informed _ hinform =>
    cases hinform with
    | nobody => rfl
    | dropped => exact state_removePeers ..

theorem state_readError (h : readError pkgs ch peer js = .ok js') : js'.state = js.state := by
  have houtcome := readError_outcome pkgs ch peer (mu_of_readError h)
  rw [h] at houtcome
  cases houtcome with
  | left => exact js.state_removePeer _
  | kept => rfl
  | emptied => exact js.state_removePeer _
  | changed _ _ hchange => exact hchange.state.trans (js.state_removePeer _)

theorem state_writeError (h : writeError pkgs ch peer js = .ok js') : js'.state = js.state := by
  have houtcome := writeError_outcome pkgs ch peer (mu_of_writeError h)
  rw [h] at houtcome
  cases houtcome with
  | left => exact js.state_removePeer _
  | kept => rfl
  | changed _ _ hchange => exact hchange.state.trans (js.state_removePeer _)
  | locked _ _ hchange => exact hchange.state.trans (js.state_removePeer _)

end Quiet

/-! ### The rule on steps -/

/-- The reader of the connection holds an admitted message. -/
def System.Holds (s : System) (conn : ℕ) (msg : ClientMessage) : Prop :=
  ∃ sessionId state, s.readers conn = .sending sessionId state msg

/-- A restart at this moment: the new id of the session is another one, and the
messages under way do no harm and come from ids that are not drawn again. -/
def MayRestart (ch : Choices) (s : System) : Prop :=
  ch.genId 0 ≠ s.session.id ∧ ∀ conn msg, s.Holds conn msg →
    Harmless msg ∧ ∀ i < GoMap.len s.session.peers, msg.peerId ≠ ch.genId (i + 1)

/-- A round is completed, and the session restarted, only while no other reader holds
a message that would matter. -/
def Undisturbed (ch : Choices) (s : System) : Event → Prop
  | .deliver conn => ∀ msg, s.Holds conn msg → Completes s.session msg → ¬Ignored s.session msg →
      ∀ conn' msg', conn' ≠ conn → s.Holds conn' msg' → Ignored s.session msg'
  | .rest => ∀ d, s.loop = .rest d → d.push.isSome = true → MayRestart ch s
  | .push _ => MayRestart ch s
  | _ => True

/-- Every message under way was admitted in its state, and the session is still as it
was then unless the message does not matter any more. -/
def MessagesInv (s : System) : Prop :=
  ∀ conn sessionId state msg, s.readers conn = .sending sessionId state msg →
    msg.kind.validIn state = true ∧
      (sessionId = s.session.id ∧ state = s.session.state ∨ Ignored s.session msg)

theorem Ignored.mono {js js' : JoinSession} {msg : ClientMessage} (h : Ignored js msg)
    (hkeys : js'.peers.keys ⊆ js.peers.keys) : Ignored js' msg :=
  ⟨h.1, fun hmem => h.2 (hkeys hmem)⟩

theorem sending_setReader {s : System} {conn conn' sessionId : ℕ} {pc : ReaderPc} {state : SessionState}
    {msg : ClientMessage} (h : s.setReader conn pc conn' = .sending sessionId state msg) :
    conn' = conn ∧ pc = .sending sessionId state msg ∨ conn' ≠ conn ∧ s.readers conn' = .sending sessionId state msg := by
  rw [System.setReader, Function.update_apply] at h
  split_ifs at h with hconn
  · exact .inl ⟨hconn, h⟩
  · exact .inr ⟨hconn, h⟩

namespace MessagesInv
variable {pkgs : Packages} {ch : Choices} {s s' : System}

/-- A step that leaves the session in its round. -/
theorem calm (hinv : MessagesInv s) (hid : s'.session.id = s.session.id) (hstate : s'.session.state = s.session.state)
    (hkeys : s'.session.peers.keys ⊆ s.session.peers.keys)
    (hreaders : ∀ conn sessionId state msg, s'.readers conn = .sending sessionId state msg →
      s.readers conn = .sending sessionId state msg ∨
        msg.kind.validIn state = true ∧ sessionId = s'.session.id ∧ state = s'.session.state) : MessagesInv s' := by
  intro conn sessionId state msg h
  rcases hreaders conn sessionId state msg h with hold | ⟨hvalid, hnew⟩
  · obtain ⟨hvalid, hfresh | hignored⟩ := hinv conn sessionId state msg hold
    · exact ⟨hvalid, .inl (by rwa [hid, hstate])⟩
    · exact ⟨hvalid, .inr (hignored.mono hkeys)⟩
  · exact ⟨hvalid, .inl hnew⟩

/-- A step after which no message matters any more. -/
theorem cleared (hinv : MessagesInv s)
    (hreaders : ∀ conn sessionId state msg, s'.readers conn = .sending sessionId state msg →
      s.readers conn = .sending sessionId state msg ∧ Ignored s'.session msg) : MessagesInv s' := by
  intro conn sessionId state msg h
  obtain ⟨hold, hignored⟩ := hreaders conn sessionId state msg h
  exact ⟨(hinv conn sessionId state msg hold).1, .inr hignored⟩

end MessagesInv

theorem kind_withPeerId (peerId : ℕ) (msg : ClientMessage) : (msg.withPeerId peerId).kind = msg.kind := by
  cases msg <;> rfl

theorem validIn_of_accepted {kind : Kind} {peerId : ℕ} {js : JoinSession} (h : admission kind peerId js = .accepted) :
    kind.validIn js.state = true := by
  rw [admission] at h
  split_ifs at h with hvalid
  simpa using hvalid

/-- What a reader holds after its turn, it has just been admitted. -/
theorem of_readMessage {peer : PeerInfo} {raw : RawMessage} {pc : ReaderPc} {js js' : JoinSession}
    (h : readMessage peer raw js = .ok (pc, js')) :
    js'.state = js.state ∧ ∀ sessionId state msg, pc = .sending sessionId state msg →
      msg.kind.validIn state = true ∧ sessionId = js'.id ∧ state = js'.state := by
  rcases mu_of_readMessage h with hmu | ⟨-, hsame⟩
  · have houtcome := readMessage_outcome peer raw hmu
    rw [h] at houtcome
    cases houtcome with
    | ignored => exact ⟨rfl, by simp⟩
    | unknown => exact ⟨rfl, by simp⟩
    | refused => exact ⟨rfl, by simp⟩
    | locked => exact ⟨rfl, by simp⟩
    | malformed => exact ⟨rfl, by split_ifs <;> simp⟩
    | @admitted msg haccepted =>
      have hvalid := validIn_of_accepted haccepted
      refine ⟨by split_ifs <;> rfl, fun sessionId state held hpc => ?_⟩
      cases hpc
      rw [kind_withPeerId]
      exact ⟨hvalid, by split_ifs <;> rfl, by split_ifs <;> rfl⟩
  · cases hsame
    exact ⟨rfl, by simp⟩

/-- The members after a restart have ids that it drew. -/
theorem keys_restart {ch : Choices} {ps : List ℕ} {js : JoinSession} {p : ℕ} (h : p ∈ (js.restart ch ps).peers.keys) :
    ∃ i < GoMap.len js.peers, ch.genId (i + 1) = p := by
  have hmem := GoMap.keys_ofList_subset _ h
  rw [List.map_map, show (Prod.fst ∘ fun peer : PeerInfo => (peer.id, peer)) = fun peer : PeerInfo => peer.id from rfl,
    ids_renewed] at hmem
  obtain ⟨i, hi, heq⟩ := List.mem_map.mp hmem
  exact ⟨i, List.mem_range.mp hi, heq⟩

section Steps
variable {pkgs : Packages} {ch : Choices} {s s' : System} {ev : Event}

/-- A restart leaves no message that matters. -/
theorem MessagesInv.expelled (hinv : MessagesInv s) (hrestart : MayRestart ch s) {ps : List ℕ}
    (hsession : s'.session = s.session.expelled ch ps)
    (hreaders : ∀ conn sessionId state msg, s'.readers conn = .sending sessionId state msg →
      s.readers conn = .sending sessionId state msg) : MessagesInv s' := by
  have hkept : Kept (ps.reverse ++ []) s.session (s.session.removePeers ps) := (Kept.refl _).removePeers ps
  rw [JoinSession.expelled] at hsession
  split_ifs at hsession with hempty
  · refine hinv.calm ?_ ?_ ?_ fun conn sessionId state msg h => .inl (hreaders conn sessionId state msg h)
    · rw [hsession]
      exact hkept.id
    · rw [hsession]
      exact state_removePeers ..
    · rw [hsession]
      exact hkept.keys_subset
  · refine hinv.cleared fun conn sessionId state msg h => ⟨hreaders conn sessionId state msg h, ?_⟩
    obtain ⟨hharmless, hdrawn⟩ := hrestart.2 conn msg ⟨sessionId, state, hreaders conn sessionId state msg h⟩
    refine ⟨hharmless, fun hmem => ?_⟩
    rw [hsession] at hmem
    obtain ⟨i, hi, heq⟩ := keys_restart hmem
    exact hdrawn i (hi.trans_le hkept.len_le) heq.symm

theorem MessagesInv.step (hinv : MessagesInv s) (hmeets : Undisturbed ch s ev) (h : Stepped pkgs ch s ev s') :
    MessagesInv s' := by
  cases h with
  | timeout _ _ h =>
    obtain ⟨_, -, hkept⟩ := Removes.of_timeout h
    exact hinv.calm hkept.id (state_timeout h) hkept.keys_subset fun _ _ _ _ => .inl
  | @deliver conn sessionId state msg _ _ js' _ hreader h =>
    have houtcome := h ▸ handle_outcome pkgs ch msg (mu_of_handle h)
    have hreaders : ∀ conn' sid st held, s.setReader conn .reading conn' = .sending sid st held →
        conn' ≠ conn ∧ s.readers conn' = .sending sid st held := fun conn' sid st held h =>
      (sending_setReader h).resolve_left fun h => by cases h.2
    have hkeys : js'.peers.keys ⊆ s.session.peers.keys := by
      rcases kept_handle houtcome with hkept | ⟨req, rfl, hkey⟩
      · exact hkept.keys_subset
      · exact keys_keyExchange hkey
    rcases advances_handle houtcome with ⟨-, hcomplete⟩ | ⟨hstate, -⟩
    · by_cases hignored : Ignored s.session msg
      · rw [handle_of_ignored pkgs ch (mu_of_handle h) hignored] at h
        cases h
        exact hinv.calm rfl rfl (List.Subset.refl _) fun conn' sid st held h => .inl (hreaders conn' sid st held h).2
      · refine hinv.cleared fun conn' sid st held h => ⟨(hreaders conn' sid st held h).2, ?_⟩
        exact (hmeets msg ⟨_, _, hreader⟩ hcomplete hignored conn' held (hreaders conn' sid st held h).1
          ⟨sid, st, (hreaders conn' sid st held h).2⟩).mono hkeys
    · exact hinv.calm (id_handle houtcome) hstate hkeys fun conn' sid st held h => .inl (hreaders conn' sid st held h).2
  | rest hloop h =>
    rcases kept_or_expelled_of_finish h with ⟨hkept, hstate⟩ | ⟨ps, hpush, rfl⟩
    · exact hinv.calm hkept.id hstate hkept.keys_subset fun _ _ _ _ => .inl
    · exact hinv.expelled (hmeets _ hloop (by rw [hpush]; rfl)) rfl fun _ _ _ _ => id
  | read hreader hpeer h =>
    obtain ⟨hstate, hnew⟩ := of_readMessage h
    refine hinv.calm (kept_readMessage h).id hstate (kept_readMessage h).keys_subset fun conn' sid st held h => ?_
    rcases sending_setReader h with ⟨-, hpc⟩ | ⟨-, hold⟩
    · exact .inr (hnew sid st held hpc)
    · exact .inl hold
  | push hreader h =>
    rw [JoinSession.pushMaliciousInfo_eq ch _ (mu_of_pushMaliciousInfo h)] at h
    cases h
    refine hinv.expelled hmeets rfl fun conn' sid st held h => ?_
    exact ((sending_setReader h).resolve_left fun h => by cases h.2).2
  | remove hreader =>
    refine hinv.calm ((Kept.refl _).removePeer _).id (JoinSession.state_removePeer ..) ((Kept.refl _).removePeer _).keys_subset
      fun conn' sid st held h => .inl ?_
    exact ((sending_setReader h).resolve_left fun h => by cases h.2).2
  | readError _ hpeer h =>
    obtain ⟨_, -, hkept⟩ := Removes.of_readError hpeer h
    refine hinv.calm hkept.id (state_readError h) hkept.keys_subset fun conn' sid st held h => .inl ?_
    exact ((sending_setReader h).resolve_left fun h => by cases h.2).2
  | writeError _ hpeer h =>
    obtain ⟨_, -, hkept⟩ := Removes.of_writeError hpeer h
    exact hinv.calm hkept.id (state_writeError h) hkept.keys_subset fun _ _ _ _ => .inl

theorem ReachableBy.messagesInv (hs : ReachableBy pkgs Undisturbed s) : MessagesInv s := by
  induction hs with
  | start =>
    intro conn sessionId state msg h
    cases h
  | step _ hmeets h ih => exact ih.step hmeets (stepped_of_step h)

/-- The handled message is in its round, or the loop drops it. -/
theorem fresh_or_dropped (hinv : MessagesInv s) {conn sessionId : ℕ} {state : SessionState} {msg : ClientMessage}
    (hreader : s.readers conn = .sending sessionId state msg) (h : Stepped pkgs ch s (.deliver conn) s') :
    sessionId = s.session.id ∧ state = s.session.state ∨ s'.session = s.session ∧ s'.loop = .rest .next := by
  cases h with
  | deliver _ hreader' h =>
    cases hreader.symm.trans hreader'
    refine (hinv conn sessionId state msg hreader).2.imp_right fun hignored => ?_
    rw [handle_of_ignored pkgs ch (mu_of_handle h) hignored] at h
    cases h
    exact ⟨rfl, rfl⟩

end Steps

/-! ### Progress -/

/-- What a step does to the round: nothing, or it goes on to a later one, or the
session starts anew. -/
inductive Progress (s s' : System) : Prop
  | kept (hstate : s'.session.state = s.session.state) (hsends : Sends (fun o => !o.isResult) s.session s'.session)
  | advanced {kind : Kind} (hvalid : kind.validIn s.session.state = true) (hnext : s'.session.state ∈ kind.next)
      (hsends : Sends (Output.answers kind) s.session s'.session)
  | restarted (hid : s'.session.id ≠ s.session.id) (hsends : Sends (fun o => !o.isResult) s.session s'.session)

theorem Sends.of_housekeeping {js js' : JoinSession} (h : Sends Output.housekeeping js js') :
    Sends (fun o => !o.isResult) js js' := by
  obtain ⟨sent, hsent, hP⟩ := h
  refine ⟨sent, hsent, fun o ho => ?_⟩
  have hhouse := hP o ho
  revert hhouse
  cases o with
  | send _ msg => cases msg <;> simp [Output.housekeeping, Output.isResult]
  | _ => simp [Output.isResult]

section Progress
variable {pkgs : Packages} {ch : Choices} {s s' : System} {ev : Event}

theorem progress_of_expelled (hrestart : MayRestart ch s) {ps : List ℕ} (hsession : s'.session = s.session.expelled ch ps) :
    Progress s s' := by
  have hsends : Sends (fun o => !o.isResult) s.session s'.session := by
    rw [hsession]
    exact (Sends.expelled (fun _ => rfl) (fun _ _ _ _ => rfl) ch ps s.session).of_housekeeping
  rw [JoinSession.expelled] at hsession
  split_ifs at hsession
  · refine .kept ?_ hsends
    rw [hsession]
    exact state_removePeers ..
  · refine .restarted ?_ hsends
    rw [hsession]
    exact hrestart.1

theorem progress_of_stepped (hinv : MessagesInv s) (hmeets : Undisturbed ch s ev) (h : Stepped pkgs ch s ev s') :
    Progress s s' := by
  have hquiet : Sends Output.housekeeping s.session s'.session → s'.session.state = s.session.state → Progress s s' :=
    fun hsends hstate => .kept hstate hsends.of_housekeeping
  cases h with
  | timeout _ _ h => exact hquiet (sends_timeout (fun _ => rfl) (fun _ _ _ _ _ _ => rfl) h) (state_timeout h)
  | @deliver conn sessionId state msg _ _ js' _ hreader h =>
    have houtcome := h ▸ handle_outcome pkgs ch msg (mu_of_handle h)
    rcases advances_handle houtcome with ⟨hnext, -⟩ | ⟨hstate, hsends⟩
    · obtain ⟨hvalid, ⟨-, hfresh⟩ | hignored⟩ := hinv conn sessionId state msg hreader
      · exact .advanced (hfresh ▸ hvalid) hnext (sends_handle houtcome)
      · rw [handle_of_ignored pkgs ch (mu_of_handle h) hignored] at h
        cases h
        exact .kept rfl (.refl _)
    · exact .kept hstate hsends
  | rest hloop h =>
    rcases kept_or_expelled_of_finish h with ⟨-, hstate⟩ | ⟨ps, hpush, rfl⟩
    · exact hquiet (sends_finish (fun _ => rfl) (fun _ _ _ _ => rfl) h) hstate
    · exact progress_of_expelled (hmeets _ hloop (by rw [hpush]; rfl)) rfl
  | read _ _ h => exact .kept (of_readMessage h).1 ((Sends.refl _).congr (out_readMessage h))
  | push _ h =>
    rw [JoinSession.pushMaliciousInfo_eq ch _ (mu_of_pushMaliciousInfo h)] at h
    cases h
    exact progress_of_expelled hmeets rfl
  | remove => exact hquiet ((Sends.refl _).removePeer (fun _ => rfl) _) (JoinSession.state_removePeer ..)
  | readError _ _ h => exact hquiet (sends_readError (fun _ => rfl) (fun _ _ _ _ _ _ => rfl) h) (state_readError h)
  | writeError _ _ h => exact hquiet (sends_writeError (fun _ => rfl) (fun _ _ _ _ _ _ => rfl) h) (state_writeError h)

theorem Progress.rank_le (h : Progress s s') (hid : s'.session.id = s.session.id) :
    s.session.state.rank ≤ s'.session.state.rank := by
  cases h with
  | kept hstate => rw [hstate]
  | advanced hvalid hnext => exact (Kind.rank_lt hvalid hnext).le
  | restarted hne => exact absurd hid hne

/-- The step sends the result of the round that the kind of message belongs to. -/
def Broadcasts (kind : Kind) (s s' : System) : Prop :=
  ∃ o ∈ s'.session.out.drop s.session.out.length, o.isResult = true ∧ o.answers kind = true

/-- A round with a result is one state. -/
theorem Progress.of_broadcasts {kind : Kind} (h : Progress s s') (hsent : Broadcasts kind s s') :
    kind.validIn s.session.state = true ∧ s.session.state.rank < s'.session.state.rank := by
  obtain ⟨o, ho, hresult, hanswers⟩ := hsent
  cases h with
  | kept _ hsends => exact absurd (hsends.mem ho) (by simp [hresult])
  | @advanced kind' hvalid hnext hsends =>
    have hkind : kind' = kind := by
      have hanswers' := hsends.mem ho
      revert hresult hanswers hanswers'
      cases o with
      | send _ msg => cases msg <;> simp +contextual [Output.isResult, Output.answers]
      | _ => simp [Output.isResult]
    exact ⟨hkind ▸ hvalid, Kind.rank_lt hvalid hnext⟩
  | restarted _ hsends => exact absurd (hsends.mem ho) (by simp [hresult])

end Progress

/-- What comes later in the life of a session, up to its next restart. -/
inductive Later (pkgs : Packages) (s : System) : System → Prop
  | refl : Later pkgs s s
  | step {a b : System} {ch : Choices} {ev : Event} (h : Later pkgs s a) (hmeets : Undisturbed ch a ev)
      (hstep : a.step pkgs ch ev = some b) (hid : b.session.id = a.session.id) : Later pkgs s b

section Later
variable {pkgs : Packages} {s s' : System}

theorem Later.reachableBy (hs : ReachableBy pkgs Undisturbed s) (h : Later pkgs s s') : ReachableBy pkgs Undisturbed s' := by
  induction h with
  | refl => exact hs
  | step _ hmeets hstep _ ih => exact .step ih hmeets hstep

/-- The rounds only go forward. -/
theorem Later.rank_le (hs : ReachableBy pkgs Undisturbed s) (h : Later pkgs s s') :
    s.session.state.rank ≤ s'.session.state.rank := by
  induction h with
  | refl => exact le_rfl
  | step hlater hmeets hstep hid ih =>
    exact ih.trans ((progress_of_stepped (hlater.reachableBy hs).messagesInv hmeets (stepped_of_step hstep)).rank_le hid)

end Later

/-- A kind of message whose round has a result is admitted in one state only. -/
theorem state_unique {kind : Kind} {o : Output} (hresult : o.isResult = true) (hanswers : o.answers kind = true)
    {state state' : SessionState} (hstate : kind.validIn state = true) (hstate' : kind.validIn state' = true) :
    state = state' := by
  have hkind : kind = .dcExpVector ∨ kind = .dcXorVector ∨ kind = .txInputs := by
    revert hresult hanswers
    cases o with
    | send _ msg => cases msg <;> simp +contextual [Output.isResult, Output.answers]
    | _ => simp [Output.isResult]
  rcases hkind with rfl | rfl | rfl
  all_goals
    simp only [Kind.validIn, decide_eq_true_eq] at hstate hstate'
    exact hstate.trans hstate'.symm

/-- **Rounds are isolated** in a run that completes rounds and restarts only while no
other message that matters is under way: a message takes effect in the session and
the state it was admitted in, the rounds of an incarnation only go forward, and the
result of a round is sent at most once. -/
theorem round_isolation {pkgs : Packages} {s s' : System} (hs : ReachableBy pkgs Undisturbed s) {ch : Choices} {ev : Event}
    (hmeets : Undisturbed ch s ev) (h : s.step pkgs ch ev = some s') :
    (∀ conn sessionId state msg, ev = .deliver conn → s.readers conn = .sending sessionId state msg →
      sessionId = s.session.id ∧ state = s.session.state ∨ s'.session = s.session ∧ s'.loop = .rest .next) ∧
    (s'.session.id = s.session.id → ∀ t, Later pkgs s' t → s.session.state.rank ≤ t.session.state.rank) ∧
    (∀ kind, Broadcasts kind s s' → ∀ t, Later pkgs s' t → ∀ ch' ev' t', Undisturbed ch' t ev' →
      t.step pkgs ch' ev' = some t' → ¬Broadcasts kind t t') := by
  have hstepped := stepped_of_step h
  have hprogress := progress_of_stepped hs.messagesInv hmeets hstepped
  have hs' : ReachableBy pkgs Undisturbed s' := hs.step hmeets h
  refine ⟨?_, fun hid t hlater => (hprogress.rank_le hid).trans (hlater.rank_le hs'), ?_⟩
  · rintro conn sessionId state msg rfl hreader
    exact fresh_or_dropped hs.messagesInv hreader hstepped
  · rintro kind hsent t hlater ch' ev' t' hmeets' hstep' hsent'
    have hprogress' := progress_of_stepped (hlater.reachableBy hs').messagesInv hmeets' (stepped_of_step hstep')
    obtain ⟨hvalid, hlt⟩ := hprogress.of_broadcasts hsent
    obtain ⟨hvalid', -⟩ := hprogress'.of_broadcasts hsent'
    obtain ⟨o, -, hresult, hanswers⟩ := hsent
    have hsame : s.session.state = t.session.state := state_unique hresult hanswers hvalid hvalid'
    have hle := hlater.rank_le hs'
    rw [← hsame] at hle
    omega

/-- With no other message under way a message may complete its round. -/
theorem undisturbed_deliver (ch : Choices) {s : System} {conn : ℕ} (h : ∀ conn', conn' ≠ conn → s.readers conn' = .reading) :
    Undisturbed ch s (.deliver conn) := by
  rintro msg - - - conn' msg' hne ⟨sessionId, state, hholds⟩
  cases (h conn' hne).symm.trans hholds

/-- Two peers exchange their keys, one after the other. -/
theorem round_isolation_two : ∃ s s' : System, s.step plainPackages (plainChoices id) (.deliver 2) = some s' ∧
    s'.session.state = .dcExponential ∧ ∀ t, Later plainPackages s' t → s.session.state.rank ≤ t.session.state.rank := by
  have hs : ReachableBy plainPackages Undisturbed _ :=
    .start 7 60 false [(1, 1), (2, 2)] (by decide) (by decide)
  have hs₁ := hs.step (show Undisturbed (plainChoices id) _ (.read 1 (.message (.keyExchange ⟨0, [5], 1⟩))) from trivial) rfl
  have hs₂ := hs₁.step (show Undisturbed (plainChoices id) _ (.deliver 1) from
    undisturbed_deliver _ fun conn hne => Function.update_of_ne hne _ _) rfl
  have hs₃ := hs₂.step (show Undisturbed (plainChoices id) _ .rest by rintro d hd hpush; cases hd; cases hpush) rfl
  have hs₄ := hs₃.step (show Undisturbed (plainChoices id) _ (.read 2 (.message (.keyExchange ⟨0, [6], 1⟩))) from trivial) rfl
  refine ⟨_, _, rfl, rfl, (round_isolation hs₄ (show Undisturbed (plainChoices id) _ (.deliver 2) from
    undisturbed_deliver _ fun conn hne => ?_) rfl).2.1 rfl⟩
  -- the reader of connection 1 is back in its loop
  by_cases hconn : conn = 1
  · rw [hconn]
    rfl
  · simp only [System.setReader, Function.update_of_ne hne, Function.update_of_ne hconn]
    rfl

/-- A round that is over: peer 1 announces its key again before peer 2 does. -/
def staleKey : List (Choices × Event) :=
  [(plainChoices id, .read 1 (.message (.keyExchange ⟨0, [5], 1⟩))), (plainChoices id, .deliver 1), (plainChoices id, .rest),
    (plainChoices id, .read 1 (.message (.keyExchange ⟨0, [7], 1⟩))),
    (plainChoices id, .read 2 (.message (.keyExchange ⟨0, [6], 1⟩))), (plainChoices id, .deliver 2), (plainChoices id, .rest)]

/-- **A message outlives its round**: the second key of peer 1 was admitted during the
key exchange and replaces the first one in the exponential round. -/
theorem staleKey_taken : ∃ s s' sessionId state msg, Reachable plainPackages s ∧
    s.readers 1 = .sending sessionId state msg ∧ s.step plainPackages (plainChoices id) (.deliver 1) = some s' ∧
    state = .keyExchange ∧ s.session.state = .dcExponential ∧ s'.session ≠ s.session := by
  refine ⟨_, _, _, _, _, (Reachable.start 7 60 false [(1, 1), (2, 2)] (by decide) (by decide)).run (l := staleKey) rfl, rfl, rfl,
    rfl, rfl, ?_⟩
  intro h
  have hpk := congrArg (fun js : JoinSession => (js.peers.lookup 1).map (·.pk)) h
  revert hpk
  decide

end Dcrtxmatcher.Coinjoin
