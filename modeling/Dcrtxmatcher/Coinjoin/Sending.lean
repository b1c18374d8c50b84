import Dcrtxmatcher.Coinjoin.Steps

/-! What a step of the system sends.

Every kind of output comes from the handlers of one or two kinds of message
(`Output.answers`), or from the change of publisher and from removals
(`Output.housekeeping`), which any goroutine can do. -/
namespace Dcrtxmatcher.Coinjoin
open Lib

/-- Whether the handler of a kind of message can produce the output. -/
def Output.answers (kind : Kind) : Output → Bool
  | .send _ (.keyExchange _) => kind = .keyExchange
  | .send _ (.dcExpVector ..) => kind = .dcExpVector
  | .send _ (.dcXorVector _) => kind = .dcXorVector
  | .send _ (.joinedTx _) => kind = .txInputs
  | .send _ (.txSign _) => kind = .txSigned
  | .send _ (.txPublishResult _) => kind = .txSigned ∨ kind = .txPublishResult
  | .send _ .revealSecret => kind = .dcExpVector ∨ kind = .msgNotFound
  | .send _ (.maliciousPeers ..) => false
  | .post _ => kind = .txSigned
  | .close _ => kind = .keyExchange

/-- Whether the output belongs to a removal, a restart or a change of publisher. -/
def Output.housekeeping : Output → Bool
  | .close _ | .send _ (.maliciousPeers ..) | .send _ (.txSign _) => true
  | _ => false

/-- From one session to the other only outputs with the property are added. -/
def Sends (P : Output → Bool) (js js' : JoinSession) : Prop :=
  ∃ sent, js'.out = js.out ++ sent ∧ ∀ o ∈ sent, P o = true

namespace Sends
variable {P : Output → Bool} {js js' js'' : JoinSession}

theorem refl (js : JoinSession) : Sends P js js := ⟨[], (List.append_nil _).symm, by simp⟩

theorem trans (h : Sends P js js') (h' : Sends P js' js'') : Sends P js js'' := by
  obtain ⟨sent, hsent, hP⟩ := h
  obtain ⟨sent', hsent', hP'⟩ := h'
  refine ⟨sent ++ sent', by rw [hsent', hsent, List.append_assoc], fun o ho => ?_⟩
  exact (List.mem_append.mp ho).elim (hP o) (hP' o)

/-- The rest of the session does not matter. -/
theorem congr (h : Sends P js js') (hout : js''.out = js'.out) : Sends P js js'' := by
  obtain ⟨sent, hsent, hP⟩ := h
  exact ⟨sent, hout.trans hsent, hP⟩

theorem mem (h : Sends P js js') {o : Output} (ho : o ∈ js'.out.drop js.out.length) : P o = true := by
  obtain ⟨sent, hsent, hP⟩ := h
  rw [hsent, List.drop_left] at ho
  exact hP o ho

theorem append (h : Sends P js js') {sent : List Output} (hout : js''.out = js'.out ++ sent)
    (hP : ∀ o ∈ sent, P o = true) : Sends P js js'' :=
  h.trans ⟨sent, hout, hP⟩

theorem all_send {msg : ServerMessage} (hP : ∀ conn, P (.send conn msg) = true) (peers : List PeerInfo) :
    ∀ o ∈ peers.map fun peer => Output.send peer.conn msg, P o = true := by
  intro o ho
  obtain ⟨peer, -, rfl⟩ := List.mem_map.mp ho
  exact hP peer.conn

/-- A session that has sent nothing more but a broadcast. -/
theorem broadcast (h : Sends P js js') {msg : ServerMessage} {peers : List PeerInfo}
    (hout : js''.out = js'.out ++ peers.map fun peer => .send peer.conn msg) (hP : ∀ conn, P (.send conn msg) = true) :
    Sends P js js'' :=
  h.append hout (all_send hP peers)

theorem removePeer (h : Sends P js js') (hP : ∀ conn, P (.close conn) = true) (p : ℕ) :
    Sends P js (js'.removePeer p) := by
  refine h.trans ?_
  rw [JoinSession.removePeer]
  split
  · exact ⟨_, rfl, by simp [hP]⟩
  · exact refl _

theorem removePeers (h : Sends P js js') (hP : ∀ conn, P (.close conn) = true) (ps : List ℕ) :
    Sends P js (js'.removePeers ps) := by
  induction ps generalizing js' with
  | nil => exact h
  | cons p ps ih => exact ih (h.removePeer hP p)

theorem terminate (h : Sends P js js') (hP : ∀ conn, P (.close conn) = true) (ch : Choices) :
    Sends P js (js'.terminate ch) :=
  h.append rfl fun o ho => by
    obtain ⟨peer, -, rfl⟩ := List.mem_map.mp ho
    exact hP peer.conn

theorem delegated (h : Sends P js js') {tx : Bytes} (hP : ∀ conn, P (.send conn (.txSign tx)) = true) {pubId seconds : ℕ}
    {publisher : PeerInfo} : Sends P js (js'.delegated pubId publisher tx seconds) :=
  h.append rfl (by simp [hP])

end Sends

/-! ### Handlers -/

section Handlers
variable {pkgs : Packages} {ch : Choices} {js js' : JoinSession} {d : Done}

theorem sends_keyExchange {req : KeyExchangeReq} (h : KeyExchangeOutcome pkgs ch req js (.ok (d, js'))) :
    Sends (Output.answers .keyExchange) js js' := by
  cases h with
  | stranger => exact .refl js
  | invalid => exact (Sends.refl js).removePeer (fun _ => rfl) _
  | waiting => exact (Sends.refl js).congr rfl
  | unmarshalled =>
    refine Sends.removePeer ?_ (fun _ => rfl) _
    exact (Sends.refl js).congr rfl
  | complete => exact (Sends.refl js).broadcast rfl fun _ => rfl

theorem sends_dcExpVector {data : DcVector} (h : DcExpOutcome pkgs ch data js (.ok (d, js'))) :
    Sends (Output.answers .dcExpVector) js js' := by
  cases h with
  | stranger => exact .refl js
  | short => exact .refl js
  | rejected => exact (Sends.refl js).congr rfl
  | waiting => exact (Sends.refl js).congr rfl
  | ended _ _ _ _ _ hsolve =>
    cases hsolve with
    | unsolved => exact (Sends.refl js).broadcast rfl fun _ => rfl
    | failed => exact (Sends.refl js).congr rfl
    | solved => exact (Sends.refl js).broadcast rfl fun _ => rfl

theorem sends_dcXorVector {data : DcVector} (h : DcXorOutcome pkgs ch data js (.ok (d, js'))) :
    Sends (Output.answers .dcXorVector) js js' := by
  cases h with
  | short => exact .refl js
  | stranger => exact .refl js
  | waiting => exact (Sends.refl js).congr rfl
  | failed => exact (Sends.refl js).congr rfl
  | complete => exact (Sends.refl js).broadcast rfl fun _ => rfl

theorem out_storeInputs (txins : TxInputs) (tx : MsgTx) (js : JoinSession) : (storeInputs txins tx js).out = js.out := by
  simp only [storeInputs]
  split <;> rfl

theorem out_buildJoinedTx {ticketPrice : ℤ} {joinedtx : MsgTx} (h : buildJoinedTx ch ticketPrice js = .ok (joinedtx, js')) :
    js'.out = js.out := by
  simp only [buildJoinedTx] at h
  split at h
  · cases h
    rfl
  · cases h

theorem sends_txInputs {txins : TxInputs} (h : TxInputsOutcome pkgs ch txins js (.ok (d, js'))) :
    Sends (Output.answers .txInputs) js js' := by
  have hstore : ∀ tx, Sends (Output.answers .txInputs) js (storeInputs txins tx js) := fun tx =>
    (Sends.refl js).congr (out_storeInputs txins tx js)
  cases h with
  | stranger => exact .refl js
  | unpriced => exact (Sends.refl js).congr rfl
  | undecodable => exact (Sends.refl js).congr rfl
  | overspent => exact (hstore _).congr rfl
  | waiting => exact hstore _
  | joined _ _ _ _ _ _ hjoined =>
    cases hjoined with
    | failed hbuild => exact ((hstore _).congr (out_buildJoinedTx hbuild)).congr rfl
    | sent hbuild => exact ((hstore _).congr (out_buildJoinedTx hbuild)).broadcast rfl fun _ => rfl

theorem out_mergeSigned {tx : MsgTx} {inputIndex : List ℕ} (h : mergeSigned tx inputIndex js = .ok js') :
    js'.out = js.out := by
  obtain ⟨_, rfl⟩ := mergeSigned_eq_ok h
  rfl

/-- The server's attempts only post. -/
theorem post_of_mem_serverPosts {tx : Bytes} {o : Output} (h : o ∈ (serverPosts ch js tx).1) : o = .post tx := by
  have hpublish : ∀ n cnt, ∀ o ∈ (publish ch tx cnt n).1, o = .post tx := by
    intro n
    induction n with
    | zero => simp [publish]
    | succ n ih =>
      intro cnt o ho
      rw [publish] at ho
      split_ifs at ho
      · simpa using ho
      · exact (List.mem_cons.mp ho).elim id (ih (cnt + 1) o)
  rw [serverPosts] at h
  split_ifs at h
  · exact hpublish _ _ o h
  · simp at h

theorem sends_txSigned {signedTx : JoinTx} (h : TxSignedOutcome pkgs ch signedTx js (.ok (d, js'))) :
    Sends (Output.answers .txSigned) js js' := by
  have hstore : ∀ tx, Sends (Output.answers .txSigned) js (storeSigned signedTx tx js) := fun _ =>
    (Sends.refl js).congr rfl
  cases h with
  | stranger => exact .refl js
  | undecodable => exact (Sends.refl js).congr rfl
  | again => exact .refl js
  | invalid => exact hstore _
  | waiting _ _ _ _ hmerge => exact (hstore _).congr (out_mergeSigned hmerge)
  | @ended _ _ merged _ _ _ _ hmerge _ _ hpublish =>
    have hmerged := (hstore _).congr (out_mergeSigned hmerge)
    have hposts : ∀ tx, Sends (Output.answers .txSigned) js { merged with out := merged.out ++ (serverPosts ch merged tx).1 } :=
      fun tx => hmerged.append rfl fun o ho => by rw [post_of_mem_serverPosts ho]; rfl
    cases hpublish with
    | unencodable => exact hmerged.congr rfl
    | published => exact (hposts _).broadcast rfl fun _ => rfl
    | unmarshalled => exact (hposts _).congr rfl
    | delegated => exact (hposts _).append rfl (by simp [Output.answers])

theorem sends_handle {msg : ClientMessage} (h : HandleOutcome pkgs ch js msg (.ok (d, js'))) :
    Sends (Output.answers msg.kind) js js' := by
  cases msg with
  | keyExchange req => exact sends_keyExchange h
  | dcExpVector data => exact sends_dcExpVector h
  | dcXorVector data => exact sends_dcXorVector h
  | txInputs txins => exact sends_txInputs h
  | txSigned signedTx => exact sends_txSigned h
  | txPublishResult pubResult =>
    cases h
    exact (Sends.refl js).broadcast rfl fun _ => rfl
  | revealSecret rvSecret =>
    change RevealOutcome pkgs ch rvSecret js _ at h
    cases h <;> exact (Sends.refl js).congr rfl
  | msgNotFound data =>
    change MsgNotFoundOutcome ch data js _ at h
    cases h with
    | stranger => exact .refl js
    | asked => exact (Sends.refl js).broadcast rfl fun _ => rfl

end Handlers

/-! ### The other steps -/

/-- A removal and a restart. -/
theorem Sends.expelled {P : Output → Bool} (hclose : ∀ conn, P (.close conn) = true)
    (hinform : ∀ conn peerIds sessionId peerId, P (.send conn (.maliciousPeers peerIds sessionId peerId)) = true)
    (ch : Choices) (ps : List ℕ) (js : JoinSession) : Sends P js (js.expelled ch ps) := by
  have hremove : Sends P js (js.removePeers ps) := (Sends.refl js).removePeers hclose ps
  rw [JoinSession.expelled]
  split
  · exact hremove
  · refine hremove.append rfl fun o ho => ?_
    obtain ⟨peer, -, rfl⟩ := List.mem_map.mp ho
    exact hinform ..

section Housekeeping
variable {P : Output → Bool} {pkgs : Packages} {ch : Choices} {js js' js'' : JoinSession}

/-- The output that a change of publisher sends. -/
def JoinSession.Passes (P : Output → Bool) (pkgs : Packages) (js : JoinSession) : Prop :=
  ∀ joinedTx tx conn, js.joinedTx = some joinedTx → pkgs.btcEncode joinedTx = some tx → P (.send conn (.txSign tx)) = true

theorem JoinSession.Passes.removePeer (h : js.Passes P pkgs) (p : ℕ) : (js.removePeer p).Passes P pkgs := by
  intro joinedTx tx conn hjoined
  exact h joinedTx tx conn ((js.joinedTx_removePeer p).symm.trans hjoined)

theorem JoinSession.ChangeOutcome.sends {site : List ℕ} {b : Bool}
    (h : JoinSession.ChangeOutcome pkgs ch site js' (.ok (b, js''))) (hsends : Sends P js js')
    (hclose : ∀ conn, P (.close conn) = true) (hpass : js'.Passes P pkgs) : Sends P js js'' := by
  cases h with
  | failed => exact hsends.terminate hclose ch
  | changed hjoined hencode => exact hsends.delegated fun conn => hpass _ _ conn hjoined hencode

theorem Republishing.sends {b : Bool} (h : Republishing pkgs ch js' b js'') (hsends : Sends P js js')
    (hclose : ∀ conn, P (.close conn) = true) (hpass : js'.Passes P pkgs) : Sends P js js'' := by
  induction h with
  | done => exact hsends
  | emptied => exact hsends.removePeer hclose _
  | failed => exact (hsends.removePeer hclose _).terminate hclose ch
  | @changed js _ _ _ _ _ _ hjoined hencode _ _ ih =>
    have hleft := hpass.removePeer js.publisher
    exact ih ((hsends.removePeer hclose _).delegated fun conn => hleft _ _ conn hjoined hencode) hleft

theorem InformOutcome.sends {d : Done} (h : InformOutcome js' (.ok (d, js''))) (hsends : Sends P js js')
    (hclose : ∀ conn, P (.close conn) = true) : Sends P js js'' := by
  cases h with
  | nobody => exact hsends
  | dropped => exact hsends.removePeers hclose _

theorem sends_timeout {d : Done} (hclose : ∀ conn, P (.close conn) = true)
    (hpass : js.state = .txPublish → js.Passes P pkgs) (h : timeout pkgs ch js = .ok (d, js')) : Sends P js js' := by
  have hlate : Sends P js (js.timedOut ch) := (Sends.refl js).congr rfl
  have houtcome := timeout_outcome pkgs ch (mu_of_timeout h)
  rw [h] at houtcome
  cases houtcome with
  | returned hstate _ hrep => exact (hrep.sends (hlate.congr rfl) hclose (hpass hstate)).congr rfl
  | republished hstate _ hrep hinform =>
    have hsends := hrep.sends (hlate.congr rfl) hclose (hpass hstate)
    exact hinform.sends (hsends.congr rfl) hclose
  | informed _ hinform => exact hinform.sends hlate hclose

theorem sends_readError {peer : PeerInfo} (hclose : ∀ conn, P (.close conn) = true)
    (hpass : js.state = .txPublish → js.Passes P pkgs) (h : readError pkgs ch peer js = .ok js') : Sends P js js' := by
  have hremove : Sends P js (js.removePeer peer.id) := (Sends.refl js).removePeer hclose _
  have houtcome := readError_outcome pkgs ch peer (mu_of_readError h)
  rw [h] at houtcome
  cases houtcome with
  | left => exact hremove
  | kept => exact .refl js
  | emptied => exact hremove
  | changed hstate _ hchange =>
    exact (hchange.sends (hremove.congr rfl) hclose ((hpass hstate).removePeer _)).congr rfl

theorem sends_writeError {peer : PeerInfo} (hclose : ∀ conn, P (.close conn) = true)
    (hpass : js.state = .txPublish → js.Passes P pkgs) (h : writeError pkgs ch peer js = .ok js') : Sends P js js' := by
  have hremove : Sends P js (js.removePeer peer.id) := (Sends.refl js).removePeer hclose _
  have houtcome := writeError_outcome pkgs ch peer (mu_of_writeError h)
  rw [h] at houtcome
  cases houtcome with
  | left => exact hremove
  | kept => exact .refl js
  | changed hstate _ hchange =>
    exact (hchange.sends (hremove.congr rfl) hclose ((hpass hstate).removePeer _)).congr rfl
  | locked hstate _ hchange => exact hchange.sends (hremove.congr rfl) hclose ((hpass hstate).removePeer _)

theorem sends_finish {d : Done} {running : Bool} (hclose : ∀ conn, P (.close conn) = true)
    (hinform : ∀ conn peerIds sessionId peerId, P (.send conn (.maliciousPeers peerIds sessionId peerId)) = true)
    (h : finish ch d js = .ok (running, js')) : Sends P js js' := by
  cases hmu : js.mu with
  | true =>
    rw [finish_held ch d hmu] at h
    split_ifs at h
    · cases h
      exact ((Sends.refl js).congr rfl).terminate hclose ch
    · cases h
      exact .refl js
  | false =>
    rw [finish_free ch d hmu] at h
    split_ifs at h
    cases h
    unfold Done.pushed
    cases d.push with
    | none => exact .refl js
    | some ps => exact .expelled hclose hinform ch ps js

end Housekeeping

theorem out_readMessage {peer : PeerInfo} {raw : RawMessage} {pc : ReaderPc} {js js' : JoinSession}
    (h : readMessage peer raw js = .ok (pc, js')) : js'.out = js.out := by
  rcases mu_of_readMessage h with hmu | ⟨-, hsame⟩
  · have houtcome := readMessage_outcome peer raw hmu
    rw [h] at houtcome
    cases houtcome with
    | admitted => split_ifs <;> rfl
    | _ => rfl
  · cases hsame
    rfl

/-- An event that delivers no message sends what removals and restarts send, and in
`TxPublish` the joined transaction. -/
theorem sends_of_unhanded {P : Output → Bool} {pkgs : Packages} {ch : Choices} {s s' : System} {ev : Event}
    (hclose : ∀ conn, P (.close conn) = true)
    (hinform : ∀ conn peerIds sessionId peerId, P (.send conn (.maliciousPeers peerIds sessionId peerId)) = true)
    (hpass : s.session.state = .txPublish → s.session.Passes P pkgs) (h : Stepped pkgs ch s ev s')
    (hev : ∀ conn, ev ≠ .deliver conn) : Sends P s.session s'.session := by
  cases h with
  | timeout _ _ h => exact sends_timeout hclose hpass h
  | deliver => exact absurd rfl (hev _)
  | rest _ h => exact sends_finish hclose hinform h
  | read _ _ h => exact (Sends.refl _).congr (out_readMessage h)
  | push _ h =>
    rw [JoinSession.pushMaliciousInfo_eq ch _ (mu_of_pushMaliciousInfo h)] at h
    cases h
    exact .expelled hclose hinform ch _ _
  | remove => exact (Sends.refl _).removePeer hclose _
  | readError _ _ h => exact sends_readError hclose hpass h
  | writeError _ _ h => exact sends_writeError hclose hpass h

/-- What a delivered message sends is an answer to it, and other events only send
what any goroutine can. -/
theorem sends_of_stepped {pkgs : Packages} {ch : Choices} {s s' : System} {ev : Event} (h : Stepped pkgs ch s ev s') :
    (∃ conn sessionId state msg, ev = .deliver conn ∧ s.readers conn = .sending sessionId state msg ∧
        Sends (Output.answers msg.kind) s.session s'.session) ∨
      Sends Output.housekeeping s.session s'.session := by
  by_cases hev : ∃ conn, ev = .deliver conn
  swap
  · exact .inr (sends_of_unhanded (fun _ => rfl) (fun _ _ _ _ => rfl) (fun _ _ _ _ _ _ => rfl) h (not_exists.mp hev))
  · obtain ⟨conn, rfl⟩ := hev
    cases h with
    | @deliver _ sessionId state msg _ _ _ _ hreader h =>
      exact .inl ⟨conn, sessionId, state, msg, rfl, hreader, sends_handle (h ▸ handle_outcome pkgs ch msg (mu_of_handle h))⟩

end Dcrtxmatcher.Coinjoin
