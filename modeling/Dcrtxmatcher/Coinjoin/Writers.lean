import Dcrtxmatcher.Lib.Runs
import Dcrtxmatcher.Coinjoin.Timers

/-! The writers that take what the session sends.

A message to a peer is handed over on a channel without a buffer, most of the time
with the mutex held: whoever sends to a writer that has ended, or that waits for the
mutex itself because its write has failed, waits for ever. A member whose connection
fails is taken out in most rounds, and its writer ends; where it stays a member
(`Unnoticed`), the next message to it freezes the session. -/
namespace Dcrtxmatcher.Coinjoin
open Lib

/-! ### Whom a step sends to -/

/-- The connection a message is for. -/
def Output.receiver : Output → Option ℕ
  | .send conn _ => some conn
  | .close _ | .post _ => none

/-- The connections that are sent a message from one session to the other, in order. -/
def sentTo (js js' : JoinSession) : List ℕ := (js'.out.drop js.out.length).filterMap Output.receiver

/-- Messages are added for just these connections. -/
def SendsTo (conns : List ℕ) (js js' : JoinSession) : Prop :=
  ∃ sent, js'.out = js.out ++ sent ∧ sent.filterMap Output.receiver = conns

theorem SendsTo.sentTo_eq {conns : List ℕ} {js js' : JoinSession} (h : SendsTo conns js js') : sentTo js js' = conns := by
  obtain ⟨sent, hsent, rfl⟩ := h
  rw [sentTo, hsent, List.drop_left]

theorem SendsTo.refl (js : JoinSession) : SendsTo [] js js := ⟨[], (List.append_nil _).symm, rfl⟩

theorem SendsTo.trans {conns conns' : List ℕ} {js js' js'' : JoinSession} (h : SendsTo conns js js')
    (h' : SendsTo conns' js' js'') : SendsTo (conns ++ conns') js js'' := by
  obtain ⟨sent, hsent, rfl⟩ := h
  obtain ⟨sent', hsent', rfl⟩ := h'
  exact ⟨sent ++ sent', by rw [hsent', hsent, List.append_assoc], List.filterMap_append⟩

theorem SendsTo.congr {conns : List ℕ} {js js' js'' : JoinSession} (h : SendsTo conns js js') (hout : js''.out = js'.out) :
    SendsTo conns js js'' := by
  obtain ⟨sent, hsent, hconns⟩ := h
  exact ⟨sent, hout.trans hsent, hconns⟩

/-- No messages are added. -/
abbrev Mute (js js' : JoinSession) : Prop := Sends (fun o => o.receiver.isNone) js js'

theorem SendsTo.of_mute {js js' : JoinSession} (h : Mute js js') : SendsTo [] js js' := by
  obtain ⟨sent, hsent, hall⟩ := h
  exact ⟨sent, hsent, List.filterMap_eq_nil_iff.mpr fun o ho => Option.isNone_iff_eq_none.mp (hall o ho)⟩

/-- The members' connections, whatever else has been done to the session. -/
theorem perm_conns_values (ch : Choices) (site : ℕ) (js : JoinSession) :
    ((GoMap.values ch.order [site] js.peers).map (·.conn)).Perm js.conns :=
  ((GoMap.values_perm ch.order [site] js.peers).map _).trans (.of_eq (List.map_map ..))

theorem SendsTo.broadcast (ch : Choices) (site : ℕ) (msg : ServerMessage) (js : JoinSession) :
    SendsTo ((GoMap.values ch.order [site] js.peers).map (·.conn)) js (js.broadcast ch site msg) := by
  refine ⟨_, rfl, ?_⟩
  rw [List.filterMap_map]
  exact congrFun List.filterMap_eq_map' _

/-- At most one message to each member, and none to anybody else. -/
def Addresses (js js' : JoinSession) : Prop := ∃ conns, SendsTo conns js js' ∧ conns.Subperm js.conns

theorem Addresses.of_mute {js js' : JoinSession} (h : Mute js js') : Addresses js js' :=
  ⟨[], .of_mute h, List.nil_subperm⟩

theorem Addresses.broadcast {js js' : JoinSession} (hconns : js'.conns.Perm js.conns) (hout : js'.out = js.out)
    (ch : Choices) (site : ℕ) (msg : ServerMessage) : Addresses js (js'.broadcast ch site msg) := by
  obtain ⟨sent, hsent, hto⟩ := SendsTo.broadcast ch site msg js'
  rw [hout] at hsent
  exact ⟨_, ⟨sent, hsent, hto⟩, ((perm_conns_values ch site js').trans hconns).subperm⟩

theorem Addresses.congr {js js' js'' : JoinSession} (h : Addresses js js') (hout : js''.out = js'.out) : Addresses js js'' := by
  obtain ⟨conns, hsends, hsub⟩ := h
  exact ⟨conns, hsends.congr hout, hsub⟩

/-! ### Members after a step -/

theorem subperm_map {α β : Type} (f : α → β) {l l' : List α} (h : l.Subperm l') : (l.map f).Subperm (l'.map f) := by
  obtain ⟨m, hperm, hsub⟩ := h
  exact ⟨m.map f, hperm.map f, hsub.map f⟩

/-- The connection of a member. -/
def JoinSession.connOf (js : JoinSession) (p : ℕ) : ℕ := (js.peers.lookup p).elim 0 (·.conn)

theorem conns_eq_map_keys (js : JoinSession) : js.conns = js.peers.keys.map js.connOf := by
  rw [JoinSession.conns, GoMap.keys_eq, List.map_map]
  refine List.map_congr_left fun e he => ?_
  have hlookup := GoMap.mem_toList.mp (show (e.1, e.2) ∈ GoMap.toList js.peers from he)
  rw [Function.comp_apply, JoinSession.connOf, hlookup]
  rfl

theorem conns_subperm_of_kept {ps : List ℕ} {js js' : JoinSession} (h : Kept ps js js') : js'.conns.Subperm js.conns := by
  have hsame : js'.peers.keys.map js'.connOf = js'.peers.keys.map js.connOf := by
    refine List.map_congr_left fun p hp => ?_
    obtain ⟨peer', hp'⟩ := GoMap.lookup_of_mem_keys hp
    obtain ⟨peer, hpeer, hsame⟩ := h.member hp'
    rw [JoinSession.connOf, JoinSession.connOf, hp', hpeer]
    exact hsame.conn
  rw [conns_eq_map_keys, conns_eq_map_keys, hsame]
  exact subperm_map _ (List.subperm_of_subset js'.peers.keys_nodup h.keys_subset)

theorem conns_subperm_restart (ch : Choices) (ps : List ℕ) (js : JoinSession) : (js.restart ch ps).conns.Subperm js.conns := by
  have hconns := subperm_map (fun e => e.2.conn)
    (GoMap.toList_ofList_subperm ((js.renewed ch).map fun peer => (peer.id, peer)))
  rw [List.map_map] at hconns
  exact hconns.trans (conns_renewed ch js).subperm

theorem conns_subperm_expelled (ch : Choices) (ps : List ℕ) (js : JoinSession) : (js.expelled ch ps).conns.Subperm js.conns := by
  have hremoved := conns_subperm_of_kept ((Kept.refl js).removePeers ps)
  unfold JoinSession.expelled
  split
  · exact hremoved
  · exact (conns_subperm_restart ch ps _).trans hremoved

theorem conns_announce (req : KeyExchangeReq) (peer : PeerInfo) (js : JoinSession) :
    (announce req peer js).conns = js.conns := by
  rw [conns_eq_map_keys, conns_eq_map_keys,
    show (announce req peer js).peers.keys = js.peers.keys from GoMap.keys_modify ..]
  refine List.map_congr_left fun p _ => ?_
  rw [JoinSession.connOf, JoinSession.connOf, lookup_announce]
  cases js.peers.lookup p with
  | none => rfl
  | some old =>
    simp only [Option.map_some, Option.elim_some]
    split_ifs <;> rfl

theorem conns_subperm_keyExchange {pkgs : Packages} {ch : Choices} {req : KeyExchangeReq} {js js' : JoinSession} {d : Done}
    (h : KeyExchangeOutcome pkgs ch req js (.ok (d, js'))) : js'.conns.Subperm js.conns := by
  cases h with
  | stranger => exact List.Subperm.refl _
  | invalid => exact conns_subperm_of_kept ((Kept.refl js).removePeer _)
  | @waiting peer => exact (List.Perm.of_eq (conns_announce req peer js)).subperm
  | @unmarshalled peer =>
    have hremoved := conns_subperm_of_kept ((Kept.refl (announce req peer js)).removePeer req.peerId)
    rwa [conns_announce] at hremoved
  | @complete peer => exact (List.Perm.of_eq (conns_announce req peer js)).subperm

/-- A step brings no connections. -/
theorem conns_subperm_of_effect {pkgs : Packages} {ch : Choices} {s : System} {ev : Event} {js' : JoinSession}
    (h : Effect pkgs ch s ev js') : js'.conns.Subperm s.session.conns := by
  cases h with
  | removed h =>
    obtain ⟨_, -, hkept⟩ := h
    exact conns_subperm_of_kept hkept
  | keyExchange _ _ h => exact conns_subperm_keyExchange h
  | expelled h => exact h ▸ conns_subperm_expelled ch _ _

/-! ### Who speaks -/

/-- No messages, or for a reason at most one to each member. -/
def Speaks (reason : Prop) (js js' : JoinSession) : Prop := Mute js js' ∨ reason ∧ Addresses js js'

theorem Speaks.addresses {reason : Prop} {js js' : JoinSession} (h : Speaks reason js js') : Addresses js js' :=
  h.elim .of_mute And.right

theorem Speaks.sentTo_eq_nil {reason : Prop} {js js' : JoinSession} (h : Speaks reason js js') (hno : ¬reason) :
    sentTo js js' = [] :=
  (SendsTo.of_mute (h.resolve_right fun hyes => hno hyes.1)).sentTo_eq

section Handlers
variable {pkgs : Packages} {ch : Choices} {js js' : JoinSession} {d : Done}

theorem speaks_keyExchange {req : KeyExchangeReq} (h : KeyExchangeOutcome pkgs ch req js (.ok (d, js'))) :
    Speaks (Completes js (.keyExchange req)) js js' := by
  cases h with
  | stranger => exact .inl (.refl js)
  | invalid => exact .inl ((Sends.refl js).removePeer (fun _ => rfl) _)
  | waiting => exact .inl ((Sends.refl js).congr rfl)
  | @unmarshalled peer =>
    have hannounced : Mute js (announce req peer js) := (Sends.refl js).congr rfl
    exact .inl (hannounced.removePeer (fun _ => rfl) _)
  | @complete peer _ _ hlen =>
    have hlist := Addresses.broadcast (List.Perm.of_eq (conns_announce req peer js)) rfl ch 365
      (.keyExchange (announce req peer js).peersMsgInfo)
    exact .inr ⟨hlen, hlist.congr rfl⟩

theorem speaks_dcExpVector {data : DcVector} (h : DcExpOutcome pkgs ch data js (.ok (d, js'))) :
    Speaks (Completes js (.dcExpVector data)) js js' := by
  cases h with
  | stranger => exact .inl (.refl js)
  | short => exact .inl (.refl js)
  | rejected => exact .inl ((Sends.refl js).congr rfl)
  | waiting => exact .inl ((Sends.refl js).congr rfl)
  | @ended peer vector _ _ _ _ hall _ hsolve =>
    have hend : Completes js (.dcExpVector data) := fun p peer hp hne => by
      simpa using submitted_of_allSubmit _ (fun _ hne => GoMap.lookup_modify_ne hne _ _) hall hp hne
    have hconns := conns_perm_of_kept (kept_storeExp data vector js)
    cases hsolve with
    | unsolved => exact .inr ⟨hend, .broadcast hconns rfl ch 443 .revealSecret⟩
    | failed => exact .inl ((Sends.refl js).congr rfl)
    | @solved sums roots allMsgHash =>
      exact .inr ⟨hend, (Addresses.broadcast hconns rfl ch 482 (.dcExpVector roots.length allMsgHash)).congr rfl⟩

theorem speaks_dcXorVector {data : DcVector} (h : DcXorOutcome pkgs ch data js (.ok (d, js'))) :
    Speaks (Completes js (.dcXorVector data)) js js' := by
  cases h with
  | short => exact .inl (.refl js)
  | stranger => exact .inl (.refl js)
  | waiting => exact .inl ((Sends.refl js).congr rfl)
  | failed => exact .inl ((Sends.refl js).congr rfl)
  | @complete peer dcXor allPkScripts _ _ hread hall =>
    have hend : Completes js (.dcXorVector data) := fun p peer hp hne => by
      simpa using submitted_of_allSubmit _ (fun _ hne => GoMap.lookup_modify_ne hne _ _) hall hp hne
    have hkept : Kept [] js (storeXor data dcXor js) := kept_storeXor hread js
    have hconns := conns_perm_of_kept hkept
    exact .inr ⟨hend, (Addresses.broadcast hconns rfl ch 562 (.dcXorVector allPkScripts.flatten)).congr rfl⟩

theorem speaks_txInputs {txins : TxInputs} (h : TxInputsOutcome pkgs ch txins js (.ok (d, js'))) :
    Speaks (Completes js (.txInputs txins)) js js' := by
  have hstored : ∀ tx, Mute js (storeInputs txins tx js) := fun tx => (Sends.refl js).congr (out_storeInputs txins tx js)
  cases h with
  | stranger => exact .inl (.refl js)
  | unpriced => exact .inl ((Sends.refl js).congr rfl)
  | undecodable => exact .inl ((Sends.refl js).congr rfl)
  | overspent => exact .inl ((hstored _).congr rfl)
  | waiting => exact .inl (hstored _)
  | @joined peer tx _ _ _ _ _ _ _ hall _ hjoined =>
    cases hjoined with
    | failed hbuild => exact .inl (((hstored tx).congr (out_buildJoinedTx hbuild)).congr rfl)
    | @sent joinedtx built bytes hbuild =>
      have hconns := conns_perm_of_kept ((kept_storeInputs txins tx js).trans (kept_buildJoinedTx hbuild))
      have hout : built.out = js.out := (out_buildJoinedTx hbuild).trans (out_storeInputs txins tx js)
      exact .inr ⟨completes_storeInputs hall, (Addresses.broadcast hconns hout ch 688 (.joinedTx bytes)).congr rfl⟩

/-- One message to a member. -/
theorem sendsTo_delegated {conns : List ℕ} (js : JoinSession) (hconns : js.conns.Subperm conns) {pubId : ℕ}
    {publisher : PeerInfo} (hp : js.peers.lookup pubId = some publisher) (tx : Bytes) (seconds : ℕ) :
    SendsTo [publisher.conn] js (js.delegated pubId publisher tx seconds) ∧ [publisher.conn].Subperm conns := by
  refine ⟨⟨_, rfl, rfl⟩, List.singleton_subperm_iff.mpr (hconns.subset ?_)⟩
  exact (conns_removePeer hp).subset (List.mem_cons_self ..)

theorem speaks_txSigned {signedTx : JoinTx} (h : TxSignedOutcome pkgs ch signedTx js (.ok (d, js'))) :
    Speaks (Completes js (.txSigned signedTx)) js js' := by
  cases h with
  | stranger => exact .inl (.refl js)
  | undecodable => exact .inl ((Sends.refl js).congr rfl)
  | again => exact .inl (.refl js)
  | invalid => exact .inl ((Sends.refl js).congr rfl)
  | waiting _ _ _ _ hmerge =>
    obtain ⟨_, rfl⟩ := mergeSigned_eq_ok hmerge
    exact .inl ((Sends.refl js).congr rfl)
  | @ended peer tx merged _ _ _ _ hmerge hall _ hpublish =>
    have hconns := conns_perm_of_kept (kept_mergeSigned (kept_storeSigned signedTx tx js) hmerge)
    have hend : Completes js (.txSigned signedTx) := by
      obtain ⟨_, rfl⟩ := mergeSigned_eq_ok hmerge
      exact fun p peer hp hne => submitted_of_allSubmit (fun peer => peer.signedTx.isSome)
        (fun _ hne => GoMap.lookup_modify_ne hne _ _) hall hp hne
    have hout := out_mergeSigned hmerge
    have hposts : ∀ bytes, Mute js { merged with out := merged.out ++ (serverPosts ch merged bytes).1 } := by
      intro bytes
      refine Sends.append ((Sends.refl js).congr hout) rfl fun o ho => ?_
      rw [post_of_mem_serverPosts ho]
      rfl
    cases hpublish with
    | unencodable => exact .inl ((Sends.refl js).congr hout)
    | @published joinedTx bytes =>
      have hresult := SendsTo.broadcast ch 786 (.txPublishResult bytes)
        { merged with out := merged.out ++ (serverPosts ch merged bytes).1 }
      refine .inr ⟨hend, _, ((SendsTo.of_mute (hposts bytes)).trans hresult).congr rfl, ?_⟩
      exact ((perm_conns_values ch 786 merged).trans hconns).subperm
    | unmarshalled => exact .inl ((hposts _).congr rfl)
    | @delegated joinedTx bytes pubId publisher _ _ _ hp =>
      obtain ⟨hsends, hsub⟩ := sendsTo_delegated { merged with out := merged.out ++ (serverPosts ch merged bytes).1 }
        hconns.subperm hp bytes (merged.roundTimeOut / 3)
      exact .inr ⟨hend, _, ((SendsTo.of_mute (hposts bytes)).trans hsends).congr rfl, hsub⟩

/-- A handler sends only when the round is complete, and then at most one message to
each member. -/
theorem speaks_handle {msg : ClientMessage} (h : handle pkgs ch js msg = .ok (d, js')) :
    Speaks (Completes js msg) js js' := by
  have houtcome := handle_outcome pkgs ch msg (mu_of_handle h)
  rw [h] at houtcome
  cases msg with
  | keyExchange req => exact speaks_keyExchange houtcome
  | dcExpVector data => exact speaks_dcExpVector houtcome
  | dcXorVector data => exact speaks_dcXorVector houtcome
  | txInputs txins => exact speaks_txInputs houtcome
  | txSigned signedTx => exact speaks_txSigned houtcome
  | txPublishResult pubResult =>
    cases houtcome
    exact .inr ⟨trivial, (Addresses.broadcast (.refl _) rfl ch 834 (.txPublishResult pubResult.tx)).congr rfl⟩
  | revealSecret rvSecret =>
    change RevealOutcome pkgs ch rvSecret js (.ok (d, js')) at houtcome
    cases houtcome with
    | stranger => exact .inl (.refl js)
    | failed => exact .inl ((Sends.refl js).congr rfl)
    | found => exact .inl ((Sends.refl js).congr rfl)
    | waiting => exact .inl ((Sends.refl js).congr rfl)
  | msgNotFound data =>
    change MsgNotFoundOutcome ch data js (.ok (d, js')) at houtcome
    cases houtcome with
    | stranger => exact .inl (.refl js)
    | asked => exact .inr ⟨trivial, (Addresses.broadcast (.refl _) rfl ch 1228 .revealSecret).congr rfl⟩

end Handlers

section Goroutines
variable {pkgs : Packages} {ch : Choices} {js js' : JoinSession} {d : Done}

theorem addresses_expelled (ch : Choices) (ps : List ℕ) (js : JoinSession) : Addresses js (js.expelled ch ps) := by
  have hremoved : Mute js (js.removePeers ps) := (Sends.refl js).removePeers (fun _ => rfl) ps
  unfold JoinSession.expelled
  split
  · exact .of_mute hremoved
  · have hsub := conns_subperm_expelled ch ps js
    rw [JoinSession.expelled, if_neg ‹_›] at hsub
    have hsent : SendsTo ((GoMap.values ch.order [146] ((js.removePeers ps).restart ch ps).peers).map (·.conn))
        (js.removePeers ps) ((js.removePeers ps).restart ch ps) := by
      refine ⟨_, rfl, ?_⟩
      rw [List.filterMap_map]
      exact congrFun List.filterMap_eq_map' _
    refine ⟨_, (SendsTo.of_mute hremoved).trans hsent, ?_⟩
    exact (perm_conns_values ch 146 ((js.removePeers ps).restart ch ps)).subperm.trans hsub

/-- The change of publisher sends to one member, or to nobody. -/
theorem sendsTo_changePublisher {site : List ℕ} {b : Bool} (h : JoinSession.ChangeOutcome pkgs ch site js (.ok (b, js'))) :
    Addresses js js' := by
  cases h with
  | failed => exact .of_mute ((Sends.refl js).terminate (fun _ => rfl) ch)
  | changed _ _ _ hp => exact ⟨_, sendsTo_delegated _ (List.Subperm.refl _) hp _ _⟩

/-- The publishers that are asked one after the other are distinct, as each is taken
out before the next. -/
theorem Republishing.addresses {b : Bool} (h : Republishing pkgs ch js b js') :
    ∃ conns, SendsTo conns js js' ∧ conns.Subperm (js.removePeer js.publisher).conns := by
  induction h with
  | done js => exact ⟨[], .refl js, List.nil_subperm⟩
  | @emptied js => exact ⟨[], .of_mute ((Sends.refl js).removePeer (fun _ => rfl) _), List.nil_subperm⟩
  | @failed js =>
    exact ⟨[], .of_mute (((Sends.refl js).removePeer (fun _ => rfl) _).terminate (fun _ => rfl) ch), List.nil_subperm⟩
  | @changed js js' b joinedTx tx pubId publisher _ _ hp _ ih =>
    obtain ⟨conns, hsends, hsub⟩ := ih
    have hremoved : Mute js (js.removePeer js.publisher) := (Sends.refl js).removePeer (fun _ => rfl) _
    obtain ⟨hasked, -⟩ := sendsTo_delegated _ (List.Subperm.refl _) hp tx (js.removePeer js.publisher).roundTimeOut
    have hp' : ((js.removePeer js.publisher).delegated pubId publisher tx
        (js.removePeer js.publisher).roundTimeOut).peers.lookup pubId = some publisher := hp
    have hlater := conns_removePeer hp'
    refine ⟨_, ((SendsTo.of_mute hremoved).trans hasked).trans hsends, ?_⟩
    exact ((List.subperm_cons publisher.conn).mpr hsub).trans hlater.subperm

theorem speaks_timeout (h : timeout pkgs ch js = .ok (d, js')) : Speaks (js.state = .txPublish) js js' := by
  have houtcome := timeout_outcome pkgs ch (mu_of_timeout h)
  rw [h] at houtcome
  have hrepublished : ∀ {b js''}, Republishing pkgs ch ((js.timedOut ch).withMu true) b js'' → Addresses js js'' := by
    intro b js'' hrep
    obtain ⟨conns, hsends, hsub⟩ := hrep.addresses
    have htimed : Kept [] js ((js.timedOut ch).withMu true) := (Kept.refl js).congr rfl rfl rfl
    exact ⟨conns, hsends, hsub.trans (conns_subperm_of_kept (htimed.removePeer _))⟩
  cases houtcome with
  | returned hstate _ hrep => exact .inr ⟨hstate, (hrepublished hrep).congr rfl⟩
  | republished hstate _ hrep hinform =>
    cases hinform with
    | nobody => exact .inr ⟨hstate, (hrepublished hrep).congr rfl⟩
    | dropped _ hkey =>
      have hsame : (JoinSession.withMu _ false).state = .txPublish := hrep.state.trans hstate
      rw [hsame] at hkey
      cases hkey
  | informed _ hinform =>
    have htimed : Mute js (js.timedOut ch) := (Sends.refl js).congr rfl
    cases hinform with
    | nobody => exact .inl htimed
    | dropped => exact .inl (htimed.removePeers (fun _ => rfl) _)

/-- A member whose connection fails is not sent anything any more. -/
theorem speaks_passed {site : List ℕ} {peer : PeerInfo} {b : Bool}
    (h : JoinSession.ChangeOutcome pkgs ch site ((js.removePeer peer.id).withMu true) (.ok (b, js'))) :
    ∃ conns, SendsTo conns js js' ∧ conns.Subperm (js.removePeer peer.id).conns := by
  obtain ⟨conns, hsends, hsub⟩ := sendsTo_changePublisher h
  have hremoved : Mute js ((js.removePeer peer.id).withMu true) := ((Sends.refl js).removePeer (fun _ => rfl) _).congr rfl
  exact ⟨conns, (SendsTo.of_mute hremoved).trans hsends, hsub⟩

/-- Whether the connection is the publisher's while a peer publishes. -/
def Publishes (peer : PeerInfo) (js : JoinSession) : Prop := js.state = .txPublish ∧ js.publisher = peer.id

theorem speaks_readError {peer : PeerInfo} (h : readError pkgs ch peer js = .ok js') :
    Mute js js' ∨ Publishes peer js ∧ ∃ conns, SendsTo conns js js' ∧ conns.Subperm (js.removePeer peer.id).conns := by
  have houtcome := readError_outcome pkgs ch peer (mu_of_readError h)
  rw [h] at houtcome
  cases houtcome with
  | left => exact .inl ((Sends.refl js).removePeer (fun _ => rfl) _)
  | kept => exact .inl (.refl js)
  | emptied => exact .inl ((Sends.refl js).removePeer (fun _ => rfl) _)
  | changed hstate hpub hchange =>
    obtain ⟨conns, hsends, hsub⟩ := speaks_passed hchange
    exact .inr ⟨⟨hstate, hpub.2⟩, conns, hsends.congr rfl, hsub⟩

theorem speaks_writeError {peer : PeerInfo} (h : writeError pkgs ch peer js = .ok js') :
    Mute js js' ∨ Publishes peer js ∧ ∃ conns, SendsTo conns js js' ∧ conns.Subperm (js.removePeer peer.id).conns := by
  have houtcome := writeError_outcome pkgs ch peer (mu_of_writeError h)
  rw [h] at houtcome
  cases houtcome with
  | left => exact .inl ((Sends.refl js).removePeer (fun _ => rfl) _)
  | kept => exact .inl (.refl js)
  | changed hstate hpub hchange =>
    obtain ⟨conns, hsends, hsub⟩ := speaks_passed hchange
    exact .inr ⟨⟨hstate, hpub⟩, conns, hsends.congr rfl, hsub⟩
  | locked hstate hpub hchange => exact .inr ⟨⟨hstate, hpub⟩, speaks_passed hchange⟩

theorem speaks_finish {running : Bool} (h : finish ch d js = .ok (running, js')) :
    Speaks (d.push.isSome = true) js js' := by
  cases hmu : js.mu with
  | true =>
    rw [finish_held ch d hmu] at h
    split_ifs at h
    · cases h
      exact .inl (((Sends.refl js).congr rfl).terminate (fun _ => rfl) ch)
    · cases h
      exact .inl (.refl js)
  | false =>
    rw [finish_free ch d hmu] at h
    split_ifs at h
    cases h
    unfold Done.pushed
    cases d.push with
    | none => exact .inl (.refl js)
    | some ps => exact .inr ⟨rfl, addresses_expelled ch ps js⟩

end Goroutines

/-- Whether an event can have the session send messages. -/
def System.MaySpeak (s : System) (ev : Event) : Prop :=
  match ev with
  | .timeout => s.session.state = .txPublish
  | .deliver _ => ∃ msg, s.handed ev = some msg ∧ Completes s.session msg
  | .rest => ∃ d, s.loop = .rest d ∧ d.push.isSome = true
  | .push _ => True
  | .readError conn | .writeError conn => ∃ peer, s.session.peerOf conn = some peer ∧ Publishes peer s.session
  | .read _ _ | .remove _ => False

/-- A step sends at most one message to each member, when it can send any. -/
theorem speaks_of_stepped {pkgs : Packages} {ch : Choices} {s s' : System} {ev : Event} (h : Stepped pkgs ch s ev s') :
    Speaks (s.MaySpeak ev) s.session s'.session := by
  have hremoved : ∀ peer : PeerInfo, (s.session.removePeer peer.id).conns.Subperm s.session.conns := fun peer =>
    conns_subperm_of_kept ((Kept.refl s.session).removePeer peer.id)
  cases h with
  | timeout _ _ h => exact speaks_timeout h
  | @deliver conn sessionId state msg _ _ _ _ hreader h =>
    refine (speaks_handle h).imp id fun hend => ⟨⟨msg, ?_, hend.1⟩, hend.2⟩
    rw [System.handed, hreader]
  | @rest d running js hloop h => exact (speaks_finish h).imp id fun hpush => ⟨⟨d, hloop, hpush.1⟩, hpush.2⟩
  | read _ _ h => exact .inl ((Sends.refl _).congr (out_readMessage h))
  | push _ h =>
    rw [JoinSession.pushMaliciousInfo_eq ch _ (mu_of_pushMaliciousInfo h)] at h
    cases h
    exact .inr ⟨trivial, addresses_expelled ch _ s.session⟩
  | remove => exact .inl ((Sends.refl _).removePeer (fun _ => rfl) _)
  | @readError conn peer js _ hpeer h =>
    refine (speaks_readError h).imp id ?_
    rintro ⟨hpub, conns, hsends, hsub⟩
    exact ⟨⟨peer, hpeer, hpub⟩, conns, hsends, hsub.trans (hremoved peer)⟩
  | @writeError conn peer js _ hpeer h =>
    refine (speaks_writeError h).imp id ?_
    rintro ⟨hpub, conns, hsends, hsub⟩
    exact ⟨⟨peer, hpeer, hpub⟩, conns, hsends, hsub.trans (hremoved peer)⟩

/-! ### The writers -/

/-- Where a writer is. -/
inductive WriterPc where
  /-- At its select or writing: it takes the next message, sooner or later. -/
  | serving
  /-- Its write has failed, and it waits for the mutex. -/
  | failing
  | returned
  deriving DecidableEq, Repr

/-- A session with its goroutines, and where each writer is. A reader may have failed
before `JoinSession` was set, and taken its peer out of a queue that the session had
already been made from: the peer is a member whose reader has ended. -/
structure Wired where
  system : System
  writers : ℕ → WriterPc
  /-- The connections whose reader ended in the queue. -/
  left : ℕ → Bool

/-- What can happen: a step of the system, a write that fails, and a writer that is
told by its reader, which has ended, that the connection is closed. -/
inductive Action where
  | event (ev : Event)
  | writeFails (conn : ℕ)
  | closed (conn : ℕ)

namespace Wired

def setWriter (w : Wired) (conn : ℕ) (pc : WriterPc) : Wired :=
  { w with writers := Function.update w.writers conn pc }

/-- Whether the reader of an event has ended in the queue. -/
def Idle (w : Wired) : Event → Bool
  | .read conn _ | .readError conn => w.left conn
  | _ => false

/-- One step. Sending takes no step of the receiver: whether it can receive is what is
asked about the step. -/
def step (pkgs : Packages) (ch : Choices) (w : Wired) : Action → Option Wired
  | .event (.writeError conn) =>
    if w.writers conn = .failing then
      (w.system.step pkgs ch (.writeError conn)).map fun s => { w with system := s }.setWriter conn .returned
    else none
  | .event ev => if w.Idle ev then none else (w.system.step pkgs ch ev).map fun s => { w with system := s }
  | .writeFails conn => if w.writers conn = .serving then some (w.setWriter conn .failing) else none
  | .closed conn =>
    match w.system.readers conn, w.left conn, w.writers conn with
    | .returned, _, .serving => some (w.setWriter conn .returned)
    | _, true, .serving => some (w.setWriter conn .returned)
    | _, _, _ => none

def start (js : JoinSession) (left : ℕ → Bool) : Wired := ⟨.start js, fun _ => .serving, left⟩

/-- The states a session can get to from the queue it is made from, when every step
meets a condition. -/
inductive ReachableBy (pkgs : Packages) (meets : Choices → Wired → Action → Prop) : Wired → Prop
  | start (sessionId roundTimeOut : ℕ) (serverPublish : Bool) (queue : List (ℕ × ℕ))
      (hconn : (queue.map Prod.fst).Nodup) (hid : (queue.map Prod.snd).Nodup) (left : ℕ → Bool) :
      ReachableBy pkgs meets (.start (newJoinSession sessionId roundTimeOut serverPublish (queuePeers queue)) left)
  | step {w w' : Wired} {ch : Choices} {a : Action} (hw : ReachableBy pkgs meets w) (hmeets : meets ch w a)
      (h : w.step pkgs ch a = some w') : ReachableBy pkgs meets w'

/-- Every message of a step is for a writer that can receive, and none is for a writer
that has got one in the same step and may by now wait for the mutex. -/
def Received (w w' : Wired) : Prop :=
  (sentTo w.system.session w'.system.session).Nodup ∧
    ∀ conn ∈ sentTo w.system.session w'.system.session, w.writers conn = .serving

end Wired

/-! ### Failures that nobody notices -/

/-- The loop has ended, or is about to, with the result sent, and no reader is going to
restart the session. -/
def System.Over (s : System) : Prop :=
  s.session.state = .completed ∧ (s.loop = .returned ∨ ∃ exit, s.loop = .rest ⟨none, exit⟩ ∧ exit ≠ .next) ∧
    ∀ conn peerId, s.readers conn ≠ .pushing peerId

/-- The peer of the connection stays a member when the connection fails. -/
def Unnoticed (conn : ℕ) (js : JoinSession) : Prop :=
  conn ∈ js.conns ∧
    (js.state = .revealSecret ∨ js.state = .completed ∨
      js.state = .txPublish ∧ ∀ peer, js.peerOf conn = some peer → js.publisher ≠ peer.id)

/-- A writer whose write has failed gets the mutex before anybody who may send, who has
lost its reader in the queue is not a member any more by then, and no member's
connection fails unnoticed before the session is over. -/
def Wired.Attended (_ : Choices) (w : Wired) : Action → Prop
  | .event ev =>
    (w.system.MaySpeak ev → ∀ conn ∈ w.system.session.conns,
      w.left conn = false ∧ (w.writers conn = .failing → ev = .writeError conn)) ∧
      ∀ conn, ev = .readError conn ∨ ev = .writeError conn → Unnoticed conn w.system.session → w.system.Over
  | .writeFails _ | .closed _ => True

/-! ### Once the session is over -/

section Over
variable {pkgs : Packages} {ch : Choices} {s s' : System} {ev : Event}

theorem validIn_completed (kind : Kind) : kind.validIn .completed = false := by cases kind <;> rfl

theorem admission_completed {js : JoinSession} (hstate : js.state = .completed) (kind : Kind) (peerId : ℕ) :
    admission kind peerId js = .refused := by
  rw [admission, hstate, validIn_completed]
  rfl

/-- After the result nothing is sent any more. -/
theorem System.Over.step (hover : s.Over) (h : Stepped pkgs ch s ev s') : s'.Over ∧ ¬s.MaySpeak ev := by
  obtain ⟨hstate, hloop, hpushing⟩ := hover
  have hselect : ∀ timer, s.loop ≠ .select timer := by
    intro timer hselect
    rcases hloop with hreturned | ⟨exit, hrest, -⟩
    · rw [hselect] at hreturned
      cases hreturned
    · rw [hselect] at hrest
      cases hrest
  have hnobody : ∀ {conn}, ¬ ∃ peer, s.session.peerOf conn = some peer ∧ Publishes peer s.session := by
    intro conn hsome
    obtain ⟨peer, -, hpublish, -⟩ := hsome
    rw [hstate] at hpublish
    cases hpublish
  have hreaders : ∀ {conn pc}, (∀ peerId, pc ≠ .pushing peerId) → ∀ c peerId, s.setReader conn pc c ≠ .pushing peerId := by
    intro conn pc hpc c peerId
    simp only [System.setReader, Function.update_apply]
    split_ifs
    · exact hpc peerId
    · exact hpushing c peerId
  cases h with
  | timeout hloop => exact absurd hloop (hselect _)
  | deliver hloop => exact absurd hloop (hselect _)
  | @rest d running js hrest h =>
    obtain ⟨exit, hd, hexit⟩ : ∃ exit, d = ⟨none, exit⟩ ∧ exit ≠ .next := by
      rcases hloop with hreturned | ⟨exit, hrest', hexit⟩
      · rw [hrest] at hreturned
        cases hreturned
      · rw [hrest] at hrest'
        cases hrest'
        exact ⟨exit, rfl, hexit⟩
    subst hd
    have hsame : running = false ∧ js.state = s.session.state := by
      cases hmu : s.session.mu with
      | true =>
        rw [finish_held ch _ hmu] at h
        split_ifs at h
        · cases h
          exact ⟨rfl, rfl⟩
        · cases h
          exact ⟨by simp [hexit], rfl⟩
      | false =>
        rw [finish_free ch _ hmu] at h
        split_ifs at h
        cases h
        exact ⟨by simp [hexit], rfl⟩
    obtain ⟨rfl, hsame⟩ := hsame
    refine ⟨⟨hsame.trans hstate, .inl rfl, hpushing⟩, ?_⟩
    rintro ⟨d, hrest', hpush⟩
    rw [hrest] at hrest'
    cases hrest'
    cases hpush
  | @read conn raw peer pc js hreader hpeer h =>
    refine ⟨?_, id⟩
    have hread : js.state = s.session.state ∧ ∀ peerId, pc ≠ .pushing peerId := by
      rcases mu_of_readMessage h with hmu | ⟨-, hsame⟩
      · have houtcome := readMessage_outcome peer raw hmu
        rw [h] at houtcome
        cases houtcome with
        | ignored => exact ⟨rfl, fun _ h => by cases h⟩
        | unknown => exact ⟨rfl, fun _ h => by cases h⟩
        | refused => exact ⟨rfl, fun _ h => by cases h⟩
        | locked => exact ⟨rfl, fun _ h => by cases h⟩
        | malformed haccepted =>
          rw [admission_completed hstate] at haccepted
          cases haccepted
        | admitted haccepted =>
          rw [admission_completed hstate] at haccepted
          cases haccepted
      · cases hsame
        exact ⟨rfl, fun _ h => by cases h⟩
    exact ⟨hread.1.trans hstate, hloop, hreaders hread.2⟩
  | push hreader => exact absurd hreader (hpushing _ _)
  | remove hreader =>
    exact ⟨⟨(JoinSession.state_removePeer ..).trans hstate, hloop, hreaders fun _ h => by cases h⟩, id⟩
  | @readError conn peer js _ hpeer h =>
    have houtcome := readError_outcome pkgs ch peer (mu_of_readError h)
    rw [h] at houtcome
    refine ⟨?_, hnobody⟩
    cases houtcome with
    | left hkey => rw [hstate] at hkey; cases hkey
    | kept => exact ⟨hstate, hloop, hreaders fun _ h => by cases h⟩
    | emptied hpublish => rw [hstate] at hpublish; cases hpublish
    | changed hpublish => rw [hstate] at hpublish; cases hpublish
  | @writeError conn peer js _ hpeer h =>
    have houtcome := writeError_outcome pkgs ch peer (mu_of_writeError h)
    rw [h] at houtcome
    refine ⟨?_, hnobody⟩
    cases houtcome with
    | left hkey => rw [hstate] at hkey; cases hkey
    | kept => exact ⟨hstate, hloop, hpushing⟩
    | changed hpublish => rw [hstate] at hpublish; cases hpublish
    | locked hpublish => rw [hstate] at hpublish; cases hpublish

end Over

/-! ### Failures that are noticed -/

section Noticed
variable {pkgs : Packages} {ch : Choices} {js js' : JoinSession} {conn : ℕ} {peer : PeerInfo}

/-- The goroutines of a connection find its peer among the members, if it is one. -/
theorem member_of_peerOf (hwf : WellFormed js) (hpeer : js.peerOf conn = some peer) (hmem : conn ∈ js.conns) :
    js.peers.lookup peer.id = some peer ∧ peer.conn = conn := by
  obtain ⟨e, he, hconn⟩ := List.mem_map.mp hmem
  have hfound : ((GoMap.toList js.peers).map Prod.snd).find? (fun peer => peer.conn = conn) = some peer := by
    unfold JoinSession.peerOf at hpeer
    rw [List.find?_append] at hpeer
    cases hfind : ((GoMap.toList js.peers).map Prod.snd).find? (fun peer => peer.conn = conn) with
    | some found =>
      rw [hfind] at hpeer
      exact hpeer
    | none =>
      have hno := List.find?_eq_none.mp hfind e.2 (List.mem_map_of_mem he)
      exact absurd hconn (by simpa using hno)
  obtain ⟨e', he', hsnd⟩ := List.mem_map.mp (List.mem_of_find?_eq_some hfound)
  have hlookup := GoMap.mem_toList.mp (show (e'.1, e'.2) ∈ GoMap.toList js.peers from he')
  rw [hsnd] at hlookup
  refine ⟨?_, by simpa using List.find?_some hfound⟩
  rwa [hwf.keyed _ _ hlookup]

/-- Who is taken out is not sent anything any more. -/
theorem not_mem_conns_removePeer (hwf : WellFormed js) (hnodup : js.conns.Nodup) (hpeer : js.peerOf conn = some peer) :
    conn ∉ (js.removePeer peer.id).conns := by
  by_cases hmem : conn ∈ js.conns
  · obtain ⟨hp, rfl⟩ := member_of_peerOf hwf hpeer hmem
    exact (List.nodup_cons.mp ((conns_removePeer hp).nodup_iff.mpr hnodup)).1
  · intro hstill
    exact hmem ((conns_subperm_of_kept ((Kept.refl js).removePeer peer.id)).subset hstill)

/-- The reader of the publisher does not leave it a member. -/
theorem kept_of_readError (hmu : js.mu = false) (hstate : js.state = .txPublish)
    (hpub : peer.id ∈ js.peers.keys ∧ js.publisher = peer.id) (h : readError pkgs ch peer js = .ok js') :
    Kept [] (js.removePeer peer.id) js' := by
  rw [readError, js.lock_eq hmu, ok_bind, JoinSession.state_withMu, hstate] at h
  change (if peer.id ∈ js.peers.keys ∧ js.publisher = peer.id then
      if GoMap.len ((js.withMu true).removePeer peer.id).peers = 0 then ((js.withMu true).removePeer peer.id).unlock
      else ((js.withMu true).removePeer peer.id).changePublisher pkgs ch [448] >>= fun r => r.2.unlock
    else (js.withMu true).unlock) = .ok js' at h
  rw [if_pos hpub, JoinSession.removePeer_withMu] at h
  have hlocked : Kept [] (js.removePeer peer.id) ((js.removePeer peer.id).withMu true) := (Kept.refl _).congr rfl rfl rfl
  split_ifs at h with hempty
  · obtain ⟨-, rfl⟩ := JoinSession.unlock_eq_ok.mp h
    exact hlocked.congr rfl rfl rfl
  · obtain ⟨⟨b, js''⟩, hchange, h⟩ := bind_eq_ok.mp h
    obtain ⟨-, rfl⟩ := JoinSession.unlock_eq_ok.mp h
    have houtcome := JoinSession.changePublisher_outcome pkgs ch [448] ((js.removePeer peer.id).withMu true)
    rw [hchange] at houtcome
    exact (houtcome.kept hlocked).congr rfl rfl rfl

theorem not_mem_conns_readError (hwf : WellFormed js) (hnodup : js.conns.Nodup) (hpeer : js.peerOf conn = some peer)
    (hnoticed : ¬Unnoticed conn js) (h : readError pkgs ch peer js = .ok js') : conn ∉ js'.conns := by
  have hgone := not_mem_conns_removePeer hwf hnodup hpeer
  have hafter : Kept [] (js.removePeer peer.id) js' → conn ∉ js'.conns := fun hkept hmem =>
    hgone ((conns_perm_of_kept hkept).subset hmem)
  have houtcome := readError_outcome pkgs ch peer (mu_of_readError h)
  have hmu := mu_of_readError h
  by_cases hpub : js.state = .txPublish ∧ peer.id ∈ js.peers.keys ∧ js.publisher = peer.id
  · exact hafter (kept_of_readError hmu hpub.1 hpub.2 h)
  rw [h] at houtcome
  cases houtcome with
  | left => exact hgone
  | emptied => exact hgone
  | changed hstate hpublisher => exact absurd ⟨hstate, hpublisher⟩ hpub
  | kept hkey hstranger =>
    intro hmem
    obtain ⟨hp, -⟩ := member_of_peerOf hwf hpeer hmem
    have hkeys := GoMap.mem_keys_of_lookup hp
    refine hnoticed ⟨hmem, ?_⟩
    cases hstate : js.state with
    | keyExchange => exact absurd hstate hkey
    | dcExponential => exact absurd hkeys (hstranger (by rw [hstate]; rfl))
    | dcXor => exact absurd hkeys (hstranger (by rw [hstate]; rfl))
    | txInput => exact absurd hkeys (hstranger (by rw [hstate]; rfl))
    | txSign => exact absurd hkeys (hstranger (by rw [hstate]; rfl))
    | revealSecret => exact .inl rfl
    | completed => exact .inr (.inl rfl)
    | txPublish =>
      refine .inr (.inr ⟨rfl, fun other hother hsame => hpub ⟨hstate, hkeys, ?_⟩⟩)
      cases hpeer.symm.trans hother
      exact hsame

theorem not_mem_conns_writeError (hwf : WellFormed js) (hnodup : js.conns.Nodup) (hpeer : js.peerOf conn = some peer)
    (hnoticed : ¬Unnoticed conn js) (h : writeError pkgs ch peer js = .ok js') : conn ∉ js'.conns := by
  have hgone := not_mem_conns_removePeer hwf hnodup hpeer
  have hlocked : Kept [] (js.removePeer peer.id) ((js.removePeer peer.id).withMu true) := (Kept.refl _).congr rfl rfl rfl
  have hafter : Kept [] (js.removePeer peer.id) js' → conn ∉ js'.conns := fun hkept hmem =>
    hgone ((conns_perm_of_kept hkept).subset hmem)
  have houtcome := writeError_outcome pkgs ch peer (mu_of_writeError h)
  rw [h] at houtcome
  cases houtcome with
  | left => exact hgone
  | changed _ _ hchange => exact hafter ((hchange.kept hlocked).congr rfl rfl rfl)
  | locked _ _ hchange => exact hafter (hchange.kept hlocked)
  | kept hkey hround hpub =>
    intro hmem
    refine hnoticed ⟨hmem, ?_⟩
    cases hstate : js.state with
    | keyExchange => exact absurd hstate hkey
    | dcExponential => rw [hstate] at hround; cases hround
    | dcXor => rw [hstate] at hround; cases hround
    | txInput => rw [hstate] at hround; cases hround
    | txSign => rw [hstate] at hround; cases hround
    | revealSecret => exact .inl rfl
    | completed => exact .inr (.inl rfl)
    | txPublish =>
      refine .inr (.inr ⟨rfl, fun other hother => ?_⟩)
      cases hpeer.symm.trans hother
      exact hpub hstate

end Noticed

/-! ### Members have both goroutines -/

/-- No connection is lost to the session before it is over: both goroutines of every
member are there, unless the reader ended in the queue. -/
def Wired.Served (w : Wired) : Prop :=
  w.system.session.conns.Nodup ∧
    (w.system.Over ∨ ∀ conn ∈ w.system.session.conns, w.left conn = false →
      w.writers conn ≠ .returned ∧ w.system.readers conn ≠ .returned)

section Members
variable {pkgs : Packages} {ch : Choices} {s s' : System} {ev : Event} {w w' : Wired} {a : Action} {conn : ℕ}

/-- A reader ends by a read that fails. -/
theorem returned_of_stepped (h : Stepped pkgs ch s ev s') (hreturned : s'.readers conn = .returned) :
    s.readers conn = .returned ∨ ev = .readError conn := by
  have hreader : ∀ {c pc}, pc ≠ .returned → s.setReader c pc conn = .returned → s.readers conn = .returned := by
    intro c pc hpc hset
    simp only [System.setReader, Function.update_apply] at hset
    split_ifs at hset with hc
    · exact absurd hset hpc
    · exact hset
  cases h with
  | timeout => exact .inl hreturned
  | deliver => exact .inl (hreader (fun h => by cases h) hreturned)
  | rest => exact .inl hreturned
  | @read c raw peer pc js _ _ h =>
    refine .inl (hreader ?_ hreturned)
    rcases mu_of_readMessage h with hmu | ⟨-, hsame⟩
    · have houtcome := readMessage_outcome peer raw hmu
      rw [h] at houtcome
      cases houtcome with
      | ignored => exact fun h => by cases h
      | unknown => exact fun h => by cases h
      | refused => exact fun h => by cases h
      | locked => exact fun h => by cases h
      | @malformed kind => cases kind <;> exact fun h => by cases h
      | admitted => exact fun h => by cases h
    · cases hsame
      exact fun h => by cases h
  | push => exact .inl (hreader (fun h => by cases h) hreturned)
  | remove => exact .inl (hreader (fun h => by cases h) hreturned)
  | @readError c =>
    by_cases hc : conn = c
    · exact .inr (congrArg Event.readError hc.symm)
    · exact .inl (by simpa [System.setReader, Function.update_of_ne hc] using hreturned)
  | writeError => exact .inl hreturned

/-- What a step is: one of the system, which takes a writer along when it is the end of
one, or one of a writer alone. -/
inductive Wired.Moved (pkgs : Packages) (ch : Choices) (w : Wired) : Action → Wired → Prop
  | event {ev : Event} {s' : System} (hev : ∀ conn, ev ≠ .writeError conn) (hidle : w.Idle ev = false)
      (h : w.system.step pkgs ch ev = some s') :
      Moved pkgs ch w (.event ev) { w with system := s' }
  | writeError {conn : ℕ} {s' : System} (hfailing : w.writers conn = .failing)
      (h : w.system.step pkgs ch (.writeError conn) = some s') :
      Moved pkgs ch w (.event (.writeError conn)) ({ w with system := s' }.setWriter conn .returned)
  | writeFails {conn : ℕ} (hserving : w.writers conn = .serving) :
      Moved pkgs ch w (.writeFails conn) (w.setWriter conn .failing)
  | closed {conn : ℕ} (hreader : w.left conn = false → w.system.readers conn = .returned) :
      Moved pkgs ch w (.closed conn) (w.setWriter conn .returned)

theorem Wired.moved_of_step (h : w.step pkgs ch a = some w') : w.Moved pkgs ch a w' := by
  have hevent : ∀ {ev}, (∀ conn, ev ≠ .writeError conn) →
      (if w.Idle ev then none else (w.system.step pkgs ch ev).map fun s => { w with system := s }) = some w' →
      w.Moved pkgs ch (.event ev) w' := by
    intro ev hev hmap
    split_ifs at hmap with hidle
    obtain ⟨s', hstep, rfl⟩ := Option.map_eq_some_iff.mp hmap
    exact .event hev (by simpa using hidle) hstep
  cases a with
  | event ev =>
    cases ev with
    | writeError conn =>
      simp only [Wired.step] at h
      split_ifs at h with hfailing
      obtain ⟨s', hstep, rfl⟩ := Option.map_eq_some_iff.mp h
      exact .writeError hfailing hstep
    | timeout => exact hevent (fun _ h => by cases h) h
    | deliver conn => exact hevent (fun _ h => by cases h) h
    | rest => exact hevent (fun _ h => by cases h) h
    | read conn raw => exact hevent (fun _ h => by cases h) h
    | push conn => exact hevent (fun _ h => by cases h) h
    | remove conn => exact hevent (fun _ h => by cases h) h
    | readError conn => exact hevent (fun _ h => by cases h) h
  | writeFails conn =>
    simp only [Wired.step] at h
    split_ifs at h with hserving
    cases h
    exact .writeFails hserving
  | closed conn =>
    simp only [Wired.step] at h
    split at h
    · have hreader : w.system.readers conn = .returned := by assumption
      cases h
      exact .closed fun _ => hreader
    · have hleft : w.left conn = true := by assumption
      cases h
      exact .closed fun hstayed => absurd (hleft.symm.trans hstayed) Bool.true_eq_false.mp
    · cases h

/-- The next step of a run that is given action by action. -/
theorem Wired.ReachableBy.onward {meets : Choices → Wired → Action → Prop} (hw : Wired.ReachableBy pkgs meets w)
    (ch : Choices) (a : Action) (hmeets : meets ch w a) (h : w.step pkgs ch a = some w') :
    Wired.ReachableBy pkgs meets w' := hw.step hmeets h

/-- A run, given by its actions and what is chosen at each. -/
def Wired.run (pkgs : Packages) (w : Wired) : List (Choices × Action) → Option Wired
  | [] => some w
  | (ch, a) :: rest => (w.step pkgs ch a).bind fun w' => run pkgs w' rest

/-- A step, and the condition on it, as a run takes them. -/
def Wired.move (pkgs : Packages) (w : Wired) (e : Choices × Action) : Option Wired := w.step pkgs e.1 e.2

def Wired.Heeds (w : Wired) (e : Choices × Action) : Prop := w.Attended e.1 e.2

theorem Wired.ReachableBy.runsTo (hw : Wired.ReachableBy pkgs Wired.Attended w)
    (hrun : RunsTo (Wired.move pkgs) Wired.Heeds w w') : Wired.ReachableBy pkgs Wired.Attended w' := by
  induction hrun with
  | start => exact hw
  | step _ _ hmeets h ih => exact ih.step hmeets h

theorem Wired.ReachableBy.run (hw : Wired.ReachableBy pkgs (fun _ _ _ => True) w) {l : List (Choices × Action)}
    (h : w.run pkgs l = some w') : Wired.ReachableBy pkgs (fun _ _ _ => True) w' := by
  induction l generalizing w with
  | nil =>
    cases h
    exact hw
  | cons e l ih =>
    obtain ⟨w₁, hstep, hrun⟩ := Option.bind_eq_some_iff.mp h
    exact ih (hw.step trivial hstep) hrun

/-- A run that is evaluated reaches a state. -/
theorem Wired.ReachableBy.of_any (hw : Wired.ReachableBy pkgs (fun _ _ _ => True) w) {l : List (Choices × Action)}
    {p : Wired → Bool} (h : (w.run pkgs l).any p = true) :
    ∃ w', Wired.ReachableBy pkgs (fun _ _ _ => True) w' ∧ p w' = true := by
  cases hrun : w.run pkgs l with
  | none =>
    rw [hrun] at h
    cases h
  | some w' =>
    rw [hrun] at h
    exact ⟨w', hw.run hrun, h⟩

theorem Wired.ReachableBy.reachable {meets : Choices → Wired → Action → Prop} (hw : Wired.ReachableBy pkgs meets w) :
    Reachable pkgs w.system := by
  induction hw with
  | start sessionId roundTimeOut serverPublish queue hconn hid left =>
    exact .start sessionId roundTimeOut serverPublish queue hconn hid
  | step _ _ h ih =>
    cases Wired.moved_of_step h with
    | event _ _ hstep => exact ih.step hstep
    | writeError _ hstep => exact ih.step hstep
    | writeFails => exact ih
    | closed => exact ih

theorem System.Over.stepped {ev : Event} (hover : s.Over) (h : s.step pkgs ch ev = some s') : s'.Over ∧ ¬s.MaySpeak ev :=
  hover.step (stepped_of_step h)

/-- Who is a member after a step was one before, and its connection has not just
failed. -/
theorem not_failed_of_mem (hwf : WellFormed s.session) (hnodup : s.session.conns.Nodup)
    (hnoticed : ∀ conn, ev = .readError conn ∨ ev = .writeError conn → ¬Unnoticed conn s.session)
    (h : Stepped pkgs ch s ev s') (hmem : conn ∈ s'.session.conns) :
    conn ∈ s.session.conns ∧ ev ≠ .readError conn ∧ ev ≠ .writeError conn := by
  refine ⟨(conns_subperm_of_effect (effect_of_stepped h)).subset hmem, ?_, ?_⟩
  · rintro rfl
    cases h with
    | readError _ hpeer h => exact not_mem_conns_readError hwf hnodup hpeer (hnoticed conn (.inl rfl)) h hmem
  · rintro rfl
    cases h with
    | writeError _ hpeer h => exact not_mem_conns_writeError hwf hnodup hpeer (hnoticed conn (.inr rfl)) h hmem

theorem Wired.Served.step (hserved : w.Served) (hwf : WellFormed w.system.session) (hmeets : Wired.Attended ch w a)
    (h : w.step pkgs ch a = some w') : w'.Served := by
  obtain ⟨hnodup, hthere⟩ := hserved
  have hsystem : ∀ {ev s'}, a = .event ev → w.system.step pkgs ch ev = some s' →
      s'.session.conns.Nodup ∧ (s'.Over ∨ ∀ conn ∈ s'.session.conns, w.left conn = false → ev ≠ .writeError conn ∧
        w.writers conn ≠ .returned ∧ s'.readers conn ≠ .returned) := by
    rintro ev s' rfl hstep
    have hstepped := stepped_of_step hstep
    obtain ⟨conns, hperm, hsub⟩ := conns_subperm_of_effect (effect_of_stepped hstepped)
    refine ⟨hperm.nodup_iff.mp (hsub.nodup hnodup), ?_⟩
    by_cases hover : w.system.Over
    · exact .inl (hover.stepped hstep).1
    · refine .inr fun conn hmem hstayed => ?_
      obtain ⟨hbefore, hread, hwrite⟩ := not_failed_of_mem hwf hnodup
        (fun c hc hunnoticed => hover (hmeets.2 c hc hunnoticed)) hstepped hmem
      obtain ⟨hwriter, hreader⟩ := hthere.resolve_left hover conn hbefore hstayed
      exact ⟨hwrite, hwriter, fun hreturned => (returned_of_stepped hstepped hreturned).elim hreader hread⟩
  cases Wired.moved_of_step h with
  | event _ _ hstep =>
    obtain ⟨hnodup', hthere'⟩ := hsystem rfl hstep
    exact ⟨hnodup', hthere'.imp id fun hthere' conn hmem hstayed => (hthere' conn hmem hstayed).2⟩
  | @writeError c s' _ hstep =>
    obtain ⟨hnodup', hthere'⟩ := hsystem rfl hstep
    refine ⟨hnodup', hthere'.imp id fun hthere' conn hmem hstayed => ?_⟩
    obtain ⟨hne, hwriter, hreader⟩ := hthere' conn hmem hstayed
    have hother : conn ≠ c := fun hc => hne (congrArg Event.writeError hc.symm)
    exact ⟨by simpa [Wired.setWriter, Function.update_of_ne hother] using hwriter, hreader⟩
  | @writeFails c hserving =>
    refine ⟨hnodup, hthere.imp id fun hthere conn hmem hstayed => ⟨?_, (hthere conn hmem hstayed).2⟩⟩
    simp only [Wired.setWriter, Function.update_apply]
    split_ifs
    · exact fun h => by cases h
    · exact (hthere conn hmem hstayed).1
  | @closed c hreader =>
    refine ⟨hnodup, hthere.imp id fun hthere conn hmem hstayed => ⟨?_, (hthere conn hmem hstayed).2⟩⟩
    have hother : conn ≠ c := by
      rintro rfl
      exact (hthere conn hmem hstayed).2 (hreader hstayed)
    simpa [Wired.setWriter, Function.update_of_ne hother] using (hthere conn hmem hstayed).1

theorem conns_newJoinSession (sessionId roundTimeOut : ℕ) (serverPublish : Bool) (queue : List (ℕ × ℕ)) :
    (newJoinSession sessionId roundTimeOut serverPublish (queuePeers queue)).conns.Subperm (queue.map Prod.fst) := by
  have hconns := subperm_map (fun e => e.2.conn)
    (GoMap.toList_ofList_subperm (queue.map fun e => (e.2, newPeer e.1 e.2)))
  rw [List.map_map] at hconns
  unfold JoinSession.conns newJoinSession
  rw [GoMap.toList_mapVal, List.map_map]
  exact hconns

theorem Wired.ReachableBy.served (hw : Wired.ReachableBy pkgs Wired.Attended w) : w.Served := by
  induction hw with
  | start sessionId roundTimeOut serverPublish queue hconn hid left =>
    obtain ⟨conns, hperm, hsub⟩ := conns_newJoinSession sessionId roundTimeOut serverPublish queue
    have hrunning : WriterPc.serving ≠ .returned ∧ ReaderPc.reading ≠ .returned :=
      ⟨(by decide), fun hreturned => by cases hreturned⟩
    exact ⟨hperm.nodup_iff.mp (hsub.nodup hconn), .inr fun _ _ _ => hrunning⟩
  | step hw hmeets h ih => exact ih.step hw.reachable.wellFormed hmeets h

/-- Nothing is sent to a peer whose writer ends. -/
theorem not_sent_writeError (hwf : WellFormed s.session) (hnodup : s.session.conns.Nodup)
    (h : Stepped pkgs ch s (.writeError conn) s') : conn ∉ sentTo s.session s'.session := by
  cases h with
  | @writeError _ peer js _ hpeer h =>
    rcases speaks_writeError h with hmute | ⟨-, conns, hsends, hsub⟩
    · rw [(SendsTo.of_mute hmute).sentTo_eq]
      exact List.not_mem_nil
    · rw [hsends.sentTo_eq]
      exact fun hmem => not_mem_conns_removePeer hwf hnodup hpeer (hsub.subset hmem)

theorem sentTo_refl (js : JoinSession) : sentTo js js = [] := (SendsTo.refl js).sentTo_eq

theorem Wired.ReachableBy.received (hw : Wired.ReachableBy pkgs Wired.Attended w) (hmeets : Wired.Attended ch w a)
    (h : w.step pkgs ch a = some w') : w.Received w' := by
  obtain ⟨hnodup, hthere⟩ := hw.served
  have hsystem : ∀ {ev s'}, a = .event ev → w.system.step pkgs ch ev = some s' →
      (sentTo w.system.session s'.session).Nodup ∧
        ∀ conn ∈ sentTo w.system.session s'.session, w.writers conn = .serving := by
    rintro ev s' rfl hstep
    have hstepped := stepped_of_step hstep
    have hspeaks := speaks_of_stepped hstepped
    by_cases hmay : w.system.MaySpeak ev
    · obtain ⟨conns, hsends, hsub⟩ := hspeaks.addresses
      rw [hsends.sentTo_eq]
      refine ⟨?_, fun conn hconn => ?_⟩
      · obtain ⟨conns', hperm, hsub⟩ := hsub
        exact hperm.nodup_iff.mp (hsub.nodup hnodup)
      · have hmem := hsub.subset hconn
        obtain ⟨hstayed, hfails⟩ := hmeets.1 hmay conn hmem
        have hwriter := (hthere.resolve_left fun hover => (hover.stepped hstep).2 hmay) conn hmem hstayed
        cases hpc : w.writers conn with
        | serving => rfl
        | returned => exact absurd hpc hwriter.1
        | failing =>
          have hfails := hfails hpc
          subst hfails
          exact absurd hconn (hsends.sentTo_eq ▸ not_sent_writeError hw.reachable.wellFormed hnodup hstepped)
    · rw [hspeaks.sentTo_eq_nil hmay]
      exact ⟨List.nodup_nil, fun _ h => by cases h⟩
  have hnone : (sentTo w.system.session w.system.session).Nodup ∧
      ∀ conn ∈ sentTo w.system.session w.system.session, w.writers conn = .serving := by
    rw [sentTo_refl]
    exact ⟨List.nodup_nil, fun _ h => by cases h⟩
  cases Wired.moved_of_step h with
  | event _ _ hstep => exact hsystem rfl hstep
  | writeError _ hstep => exact hsystem rfl hstep
  | writeFails => exact hnone
  | closed => exact hnone

/-- **No message waits for a writer that is gone**: as long as a writer whose write has
failed gets the mutex before anybody sends, nobody who lost its reader in the queue is
still a member then, and no member's connection fails in a round that keeps it a member,
every message is for a writer that can receive it. -/
theorem broadcasts_received (hw : Wired.ReachableBy pkgs Wired.Attended w) (hmeets : Wired.Attended ch w a)
    (h : w.step pkgs ch a = some w') : w.Received w' := hw.received hmeets h

end Members

/-- No connection fails in the step, and every member has its reader and a writer that
has not failed. -/
def Wired.quiet (w : Wired) (e : Choices × Action) : Bool :=
  match e.2 with
  | .event (.readError _) | .event (.writeError _) => false
  | .event _ => (GoMap.toList w.system.session.peers).all fun e => !w.left e.2.conn && w.writers e.2.conn ≠ .failing
  | _ => true

theorem Wired.attended_of_quiet {ch : Choices} {w : Wired} {a : Action} (h : w.quiet (ch, a) = true) :
    w.Attended ch a := by
  cases a with
  | event ev =>
    refine ⟨fun _ conn hmem => ?_, ?_⟩
    · have hall : ((GoMap.toList w.system.session.peers).all fun e =>
          !w.left e.2.conn && w.writers e.2.conn ≠ .failing) = true := by
        cases ev <;> first | exact h | cases h
      obtain ⟨e, he, rfl⟩ := List.mem_map.mp hmem
      have hmember := List.all_eq_true.mp hall e he
      simp only [Bool.and_eq_true, Bool.not_eq_true', decide_eq_true_eq] at hmember
      exact ⟨hmember.1, fun hfailing => absurd hfailing hmember.2⟩
    · rintro conn (rfl | rfl) <;> cases h
  | writeFails => trivial
  | closed => trivial

/-- The last of two peers has announced its key, and both get the list. -/
theorem broadcasts_received_two : ∃ w w' : Wired, sentTo w.system.session w'.system.session = [2, 1] ∧
    w.Received w' := by
  have hstart : Wired.ReachableBy plainPackages Wired.Attended _ :=
    .start 7 60 false [(1, 1), (2, 2)] (by decide) (by decide) fun _ => false
  have hread₁ := hstart.onward (plainChoices id) (.event (.read 1 (.message (.keyExchange ⟨0, [5], 1⟩))))
    (Wired.attended_of_quiet rfl) rfl
  have hdeliver₁ := hread₁.onward (plainChoices id) (.event (.deliver 1)) (Wired.attended_of_quiet rfl) rfl
  have hrest := hdeliver₁.onward (plainChoices id) (.event .rest) (Wired.attended_of_quiet rfl) rfl
  have hread₂ := hrest.onward (plainChoices id) (.event (.read 2 (.message (.keyExchange ⟨0, [6], 1⟩))))
    (Wired.attended_of_quiet rfl) rfl
  exact ⟨_, _, rfl, @broadcasts_received plainPackages (plainChoices id) _ _ (.event (.deliver 2)) hread₂
    (Wired.attended_of_quiet rfl) rfl⟩

/-- The inverses of -1 and -2. -/
def smallInverses : Flint.Library where
  invmod a p := if a = -1 then -1 else (p - 1) / 2
  factorKaltofenShoup _ _ := []

/-- flint on the power sums 14 and 116, those of 4 and 10. A linear factor is the
polynomial of a single root. -/
def twoRoots : Flint.Library :=
  { smallInverses with factorKaltofenShoup := fun p _ => [4, 10].map fun r => (Flint.buildPoly smallInverses p [r] 1, 1) }

/-- A vector of small numbers. -/
def smallVector (entries : Bytes) : DcVector :=
  ⟨0, entries.length, entries.flatMap fun entry => List.replicate 15 0 ++ [entry], []⟩

/-- **A departed member stops the session**: a message is not found, and while the
secrets are asked for the second of two peers leaves. The first one's answer cannot be
read, which restarts the session, and the news is for the writer that has ended. -/
theorem departed_blocks_restart : ∃ pkgs ch w a w', Wired.ReachableBy pkgs (fun _ _ _ => True) w ∧
    w.step pkgs ch a = some w' ∧ sentTo w.system.session w'.system.session = [2] ∧ w.writers 2 = .returned ∧
    ¬w.Received w' := by
  let actions : List Action := [.event (.read 1 (.message (.keyExchange ⟨0, [5], 1⟩))), .event (.deliver 1), .event .rest,
    .event (.read 2 (.message (.keyExchange ⟨0, [6], 1⟩))), .event (.deliver 2), .event .rest,
    .event (.read 1 (.message (.dcExpVector (smallVector [10, 100])))), .event (.deliver 1), .event .rest,
    .event (.read 2 (.message (.dcExpVector (smallVector [4, 16])))), .event (.deliver 2), .event .rest,
    .event (.read 1 (.message (.msgNotFound ⟨0⟩))), .event (.deliver 1), .event .rest,
    .event (.readError 2), .closed 2, .event (.read 1 (.malformed .revealSecret))]
  let pkgs := referencePackages twoRoots (fun _ => none) fun _ => none
  have hstart : Wired.ReachableBy pkgs (fun _ _ _ => True) _ :=
    .start 7 60 false [(1, 1), (2, 2)] (by decide) (by decide) fun _ => false
  have hrun : ((Wired.start (newJoinSession 7 60 false (queuePeers [(1, 1), (2, 2)])) fun _ => false).run pkgs
      (actions.map fun a => (plainChoices id, a))).bind (fun w => (w.step pkgs (plainChoices id) (.event (.push 1))).map
        fun w' => (sentTo w.system.session w'.system.session, w.writers 2)) = some ([2], .returned) := by decide +kernel
  obtain ⟨w, hw, hrun⟩ := Option.bind_eq_some_iff.mp hrun
  obtain ⟨w', hstep, hsent⟩ := Option.map_eq_some_iff.mp hrun
  obtain ⟨hsent, hgone⟩ := Prod.mk.inj hsent
  refine ⟨pkgs, plainChoices id, w, _, w', hstart.run hw, hstep, hsent, hgone, fun hreceived => ?_⟩
  have hserving := hreceived.2 2 (by rw [hsent]; exact List.mem_singleton_self 2)
  rw [hgone] at hserving
  cases hserving

end Dcrtxmatcher.Coinjoin
