import Dcrtxmatcher.Coinjoin.Joining
import Dcrtxmatcher.Coinjoin.Writers

/-! Members and former members.

Whoever leaves the map of the members stays known as a former member, so that the two
together are always the connections that the session was made with. -/
namespace Dcrtxmatcher.Coinjoin
open Lib

/-- The connections of the members and of the former members. -/
def JoinSession.everyone (js : JoinSession) : List ℕ := js.conns ++ js.former.map (·.conn)

/-- Nobody is lost and nobody comes in. -/
def Conserves (js js' : JoinSession) : Prop := js'.everyone.Perm js.everyone

/-! ### Restarting -/

theorem mem_keys_newPeers {peers : List PeerInfo} {p : ℕ} :
    p ∈ (JoinSession.newPeers peers).keys ↔ peers.any (fun peer => peer.id = p) = true := by
  induction peers with
  | nil => simp [JoinSession.newPeers, GoMap.ofList]
  | cons peer rest ih =>
    rw [GoMap.mem_keys_iff] at ih ⊢
    rw [JoinSession.newPeers, List.map_cons, GoMap.lookup_ofList_cons, List.any_cons, Bool.or_eq_true, ← ih,
      Option.isSome_or, Bool.or_eq_true]
    by_cases hp : p = peer.id
    · simp [hp]
    · simp [hp, Ne.symm hp, JoinSession.newPeers]

/-- The renewed peers are in the map, or replaced in it. -/
theorem conns_newPeers (peers : List PeerInfo) :
    ((GoMap.toList (JoinSession.newPeers peers)).map (fun e => e.2.conn) ++
      (JoinSession.replaced peers).map (·.conn)).Perm (peers.map (·.conn)) := by
  induction peers with
  | nil => exact .refl _
  | cons peer rest ih =>
    have hlookup : ∀ p, (JoinSession.newPeers (peer :: rest)).lookup p =
        ((JoinSession.newPeers rest).lookup p).or (if p = peer.id then some peer else none) := fun p =>
      GoMap.lookup_ofList_cons _ _ p
    rw [JoinSession.replaced, List.map_cons]
    by_cases hlater : peer.id ∈ (JoinSession.newPeers rest).keys
    · have hsame : ((GoMap.toList (JoinSession.newPeers (peer :: rest))).map fun e => e.2.conn).Perm
          ((GoMap.toList (JoinSession.newPeers rest)).map fun e => e.2.conn) := by
        refine GoMap.map_toList_perm fun p => ?_
        rw [hlookup]
        by_cases hp : p = peer.id
        · obtain ⟨later, hp'⟩ := GoMap.lookup_of_mem_keys hlater
          rw [hp, hp', Option.some_or]
        · rw [if_neg hp, Option.or_none]
      rw [if_pos (mem_keys_newPeers.mp hlater), List.map_cons]
      exact (hsame.append_right _).trans (List.perm_middle.trans (ih.cons _))
    · have hadded : ((GoMap.toList (JoinSession.newPeers (peer :: rest))).map fun e => e.2.conn).Perm
          (peer.conn :: (GoMap.toList (JoinSession.newPeers rest)).map fun e => e.2.conn) := by
        refine List.Perm.trans (GoMap.map_toList_perm fun p => ?_) ((GoMap.toList_insert hlater peer).map _)
        rw [hlookup, GoMap.lookup_insert_eq]
        by_cases hp : p = peer.id
        · have hnone : (JoinSession.newPeers rest).lookup peer.id = none := AList.lookup_eq_none.mpr hlater
          rw [if_pos hp, if_pos hp, hp, hnone]
          rfl
        · rw [if_neg hp, if_neg hp, Option.or_none]
      rw [if_neg (mt mem_keys_newPeers.mpr hlater)]
      exact (hadded.append_right _).trans (ih.cons _)

namespace Conserves
variable {js js' js'' : JoinSession}

theorem refl (js : JoinSession) : Conserves js js := List.Perm.refl _

theorem trans (h : Conserves js js') (h' : Conserves js' js'') : Conserves js js'' := List.Perm.trans h' h

/-- Nothing else of a session matters. -/
theorem congr (h : Conserves js js') (hpeers : js''.peers = js'.peers) (hformer : js''.former = js'.former) :
    Conserves js js'' := by
  have hsame : js''.everyone = js'.everyone := by
    rw [JoinSession.everyone, JoinSession.everyone, JoinSession.conns, JoinSession.conns, hpeers, hformer]
  unfold Conserves
  rw [hsame]
  exact h

/-- What is stored with a peer leaves its connection. -/
theorem setPeer (h : Conserves js js') (p : ℕ) {g : PeerInfo → PeerInfo} (hg : ∀ peer, (g peer).conn = peer.conn) :
    Conserves js (js'.setPeer p g) := by
  have hsame : (js'.setPeer p g).everyone = js'.everyone := by
    rw [JoinSession.everyone, JoinSession.everyone, JoinSession.conns, JoinSession.conns, JoinSession.setPeer,
      GoMap.toList_modify, List.map_map]
    congr 2
    funext e
    by_cases he : e.1 = p
    · simp [he, hg]
    · simp [he]
  unfold Conserves
  rw [hsame]
  exact h

/-- Who is removed goes over to the former members. -/
theorem removePeer (h : Conserves js js') (p : ℕ) : Conserves js (js'.removePeer p) := by
  cases hp : js'.peers.lookup p with
  | none =>
    rw [JoinSession.removePeer, hp]
    exact h
  | some peer =>
    have hformer : (js'.removePeer p).former = js'.former ++ [peer] := by rw [JoinSession.removePeer, hp]
    refine List.Perm.trans ?_ h
    rw [JoinSession.everyone, hformer, List.map_append, ← List.append_assoc]
    exact (List.perm_append_singleton ..).trans ((conns_removePeer hp).append_right _)

theorem removePeers (h : Conserves js js') (ps : List ℕ) : Conserves js (js'.removePeers ps) := by
  unfold JoinSession.removePeers
  induction ps generalizing js' with
  | nil => exact h
  | cons p ps ih => exact ih (h.removePeer p)

/-- Two renewed peers with one id: the map keeps the later, and the other is a former member. -/
theorem expelled (ch : Choices) (ps : List ℕ) (js : JoinSession) : Conserves js (js.expelled ch ps) := by
  have hremoved := (refl js).removePeers ps
  unfold JoinSession.expelled
  split_ifs
  · exact hremoved
  · refine hremoved.trans ?_
    generalize js.removePeers ps = js
    have hrenewed := (conns_newPeers (js.renewed ch)).trans (conns_renewed ch js)
    rw [Conserves, JoinSession.everyone, JoinSession.everyone, JoinSession.restart, List.map_append, ← List.append_assoc,
      List.append_assoc]
    refine (List.perm_append_comm.append_left _).trans ?_
    rw [← List.append_assoc]
    exact hrenewed.append_right _

theorem withMu (h : Conserves js js') (b : Bool) : Conserves js (js'.withMu b) := h.congr rfl rfl

theorem of_locked {b : Bool} (h : Conserves (js.withMu b) js') : Conserves js js' := h

/-- The members are kept, and nobody has left. -/
theorem of_kept (hkept : Kept [] js js') (hformer : js'.former = js.former) : Conserves js js' := by
  rw [Conserves, JoinSession.everyone, JoinSession.everyone, hformer]
  exact (conns_perm_of_kept hkept).append_right _

/-! ### The steps -/

section Handlers
variable {pkgs : Packages} {ch : Choices} {d : Done}

theorem of_keyExchange {req : KeyExchangeReq} (h : KeyExchangeOutcome pkgs ch req js (.ok (d, js'))) : Conserves js js' := by
  have hset : Conserves js (js.setPeer req.peerId fun peer => { peer with pk := req.pk, numMsg := req.numMsg }) :=
    (refl js).setPeer req.peerId fun _ => rfl
  have hannounced : ∀ peer, Conserves js (announce req peer js) := fun peer => hset.congr rfl rfl
  cases h with
  | stranger => exact refl js
  | invalid => exact (refl js).removePeer _
  | waiting => exact hannounced _
  | unmarshalled => exact (hannounced _).removePeer _
  | @complete peer => exact (hannounced peer).congr rfl rfl

theorem former_storeInputs (txins : TxInputs) (tx : MsgTx) (js : JoinSession) :
    (storeInputs txins tx js).former = js.former := by
  unfold storeInputs
  split <;> rfl

theorem former_txInputs {txins : TxInputs} (h : TxInputsOutcome pkgs ch txins js (.ok (d, js'))) : js'.former = js.former := by
  cases h with
  | stranger => rfl
  | unpriced => rfl
  | undecodable => rfl
  | overspent => exact former_storeInputs ..
  | waiting => exact former_storeInputs ..
  | joined _ _ _ _ _ _ hjoined =>
    cases hjoined with
    | failed hbuild =>
      obtain ⟨_, _, _, -, -, rfl⟩ := buildJoinedTx_eq_ok hbuild
      exact former_storeInputs ..
    | sent hbuild =>
      obtain ⟨_, _, _, -, -, rfl⟩ := buildJoinedTx_eq_ok hbuild
      exact former_storeInputs ..

theorem former_txSigned {signedTx : JoinTx} (h : TxSignedOutcome pkgs ch signedTx js (.ok (d, js'))) :
    js'.former = js.former := by
  cases h with
  | waiting _ _ _ _ hmerge =>
    obtain ⟨_, rfl⟩ := mergeSigned_eq_ok hmerge
    rfl
  | ended _ _ _ _ hmerge _ hpublish =>
    obtain ⟨_, rfl⟩ := mergeSigned_eq_ok hmerge
    cases hpublish <;> rfl
  | _ => rfl

/-- Of the handlers only that of the keys takes members out. -/
theorem of_handle {msg : ClientMessage} (h : handle pkgs ch js msg = .ok (d, js')) : Conserves js js' := by
  have houtcome := handle_outcome pkgs ch msg (mu_of_handle h)
  rw [h] at houtcome
  rcases kept_handle houtcome with hkept | ⟨req, rfl, houtcome⟩
  swap
  · exact of_keyExchange houtcome
  cases msg with
  | keyExchange req => exact of_keyExchange houtcome
  | dcExpVector data =>
    change DcExpOutcome pkgs ch data js (.ok (d, js')) at houtcome
    apply of_kept hkept
    cases houtcome with
    | ended _ _ _ _ _ hsolve => cases hsolve <;> rfl
    | _ => rfl
  | dcXorVector data =>
    change DcXorOutcome pkgs ch data js (.ok (d, js')) at houtcome
    apply of_kept hkept
    cases houtcome <;> rfl
  | txInputs txins => exact of_kept hkept (former_txInputs houtcome)
  | txSigned signedTx => exact of_kept hkept (former_txSigned houtcome)
  | txPublishResult pubResult =>
    cases houtcome
    exact of_kept hkept rfl
  | revealSecret rvSecret =>
    change RevealOutcome pkgs ch rvSecret js (.ok (d, js')) at houtcome
    apply of_kept hkept
    cases houtcome <;> rfl
  | msgNotFound data =>
    change MsgNotFoundOutcome ch data js (.ok (d, js')) at houtcome
    apply of_kept hkept
    cases houtcome <;> rfl

end Handlers

section Goroutines
variable {pkgs : Packages} {ch : Choices}

theorem of_changePublisher {site : List ℕ} {b : Bool} (h : JoinSession.ChangeOutcome pkgs ch site js (.ok (b, js'))) :
    Conserves js js' := by
  cases h <;> exact (refl js).congr rfl rfl

/-- One publisher after the other goes. -/
theorem of_republishing {b : Bool} (h : Republishing pkgs ch js b js') : Conserves js js' := by
  induction h with
  | done js => exact refl js
  | emptied => exact (refl _).removePeer _
  | failed => exact ((refl _).removePeer _).congr rfl rfl
  | changed _ _ _ _ ih => exact (((refl _).removePeer _).congr rfl rfl).trans ih

theorem of_informMissed {d : Done} (h : InformOutcome js (.ok (d, js'))) : Conserves js js' := by
  cases h with
  | nobody => exact refl js
  | dropped => exact (refl js).removePeers _

theorem of_timeout {d : Done} (h : timeout pkgs ch js = .ok (d, js')) : Conserves js js' := by
  have htimed : Conserves js (js.timedOut ch) := (refl js).congr rfl rfl
  have houtcome := timeout_outcome pkgs ch (mu_of_timeout h)
  rw [h] at houtcome
  cases houtcome with
  | returned _ _ hrep => exact (htimed.trans (of_locked (of_republishing hrep))).withMu false
  | republished _ _ hrep hinform =>
    exact ((htimed.trans (of_locked (of_republishing hrep))).withMu false).trans (of_informMissed hinform)
  | informed _ hinform => exact htimed.trans (of_informMissed hinform)

theorem of_readError {peer : PeerInfo} (h : readError pkgs ch peer js = .ok js') : Conserves js js' := by
  have hremoved := (refl js).removePeer peer.id
  have houtcome := readError_outcome pkgs ch peer (mu_of_readError h)
  rw [h] at houtcome
  cases houtcome with
  | left => exact hremoved
  | kept => exact refl js
  | emptied => exact hremoved
  | changed _ _ hchange => exact (hremoved.trans (of_locked (of_changePublisher hchange))).withMu false

theorem of_writeError {peer : PeerInfo} (h : writeError pkgs ch peer js = .ok js') : Conserves js js' := by
  have hremoved := (refl js).removePeer peer.id
  have houtcome := writeError_outcome pkgs ch peer (mu_of_writeError h)
  rw [h] at houtcome
  cases houtcome with
  | left => exact hremoved
  | kept => exact refl js
  | changed _ _ hchange => exact (hremoved.trans (of_locked (of_changePublisher hchange))).withMu false
  | locked _ _ hchange => exact hremoved.trans (of_locked (of_changePublisher hchange))

theorem of_readMessage {peer : PeerInfo} {raw : RawMessage} {pc : ReaderPc} (h : readMessage peer raw js = .ok (pc, js')) :
    Conserves js js' := by
  rcases mu_of_readMessage h with hmu | ⟨-, hsame⟩
  · have houtcome := readMessage_outcome peer raw hmu
    rw [h] at houtcome
    cases houtcome with
    | admitted =>
      split_ifs
      · exact (refl js).congr rfl rfl
      · exact refl js
    | _ => exact (refl js).congr rfl rfl
  · cases hsame
    exact refl js

theorem of_finish {d : Done} {running : Bool} (h : finish ch d js = .ok (running, js')) : Conserves js js' := by
  cases hmu : js.mu with
  | true =>
    rw [finish_held ch d hmu] at h
    split_ifs at h
    · cases h
      exact (refl js).congr rfl rfl
    · cases h
      exact refl js
  | false =>
    rw [finish_free ch d hmu] at h
    split_ifs at h
    cases h
    unfold Done.pushed
    cases d.push with
    | none => exact refl js
    | some ps => exact expelled ch ps js

/-- Every step, whoever takes it. -/
theorem of_stepped {s s' : System} {ev : Event} (h : Stepped pkgs ch s ev s') : Conserves s.session s'.session := by
  cases h with
  | timeout _ _ h => exact of_timeout h
  | deliver _ _ h => exact of_handle h
  | rest _ h => exact of_finish h
  | read _ _ h => exact of_readMessage h
  | push _ h =>
    rw [JoinSession.pushMaliciousInfo_eq ch _ (mu_of_pushMaliciousInfo h)] at h
    cases h
    exact expelled ch _ _
  | remove => exact (refl _).removePeer _
  | readError _ _ h => exact of_readError h
  | writeError _ _ h => exact of_writeError h

end Goroutines

end Conserves

/-- Nobody is a member twice, or a member and a former one. -/
theorem Reachable.nodup_everyone {pkgs : Packages} {s : System} (hs : Reachable pkgs s) : s.session.everyone.Nodup := by
  induction hs with
  | start sessionId roundTimeOut serverPublish queue hconn hid =>
    obtain ⟨conns, hperm, hsub⟩ := conns_newJoinSession sessionId roundTimeOut serverPublish queue
    change (_ ++ []).Nodup
    rw [List.append_nil]
    exact hperm.nodup_iff.mp (hsub.nodup hconn)
  | step hs h ih => exact (Conserves.of_stepped (stepped_of_step h)).nodup_iff.mpr ih

end Dcrtxmatcher.Coinjoin
