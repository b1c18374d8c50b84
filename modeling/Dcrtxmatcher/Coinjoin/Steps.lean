import Dcrtxmatcher.Coinjoin.RunOutcomes

/-! What a step of the system does to the members of a session.

Apart from a key exchange message a step leaves the members and their keys alone
(`Framed`), takes some of them out, or restarts the session without some of them
(`Effect`). What holds of the members in every reachable state follows from these
few cases. -/
namespace Dcrtxmatcher.Coinjoin
open Lib

/-! ### The goroutine that moves -/

/-- The steps, one constructor a kind of event. -/
inductive Stepped (pkgs : Packages) (ch : Choices) (s : System) : Event → System → Prop
  | timeout {timer : Timer} {d : Done} {js : JoinSession} (hloop : s.loop = .select timer)
      (hfired : timer.seq ∉ s.fired) (h : timeout pkgs ch s.session = .ok (d, js)) :
      Stepped pkgs ch s .timeout { s with session := js, loop := .rest d, fired := timer.seq :: s.fired }
  | deliver {conn sessionId : ℕ} {state : SessionState} {msg : ClientMessage} {timer : Timer} {d : Done}
      {js : JoinSession} (hloop : s.loop = .select timer) (hreader : s.readers conn = .sending sessionId state msg)
      (h : handle pkgs ch s.session msg = .ok (d, js)) :
      Stepped pkgs ch s (.deliver conn)
        { s with session := js, loop := .rest d, readers := s.setReader conn .reading }
  | rest {d : Done} {running : Bool} {js : JoinSession} (hloop : s.loop = .rest d)
      (h : finish ch d s.session = .ok (running, js)) :
      Stepped pkgs ch s .rest { s with session := js, loop := System.loopTo js running }
  | read {conn : ℕ} {raw : RawMessage} {peer : PeerInfo} {pc : ReaderPc} {js : JoinSession}
      (hreader : s.readers conn = .reading) (hpeer : s.session.peerOf conn = some peer)
      (h : readMessage peer raw s.session = .ok (pc, js)) :
      Stepped pkgs ch s (.read conn raw) { s with session := js, readers := s.setReader conn pc }
  | push {conn peerId : ℕ} {js : JoinSession} (hreader : s.readers conn = .pushing peerId)
      (h : s.session.pushMaliciousInfo ch [peerId] = .ok js) :
      Stepped pkgs ch s (.push conn) { s with session := js, readers := s.setReader conn .reading }
  | remove {conn peerId : ℕ} (hreader : s.readers conn = .removing peerId) :
      Stepped pkgs ch s (.remove conn)
        { s with session := s.session.removePeer peerId, readers := s.setReader conn .reading }
  | readError {conn : ℕ} {peer : PeerInfo} {js : JoinSession} (hreader : s.readers conn = .reading)
      (hpeer : s.session.peerOf conn = some peer) (h : readError pkgs ch peer s.session = .ok js) :
      Stepped pkgs ch s (.readError conn) { s with session := js, readers := s.setReader conn .returned }
  | writeError {conn : ℕ} {peer : PeerInfo} {js : JoinSession} (hwriter : s.writers conn = true)
      (hpeer : s.session.peerOf conn = some peer) (h : writeError pkgs ch peer s.session = .ok js) :
      Stepped pkgs ch s (.writeError conn)
        { s with session := js, writers := Function.update s.writers conn false }

/-- A goroutine that gets through its step returned from it. -/
theorem toOption_bind_eq_some {ε α β : Type} {x : Except ε α} {f : α → Option β} {b : β}
    (h : (x.toOption >>= f) = some b) : ∃ a, x = .ok a ∧ f a = some b := by
  cases x with
  | error e => cases h
  | ok a => exact ⟨a, rfl, h⟩

theorem stepped_of_step {pkgs : Packages} {ch : Choices} {s s' : System} {ev : Event}
    (h : s.step pkgs ch ev = some s') : Stepped pkgs ch s ev s' := by
  cases ev with
  | timeout =>
    simp only [System.step] at h
    split at h
    · split_ifs at h with hfired
      obtain ⟨⟨d, js⟩, hrun, h⟩ := toOption_bind_eq_some h
      cases h
      exact .timeout ‹_› hfired hrun
    · cases h
  | deliver conn =>
    simp only [System.step] at h
    split at h
    · obtain ⟨⟨d, js⟩, hrun, h⟩ := toOption_bind_eq_some h
      cases h
      exact .deliver ‹_› ‹_› hrun
    · cases h
  | rest =>
    simp only [System.step] at h
    split at h
    · obtain ⟨⟨running, js⟩, hrun, h⟩ := toOption_bind_eq_some h
      cases h
      exact .rest ‹_› hrun
    · cases h
  | read conn raw =>
    simp only [System.step] at h
    split at h
    · obtain ⟨⟨pc, js⟩, hrun, h⟩ := toOption_bind_eq_some h
      cases h
      exact .read ‹_› ‹_› hrun
    · cases h
  | push conn =>
    simp only [System.step] at h
    split at h
    · obtain ⟨js, hrun, h⟩ := toOption_bind_eq_some h
      cases h
      exact .push ‹_› hrun
    · cases h
  | remove conn =>
    simp only [System.step] at h
    split at h
    · cases h
      exact .remove ‹_›
    · cases h
  | readError conn =>
    simp only [System.step] at h
    split at h
    · obtain ⟨js, hrun, h⟩ := toOption_bind_eq_some h
      cases h
      exact .readError ‹_› ‹_› hrun
    · cases h
  | writeError conn =>
    simp only [System.step] at h
    split at h
    · obtain ⟨js, hrun, h⟩ := toOption_bind_eq_some h
      cases h
      exact .writeError ‹_› ‹_› hrun
    · cases h

/-! ### Who gets past the mutex -/

theorem mu_of_lock {β : Type} {js : JoinSession} {f : JoinSession → Except Fault β} {r : β}
    (h : (js.lock >>= f) = .ok r) : js.mu = false := by
  obtain ⟨js', hlock, -⟩ := bind_eq_ok.mp h
  exact (JoinSession.lock_eq_ok.mp hlock).1

theorem mu_of_handle {pkgs : Packages} {ch : Choices} {js : JoinSession} {msg : ClientMessage} {r : Done × JoinSession}
    (h : handle pkgs ch js msg = .ok r) : js.mu = false := by
  cases msg <;> exact mu_of_lock h

theorem mu_of_timeout {pkgs : Packages} {ch : Choices} {js : JoinSession} {r : Done × JoinSession}
    (h : timeout pkgs ch js = .ok r) : js.mu = false :=
  mu_of_lock h

theorem mu_of_readError {pkgs : Packages} {ch : Choices} {peer : PeerInfo} {js js' : JoinSession}
    (h : readError pkgs ch peer js = .ok js') : js.mu = false :=
  mu_of_lock h

theorem mu_of_writeError {pkgs : Packages} {ch : Choices} {peer : PeerInfo} {js js' : JoinSession}
    (h : writeError pkgs ch peer js = .ok js') : js.mu = false :=
  mu_of_lock h

theorem mu_of_pushMaliciousInfo {ch : Choices} {ps : List ℕ} {js js' : JoinSession}
    (h : js.pushMaliciousInfo ch ps = .ok js') : js.mu = false :=
  mu_of_lock h

/-- A reader gets past the mutex with every message it does not ignore. -/
theorem mu_of_readMessage {peer : PeerInfo} {raw : RawMessage} {js : JoinSession} {r : ReaderPc × JoinSession}
    (h : readMessage peer raw js = .ok r) : js.mu = false ∨ raw = .ignored ∧ r = (.reading, js) := by
  cases raw with
  | ignored =>
    cases h
    exact .inr ⟨rfl, rfl⟩
  | unknown => exact .inl (mu_of_lock h)
  | malformed kind => exact .inl (mu_of_lock h)
  | message msg => exact .inl (mu_of_lock h)

/-! ### The rest of a case -/

/-- The session after the push. -/
def Done.pushed (ch : Choices) (d : Done) (js : JoinSession) : JoinSession := d.push.elim js (js.expelled ch ·)

@[simp] theorem Done.mu_pushed (ch : Choices) (d : Done) (js : JoinSession) : (d.pushed ch js).mu = js.mu := by
  unfold Done.pushed
  cases d.push with
  | none => rfl
  | some ps => exact js.mu_expelled ch ps

@[simp] theorem JoinSession.errm_removePeers (ps : List ℕ) (js : JoinSession) : (js.removePeers ps).errm = js.errm := by
  induction ps generalizing js with
  | nil => rfl
  | cons p ps ih => exact (ih _).trans (errm_removePeer ..)

@[simp] theorem JoinSession.errm_expelled (ch : Choices) (ps : List ℕ) (js : JoinSession) :
    (js.expelled ch ps).errm = js.errm := by
  rw [expelled]
  split
  · exact js.errm_removePeers ps
  · exact js.errm_removePeers ps

@[simp] theorem Done.errm_pushed (ch : Choices) (d : Done) (js : JoinSession) : (d.pushed ch js).errm = js.errm := by
  unfold Done.pushed
  cases d.push with
  | none => rfl
  | some ps => exact js.errm_expelled ch ps

/-- With the mutex free the loop goes on or ends, unless it breaks with an error. -/
theorem finish_free (ch : Choices) (d : Done) {js : JoinSession} (hmu : js.mu = false) :
    finish ch d js =
      if d.exit = .breakLoop ∧ js.errm.isSome = true then .error .unlockOfUnlocked
      else .ok (decide (d.exit = .next ∧ GoMap.len (d.pushed ch js).peers ≠ 0), d.pushed ch js) := by
  have hfree := (d.mu_pushed ch js).trans hmu
  have hleave : finish ch d js = finish ch ⟨none, d.exit⟩ (d.pushed ch js) := by
    obtain ⟨push, exit⟩ := d
    cases push with
    | none => rfl
    | some ps =>
      rw [finish]
      dsimp only
      rw [JoinSession.pushMaliciousInfo_eq ch ps hmu]
      rfl
  rw [hleave, ← d.errm_pushed ch js]
  generalize d.pushed ch js = js' at hfree
  cases hexit : d.exit with
  | next => simp [finish]
  | ret => simp [finish]
  | breakLoop =>
    cases herr : js'.errm with
    | none => simp [finish, herr]
    | some err =>
      have hunlock : js'.unlock = .error .unlockOfUnlocked := by rw [JoinSession.unlock, hfree]; rfl
      simp [finish, herr, hunlock]

/-- With the mutex held it can only be left by breaking with an error. -/
theorem finish_held (ch : Choices) (d : Done) {js : JoinSession} (hmu : js.mu = true) :
    finish ch d js =
      if d.push.isSome = true then .error .selfDeadlock
      else if d.exit = .breakLoop ∧ js.errm.isSome = true then .ok (false, (js.withMu false).terminate ch)
      else .ok (decide (d.exit = .next ∧ GoMap.len js.peers ≠ 0), js) := by
  obtain ⟨push, exit⟩ := d
  rw [finish]
  cases push with
  | some ps =>
    dsimp only
    rw [JoinSession.pushMaliciousInfo_held ch ps hmu]
    rfl
  | none =>
    cases exit with
    | next => simp
    | ret => simp
    | breakLoop =>
      cases herr : js.errm with
      | none => simp [herr]
      | some err => simp [herr, JoinSession.unlock_of_held hmu, JoinSession.withMu]

/-! ### The members after a step -/

/-- What a round leaves alone in a peer: who it is and its key. Entries of a xor
vector have the size of a script. -/
structure SamePeer (peer peer' : PeerInfo) : Prop where
  conn : peer'.conn = peer.conn
  id : peer'.id = peer.id
  sessionId : peer'.sessionId = peer.sessionId
  pk : peer'.pk = peer.pk
  numMsg : peer'.numMsg = peer.numMsg
  xor : ∀ msg ∈ peer'.dcXorVector, msg ∈ peer.dcXorVector ∨ msg.length = pkScriptSize

theorem SamePeer.refl (peer : PeerInfo) : SamePeer peer peer := ⟨rfl, rfl, rfl, rfl, rfl, fun _ => .inl⟩

theorem SamePeer.trans {a b c : PeerInfo} (hab : SamePeer a b) (hbc : SamePeer b c) : SamePeer a c where
  conn := hbc.conn.trans hab.conn
  id := hbc.id.trans hab.id
  sessionId := hbc.sessionId.trans hab.sessionId
  pk := hbc.pk.trans hab.pk
  numMsg := hbc.numMsg.trans hab.numMsg
  xor msg hmsg := (hbc.xor msg hmsg).elim (hab.xor msg) .inr

/-- The members `ps` are gone, the others and the key list are the same. -/
structure Kept (ps : List ℕ) (js js' : JoinSession) : Prop where
  id : js'.id = js.id
  peersMsgInfo : js'.peersMsgInfo = js.peersMsgInfo
  gone : ∀ p ∈ ps, js'.peers.lookup p = none
  stay : ∀ p ∉ ps, Option.Rel SamePeer (js.peers.lookup p) (js'.peers.lookup p)

namespace Kept
variable {ps qs : List ℕ} {js js' js'' : JoinSession}

theorem refl (js : JoinSession) : Kept [] js js where
  id := rfl
  peersMsgInfo := rfl
  gone := by simp
  stay p _ := by
    cases js.peers.lookup p with
    | none => exact .none
    | some peer => exact .some (.refl peer)

/-- Nothing else of a session is about its members. -/
theorem congr (h : Kept ps js js') (hid : js''.id = js'.id) (hinfo : js''.peersMsgInfo = js'.peersMsgInfo)
    (hpeers : js''.peers = js'.peers) : Kept ps js js'' where
  id := hid.trans h.id
  peersMsgInfo := hinfo.trans h.peersMsgInfo
  gone := by
    rw [hpeers]
    exact h.gone
  stay := by
    rw [hpeers]
    exact h.stay

theorem setPeer (h : Kept ps js js') {q : ℕ} {f : PeerInfo → PeerInfo} (hf : ∀ peer, SamePeer peer (f peer)) :
    Kept ps js (js'.setPeer q f) where
  id := h.id
  peersMsgInfo := h.peersMsgInfo
  gone p hp := by
    rw [JoinSession.setPeer, GoMap.modify, GoMap.lookup_mapVal, h.gone p hp]
    rfl
  stay p hp := by
    rw [JoinSession.setPeer, GoMap.modify, GoMap.lookup_mapVal]
    have hstay := h.stay p hp
    generalize js.peers.lookup p = a at hstay ⊢
    generalize js'.peers.lookup p = b at hstay ⊢
    cases hstay with
    | none => exact .none
    | some hsame =>
      dsimp only [Option.map_some]
      split_ifs
      · exact .some (hsame.trans (hf _))
      · exact .some hsame

theorem removePeer (h : Kept ps js js') (q : ℕ) : Kept (q :: ps) js (js'.removePeer q) := by
  have hlookup : ∀ p, (js'.removePeer q).peers.lookup p = if p = q then none else js'.peers.lookup p := by
    intro p
    rw [JoinSession.removePeer]
    split
    · exact GoMap.lookup_erase_eq ..
    · split_ifs with hp
      · rw [hp, ‹js'.peers.lookup q = none›]
      · rfl
  have hsame : (js'.removePeer q).id = js'.id ∧ (js'.removePeer q).peersMsgInfo = js'.peersMsgInfo := by
    rw [JoinSession.removePeer]
    split <;> exact ⟨rfl, rfl⟩
  refine ⟨hsame.1.trans h.id, hsame.2.trans h.peersMsgInfo, fun p hp => ?_, fun p hp => ?_⟩
  · rw [hlookup]
    split_ifs with hq
    · rfl
    · exact h.gone p ((List.mem_cons.mp hp).resolve_left hq)
  · rw [hlookup, if_neg (List.ne_of_not_mem_cons hp)]
    exact h.stay p (List.not_mem_of_not_mem_cons hp)

theorem removePeers (h : Kept ps js js') (qs : List ℕ) : Kept (qs.reverse ++ ps) js (js'.removePeers qs) := by
  induction qs generalizing ps js' with
  | nil => exact h
  | cons q qs ih =>
    rw [List.reverse_cons, List.append_assoc]
    exact ih (h.removePeer q)

theorem trans (h : Kept [] js js') (h' : Kept [] js' js'') : Kept [] js js'' where
  id := h'.id.trans h.id
  peersMsgInfo := h'.peersMsgInfo.trans h.peersMsgInfo
  gone := by simp
  stay p _ := by
    have hstay := h.stay p (List.not_mem_nil)
    have hstay' := h'.stay p (List.not_mem_nil)
    generalize js.peers.lookup p = a at hstay ⊢
    generalize js'.peers.lookup p = b at hstay hstay'
    generalize js''.peers.lookup p = c at hstay' ⊢
    cases hstay with
    | none =>
      cases hstay'
      exact .none
    | some hsame =>
      cases hstay' with
      | some hsame' => exact .some (hsame.trans hsame')

/-- Who is a member afterwards has been one before. -/
theorem member (h : Kept ps js js') {p : ℕ} {peer' : PeerInfo} (hp : js'.peers.lookup p = some peer') :
    ∃ peer, js.peers.lookup p = some peer ∧ SamePeer peer peer' := by
  by_cases hmem : p ∈ ps
  · rw [h.gone p hmem] at hp
    cases hp
  · have hstay := h.stay p hmem
    rw [hp] at hstay
    generalize js.peers.lookup p = a at hstay ⊢
    cases hstay with
    | some hsame => exact ⟨_, rfl, hsame⟩

theorem keys_subset (h : Kept ps js js') : js'.peers.keys ⊆ js.peers.keys := fun _ hp =>
  let ⟨_, hp'⟩ := GoMap.lookup_of_mem_keys hp
  let ⟨_, hpeer, _⟩ := h.member hp'
  GoMap.mem_keys_of_lookup hpeer

theorem len_le (h : Kept ps js js') : GoMap.len js'.peers ≤ GoMap.len js.peers := by
  rw [← GoMap.length_keys, ← GoMap.length_keys]
  exact (List.subperm_of_subset js'.peers.keys_nodup h.keys_subset).length_le

/-- Who stays a member is the same. -/
theorem kept (h : Kept ps js js') {p : ℕ} {peer : PeerInfo} (hp : js.peers.lookup p = some peer) (hmem : p ∉ ps) :
    ∃ peer', js'.peers.lookup p = some peer' ∧ SamePeer peer peer' := by
  have hstay := h.stay p hmem
  rw [hp] at hstay
  generalize js'.peers.lookup p = a at hstay ⊢
  cases hstay with
  | some hsame => exact ⟨_, rfl, hsame⟩

end Kept

/-! ### The handlers keep the members -/

section Handlers
variable {pkgs : Packages} {ch : Choices} {js js' : JoinSession} {d : Done}

theorem kept_storeExp (data : DcVector) (vector : List Field) (js : JoinSession) : Kept [] js (storeExp data vector js) :=
  (Kept.refl js).setPeer fun _ => ⟨rfl, rfl, rfl, rfl, rfl, fun _ => .inl⟩

theorem kept_dcExpVector {data : DcVector} (h : DcExpOutcome pkgs ch data js (.ok (d, js'))) : Kept [] js js' := by
  cases h with
  | stranger => exact .refl js
  | short => exact .refl js
  | rejected => exact (Kept.refl js).congr rfl rfl rfl
  | waiting => exact kept_storeExp ..
  | ended _ _ _ _ _ hsolve =>
    cases hsolve with
    | unsolved => exact (kept_storeExp ..).congr rfl rfl rfl
    | failed => exact (kept_storeExp ..).congr rfl rfl rfl
    | solved => exact (kept_storeExp ..).congr rfl rfl rfl

/-- The entries of a xor vector have the size of a script. -/
theorem length_of_readMessages {buf : Bytes} {i n : ℕ} {msgs : List Bytes} (h : readMessages buf i n = .ok msgs) :
    ∀ msg ∈ msgs, msg.length = pkScriptSize := by
  induction n generalizing i msgs with
  | zero =>
    cases h
    simp
  | succ n ih =>
    obtain ⟨msg, hslice, h⟩ := bind_eq_ok.mp h
    obtain ⟨rest, hrest, h⟩ := bind_eq_ok.mp h
    cases h
    rw [slice] at hslice
    split_ifs at hslice with hbounds
    cases hslice
    have hlen : ((buf.take ((i + 1) * pkScriptSize)).drop (i * pkScriptSize)).length = pkScriptSize := by
      rw [List.length_drop, List.length_take, Nat.min_eq_left hbounds.2, Nat.succ_mul, Nat.add_sub_cancel_left]
    simpa [hlen] using ih hrest

theorem kept_storeXor {data : DcVector} {i n : ℕ} {buf : Bytes} {dcXor : List Bytes}
    (h : readMessages buf i n = .ok dcXor) (js : JoinSession) : Kept [] js (storeXor data dcXor js) :=
  (Kept.refl js).setPeer fun _ => ⟨rfl, rfl, rfl, rfl, rfl, fun msg hmsg => .inr (length_of_readMessages h msg hmsg)⟩

theorem kept_dcXorVector {data : DcVector} (h : DcXorOutcome pkgs ch data js (.ok (d, js'))) : Kept [] js js' := by
  cases h with
  | short => exact .refl js
  | stranger => exact .refl js
  | waiting _ _ hread => exact (kept_storeXor hread js).congr rfl rfl rfl
  | failed _ _ hread => exact (kept_storeXor hread js).congr rfl rfl rfl
  | complete _ _ hread => exact (kept_storeXor hread js).congr rfl rfl rfl

theorem kept_storePrice (txins : TxInputs) (js : JoinSession) : Kept [] js (storePrice txins js) :=
  (Kept.refl js).setPeer fun _ => ⟨rfl, rfl, rfl, rfl, rfl, fun _ => .inl⟩

theorem kept_storeInputs (txins : TxInputs) (tx : MsgTx) (js : JoinSession) : Kept [] js (storeInputs txins tx js) := by
  have hstore : Kept [] js ((storePrice txins js).setPeer txins.peerId fun peer => { peer with txIns := some tx }) :=
    (kept_storePrice txins js).setPeer fun _ => ⟨rfl, rfl, rfl, rfl, rfl, fun _ => .inl⟩
  simp only [storeInputs]
  split
  · exact hstore.congr rfl rfl rfl
  · exact hstore

/-- Joining the transactions only appends indices. -/
theorem kept_joinTxs (visited : List (ℕ × MsgTx)) (joinedtx : Option MsgTx) (js' : JoinSession) (h : Kept [] js js') :
    Kept [] js { js' with peers := (joinTxs visited joinedtx js'.peers).2 } := by
  induction visited generalizing joinedtx js' with
  | nil => exact h
  | cons e visited ih =>
    have happend : ∀ endIndex, Kept [] js { js' with peers := appendIndex e.1 endIndex e.2 js'.peers } := fun _ =>
      h.setPeer fun _ => ⟨rfl, rfl, rfl, rfl, rfl, fun _ => .inl⟩
    cases joinedtx with
    | none => exact ih (some e.2) _ (happend 0)
    | some joinedtx => exact ih (some _) _ (happend joinedtx.txIn.length)

theorem kept_buildJoinedTx {ticketPrice : ℤ} {joinedtx : MsgTx}
    (h : buildJoinedTx ch ticketPrice js = .ok (joinedtx, js')) : Kept [] js js' := by
  have hjoin := kept_joinTxs (submittedTxs ch js.peers) none js (.refl js)
  rw [buildJoinedTx] at h
  generalize joinTxs (submittedTxs ch js.peers) none js.peers = joined at h hjoin
  split at h
  · cases h
    exact hjoin.setPeer fun _ => ⟨rfl, rfl, rfl, rfl, rfl, fun _ => .inl⟩
  · cases h

theorem kept_txInputs {txins : TxInputs} (h : TxInputsOutcome pkgs ch txins js (.ok (d, js'))) : Kept [] js js' := by
  cases h with
  | stranger => exact .refl js
  | unpriced => exact kept_storePrice ..
  | undecodable => exact (kept_storePrice txins js).congr rfl rfl rfl
  | overspent => exact (kept_storeInputs ..).congr rfl rfl rfl
  | waiting => exact kept_storeInputs ..
  | joined _ _ _ _ _ _ hjoined =>
    cases hjoined with
    | failed hbuild => exact ((kept_storeInputs _ _ js).trans (kept_buildJoinedTx hbuild)).congr rfl rfl rfl
    | sent hbuild => exact ((kept_storeInputs _ _ js).trans (kept_buildJoinedTx hbuild)).congr rfl rfl rfl

theorem kept_storeSigned (signedTx : JoinTx) (tx : MsgTx) (js : JoinSession) : Kept [] js (storeSigned signedTx tx js) :=
  (Kept.refl js).setPeer fun _ => ⟨rfl, rfl, rfl, rfl, rfl, fun _ => .inl⟩

theorem kept_mergeSigned {tx : MsgTx} {inputIndex : List ℕ} {js'' : JoinSession} (hkept : Kept [] js js')
    (h : mergeSigned tx inputIndex js' = .ok js'') : Kept [] js js'' := by
  obtain ⟨_, rfl⟩ := mergeSigned_eq_ok h
  exact hkept.congr rfl rfl rfl

theorem kept_txSigned {signedTx : JoinTx} (h : TxSignedOutcome pkgs ch signedTx js (.ok (d, js'))) : Kept [] js js' := by
  cases h with
  | stranger => exact .refl js
  | undecodable => exact (Kept.refl js).congr rfl rfl rfl
  | again => exact .refl js
  | invalid => exact kept_storeSigned ..
  | waiting _ _ _ _ hmerge => exact kept_mergeSigned (kept_storeSigned ..) hmerge
  | ended _ _ _ _ hmerge _ hpublish =>
    have hkept := kept_mergeSigned (kept_storeSigned ..) hmerge
    cases hpublish with
    | unencodable => exact hkept.congr rfl rfl rfl
    | published => exact hkept.congr rfl rfl rfl
    | unmarshalled => exact hkept.congr rfl rfl rfl
    | delegated => exact hkept.congr rfl rfl rfl

theorem kept_storeSecret (rvSecret : RevealSecret) (js : JoinSession) : Kept [] js (storeSecret rvSecret js) :=
  (Kept.refl js).setPeer fun _ => ⟨rfl, rfl, rfl, rfl, rfl, fun _ => .inl⟩

theorem kept_revealSecret {rvSecret : RevealSecret} (h : RevealOutcome pkgs ch rvSecret js (.ok (d, js'))) : Kept [] js js' := by
  cases h with
  | stranger => exact .refl js
  | failed => exact (kept_storeSecret rvSecret js).congr rfl rfl rfl
  | found => exact (kept_storeSecret rvSecret js).congr rfl rfl rfl
  | waiting => exact (kept_storeSecret rvSecret js).congr rfl rfl rfl

theorem kept_msgNotFound {data : MsgNotFound} (h : MsgNotFoundOutcome ch data js (.ok (d, js'))) : Kept [] js js' := by
  cases h with
  | stranger => exact .refl js
  | asked => exact (Kept.refl js).congr rfl rfl rfl

/-- Only key exchange messages change members or keys. -/
theorem kept_handle {msg : ClientMessage} (h : HandleOutcome pkgs ch js msg (.ok (d, js'))) :
    Kept [] js js' ∨ ∃ req, msg = .keyExchange req ∧ KeyExchangeOutcome pkgs ch req js (.ok (d, js')) := by
  cases msg with
  | keyExchange req => exact .inr ⟨req, rfl, h⟩
  | dcExpVector data => exact .inl (kept_dcExpVector h)
  | dcXorVector data => exact .inl (kept_dcXorVector h)
  | txInputs txins => exact .inl (kept_txInputs h)
  | txSigned signedTx => exact .inl (kept_txSigned h)
  | txPublishResult pubResult =>
    cases h
    exact .inl ((Kept.refl js).congr rfl rfl rfl)
  | revealSecret rvSecret => exact .inl (kept_revealSecret h)
  | msgNotFound data => exact .inl (kept_msgNotFound h)

theorem id_keyExchange {req : KeyExchangeReq} (h : KeyExchangeOutcome pkgs ch req js (.ok (d, js'))) : js'.id = js.id := by
  cases h with
  | stranger => rfl
  | invalid => exact ((Kept.refl js).removePeer _).id
  | waiting => rfl
  | @unmarshalled peer => exact ((Kept.refl (announce req peer js)).removePeer _).id
  | complete => rfl

/-- A key exchange message brings no new members. -/
theorem keys_keyExchange {req : KeyExchangeReq} (h : KeyExchangeOutcome pkgs ch req js (.ok (d, js'))) :
    js'.peers.keys ⊆ js.peers.keys := by
  have hannounce : ∀ peer, (announce req peer js).peers.keys ⊆ js.peers.keys := by
    intro peer
    rw [show (announce req peer js).peers.keys = js.peers.keys from GoMap.keys_modify ..]
    exact List.Subset.refl _
  cases h with
  | stranger => exact List.Subset.refl _
  | invalid => exact ((Kept.refl js).removePeer _).keys_subset
  | waiting => exact hannounce _
  | @unmarshalled peer =>
    exact List.Subset.trans ((Kept.refl (announce req peer js)).removePeer _).keys_subset (hannounce _)
  | @complete peer => exact hannounce peer

end Handlers

/-! ### The other goroutines -/

/-- The change of publisher leaves the members alone. -/
theorem JoinSession.ChangeOutcome.kept {pkgs : Packages} {ch : Choices} {site ps : List ℕ} {js js' js'' : JoinSession}
    {b : Bool} (h : JoinSession.ChangeOutcome pkgs ch site js' (.ok (b, js''))) (hkept : Kept ps js js') : Kept ps js js'' := by
  cases h with
  | failed => exact hkept.congr rfl rfl rfl
  | changed => exact hkept.congr rfl rfl rfl

theorem Republishing.kept {pkgs : Packages} {ch : Choices} {ps : List ℕ} {js js' js'' : JoinSession} {b : Bool}
    (h : Republishing pkgs ch js' b js'') (hkept : Kept ps js js') : ∃ qs, Kept qs js js'' := by
  induction h generalizing ps with
  | done => exact ⟨ps, hkept⟩
  | emptied => exact ⟨_, hkept.removePeer _⟩
  | failed => exact ⟨_, (hkept.removePeer _).congr rfl rfl rfl⟩
  | changed _ _ _ _ ih => exact ih ((hkept.removePeer _).congr rfl rfl rfl)

/-- The members that an event takes out without a restart. In `TxPublish` a timeout
can reach all of them, one publisher after the other. -/
def System.leaving (ch : Choices) (s : System) : Event → List ℕ
  | .timeout =>
    match s.session.state with
    | .keyExchange => (s.session.timedOut ch).missedPeers
    | .txPublish => s.session.peers.keys
    | _ => []
  | .remove conn =>
    match s.readers conn with
    | .removing peerId => [peerId]
    | _ => []
  | .readError conn | .writeError conn =>
    match s.session.peerOf conn, s.session.state with
    | some peer, .keyExchange => [peer.id]
    | some peer, .txPublish => if s.session.publisher = peer.id then [peer.id] else []
    | _, _ => []
  | _ => []

/-- No members are gone but such as the event takes out. -/
def Removes (ch : Choices) (s : System) (ev : Event) (js' : JoinSession) : Prop :=
  ∃ ps, (∀ p ∈ ps, p ∈ s.session.peers.keys → p ∈ s.leaving ch ev) ∧ Kept ps s.session js'

namespace Removes
variable {pkgs : Packages} {ch : Choices} {s : System} {ev : Event} {js' : JoinSession}

/-- Nobody leaves. -/
theorem kept (h : Kept [] s.session js') : Removes ch s ev js' := ⟨[], by simp, h⟩

theorem of_timeout {d : Done} (h : Coinjoin.timeout pkgs ch s.session = .ok (d, js')) : Removes ch s .timeout js' := by
  have hmu := mu_of_timeout h
  have htimed : Kept [] s.session (s.session.timedOut ch) := (Kept.refl _).congr rfl rfl rfl
  have hpublish : s.session.state = .txPublish → ∀ p ∈ s.session.peers.keys, p ∈ s.leaving ch .timeout := by
    intro hstate p hp
    rw [System.leaving, hstate]
    exact hp
  have houtcome := timeout_outcome pkgs ch hmu
  rw [h] at houtcome
  cases houtcome with
  | returned hstate _ hrep =>
    obtain ⟨qs, hkept⟩ := hrep.kept (htimed.congr rfl rfl rfl)
    exact ⟨qs, fun p _ => hpublish hstate p, hkept.congr rfl rfl rfl⟩
  | republished hstate _ hrep hinform =>
    obtain ⟨qs, hkept⟩ := hrep.kept (htimed.congr rfl rfl rfl)
    cases hinform with
    | nobody => exact ⟨qs, fun p _ => hpublish hstate p, hkept.congr rfl rfl rfl⟩
    | dropped _ hkey =>
      -- the state is still `TxPublish`
      have hsame : (JoinSession.withMu _ false).state = .txPublish := hrep.state.trans hstate
      rw [hsame] at hkey
      cases hkey
  | informed hstate hinform =>
    cases hinform with
    | nobody => exact .kept htimed
    | dropped _ hkey =>
      refine ⟨_, fun p hp _ => ?_, htimed.removePeers _⟩
      rw [System.leaving, show s.session.state = .keyExchange from hkey]
      simpa using hp

theorem of_readError {conn : ℕ} {peer : PeerInfo} (hpeer : s.session.peerOf conn = some peer)
    (h : Coinjoin.readError pkgs ch peer s.session = .ok js') : Removes ch s (.readError conn) js' := by
  have hremove : Kept [peer.id] s.session (s.session.removePeer peer.id) := (Kept.refl _).removePeer peer.id
  have hpublisher : s.session.state = .txPublish → s.session.publisher = peer.id →
      peer.id ∈ s.leaving ch (.readError conn) := by
    intro hstate hpub
    simp [System.leaving, hpeer, hstate, hpub]
  have houtcome := readError_outcome pkgs ch peer (mu_of_readError h)
  rw [h] at houtcome
  cases houtcome with
  | left hstate => exact ⟨_, by simp [System.leaving, hpeer, hstate], hremove⟩
  | kept => exact .kept (.refl _)
  | emptied hstate hpub => exact ⟨_, by simpa using fun _ => hpublisher hstate hpub.2, hremove⟩
  | changed hstate hpub hchange =>
    exact ⟨_, by simpa using fun _ => hpublisher hstate hpub.2,
      (hchange.kept (hremove.congr rfl rfl rfl)).congr rfl rfl rfl⟩

theorem of_writeError {conn : ℕ} {peer : PeerInfo} (hpeer : s.session.peerOf conn = some peer)
    (h : Coinjoin.writeError pkgs ch peer s.session = .ok js') : Removes ch s (.writeError conn) js' := by
  have hremove : Kept [peer.id] s.session (s.session.removePeer peer.id) := (Kept.refl _).removePeer peer.id
  have hpublisher : s.session.state = .txPublish → s.session.publisher = peer.id →
      peer.id ∈ s.leaving ch (.writeError conn) := by
    intro hstate hpub
    simp [System.leaving, hpeer, hstate, hpub]
  have houtcome := writeError_outcome pkgs ch peer (mu_of_writeError h)
  rw [h] at houtcome
  cases houtcome with
  | left hstate => exact ⟨_, by simp [System.leaving, hpeer, hstate], hremove⟩
  | kept => exact .kept (.refl _)
  | changed hstate hpub hchange =>
    exact ⟨_, by simpa using fun _ => hpublisher hstate hpub,
      (hchange.kept (hremove.congr rfl rfl rfl)).congr rfl rfl rfl⟩
  | locked hstate hpub hchange =>
    exact ⟨_, by simpa using fun _ => hpublisher hstate hpub, hchange.kept (hremove.congr rfl rfl rfl)⟩

end Removes

theorem kept_readMessage {peer : PeerInfo} {raw : RawMessage} {pc : ReaderPc} {js js' : JoinSession}
    (h : readMessage peer raw js = .ok (pc, js')) : Kept [] js js' := by
  rcases mu_of_readMessage h with hmu | ⟨-, hsame⟩
  · have houtcome := readMessage_outcome peer raw hmu
    rw [h] at houtcome
    cases houtcome with
    | ignored => exact .refl _
    | unknown => exact (Kept.refl _).congr rfl rfl rfl
    | refused => exact .refl _
    | locked => exact (Kept.refl _).congr rfl rfl rfl
    | malformed => exact .refl _
    | admitted =>
      split_ifs
      · exact (Kept.refl _).congr rfl rfl rfl
      · exact .refl _
  · cases hsame
    exact .refl _

/-- The rest of a case changes no members, unless it is a push. -/
theorem kept_or_expelled_of_finish {ch : Choices} {d : Done} {running : Bool} {js js' : JoinSession}
    (h : finish ch d js = .ok (running, js')) :
    Kept [] js js' ∧ js'.state = js.state ∨ ∃ ps, d.push = some ps ∧ js' = js.expelled ch ps := by
  cases hmu : js.mu with
  | true =>
    rw [finish_held ch d hmu] at h
    split_ifs at h
    · cases h
      exact .inl ⟨(Kept.refl _).congr rfl rfl rfl, rfl⟩
    · cases h
      exact .inl ⟨.refl _, rfl⟩
  | false =>
    rw [finish_free ch d hmu] at h
    split_ifs at h
    cases h
    unfold Done.pushed
    cases d.push with
    | none => exact .inl ⟨.refl _, rfl⟩
    | some ps => exact .inr ⟨ps, rfl, rfl⟩

/-- What a step does to the members and to the key list. -/
inductive Effect (pkgs : Packages) (ch : Choices) (s : System) (ev : Event) (js' : JoinSession) : Prop
  | removed (h : Removes ch s ev js')
  | keyExchange {conn sessionId : ℕ} {state : SessionState} {req : KeyExchangeReq} {d : Done} (hev : ev = .deliver conn)
      (hreader : s.readers conn = .sending sessionId state (.keyExchange req))
      (h : KeyExchangeOutcome pkgs ch req s.session (.ok (d, js')))
  | expelled {ps : List ℕ} (h : js' = s.session.expelled ch ps)

theorem effect_of_stepped {pkgs : Packages} {ch : Choices} {s s' : System} {ev : Event} (h : Stepped pkgs ch s ev s') :
    Effect pkgs ch s ev s'.session := by
  cases h with
  | timeout _ _ h => exact .removed (.of_timeout h)
  | deliver hloop hreader h =>
    rcases kept_handle (h ▸ handle_outcome pkgs ch _ (mu_of_handle h)) with hkept | ⟨req, rfl, houtcome⟩
    · exact .removed (.kept hkept)
    · exact .keyExchange rfl hreader houtcome
  | rest _ h =>
    rcases kept_or_expelled_of_finish h with ⟨hkept, -⟩ | ⟨ps, -, rfl⟩
    · exact .removed (.kept hkept)
    · exact .expelled rfl
  | read _ _ h => exact .removed (.kept (kept_readMessage h))
  | push _ h =>
    rw [JoinSession.pushMaliciousInfo_eq ch _ (mu_of_pushMaliciousInfo h)] at h
    cases h
    exact .expelled rfl
  | remove hreader => exact .removed ⟨_, by simp [System.leaving, hreader], (Kept.refl _).removePeer _⟩
  | readError _ hpeer h => exact .removed (.of_readError hpeer h)
  | writeError _ hpeer h => exact .removed (.of_writeError hpeer h)

/-! ### Runs -/

/-- The states a session can get to when every step meets a condition. -/
inductive ReachableBy (pkgs : Packages) (meets : Choices → System → Event → Prop) : System → Prop
  | start (sessionId roundTimeOut : ℕ) (serverPublish : Bool) (queue : List (ℕ × ℕ))
      (hconn : (queue.map Prod.fst).Nodup) (hid : (queue.map Prod.snd).Nodup) :
      ReachableBy pkgs meets (.start (newJoinSession sessionId roundTimeOut serverPublish (queuePeers queue)))
  | step {s s' : System} {ch : Choices} {ev : Event} (hs : ReachableBy pkgs meets s) (hmeets : meets ch s ev)
      (h : s.step pkgs ch ev = some s') : ReachableBy pkgs meets s'

/-- The next step of a run that is given event by event. -/
theorem ReachableBy.onward {pkgs : Packages} {meets : Choices → System → Event → Prop} {s s' : System}
    (hs : ReachableBy pkgs meets s) (ch : Choices) (ev : Event) (hmeets : meets ch s ev)
    (h : s.step pkgs ch ev = some s') : ReachableBy pkgs meets s' := hs.step hmeets h

theorem Reachable.run {pkgs : Packages} {s s' : System} (hs : Reachable pkgs s) {l : List (Choices × Event)}
    (h : s.run pkgs l = some s') : Reachable pkgs s' := by
  induction l generalizing s with
  | nil =>
    cases h
    exact hs
  | cons e l ih =>
    obtain ⟨s₁, hstep, hrun⟩ := Option.bind_eq_some_iff.mp h
    exact ih (hs.step hstep) hrun

/-- A run that is evaluated reaches a state. -/
theorem Reachable.of_any {pkgs : Packages} {s : System} (hs : Reachable pkgs s) {l : List (Choices × Event)}
    {p : System → Bool} (h : (s.run pkgs l).any p = true) : ∃ s', Reachable pkgs s' ∧ p s' = true := by
  cases hrun : s.run pkgs l with
  | none =>
    rw [hrun] at h
    cases h
  | some s' =>
    rw [hrun] at h
    exact ⟨s', hs.run hrun, h⟩

theorem ReachableBy.reachable {pkgs : Packages} {meets : Choices → System → Event → Prop} {s : System}
    (hs : ReachableBy pkgs meets s) : Reachable pkgs s := by
  induction hs with
  | start sessionId roundTimeOut serverPublish queue hconn hid =>
    exact .start sessionId roundTimeOut serverPublish queue hconn hid
  | step _ _ h ih => exact .step ih h

/-- A run that stops before a step that does not meet the condition. -/
def System.runBy (pkgs : Packages) (meets : Choices → System → Event → Prop) [∀ ch s ev, Decidable (meets ch s ev)]
    (s : System) : List (Choices × Event) → Option System
  | [] => some s
  | (ch, ev) :: rest =>
    if meets ch s ev then (s.step pkgs ch ev).bind fun s' => runBy pkgs meets s' rest else none

theorem ReachableBy.run {pkgs : Packages} {meets : Choices → System → Event → Prop}
    [∀ ch s ev, Decidable (meets ch s ev)] {s s' : System} (hs : ReachableBy pkgs meets s) {l : List (Choices × Event)}
    (h : s.runBy pkgs meets l = some s') : ReachableBy pkgs meets s' := by
  induction l generalizing s with
  | nil =>
    cases h
    exact hs
  | cons e l ih =>
    rw [System.runBy] at h
    split_ifs at h with hmeets
    obtain ⟨s₁, hstep, hrun⟩ := Option.bind_eq_some_iff.mp h
    exact ih (hs.step hmeets hstep) hrun

/-- A run that is evaluated with its condition. -/
theorem ReachableBy.of_any {pkgs : Packages} {meets : Choices → System → Event → Prop}
    [∀ ch s ev, Decidable (meets ch s ev)] {s : System} (hs : ReachableBy pkgs meets s) {l : List (Choices × Event)}
    {p : System → Bool} (h : (s.runBy pkgs meets l).any p = true) : ∃ s', ReachableBy pkgs meets s' ∧ p s' = true := by
  cases hrun : s.runBy pkgs meets l with
  | none =>
    rw [hrun] at h
    cases h
  | some s' =>
    rw [hrun] at h
    exact ⟨s', hs.run hrun, h⟩

/-- Every peer of the map is stored under its id, and the entries of its xor vector
have the size of a script. -/
structure WellFormed (js : JoinSession) : Prop where
  keyed : JoinSession.WellKeyed js.peers
  xorSized : ∀ p peer, js.peers.lookup p = some peer → ∀ msg ∈ peer.dcXorVector, msg.length = pkScriptSize

theorem WellFormed.kept {ps : List ℕ} {js js' : JoinSession} (hwf : WellFormed js) (h : Kept ps js js') : WellFormed js' where
  keyed p peer' hp := by
    obtain ⟨peer, hpeer, hsame⟩ := h.member hp
    exact hsame.id.trans (hwf.keyed p peer hpeer)
  xorSized p peer' hp msg hmsg := by
    obtain ⟨peer, hpeer, hsame⟩ := h.member hp
    exact (hsame.xor msg hmsg).elim (hwf.xorSized p peer hpeer msg) id

theorem WellFormed.announce {js : JoinSession} (hwf : WellFormed js) (req : KeyExchangeReq) (peer : PeerInfo) :
    WellFormed (announce req peer js) := by
  have hlookup : ∀ {p peer'}, (Coinjoin.announce req peer js).peers.lookup p = some peer' →
      ∃ old, js.peers.lookup p = some old ∧ peer'.id = old.id ∧ peer'.dcXorVector = old.dcXorVector := by
    intro p peer' hp
    rw [Coinjoin.announce, JoinSession.setPeer, GoMap.modify, GoMap.lookup_mapVal, Option.map_eq_some_iff] at hp
    obtain ⟨old, hold, rfl⟩ := hp
    refine ⟨old, hold, ?_⟩
    split_ifs <;> exact ⟨rfl, rfl⟩
  constructor
  · intro p peer' hp
    obtain ⟨old, hold, hid, -⟩ := hlookup hp
    exact hid.trans (hwf.keyed p old hold)
  · intro p peer' hp
    obtain ⟨old, hold, -, hxor⟩ := hlookup hp
    rw [hxor]
    exact hwf.xorSized p old hold

theorem WellFormed.expelled {js : JoinSession} (hwf : WellFormed js) (ch : Choices) (ps : List ℕ) :
    WellFormed (js.expelled ch ps) := by
  rw [JoinSession.expelled]
  split
  · exact hwf.kept ((Kept.refl js).removePeers ps)
  · have hnew : ∀ {p peer}, (JoinSession.newPeers ((js.removePeers ps).renewed ch)).lookup p = some peer →
        peer.id = p ∧ peer.dcXorVector = [] := by
      intro p peer hp
      obtain ⟨new, hmem, heq⟩ := List.mem_map.mp (GoMap.mem_of_lookup_ofList hp)
      cases heq
      obtain ⟨⟨old, i⟩, -, rfl⟩ := List.mem_map.mp hmem
      exact ⟨rfl, rfl⟩
    refine ⟨fun p peer hp => (hnew hp).1, fun p peer hp => ?_⟩
    rw [(hnew hp).2]
    simp

theorem WellFormed.effect {pkgs : Packages} {ch : Choices} {s : System} {ev : Event} {js' : JoinSession}
    (hwf : WellFormed s.session) (h : Effect pkgs ch s ev js') : WellFormed js' := by
  cases h with
  | removed h =>
    obtain ⟨_, -, hkept⟩ := h
    exact hwf.kept hkept
  | expelled h => exact h ▸ hwf.expelled ch _
  | keyExchange _ _ h =>
    cases h with
    | stranger => exact hwf
    | invalid => exact hwf.kept ((Kept.refl _).removePeer _)
    | waiting => exact hwf.announce _ _
    | unmarshalled => exact (hwf.announce _ _).kept ((Kept.refl _).removePeer _)
    | complete => exact (hwf.announce _ _).kept ((Kept.refl _).congr rfl rfl rfl)

theorem Reachable.wellFormed {pkgs : Packages} {s : System} (hs : Reachable pkgs s) : WellFormed s.session := by
  induction hs with
  | start sessionId roundTimeOut serverPublish queue =>
    refine ⟨fun p peer hp => ?_, fun p peer hp => ?_⟩
    all_goals
      obtain ⟨conn, -, rfl⟩ := lookup_newJoinSession sessionId roundTimeOut serverPublish hp
    · rfl
    · simp [newPeer]
  | step _ h ih => exact ih.effect (effect_of_stepped (stepped_of_step h))

end Dcrtxmatcher.Coinjoin
