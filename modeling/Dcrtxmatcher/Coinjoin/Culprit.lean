import Dcrtxmatcher.Coinjoin.Reference
import Dcrtxmatcher.Coinjoin.Steps

/-! What becomes of a member that sends something invalid.

The handlers answer in three ways: the sender is removed, and past the key exchange
the session restarts without it (`expel`); the loop is left (`break LOOP`); or
nothing happens to the sender at all. Only the first is what invalid messages call
for, and a restart keeps everybody else only if the ids it draws are distinct. -/
namespace Dcrtxmatcher.Coinjoin
open Lib

/-! ### Members -/

/-- The connections of the members. -/
def JoinSession.conns (js : JoinSession) : List ℕ := (GoMap.toList js.peers).map fun e => e.2.conn

theorem JoinSession.length_conns (js : JoinSession) : js.conns.length = GoMap.len js.peers := by
  rw [conns, List.length_map, GoMap.length_toList]

theorem conns_perm_of_kept {js js' : JoinSession} (h : Kept [] js js') : js'.conns.Perm js.conns := by
  refine (GoMap.map_toList_perm fun p => ?_).symm
  have hstay := h.stay p List.not_mem_nil
  generalize js.peers.lookup p = a at hstay ⊢
  generalize js'.peers.lookup p = b at hstay ⊢
  cases hstay with
  | none => rfl
  | some hsame => exact congrArg some hsame.conn.symm

theorem conns_removePeer {js : JoinSession} {p : ℕ} {peer : PeerInfo} (hp : js.peers.lookup p = some peer) :
    (peer.conn :: (js.removePeer p).conns).Perm js.conns := by
  have herase : (js.removePeer p).peers = js.peers.erase p := by rw [JoinSession.removePeer, hp]
  rw [JoinSession.conns, herase]
  exact (GoMap.toList_erase hp).map fun e => e.2.conn

/-- The ids a restart draws for so many survivors are distinct. -/
def FreshIds (ch : Choices) (survivors : ℕ) : Prop := ((List.range survivors).map fun i => ch.genId (i + 1)).Nodup

instance (ch : Choices) (survivors : ℕ) : Decidable (FreshIds ch survivors) := by
  unfold FreshIds
  infer_instance

theorem ids_renewed (ch : Choices) (js : JoinSession) :
    (js.renewed ch).map (·.id) = (List.range (GoMap.len js.peers)).map fun i => ch.genId (i + 1) := by
  rw [JoinSession.renewed, List.map_map,
    show ((fun peer : PeerInfo => peer.id) ∘ fun e : PeerInfo × ℕ => e.1.resetData (ch.genId (e.2 + 1)) (ch.genId 0)) =
      (fun i => ch.genId (i + 1)) ∘ Prod.snd from rfl,
    ← List.map_map, List.zipIdx_map_snd, GoMap.values, List.length_map, GoMap.length_range, List.range_eq_range']

theorem conns_renewed (ch : Choices) (js : JoinSession) : ((js.renewed ch).map (·.conn)).Perm js.conns := by
  rw [JoinSession.renewed, List.map_map,
    show ((fun peer : PeerInfo => peer.conn) ∘ fun e : PeerInfo × ℕ => e.1.resetData (ch.genId (e.2 + 1)) (ch.genId 0)) =
      (fun peer : PeerInfo => peer.conn) ∘ Prod.fst from rfl,
    ← List.map_map, List.zipIdx_map_fst]
  exact ((GoMap.values_perm ch.order [128] js.peers).map _).trans (.of_eq (List.map_map ..))

/-- A restart keeps all members if and only if the new ids are distinct. -/
theorem conns_restart_iff (ch : Choices) (ps : List ℕ) (js : JoinSession) :
    (js.restart ch ps).conns.Perm js.conns ↔ FreshIds ch (GoMap.len js.peers) := by
  have hkeys : ((js.renewed ch).map fun peer => (peer.id, peer)).map Prod.fst =
      (List.range (GoMap.len js.peers)).map fun i => ch.genId (i + 1) := by
    rw [List.map_map]
    exact ids_renewed ch js
  have hlen : (js.renewed ch).length = GoMap.len js.peers := by
    rw [← List.length_map (f := (·.conn)), (conns_renewed ch js).length_eq, JoinSession.length_conns]
  constructor
  · intro hperm
    rw [FreshIds, ← hkeys]
    refine GoMap.nodup_of_len_ofList ?_
    rw [List.length_map, hlen, ← JoinSession.length_conns, ← hperm.length_eq, JoinSession.length_conns]
    rfl
  · intro hfresh
    rw [FreshIds, ← hkeys] at hfresh
    refine List.Perm.trans ?_ (conns_renewed ch js)
    exact ((GoMap.toList_ofList hfresh).map fun e => e.2.conn).trans (.of_eq (List.map_map ..))

/-! ### Removing the culprit -/

/-- Whether a peer has nothing but its connection, its ids and the ticket price. -/
def Cleared (peer : PeerInfo) : Prop := peer.resetData peer.id peer.sessionId = peer

/-- The peer and nobody else is removed, the loop runs on, and a session past the key
exchange is back there with all data of the rounds cleared. -/
def Culled (js : JoinSession) (peer : PeerInfo) (r : Except Fault (Bool × JoinSession)) : Prop :=
  ∃ js', r = .ok (true, js') ∧ (peer.conn :: js'.conns).Perm js.conns ∧
    (js.state ≠ .keyExchange → js'.state = .keyExchange ∧ js'.peersMsgInfo = [] ∧ js'.joinedTx = none ∧
      js'.totalMsg = 0 ∧ ∀ p peer', js'.peers.lookup p = some peer' → Cleared peer')

section Culled
variable {ch : Choices} {js js' : JoinSession} {p : ℕ} {peer : PeerInfo} {d : Done}

/-- Breaking ends the loop. -/
theorem not_culled_break (hexit : d.exit = .breakLoop) : ¬Culled js peer (finish ch d js') := by
  rintro ⟨js'', h, -⟩
  cases hmu : js'.mu with
  | true =>
    rw [finish_held ch d hmu] at h
    split_ifs at h
    · simp at h
    · simp [hexit] at h
  | false =>
    rw [finish_free ch d hmu] at h
    split_ifs at h
    simp [hexit] at h

/-- Without a push everybody stays. -/
theorem not_culled_kept (hkept : Kept [] js js') (hpush : d.push = none) : ¬Culled js peer (finish ch d js') := by
  rintro ⟨js'', h, hperm, -⟩
  have hpeers : js''.peers = js'.peers := by
    cases hmu : js'.mu with
    | true =>
      rw [finish_held ch d hmu] at h
      split_ifs at h
      · rw [Except.ok.injEq, Prod.mk.injEq] at h
        exact absurd h.1 (by simp)
      · rw [Except.ok.injEq, Prod.mk.injEq] at h
        rw [h.2]
    | false =>
      rw [finish_free ch d hmu] at h
      split_ifs at h
      rw [Except.ok.injEq, Prod.mk.injEq] at h
      rw [← h.2, Done.pushed, hpush]
      rfl
  have hlen := hperm.length_eq
  rw [← (conns_perm_of_kept hkept).length_eq, List.length_cons, JoinSession.conns, JoinSession.conns, hpeers] at hlen
  omega

/-- A push of the sender removes just it if and only if the new ids are distinct. -/
theorem culled_push_iff (hkept : Kept [] js js') (hmu : js'.mu = false) (hp : js.peers.lookup p = some peer)
    (hlen : 2 ≤ GoMap.len js.peers) :
    Culled js peer (finish ch ⟨some [p], .next⟩ js') ↔ FreshIds ch (GoMap.len js.peers - 1) := by
  obtain ⟨peer', hp', hsame⟩ := hkept.kept hp List.not_mem_nil
  have hconns : (peer.conn :: (js'.removePeer p).conns).Perm js.conns :=
    hsame.conn ▸ (conns_removePeer hp').trans (conns_perm_of_kept hkept)
  have hsurvivors : GoMap.len (js'.removePeer p).peers = GoMap.len js.peers - 1 := by
    have h := hconns.length_eq
    rw [List.length_cons, JoinSession.length_conns, JoinSession.length_conns] at h
    omega
  have hexpelled : js'.expelled ch [p] = (js'.removePeer p).restart ch [p] := by
    rw [JoinSession.expelled, if_neg]
    · rfl
    · show GoMap.len (js'.removePeer p).peers ≠ 0
      omega
  have hfinish : finish ch ⟨some [p], .next⟩ js' =
      .ok (decide (GoMap.len ((js'.removePeer p).restart ch [p]).peers ≠ 0), (js'.removePeer p).restart ch [p]) := by
    rw [finish_free ch _ hmu, if_neg (by simp), Done.pushed, ← hexpelled]
    simp
  have hrestart := conns_restart_iff ch [p] (js'.removePeer p)
  rw [hsurvivors] at hrestart
  rw [hfinish, ← hrestart]
  constructor
  · rintro ⟨js'', h, hperm, -⟩
    rw [Except.ok.injEq, Prod.mk.injEq] at h
    rw [h.2]
    exact (List.perm_cons _).mp (hperm.trans hconns.symm)
  · intro hperm
    refine ⟨_, ?_, (hperm.cons _).trans hconns, fun _ => ⟨rfl, rfl, rfl, rfl, fun q new hq => ?_⟩⟩
    · have h := hperm.length_eq
      rw [JoinSession.length_conns, JoinSession.length_conns, hsurvivors] at h
      rw [decide_eq_true (by omega)]
    · obtain ⟨old, hmem, heq⟩ := List.mem_map.mp (GoMap.mem_of_lookup_ofList hq)
      cases heq
      obtain ⟨⟨old, i⟩, -, rfl⟩ := List.mem_map.mp hmem
      rfl

end Culled

/-! ### Invalid messages -/

/-- One of the entries is zero. -/
def HasZero (pkgs : Packages) (data : DcVector) : Prop :=
  ∃ i < data.len, ∃ b, slice (data.vector ++ data.spare) (i * pkScriptHashSize) ((i + 1) * pkScriptHashSize) = .ok b ∧
    newFF pkgs b = 0

/-- The inputs spend less than what goes out. -/
def Overspends (peer : PeerInfo) (txins : TxInputs) (tx : MsgTx) : Prop :=
  ∃ change outs, tx.txOut = change :: outs ∧
    dcr (sumInputs 0 tx.txIn).1 < dcr (wrap64 (change.value + wrap64 (peer.numMsg * txins.ticketPrice)))

/-- One of the peer's inputs is not the submitted one with a signature. -/
def Mismatched (peer : PeerInfo) (tx : MsgTx) : Prop :=
  ∃ i idx : ℕ, peer.inputIndex[i]? = some idx ∧ ∀ signed sent : TxIn, tx.txIn[idx]? = some signed →
    peer.ownInputs[i]? = some sent → signed.valueIn ≠ sent.valueIn ∨ signed.previousOutPoint.hash ≠ sent.previousOutPoint.hash ∨
      signed.previousOutPoint.index ≠ sent.previousOutPoint.index ∨ signed.signatureScript = []

/-- What the handlers test for. -/
def Invalid (pkgs : Packages) (peer : PeerInfo) : ClientMessage → Prop
  | .keyExchange req => pkgs.unmarshal req.pk = false
  | .dcExpVector data => data.vector.length < pkScriptHashSize * 2 ∨ HasZero pkgs data
  | .dcXorVector data => data.vector.length < pkScriptSize * 2
  | .txInputs txins =>
    txins.ticketPrice ≤ 0 ∨ pkgs.btcDecode txins.txins = none ∨
      ∃ tx, pkgs.btcDecode txins.txins = some tx ∧
        ((∃ txin ∈ tx.txIn, txin.signatureScript ≠ []) ∨ Overspends peer txins tx)
  | .txSigned signedTx =>
    pkgs.btcDecode signedTx.tx = none ∨ ∃ tx, pkgs.btcDecode signedTx.tx = some tx ∧ Mismatched peer tx
  | _ => False

/-- Which invalid messages have the sender removed: a key, an exponential vector that
is long enough, and a first signed transaction with a mismatch before an index that
is out of range. Past the key exchange the new ids have to be distinct. -/
def Caught (pkgs : Packages) (ch : Choices) (js : JoinSession) (peer : PeerInfo) : ClientMessage → Prop
  | .keyExchange _ => True
  | .dcExpVector data => ¬data.vector.length < pkScriptHashSize * 2 ∧ FreshIds ch (GoMap.len js.peers - 1)
  | .txSigned signedTx =>
    (∃ tx, pkgs.btcDecode signedTx.tx = some tx ∧ peer.signedTx = none ∧
      invalidInput tx peer.ownInputs 0 peer.inputIndex = .ok true) ∧ FreshIds ch (GoMap.len js.peers - 1)
  | _ => False

/-- The entries are read up to the first zero. -/
theorem readEntries_of_zero {pkgs : Packages} {peerId : ℕ} {buf : Bytes} {i n k : ℕ} {b : Bytes} (hk : k < n)
    (hslice : slice buf ((i + k) * pkScriptHashSize) ((i + k + 1) * pkScriptHashSize) = .ok b) (hzero : newFF pkgs b = 0) :
    ∃ vector err, readEntries pkgs peerId buf i n = .ok (vector, some err) := by
  induction n generalizing i k with
  | zero => omega
  | succ n ih =>
    have hbounds : (i + k + 1) * pkScriptHashSize ≤ buf.length := by
      rw [slice] at hslice
      split_ifs at hslice with h
      exact h.2
    have hfirst : slice buf (i * pkScriptHashSize) ((i + 1) * pkScriptHashSize) =
        .ok ((buf.take ((i + 1) * pkScriptHashSize)).drop (i * pkScriptHashSize)) := by
      rw [slice, if_pos]
      refine ⟨Nat.mul_le_mul_right _ (Nat.le_succ i), le_trans (Nat.mul_le_mul_right _ ?_) hbounds⟩
      omega
    rw [readEntries, hfirst, ok_bind]
    dsimp only
    split_ifs with hff
    · exact ⟨[], _, rfl⟩
    · cases k with
      | zero =>
        rw [add_zero, hfirst, Except.ok.injEq] at hslice
        exact absurd (hslice ▸ hzero) hff
      | succ k =>
        rw [← add_assoc, add_right_comm i k 1] at hslice
        obtain ⟨vector, err, hrest⟩ := ih (Nat.lt_of_succ_lt_succ hk) hslice
        exact ⟨_ :: vector, err, by rw [hrest]; rfl⟩

section Messages
variable {pkgs : Packages} {ch : Choices} {js : JoinSession} {peer : PeerInfo}

/-- A message through the loop, for what its case has ended in. -/
theorem deliver_eq {msg : ClientMessage} {d : Done} {js' : JoinSession} (h : handle pkgs ch js msg = .ok (d, js')) :
    deliver pkgs ch msg js = finish ch d js' := by
  rw [deliver, h]
  rfl

theorem not_culled_fault {msg : ClientMessage} {f : Fault} (h : handle pkgs ch js msg = .error f) :
    ¬Culled js peer (deliver pkgs ch msg js) := by
  rw [deliver, h]
  rintro ⟨_, h, -⟩
  cases h

/-- A break out of the loop, with the mutex or without. -/
theorem not_culled_of_break {msg : ClientMessage} {d : Done} {js' : JoinSession} (h : handle pkgs ch js msg = .ok (d, js'))
    (hexit : d.exit = .breakLoop) : ¬Culled js peer (deliver pkgs ch msg js) := by
  rw [deliver_eq h]
  exact not_culled_break hexit

/-- Going on with everybody. -/
theorem not_culled_of_next {msg : ClientMessage} {js' : JoinSession} (h : handle pkgs ch js msg = .ok (.next, js'))
    (hkept : Kept [] js js') : ¬Culled js peer (deliver pkgs ch msg js) := by
  rw [deliver_eq h]
  exact not_culled_kept hkept rfl

theorem culled_keyExchange {req : KeyExchangeReq} (hmu : js.mu = false) (hstate : js.state = .keyExchange)
    (hp : js.peers.lookup req.peerId = some peer) (hlen : 2 ≤ GoMap.len js.peers) (hpk : pkgs.unmarshal req.pk = false) :
    Culled js peer (deliver pkgs ch (.keyExchange req) js) := by
  have hconns := conns_removePeer hp
  have houtcome := handle_outcome pkgs ch (.keyExchange req) hmu
  generalize hr : handle pkgs ch js (.keyExchange req) = r at houtcome
  change KeyExchangeOutcome pkgs ch req js r at houtcome
  cases houtcome with
  | stranger hnone =>
    rw [hp] at hnone
    cases hnone
  | invalid =>
    rw [deliver_eq hr, finish_free ch _ (by simpa), if_neg (by simp [Done.next])]
    refine ⟨js.removePeer req.peerId, ?_, hconns, fun h => absurd hstate h⟩
    have hlen' := hconns.length_eq
    rw [List.length_cons, JoinSession.length_conns, JoinSession.length_conns] at hlen'
    rw [decide_eq_true ⟨rfl, show GoMap.len (js.removePeer req.peerId).peers ≠ 0 by omega⟩]
    rfl
  | waiting _ hvalid => exact absurd (hpk.symm.trans hvalid) (by simp)
  | unmarshalled _ hvalid => exact absurd (hpk.symm.trans hvalid) (by simp)
  | complete _ hvalid => exact absurd (hpk.symm.trans hvalid) (by simp)

theorem culled_dcExpVector_iff {data : DcVector} (hmu : js.mu = false) (hkeyed : JoinSession.WellKeyed js.peers)
    (hp : js.peers.lookup data.peerId = some peer) (hlen : 2 ≤ GoMap.len js.peers)
    (hinvalid : data.vector.length < pkScriptHashSize * 2 ∨ HasZero pkgs data) :
    Culled js peer (deliver pkgs ch (.dcExpVector data) js) ↔
      ¬data.vector.length < pkScriptHashSize * 2 ∧ FreshIds ch (GoMap.len js.peers - 1) := by
  have hzero : ¬data.vector.length < pkScriptHashSize * 2 →
      ∃ vector err, readEntries pkgs peer.id (data.vector ++ data.spare) 0 data.len = .ok (vector, some err) := by
    intro hsize
    obtain ⟨i, hi, b, hslice, hb⟩ := hinvalid.resolve_left hsize
    exact readEntries_of_zero hi (by simpa using hslice) hb
  have houtcome := handle_outcome pkgs ch (.dcExpVector data) hmu
  generalize hr : handle pkgs ch js (.dcExpVector data) = r at houtcome
  change DcExpOutcome pkgs ch data js r at houtcome
  cases houtcome with
  | stranger hnone =>
    rw [hp] at hnone
    cases hnone
  | short _ hshort => exact iff_of_false (not_culled_of_break hr rfl) fun h => h.1 hshort
  | panic hp' hsize hread =>
    cases hp.symm.trans hp'
    obtain ⟨vector, err, hok⟩ := hzero hsize
    cases hread.symm.trans hok
  | @rejected _ _ err hp' hsize =>
    cases hp.symm.trans hp'
    have hkept : Kept [] js { js with errm := err.or js.errm } := (Kept.refl js).congr rfl rfl rfl
    rw [deliver_eq hr, hkeyed _ _ hp, culled_push_iff hkept hmu hp hlen]
    exact (and_iff_right hsize).symm
  | waiting hp' hsize hread =>
    cases hp.symm.trans hp'
    obtain ⟨vector, err, hok⟩ := hzero hsize
    cases hread.symm.trans hok
  | ended hp' hsize hread =>
    cases hp.symm.trans hp'
    obtain ⟨vector, err, hok⟩ := hzero hsize
    cases hread.symm.trans hok

theorem not_culled_dcXorVector {data : DcVector} (hmu : js.mu = false) (hshort : data.vector.length < pkScriptSize * 2) :
    ¬Culled js peer (deliver pkgs ch (.dcXorVector data) js) := by
  have houtcome := handle_outcome pkgs ch (.dcXorVector data) hmu
  generalize hr : handle pkgs ch js (.dcXorVector data) = r at houtcome
  change DcXorOutcome pkgs ch data js r at houtcome
  cases houtcome with
  | short => exact not_culled_of_break hr rfl
  | panic hsize => exact absurd hshort hsize
  | stranger _ hsize => exact absurd hshort hsize
  | waiting _ hsize => exact absurd hshort hsize
  | failed _ hsize => exact absurd hshort hsize
  | complete _ hsize => exact absurd hshort hsize

/-- No inputs have their sender removed. -/
theorem not_culled_txInputs {txins : TxInputs} (hmu : js.mu = false) :
    ¬Culled js peer (deliver pkgs ch (.txInputs txins) js) := by
  have houtcome := handle_outcome pkgs ch (.txInputs txins) hmu
  generalize hr : handle pkgs ch js (.txInputs txins) = r at houtcome
  change TxInputsOutcome pkgs ch txins js r at houtcome
  cases houtcome with
  | stranger => exact not_culled_of_next hr (.refl js)
  | unpriced => exact not_culled_of_break hr rfl
  | undecodable => exact not_culled_of_break hr rfl
  | panic => exact not_culled_fault hr
  | overspent => exact not_culled_of_next hr ((kept_storeInputs ..).congr rfl rfl rfl)
  | waiting => exact not_culled_of_next hr (kept_storeInputs ..)
  | joined _ _ _ _ _ _ hjoined =>
    cases hjoined with
    | panic => exact not_culled_fault hr
    | failed => exact not_culled_of_break hr rfl
    | sent hbuild =>
      exact not_culled_of_next hr (((kept_storeInputs _ _ js).trans (kept_buildJoinedTx hbuild)).congr rfl rfl rfl)

theorem culled_txSigned_iff {signedTx : JoinTx} (hmu : js.mu = false) (hkeyed : JoinSession.WellKeyed js.peers)
    (hp : js.peers.lookup signedTx.peerId = some peer) (hlen : 2 ≤ GoMap.len js.peers) :
    Culled js peer (deliver pkgs ch (.txSigned signedTx) js) ↔
      (∃ tx, pkgs.btcDecode signedTx.tx = some tx ∧ peer.signedTx = none ∧
        invalidInput tx peer.ownInputs 0 peer.inputIndex = .ok true) ∧ FreshIds ch (GoMap.len js.peers - 1) := by
  have houtcome := handle_outcome pkgs ch (.txSigned signedTx) hmu
  generalize hr : handle pkgs ch js (.txSigned signedTx) = r at houtcome
  change TxSignedOutcome pkgs ch signedTx js r at houtcome
  cases houtcome with
  | stranger hnone =>
    rw [hp] at hnone
    cases hnone
  | undecodable _ hdecode =>
    refine iff_of_false (not_culled_of_break hr rfl) ?_
    rintro ⟨⟨tx, htx, -⟩, -⟩
    rw [hdecode] at htx
    cases htx
  | again hp' _ hsigned =>
    cases hp.symm.trans hp'
    refine iff_of_false (not_culled_of_next hr (.refl js)) ?_
    rintro ⟨⟨tx, -, hnone, -⟩, -⟩
    rw [hnone] at hsigned
    cases hsigned
  | panic hp' hdecode hpanic =>
    cases hp.symm.trans hp'
    refine iff_of_false (not_culled_fault hr) ?_
    rintro ⟨⟨tx, htx, -, hinvalid⟩, -⟩
    cases hdecode.symm.trans htx
    exact absurd (hpanic _ hinvalid).1 (by simp)
  | @invalid peer' tx hp' hdecode hsigned hinvalid =>
    cases hp.symm.trans hp'
    rw [deliver_eq hr, hkeyed _ _ hp, culled_push_iff (kept_storeSigned ..) hmu hp hlen]
    exact (and_iff_right ⟨tx, hdecode, Option.not_isSome_iff_eq_none.mp hsigned, hinvalid⟩).symm
  | @waiting _ tx _ hp' hdecode _ hvalid hmerge =>
    cases hp.symm.trans hp'
    refine iff_of_false (not_culled_of_next hr (kept_mergeSigned (kept_storeSigned ..) hmerge)) ?_
    rintro ⟨⟨tx, htx, -, hinvalid⟩, -⟩
    cases hdecode.symm.trans htx
    cases hvalid.symm.trans hinvalid
  | ended hp' hdecode _ hvalid hmerge _ hpublish =>
    cases hp.symm.trans hp'
    have hkept := kept_mergeSigned (kept_storeSigned ..) hmerge
    refine iff_of_false ?_ ?_
    · cases hpublish with
      | panic => exact not_culled_fault hr
      | unencodable => exact not_culled_of_break hr rfl
      | published => exact not_culled_of_break hr rfl
      | unmarshalled => exact not_culled_of_break hr rfl
      | delegated => exact not_culled_of_next hr (hkept.congr rfl rfl rfl)
    · rintro ⟨⟨tx, htx, -, hinvalid⟩, -⟩
      cases hdecode.symm.trans htx
      cases hvalid.symm.trans hinvalid

end Messages

/-- **Who is removed for an invalid message.** In a reachable session of at least two
members a member that sends one in its state is removed, and nobody else, and the
session goes on without what it sent, if and only if the message is caught. -/
theorem culprit_removed_iff {pkgs : Packages} {s : System} (hs : Reachable pkgs s) (hmu : s.session.mu = false)
    (ch : Choices) (msg : ClientMessage) {peer : PeerInfo} (hp : s.session.peers.lookup msg.peerId = some peer)
    (hlen : 2 ≤ GoMap.len s.session.peers) (hstate : msg.kind.validIn s.session.state = true)
    (hinvalid : Invalid pkgs peer msg) :
    Culled s.session peer (deliver pkgs ch msg s.session) ↔ Caught pkgs ch s.session peer msg := by
  have hkeyed := hs.wellFormed.keyed
  cases msg with
  | keyExchange req =>
    exact iff_of_true (culled_keyExchange hmu (by simpa [ClientMessage.kind, Kind.validIn] using hstate) hp hlen hinvalid)
      trivial
  | dcExpVector data => exact culled_dcExpVector_iff hmu hkeyed hp hlen hinvalid
  | dcXorVector data => exact iff_of_false (not_culled_dcXorVector hmu hinvalid) id
  | txInputs txins => exact iff_of_false (not_culled_txInputs hmu) id
  | txSigned signedTx => exact culled_txSigned_iff hmu hkeyed hp hlen
  | _ => exact hinvalid.elim

/-- The run in which two peers exchange their keys. -/
def exchangeKeys : List (Choices × Event) :=
  [(plainChoices id, .read 1 (.message (.keyExchange ⟨0, [5], 1⟩))), (plainChoices id, .deliver 1), (plainChoices id, .rest),
    (plainChoices id, .read 2 (.message (.keyExchange ⟨0, [6], 1⟩))), (plainChoices id, .deliver 2), (plainChoices id, .rest)]

def zeroVector : ClientMessage := .dcExpVector ⟨1, 2, List.replicate 32 0, []⟩

def shortVector : ClientMessage := .dcExpVector ⟨1, 1, List.replicate 16 1, []⟩

/-- A vector of zeros has its sender removed. -/
theorem culprit_removed_iff_zeros : ∃ (s : System) (peer : PeerInfo), s.session.peers.lookup 1 = some peer ∧
    Culled s.session peer (deliver plainPackages (plainChoices id) zeroVector s.session) := by
  have hs : Reachable plainPackages _ :=
    (Reachable.start 7 60 false [(1, 1), (2, 2)] (by decide) (by decide)).run (l := exchangeKeys) rfl
  refine ⟨_, _, rfl, (culprit_removed_iff hs rfl (plainChoices id) zeroVector rfl (by decide) (by decide) ?_).mpr ?_⟩
  · exact .inr ⟨0, by decide, List.replicate 16 0, by decide, by decide⟩
  · exact ⟨by decide, by decide⟩

/-- **A short vector ends the session**: the loop does not run on for the other peer. -/
theorem shortVector_ends : ∃ (s : System) (peer : PeerInfo), Reachable plainPackages s ∧ s.session.mu = false ∧
    s.session.peers.lookup 1 = some peer ∧ GoMap.len s.session.peers = 2 ∧
    shortVector.kind.validIn s.session.state = true ∧ Invalid plainPackages peer shortVector ∧
    ¬Culled s.session peer (deliver plainPackages (plainChoices id) shortVector s.session) := by
  refine ⟨_, _, (Reachable.start 7 60 false [(1, 1), (2, 2)] (by decide) (by decide)).run (l := exchangeKeys) rfl, rfl, rfl,
    by decide, by decide, .inl (by decide), not_culled_of_break (d := ⟨some [1], .breakLoop⟩) rfl rfl⟩

end Dcrtxmatcher.Coinjoin
