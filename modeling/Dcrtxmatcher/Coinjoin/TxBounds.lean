import Dcrtxmatcher.Coinjoin.Bounds

/-! The transactions stay in bounds.

A transaction that is received is not asked for its size: the change is read off its
first output, and the inputs at the indices that the unsigned transaction gave the
sender. The joined transaction is the one of whoever signs first. -/
namespace Dcrtxmatcher.Coinjoin
open Lib

/-! ### What is to hold -/

/-- Input `idx` of the signed transaction is input `i` of the sender's own, with a signature. -/
def Unchanged (tx : MsgTx) (own : List TxIn) (i idx : ℕ) : Prop :=
  ∃ signed sent, tx.txIn[idx]? = some signed ∧ own[i]? = some sent ∧ signed.valueIn = sent.valueIn ∧
    signed.previousOutPoint.hash = sent.previousOutPoint.hash ∧
    signed.previousOutPoint.index = sent.previousOutPoint.index ∧ signed.signatureScript ≠ []

/-- A transaction of inputs that is looked into has an output. -/
def InputsFit (pkgs : Packages) (txins : TxInputs) (js : JoinSession) : Prop :=
  js.mu = false → txins.peerId ∈ js.peers.keys → 0 < txins.ticketPrice →
    ∀ tx, pkgs.btcDecode txins.txins = some tx → tx.txOut ≠ []

/-- A signed transaction has an input at each index that is compared, and the sender has
submitted one for it; if all of them are unchanged the joined transaction has them too. -/
def SignedFits (pkgs : Packages) (signedTx : JoinTx) (js : JoinSession) : Prop :=
  js.mu = false → ∀ peer tx, js.peers.lookup signedTx.peerId = some peer → pkgs.btcDecode signedTx.tx = some tx →
    peer.signedTx = none →
      (∀ n idx, peer.inputIndex[n]? = some idx →
          (∀ m < n, ∀ idx', peer.inputIndex[m]? = some idx' → Unchanged tx peer.ownInputs m idx') →
            idx < tx.txIn.length ∧ n < peer.ownInputs.length) ∧
        ((∀ n idx, peer.inputIndex[n]? = some idx → Unchanged tx peer.ownInputs n idx) →
          ∀ joinedTx, js.joinedTx = some joinedTx → ∀ idx ∈ peer.inputIndex, idx < joinedTx.txIn.length)

/-! ### Comparing and patching -/

section Loops
variable {tx : MsgTx} {own : List TxIn}

/-- The first turn of the loop. -/
theorem invalidInput_cons (i idx : ℕ) (rest : List ℕ) (hin : idx < tx.txIn.length) (hown : i < own.length) :
    (Unchanged tx own i idx ∧ invalidInput tx own i (idx :: rest) = invalidInput tx own (i + 1) rest) ∨
      (¬Unchanged tx own i idx ∧ invalidInput tx own i (idx :: rest) = .ok true) := by
  rw [invalidInput, index_of_lt hin, ok_bind, index_of_lt hown, ok_bind]
  split_ifs with hchanged
  · right
    refine ⟨?_, rfl⟩
    intro hsame
    obtain ⟨signed, sent, hsigned, hsent, hvalue, hhash, hindex, hscript⟩ := hsame
    rw [List.getElem?_eq_getElem hin, Option.some_inj] at hsigned
    rw [List.getElem?_eq_getElem hown, Option.some_inj] at hsent
    subst hsigned hsent
    simp [hvalue, hhash, hindex, hscript] at hchanged
  · left
    simp only [not_or, not_not] at hchanged
    exact ⟨⟨_, _, List.getElem?_eq_getElem hin, List.getElem?_eq_getElem hown, hchanged⟩, rfl⟩

theorem invalidInput_panic {i idx : ℕ} {rest : List ℕ} (h : ¬(idx < tx.txIn.length ∧ i < own.length)) :
    invalidInput tx own i (idx :: rest) = .error .panic := by
  rw [invalidInput]
  by_cases hin : idx < tx.txIn.length
  · have hown : own[i]? = none := by
      rw [List.getElem?_eq_none_iff]
      omega
    rw [index_of_lt hin, ok_bind, index, hown]
    rfl
  · have hnone : tx.txIn[idx]? = none := by
      rw [List.getElem?_eq_none_iff]
      omega
    rw [index, hnone]
    rfl

/-- The loop panics at the first index that is out of range, if it gets there. -/
theorem invalidInput_panic_iff {i : ℕ} {inputIndex : List ℕ} : invalidInput tx own i inputIndex = .error .panic ↔
    ∃ n idx, inputIndex[n]? = some idx ∧
      (∀ m < n, ∀ idx', inputIndex[m]? = some idx' → Unchanged tx own (i + m) idx') ∧
      ¬(idx < tx.txIn.length ∧ i + n < own.length) := by
  induction inputIndex generalizing i with
  | nil => simp [invalidInput]
  | cons idx rest ih =>
    by_cases hbounds : idx < tx.txIn.length ∧ i < own.length
    swap
    · exact iff_of_true (invalidInput_panic hbounds) ⟨0, idx, rfl, by simp, hbounds⟩
    rcases invalidInput_cons i idx rest hbounds.1 hbounds.2 with ⟨hsame, hrest⟩ | ⟨hchanged, hrest⟩
    · rw [hrest, ih]
      constructor
      · intro h
        obtain ⟨n, idx', hidx, hall, hout⟩ := h
        refine ⟨n + 1, idx', hidx, fun m hm idx'' hidx' => ?_, by rwa [← add_assoc, add_right_comm]⟩
        cases m with
        | zero =>
          cases hidx'
          exact hsame
        | succ m =>
          rw [← add_assoc, add_right_comm]
          exact hall m (by omega) idx'' hidx'
      · intro h
        obtain ⟨n, idx', hidx, hall, hout⟩ := h
        cases n with
        | zero =>
          cases hidx
          exact absurd hbounds hout
        | succ n =>
          refine ⟨n, idx', hidx, fun m hm idx'' hidx' => ?_, by rwa [add_right_comm, add_assoc]⟩
          rw [add_right_comm, add_assoc]
          exact hall (m + 1) (by omega) idx'' hidx'
    · rw [hrest]
      apply iff_of_false (by simp)
      intro h
      obtain ⟨n, idx', hidx, hall, hout⟩ := h
      cases n with
      | zero =>
        cases hidx
        exact hout hbounds
      | succ n => exact hchanged (hall 0 (Nat.succ_pos n) idx rfl)

/-- A transaction passes when each input is unchanged. -/
theorem invalidInput_false_iff {i : ℕ} {inputIndex : List ℕ} : invalidInput tx own i inputIndex = .ok false ↔
    ∀ n idx, inputIndex[n]? = some idx → Unchanged tx own (i + n) idx := by
  induction inputIndex generalizing i with
  | nil => simp [invalidInput]
  | cons idx rest ih =>
    have hsplit : (∀ n idx', (idx :: rest)[n]? = some idx' → Unchanged tx own (i + n) idx') ↔
        Unchanged tx own i idx ∧ ∀ n idx', rest[n]? = some idx' → Unchanged tx own (i + 1 + n) idx' := by
      constructor
      · intro h
        refine ⟨h 0 idx rfl, fun n idx' hidx => ?_⟩
        rw [add_assoc, add_comm 1]
        exact h (n + 1) idx' hidx
      · intro h n idx' hidx
        cases n with
        | zero =>
          cases hidx
          exact h.1
        | succ n =>
          rw [add_comm n, ← add_assoc]
          exact h.2 n idx' hidx
    rw [hsplit, ← ih]
    by_cases hbounds : idx < tx.txIn.length ∧ i < own.length
    · rcases invalidInput_cons i idx rest hbounds.1 hbounds.2 with ⟨hsame, hrest⟩ | ⟨hchanged, hrest⟩
      · rw [hrest]
        exact ⟨fun h => ⟨hsame, h⟩, And.right⟩
      · rw [hrest]
        exact iff_of_false (by simp) fun h => hchanged h.1
    · rw [invalidInput_panic hbounds]
      apply iff_of_false (by simp)
      intro h
      obtain ⟨signed, sent, hsigned, hsent, -⟩ := h.1
      exact hbounds ⟨(List.getElem?_eq_some_iff.mp hsigned).1, (List.getElem?_eq_some_iff.mp hsent).1⟩

theorem mem_txIn_of_unchanged {i : ℕ} {inputIndex : List ℕ}
    (h : ∀ n idx, inputIndex[n]? = some idx → Unchanged tx own (i + n) idx) : ∀ idx ∈ inputIndex, idx < tx.txIn.length := by
  intro idx hidx
  obtain ⟨n, hn⟩ := List.mem_iff_getElem?.mp hidx
  obtain ⟨signed, _, hsigned, -⟩ := h n idx hn
  exact (List.getElem?_eq_some_iff.mp hsigned).1

/-- The inputs are put in place when the joined transaction has these places. -/
theorem exists_patchInputs_iff {inputIndex : List ℕ} (hin : ∀ idx ∈ inputIndex, idx < tx.txIn.length) {joinedTx : MsgTx} :
    (∃ joinedTx', patchInputs tx inputIndex joinedTx = .ok joinedTx') ↔
      ∀ idx ∈ inputIndex, idx < joinedTx.txIn.length := by
  induction inputIndex generalizing joinedTx with
  | nil => simp [patchInputs]
  | cons idx rest ih =>
    rw [patchInputs, index_of_lt (hin idx (List.mem_cons_self ..)), ok_bind]
    split_ifs with hidx
    · rw [ih fun idx' hidx' => hin idx' (List.mem_cons_of_mem _ hidx')]
      simp [hidx]
    · simp [hidx]

end Loops

/-! ### The handlers -/

section Handlers
variable {pkgs : Packages} {ch : Choices} {js : JoinSession}

/-- There is a transaction to begin with when somebody is a member. -/
theorem exists_buildJoinedTx {ticketPrice : ℤ} {p : ℕ} {peer : PeerInfo} (hp : js.peers.lookup p = some peer)
    (hall : js.allSubmit (fun peer => peer.txIns.isSome) = true) : ∃ r, buildJoinedTx ch ticketPrice js = .ok r := by
  have hsome : peer.txIns.isSome = true := List.all_eq_true.mp hall (p, peer) (GoMap.mem_toList.mpr hp)
  obtain ⟨tx, htx⟩ := Option.isSome_iff_exists.mp hsome
  have hmem : (p, tx) ∈ submittedTxs ch js.peers := mem_submittedTxs.mpr ⟨peer, hp, htx⟩
  obtain ⟨⟨first, tx'⟩, rest, hvisited⟩ := List.exists_cons_of_ne_nil (List.ne_nil_of_mem hmem)
  rw [buildJoinedTx, hvisited, joinTxs_none]
  exact ⟨_, rfl⟩

theorem sendJoinedTx_in_bounds {ticketPrice : ℤ} (hmu : js.mu = true) {p : ℕ} {peer : PeerInfo}
    (hp : js.peers.lookup p = some peer) (hall : js.allSubmit (fun peer => peer.txIns.isSome) = true) :
    sendJoinedTx pkgs ch ticketPrice js ≠ .error .panic := by
  obtain ⟨⟨joinedtx, js'⟩, hbuild⟩ := @exists_buildJoinedTx ch js ticketPrice p peer hp hall
  have hmu' : js'.mu = true := (mu_buildJoinedTx hbuild).trans hmu
  rw [sendJoinedTx, hbuild, ok_bind]
  dsimp only
  cases pkgs.btcEncode joinedtx with
  | none => simp [JoinSession.failWith]
  | some tx =>
    cases hmarshal : ch.marshal [681] with
    | false => simp [JoinSession.failWith]
    | true => exact unlockAnd_ne_panic hmu'

/-- The sender stays a member with what is stored for it. -/
theorem exists_lookup_storeInputs {txins : TxInputs} {tx : MsgTx} {peer : PeerInfo}
    (hp : js.peers.lookup txins.peerId = some peer) :
    ∃ peer', (storeInputs txins tx js).peers.lookup txins.peerId = some peer' := by
  have hpeers : (storeInputs txins tx js).peers = ((storePrice txins js).setPeer txins.peerId fun peer =>
      { peer with txIns := some tx }).peers := by
    rw [storeInputs]
    split <;> rfl
  apply GoMap.lookup_of_mem_keys
  rw [hpeers]
  simpa [JoinSession.setPeer, storePrice] using GoMap.mem_keys_of_lookup hp

theorem txInputs_held (hmu : ¬js.mu = false) (txins : TxInputs) : txInputs pkgs ch txins js = .error .selfDeadlock :=
  lock_bind_held hmu _

theorem txInputs_in_bounds {txins : TxInputs} (hfits : InputsFit pkgs txins js) :
    txInputs pkgs ch txins js ≠ .error .panic := by
  by_cases hmu : js.mu = false
  swap
  · rw [txInputs_held hmu]
    simp
  rw [txInputs, js.lock_eq hmu, ok_bind, JoinSession.peers_withMu]
  cases hp : js.peers.lookup txins.peerId with
  | none => exact unlockAnd_ne_panic rfl
  | some peer =>
    dsimp only
    by_cases hprice : txins.ticketPrice ≤ 0
    · rw [if_pos hprice]
      exact unlockAnd_ne_panic rfl
    rw [if_neg hprice]
    cases hdecode : pkgs.btcDecode txins.txins with
    | none => simp [JoinSession.failWith]
    | some tx =>
      dsimp only
      have hne := hfits hmu (GoMap.mem_keys_of_lookup hp) (not_le.mp hprice) tx hdecode
      cases hout : tx.txOut with
      | nil => exact absurd hout hne
      | cons change outs =>
        change (if dcr (sumInputs 0 tx.txIn).1 < dcr (wrap64 (change.value + wrap64 (peer.numMsg * txins.ticketPrice))) then
            .ok (.next, storeInputs txins tx (js.withMu true))
          else if (storeInputs txins tx (js.withMu true)).allSubmit (fun peer => peer.txIns.isSome) then
            sendJoinedTx pkgs ch txins.ticketPrice (storeInputs txins tx (js.withMu true))
          else (storeInputs txins tx (js.withMu true)).unlockAnd .next) ≠ .error .panic
        have hmember : (js.withMu true).peers.lookup txins.peerId = some peer := hp
        obtain ⟨peer', hpeer'⟩ := @exists_lookup_storeInputs (js.withMu true) txins tx peer hmember
        split_ifs with hspend hall
        · simp
        · exact sendJoinedTx_in_bounds (by simp) hpeer' hall
        · exact unlockAnd_ne_panic (by simp)

/-- The inputs. -/
theorem txInputs_in_bounds_iff (txins : TxInputs) :
    txInputs pkgs ch txins js ≠ .error .panic ↔ InputsFit pkgs txins js := by
  refine ⟨fun hpanic hmu hmember hprice tx hdecode hout => hpanic ?_, txInputs_in_bounds⟩
  obtain ⟨peer, hp⟩ := GoMap.lookup_of_mem_keys hmember
  rw [txInputs, js.lock_eq hmu, ok_bind, JoinSession.peers_withMu, hp]
  dsimp only
  rw [if_neg (not_le.mpr hprice), hdecode]
  dsimp only
  rw [hout]

/-- Somebody is chosen when there is somebody. -/
theorem exists_selectPublisher (hkeyed : JoinSession.WellKeyed js.peers) (hlen : GoMap.len js.peers ≠ 0) (tx : Bytes)
    (seconds : ℕ) : ∃ js', js.selectPublisher ch tx seconds = .ok js' ∧ js'.mu = js.mu := by
  obtain ⟨pubId, publisher, hrandom, hp⟩ := @randomPublisher_member ch js hkeyed hlen
  rw [JoinSession.selectPublisher, hrandom, ok_bind]
  dsimp only
  rw [hp]
  exact ⟨_, rfl, rfl⟩

/-- Publishing, with a joined transaction and somebody left. -/
theorem publishJoinedTx_in_bounds (hmu : js.mu = true) (hkeyed : JoinSession.WellKeyed js.peers)
    (hlen : GoMap.len js.peers ≠ 0) {joinedTx : MsgTx} (hjoined : js.joinedTx = some joinedTx) :
    publishJoinedTx pkgs ch js ≠ .error .panic := by
  have hencode : js.encodeJoinedTx pkgs = .ok (pkgs.btcEncode joinedTx) := by rw [JoinSession.encodeJoinedTx, hjoined]
  rw [publishJoinedTx, hencode, ok_bind]
  cases pkgs.btcEncode joinedTx with
  | none => simp [JoinSession.failWith]
  | some tx =>
    change (if (serverPosts ch js tx).2 then
        (serverPublished ch (serverPosts ch js tx).1 tx js).unlockAnd ⟨none, .breakLoop⟩
      else if !ch.marshal [812] then JoinSession.failWith .marshal { js with out := js.out ++ (serverPosts ch js tx).1 }
      else do
        let js ← JoinSession.selectPublisher ch tx (js.roundTimeOut / 3) { js with out := js.out ++ (serverPosts ch js tx).1 }
        JoinSession.unlockAnd .next { js with state := .txPublish }) ≠ .error .panic
    split_ifs
    · exact unlockAnd_ne_panic hmu
    · simp [JoinSession.failWith]
    · obtain ⟨js', hselect, hmu'⟩ := @exists_selectPublisher ch { js with out := js.out ++ (serverPosts ch js tx).1 }
        hkeyed hlen tx (js.roundTimeOut / 3)
      rw [hselect, ok_bind]
      exact unlockAnd_ne_panic (hmu'.trans hmu)

/-- The merge succeeds when the joined transaction has the sender's places. -/
theorem exists_mergeSigned_iff {tx : MsgTx} {inputIndex : List ℕ} (hin : ∀ idx ∈ inputIndex, idx < tx.txIn.length) :
    (∃ js', mergeSigned tx inputIndex js = .ok js') ↔
      ∀ joinedTx, js.joinedTx = some joinedTx → ∀ idx ∈ inputIndex, idx < joinedTx.txIn.length := by
  rw [mergeSigned]
  cases hjoined : js.joinedTx with
  | none => simp
  | some joinedTx =>
    have hpatch := @exists_patchInputs_iff tx inputIndex hin joinedTx
    simp only [Option.some_inj, forall_eq']
    rw [← hpatch]
    cases patchInputs tx inputIndex joinedTx <;> simp [ok_bind, error_bind]

theorem txSigned_held (hmu : ¬js.mu = false) (signedTx : JoinTx) : txSigned pkgs ch signedTx js = .error .selfDeadlock :=
  lock_bind_held hmu _

/-- A signed transaction from a member that has not signed yet. -/
theorem txSigned_eq (hmu : js.mu = false) {signedTx : JoinTx} {peer : PeerInfo} {tx : MsgTx}
    (hp : js.peers.lookup signedTx.peerId = some peer) (hdecode : pkgs.btcDecode signedTx.tx = some tx)
    (hsigned : peer.signedTx = none) :
    txSigned pkgs ch signedTx js = (invalidInput tx peer.ownInputs 0 peer.inputIndex >>= fun invalid =>
      if invalid = true then ((storeSigned signedTx tx js).withMu true).unlockAnd ⟨some [peer.id], .next⟩
      else mergeSigned tx peer.inputIndex ((storeSigned signedTx tx js).withMu true) >>= fun js =>
        if js.allSubmit (fun peer => peer.signedTx.isSome) then publishJoinedTx pkgs ch js else js.unlockAnd .next) := by
  rw [txSigned, js.lock_eq hmu, ok_bind, JoinSession.peers_withMu, hp]
  dsimp only
  rw [hdecode]
  dsimp only
  rw [if_neg (by simp [hsigned])]
  rfl

/-- What is written to a member leaves it under its id. -/
theorem wellKeyed_setPeer {p : ℕ} {set : PeerInfo → PeerInfo} (hkeyed : JoinSession.WellKeyed js.peers)
    (hset : ∀ peer, (set peer).id = peer.id) : JoinSession.WellKeyed (js.setPeer p set).peers := by
  intro q peer hq
  change (GoMap.modify p set js.peers).lookup q = some peer at hq
  by_cases hself : q = p
  · subst hself
    rw [GoMap.lookup_modify_self] at hq
    obtain ⟨old, hold, rfl⟩ := Option.map_eq_some_iff.mp hq
    rw [hset]
    exact hkeyed _ old hold
  · rw [GoMap.lookup_modify_ne hself] at hq
    exact hkeyed q peer hq

theorem txSigned_in_bounds (hkeyed : JoinSession.WellKeyed js.peers) {signedTx : JoinTx} (hfits : SignedFits pkgs signedTx js) :
    txSigned pkgs ch signedTx js ≠ .error .panic := by
  by_cases hmu : js.mu = false
  swap
  · rw [txSigned_held hmu]
    simp
  cases hp : js.peers.lookup signedTx.peerId with
  | none =>
    rw [txSigned, js.lock_eq hmu, ok_bind, JoinSession.peers_withMu, hp]
    exact unlockAnd_ne_panic rfl
  | some peer =>
    cases hdecode : pkgs.btcDecode signedTx.tx with
    | none =>
      rw [txSigned, js.lock_eq hmu, ok_bind, JoinSession.peers_withMu, hp]
      dsimp only
      rw [hdecode]
      simp [JoinSession.failWith]
    | some tx =>
      cases hsigned : peer.signedTx with
      | some other =>
        rw [txSigned, js.lock_eq hmu, ok_bind, JoinSession.peers_withMu, hp]
        dsimp only
        rw [hdecode]
        dsimp only
        rw [if_pos (by simp [hsigned])]
        exact unlockAnd_ne_panic rfl
      | none =>
        obtain ⟨hcompared, hplaces⟩ := hfits hmu peer tx hp hdecode hsigned
        rw [txSigned_eq hmu hp hdecode hsigned]
        cases hinvalid : invalidInput tx peer.ownInputs 0 peer.inputIndex with
        | error fault =>
          obtain rfl := invalidInput_onlyPanics _ _ _ _ fault hinvalid
          obtain ⟨n, idx, hidx, hsame, hout⟩ := invalidInput_panic_iff.mp hinvalid
          simp only [Nat.zero_add] at hsame hout
          exact absurd (hcompared n idx hidx hsame) hout
        | ok invalid =>
          rw [ok_bind]
          cases invalid with
          | true => exact unlockAnd_ne_panic rfl
          | false =>
            have hsame := invalidInput_false_iff.mp hinvalid
            have hin := mem_txIn_of_unchanged hsame
            simp only [Nat.zero_add] at hsame
            rw [if_neg (by simp)]
            obtain ⟨js', hmerge⟩ := (@exists_mergeSigned_iff ((storeSigned signedTx tx js).withMu true) tx _ hin).mpr
              (hplaces hsame)
            rw [hmerge, ok_bind]
            obtain ⟨joinedTx, rfl⟩ := mergeSigned_eq_ok hmerge
            split_ifs
            · refine publishJoinedTx_in_bounds rfl (wellKeyed_setPeer hkeyed fun _ => rfl) ?_ rfl
              change GoMap.len (GoMap.modify signedTx.peerId _ js.peers) ≠ 0
              rw [GoMap.len_modify]
              exact GoMap.len_ne_zero_iff.mpr ⟨_, _, hp⟩
            · exact unlockAnd_ne_panic rfl

/-- The signed transactions. -/
theorem txSigned_in_bounds_iff (hkeyed : JoinSession.WellKeyed js.peers) (signedTx : JoinTx) :
    txSigned pkgs ch signedTx js ≠ .error .panic ↔ SignedFits pkgs signedTx js := by
  refine ⟨fun hpanic hmu peer tx hp hdecode hsigned => ?_, txSigned_in_bounds hkeyed⟩
  rw [txSigned_eq hmu hp hdecode hsigned] at hpanic
  have hcompared : invalidInput tx peer.ownInputs 0 peer.inputIndex ≠ .error .panic := by
    intro h
    rw [h] at hpanic
    exact hpanic rfl
  refine ⟨fun n idx hidx hsame => ?_, fun hsame => ?_⟩
  · by_contra hout
    apply hcompared
    rw [invalidInput_panic_iff]
    simp only [Nat.zero_add]
    exact ⟨n, idx, hidx, hsame, hout⟩
  · have hvalid : invalidInput tx peer.ownInputs 0 peer.inputIndex = .ok false := by
      rw [invalidInput_false_iff]
      simpa only [Nat.zero_add] using hsame
    have hin := mem_txIn_of_unchanged (invalidInput_false_iff.mp hvalid)
    rw [hvalid, ok_bind, if_neg (by simp)] at hpanic
    apply (@exists_mergeSigned_iff ((storeSigned signedTx tx js).withMu true) tx _ hin).mp
    cases hmerge : mergeSigned tx peer.inputIndex ((storeSigned signedTx tx js).withMu true) with
    | ok js' => exact ⟨js', rfl⟩
    | error fault =>
      obtain rfl := mergeSigned_onlyPanics _ _ _ fault hmerge
      rw [hmerge] at hpanic
      exact absurd rfl hpanic

end Handlers

/-- **The transactions stay in bounds exactly when** there is a first output to look at,
and an input at each index that is compared or put in place. -/
theorem transactions_in_bounds {pkgs : Packages} (ch : Choices) {s : System} (hs : Reachable pkgs s) :
    (∀ txins, txInputs pkgs ch txins s.session ≠ .error .panic ↔ InputsFit pkgs txins s.session) ∧
      ∀ signedTx, txSigned pkgs ch signedTx s.session ≠ .error .panic ↔ SignedFits pkgs signedTx s.session :=
  ⟨txInputs_in_bounds_iff, txSigned_in_bounds_iff hs.wellFormed.keyed⟩

/-- A wallet's transaction has an output, whenever it is looked into. -/
theorem transactions_in_bounds_wallet :
    txInputs walletPackages (plainChoices id) ⟨1, [1], 5⟩ (newJoinSession 7 60 false (queuePeers [(1, 1), (2, 2)])) ≠
      .error .panic := by
  have hstart : Reachable walletPackages (System.start (newJoinSession 7 60 false (queuePeers [(1, 1), (2, 2)]))) :=
    .start 7 60 false [(1, 1), (2, 2)] (by decide) (by decide)
  refine ((transactions_in_bounds (plainChoices id) hstart).1 ⟨1, [1], 5⟩).mpr ?_
  intro _ _ _ tx hdecode
  have htx : walletPackages.btcDecode [1] = some (walletTx 1) := rfl
  cases htx.symm.trans hdecode
  exact List.cons_ne_nil _ _

/-- Packages that decode some bytes to a transaction without an output. -/
def emptyPackages : Packages :=
  referencePackages twoRoots (fun _ => some [9]) fun bytes =>
    if bytes = [1] then some (walletTx 1) else if bytes = [2] then some ⟨0, 1, [], [], 0, 0⟩ else none

/-- **A transaction without an output stops the process.** -/
theorem no_output_panics : ∃ s, Reachable emptyPackages s ∧ s.session.state = .txInput ∧
    txInputs emptyPackages (plainChoices id) ⟨1, [2], 5⟩ s.session = .error .panic := by
  have hstart : Reachable emptyPackages (System.start (newJoinSession 7 60 false (queuePeers [(1, 1), (2, 2)]))) :=
    .start 7 60 false [(1, 1), (2, 2)] (by decide) (by decide)
  obtain ⟨s, hs, hpanics⟩ := hstart.of_any
    (l := turn 1 (.keyExchange ⟨0, [5], 1⟩) ++ turn 2 (.keyExchange ⟨0, [6], 1⟩) ++
      turn 1 (.dcExpVector (smallVector [10, 100])) ++ turn 2 (.dcExpVector (smallVector [4, 16])) ++
      turn 1 (.dcXorVector (smallScripts [8, 0])) ++ turn 2 (.dcXorVector (smallScripts [0, 9])))
    (p := fun s => decide (s.session.state = .txInput) &&
      panics (txInputs emptyPackages (plainChoices id) ⟨1, [2], 5⟩ s.session))
    (by decide +kernel)
  rw [Bool.and_eq_true, decide_eq_true_eq, panics_iff] at hpanics
  exact ⟨s, hs, hpanics⟩

end Dcrtxmatcher.Coinjoin
