import Dcrtxmatcher.Coinjoin.Exponential

/-! The xor round.

The slots are combined by xoring the entries of all peers. Entries of one size are
an additive group under xor, so a slot is the sum of the entries in it, in whatever
order the peers are visited. Every pad is in the entries of two peers, and what is
left of honest entries is the script of the slot's owner. -/
namespace Dcrtxmatcher.Coinjoin
open Lib Lib.Pads

section Slot
variable {pkgs : Packages} {vectors : List (List Bytes)} {i : ℕ}

/-- The loop over the peers, started on what it has combined before. -/
theorem foldlM_xorSlot (hlaws : pkgs.XorLaws) (hsize : ∀ v ∈ vectors, ∀ msg ∈ v, msg.length = pkScriptSize)
    {acc slot : Bytes} (hacc : acc = [] ∨ acc.length = pkScriptSize)
    (h : vectors.foldlM (fun acc vector => do
      let msg ← index vector i
      .ok (pkgs.xorBytes acc msg)) acc = Except.ok (ε := Fault) slot) :
    (∀ v ∈ vectors, i < v.length) ∧ (vectors ≠ [] ∨ acc.length = pkScriptSize → slot.length = pkScriptSize) ∧
      (Xored.ofList slot : Xored pkScriptSize) =
        Xored.ofList acc + (vectors.map fun v => Xored.ofList (v.getD i [])).sum := by
  induction vectors generalizing acc with
  | nil =>
    cases h
    exact ⟨by simp, fun h => h.resolve_left (by simp), (add_zero _).symm⟩
  | cons v vectors ih =>
    simp only [List.foldlM_cons, bind_eq_ok, Except.ok.injEq] at h
    obtain ⟨_, ⟨msg, hmsg, rfl⟩, h⟩ := h
    obtain ⟨hi, rfl⟩ := List.getElem?_eq_some_iff.mp (index_eq_ok.mp hmsg)
    have hlen : v[i].length = pkScriptSize := hsize v (List.mem_cons_self ..) _ (List.getElem_mem hi)
    have hget : v.getD i [] = v[i] := (List.getElem_eq_getD []).symm
    have hxor : (pkgs.xorBytes acc v[i]).length = pkScriptSize ∧
        (Xored.ofList (pkgs.xorBytes acc v[i]) : Xored pkScriptSize) = Xored.ofList acc + Xored.ofList v[i] := by
      rcases hacc with rfl | hacc
      · rw [hlaws.nil]
        refine ⟨hlen, ?_⟩
        rw [Xored.ofList_nil, zero_add]
      · rw [hlaws.xor _ _ (hacc.trans hlen.symm)]
        exact ⟨by rw [List.length_zipWith, hacc, hlen, min_self], Xored.ofList_xor hacc hlen⟩
    obtain ⟨hall, hslot, hsum⟩ := ih (fun v' hv' => hsize v' (List.mem_cons_of_mem _ hv')) (.inr hxor.1) h
    refine ⟨List.forall_mem_cons.mpr ⟨hi, hall⟩, fun _ => hslot (.inr hxor.1), ?_⟩
    rw [hsum, hxor.2, List.map_cons, List.sum_cons, hget, add_assoc]

/-- A combined slot. -/
theorem xorSlot_eq_ok (hlaws : pkgs.XorLaws) (hsize : ∀ v ∈ vectors, ∀ msg ∈ v, msg.length = pkScriptSize)
    {slot : Bytes} (h : xorSlot pkgs i vectors = .ok slot) :
    (∀ v ∈ vectors, i < v.length) ∧ (vectors ≠ [] → slot.length = pkScriptSize) ∧
      (Xored.ofList slot : Xored pkScriptSize) = (vectors.map fun v => Xored.ofList (v.getD i [])).sum := by
  obtain ⟨hall, hlen, hsum⟩ := foldlM_xorSlot hlaws hsize (.inl rfl) h
  exact ⟨hall, fun hne => hlen (.inl hne), by rw [hsum, Xored.ofList_nil, zero_add]⟩

/-- A slot that everybody has an entry for is combined. -/
theorem exists_xorSlot (h : ∀ v ∈ vectors, i < v.length) : ∃ slot, xorSlot pkgs i vectors = .ok slot := by
  have hfold : ∀ acc : Bytes, ∃ slot, vectors.foldlM (fun acc vector => do
      let msg ← index vector i
      .ok (pkgs.xorBytes acc msg)) acc = Except.ok (ε := Fault) slot := by
    induction vectors with
    | nil => exact fun acc => ⟨acc, rfl⟩
    | cons v vectors ih =>
      intro acc
      have hi : i < v.length := h v (List.mem_cons_self ..)
      obtain ⟨slot, hslot⟩ := ih (fun v' hv' => h v' (List.mem_cons_of_mem v hv')) (pkgs.xorBytes acc v[i])
      refine ⟨slot, ?_⟩
      rw [List.foldlM_cons, index_of_lt hi]
      exact hslot
  exact hfold []

end Slot

/-! ### What a peer sends -/

/-- What peer `p` puts into slot `i`: its script when it owns the slot, or zero bytes. -/
def slotScript (owner : ℕ → ℕ) (script : ℕ → Bytes) (p i : ℕ) : Bytes :=
  if owner i = p then script i else List.replicate pkScriptSize 0

/-- Entry `i` of peer `p` among the peers `ids`: its content with the pads it shares with all others. -/
def xorEntry (ids : List ℕ) (pad : ℕ → ℕ → Xored pkScriptSize) (owner : ℕ → ℕ) (script : ℕ → Bytes) (p i : ℕ) : Bytes :=
  (Xored.ofList (slotScript owner script p i) + (ids.map fun q => if q = p then 0 else pad p q).sum).toList

/-- The vector of `n` entries. -/
def xorVector (ids : List ℕ) (pad : ℕ → ℕ → Xored pkScriptSize) (owner : ℕ → ℕ) (script : ℕ → Bytes) (n p : ℕ) :
    List Bytes := (List.range n).map (xorEntry ids pad owner script p)

@[simp] theorem length_xorVector (ids : List ℕ) (pad : ℕ → ℕ → Xored pkScriptSize) (owner : ℕ → ℕ) (script : ℕ → Bytes)
    (n p : ℕ) : (xorVector ids pad owner script n p).length = n := by simp [xorVector]

theorem length_of_mem_xorVector {ids : List ℕ} {pad : ℕ → ℕ → Xored pkScriptSize} {owner : ℕ → ℕ} {script : ℕ → Bytes}
    {n p : ℕ} {msg : Bytes} (h : msg ∈ xorVector ids pad owner script n p) : msg.length = pkScriptSize := by
  obtain ⟨i, _, rfl⟩ := List.mem_map.mp h
  exact Xored.length_toList _

/-- The message carries the entries one after the other. -/
structure CarriesMessages (data : DcVector) (v : List Bytes) : Prop where
  len : data.len = v.length
  vector : data.vector = v.flatten

/-! ### Reading it -/

theorem readMessages_append {v : List Bytes} (hsize : ∀ msg ∈ v, msg.length = pkScriptSize) (spare : Bytes) {pre : Bytes}
    {i : ℕ} (hpre : pre.length = i * pkScriptSize) : readMessages (pre ++ v.flatten ++ spare) i v.length = .ok v := by
  induction v generalizing pre i with
  | nil => rfl
  | cons msg v ih =>
    have hmsg := hsize msg (List.mem_cons_self ..)
    have hnext : (pre ++ msg).length = (i + 1) * pkScriptSize := by
      rw [List.length_append, hpre, hmsg, Nat.succ_mul]
    have hbuf : pre ++ (msg :: v).flatten ++ spare = pre ++ msg ++ v.flatten ++ spare := by
      rw [List.flatten_cons, ← List.append_assoc pre]
    have hslice : slice (pre ++ msg ++ v.flatten ++ spare) (i * pkScriptSize) ((i + 1) * pkScriptSize) = .ok msg := by
      rw [slice, if_pos, List.append_assoc (pre ++ msg), ← hnext, List.take_left, ← hpre, List.drop_left]
      refine ⟨Nat.mul_le_mul_right _ (Nat.le_succ i), ?_⟩
      rw [List.append_assoc (pre ++ msg), List.length_append, hnext]
      exact Nat.le_add_right _ _
    rw [hbuf, List.length_cons, readMessages, hslice, ok_bind,
      ih (fun msg' hmsg' => hsize msg' (List.mem_cons_of_mem msg hmsg')) hnext]
    rfl

theorem readMessages_carried {data : DcVector} {v : List Bytes} (hv : CarriesMessages data v)
    (hsize : ∀ msg ∈ v, msg.length = pkScriptSize) : readMessages (data.vector ++ data.spare) 0 data.len = .ok v := by
  rw [hv.len, hv.vector, ← List.nil_append v.flatten]
  exact readMessages_append hsize data.spare (Nat.zero_mul _).symm

/-! ### Adding up -/

section Recover
variable {ids : List ℕ} {pad : ℕ → ℕ → Xored pkScriptSize} {owner : ℕ → ℕ} {script : ℕ → Bytes} {n : ℕ}

/-- Every pad is there twice, and only the owner has a content. -/
theorem sum_xorEntry (hnodup : ids.Nodup) (hsymm : ∀ p ∈ ids, ∀ q ∈ ids, pad p q = pad q p) {i : ℕ}
    (howner : owner i ∈ ids) :
    (ids.map fun p => (Xored.ofList (xorEntry ids pad owner script p i) : Xored pkScriptSize)).sum =
      Xored.ofList (script i) := by
  have hcontent : (ids.map fun p => (Xored.ofList (slotScript owner script p i) : Xored pkScriptSize)).sum =
      Xored.ofList (script i) := by
    rw [List.sum_map_eq_nsmul_single (owner i), List.count_eq_one_of_mem hnodup howner, one_nsmul, slotScript, if_pos rfl]
    intro p hp _
    rw [slotScript, if_neg (Ne.symm hp), Xored.ofList_zeros]
  simp only [xorEntry, Xored.ofList_toList, List.sum_map_add]
  rw [hcontent, Xored.sum_others_eq_zero ids hsymm, add_zero]

/-- The slots of everybody's entries, in whatever order the loops visit the peers. -/
theorem xorSlots_eq {pkgs : Packages} (hlaws : pkgs.XorLaws) (ch : Choices) {peers : GoMap ℕ PeerInfo}
    (hids : peers.keys = ids) (hsymm : ∀ p ∈ ids, ∀ q ∈ ids, pad p q = pad q p) (howner : ∀ i < n, owner i ∈ ids)
    (hscript : ∀ i < n, (script i).length = pkScriptSize)
    (hperm : ∀ site, ((GoMap.values ch.order site peers).map (·.dcXorVector)).Perm
      (ids.map (xorVector ids pad owner script n))) :
    xorSlots pkgs ch peers n = .ok ((List.range n).map script) := by
  apply mapM_eq_ok.mpr
  rw [List.forall₂_map_right_iff, List.forall₂_same]
  intro i hi
  have hi : i < n := List.mem_range.mp hi
  have hvector : ∀ v ∈ (GoMap.values ch.order [531, i] peers).map (·.dcXorVector),
      ∃ p, v = xorVector ids pad owner script n p := by
    intro v hv
    obtain ⟨p, _, rfl⟩ := List.mem_map.mp ((hperm _).mem_iff.mp hv)
    exact ⟨p, rfl⟩
  obtain ⟨slot, hslot⟩ : ∃ slot, xorSlot pkgs i ((GoMap.values ch.order [531, i] peers).map (·.dcXorVector)) = .ok slot := by
    apply exists_xorSlot
    intro v hv
    obtain ⟨p, rfl⟩ := hvector v hv
    rwa [length_xorVector]
  obtain ⟨_, hlength, hsum⟩ := xorSlot_eq_ok hlaws (fun v hv msg hmsg => by
    obtain ⟨p, rfl⟩ := hvector v hv
    exact length_of_mem_xorVector hmsg) hslot
  have hne : (GoMap.values ch.order [531, i] peers).map (·.dcXorVector) ≠ [] := by
    apply List.ne_nil_of_mem
    exact (hperm _).mem_iff.mpr (List.mem_map_of_mem (howner i hi))
  rw [hslot]
  refine congrArg Except.ok (Xored.ofList_injective (hlength hne) (hscript i hi) ?_)
  rw [hsum, ((hperm _).map _).sum_eq, List.map_map, ← sum_xorEntry (hids ▸ peers.keys_nodup) hsymm (howner i hi)]
  refine congrArg List.sum (List.map_congr_left fun p _ => ?_)
  simp [xorVector, List.getD_eq_getElem?_getD, hi]

end Recover

/-! ### The round -/

/-- A vector from a member is stored. -/
theorem dcXorVector_of_carried {pkgs : Packages} (ch : Choices) {data : DcVector} {v : List Bytes}
    (hv : CarriesMessages data v) (hsize : ∀ msg ∈ v, msg.length = pkScriptSize) (h2 : 2 ≤ v.length) (js : JoinSession)
    (hmu : js.mu = false) (hmem : data.peerId ∈ js.peers.keys) :
    dcXorVector pkgs ch data js =
      let js' := JoinSession.setPeer data.peerId (fun peer => { peer with dcXorVector := v }) { js with mu := true }
      if js'.allSubmit (fun peer => peer.dcXorVector ≠ []) then do
        let allPkScripts ← xorSlots pkgs ch js'.peers v.length
        let js' := { js' with allPkScripts := allPkScripts }
        if !ch.marshal [551] then js'.failWith .marshal
        else
          let js' := { (js'.newTimer js'.roundTimeOut) with state := .txInput }
          (js'.broadcast ch 562 (.dcXorVector allPkScripts.flatten)).unlockAnd .next
      else { js' with allPkScripts := List.replicate v.length [] }.unlockAnd .next := by
  obtain ⟨peer, hpeer⟩ := GoMap.lookup_of_mem_keys hmem
  have hlength : data.vector.length = v.length * pkScriptSize := by
    rw [hv.vector, List.length_flatten, List.map_congr_left hsize, List.map_const', List.sum_replicate, smul_eq_mul]
  have hlong : ¬data.vector.length < pkScriptSize * 2 := by
    rw [hlength, pkScriptSize]
    omega
  rw [dcXorVector, JoinSession.lock_of_free hmu, ok_bind, if_neg hlong, readMessages_carried hv hsize, ok_bind]
  dsimp only
  rw [hpeer]

/-- The session once the peers `done` have sent their vectors. -/
def JoinSession.withXorVectors (vec : ℕ → List Bytes) (done : List ℕ) (allPkScripts : List Bytes) (js : JoinSession) :
    JoinSession :=
  { js.withData (fun p peer => { peer with dcXorVector := vec p }) done with allPkScripts := allPkScripts }

theorem JoinSession.withXorVectors_nil (vec : ℕ → List Bytes) (js : JoinSession) :
    js.withXorVectors vec [] js.allPkScripts = js := by
  rw [withXorVectors, withData_nil]

@[simp] theorem JoinSession.keys_withXorVectors (vec : ℕ → List Bytes) (done : List ℕ) (allPkScripts : List Bytes)
    (js : JoinSession) : (js.withXorVectors vec done allPkScripts).peers.keys = js.peers.keys :=
  js.keys_withData _ done

section Round
variable (pkgs : Packages) {js : JoinSession} {vec : ℕ → List Bytes}
  (hsize : ∀ p, ∀ msg ∈ vec p, msg.length = pkScriptSize) (h2 : ∀ p, 2 ≤ (vec p).length) (hmu : js.mu = false)
  (hfresh : ∀ p peer, js.peers.lookup p = some peer → peer.dcXorVector = [])
include hsize h2 hmu hfresh

theorem dcXorVector_withXorVectors (ch : Choices) {data : DcVector} (hv : CarriesMessages data (vec data.peerId))
    (hmem : data.peerId ∈ js.peers.keys) (done : List ℕ) (scripts : List Bytes) :
    dcXorVector pkgs ch data (js.withXorVectors vec done scripts) =
      let js' := { js.withXorVectors vec (done ++ [data.peerId]) scripts with mu := true }
      if ∀ p ∈ js.peers.keys, p ∈ done ++ [data.peerId] then do
        let allPkScripts ← xorSlots pkgs ch js'.peers (vec data.peerId).length
        let js' := { js' with allPkScripts := allPkScripts }
        if !ch.marshal [551] then js'.failWith .marshal
        else
          let js' := { (js'.newTimer js'.roundTimeOut) with state := .txInput }
          (js'.broadcast ch 562 (.dcXorVector allPkScripts.flatten)).unlockAnd .next
      else .ok (.next, js.withXorVectors vec (done ++ [data.peerId]) (List.replicate (vec data.peerId).length [])) := by
  have hne : ∀ p, vec p ≠ [] := fun p h => absurd (h2 p) (by simp [h])
  have hset : JoinSession.setPeer data.peerId (fun peer => { peer with dcXorVector := vec data.peerId })
      { js.withXorVectors vec done scripts with mu := true } =
        { js.withXorVectors vec (done ++ [data.peerId]) scripts with mu := true } :=
    congrArg (fun js => { js with allPkScripts := scripts, mu := true })
      (js.setPeer_withData (fun p peer => { peer with dcXorVector := vec p }) (fun _ _ => rfl) done data.peerId)
  have hall : JoinSession.allSubmit (fun peer => peer.dcXorVector ≠ [])
      { js.withXorVectors vec (done ++ [data.peerId]) scripts with mu := true } = true ↔
        ∀ p ∈ js.peers.keys, p ∈ done ++ [data.peerId] :=
    js.allSubmit_withData (fun p peer => { peer with dcXorVector := vec p })
      (fun p peer hp => decide_eq_false (not_not.mpr (hfresh p peer hp))) (fun p _ => decide_eq_true (hne p))
  have hkeys : data.peerId ∈ (js.withXorVectors vec done scripts).peers.keys := by
    rw [JoinSession.keys_withXorVectors]
    exact hmem
  rw [dcXorVector_of_carried ch hv (hsize _) (h2 _) (js.withXorVectors vec done scripts) hmu hkeys, hset]
  dsimp only
  by_cases hdone : ∀ p ∈ js.peers.keys, p ∈ done ++ [data.peerId]
  · rw [if_pos hdone, if_pos (hall.mpr hdone)]
  · rw [if_neg hdone, if_neg (mt hall.mp hdone)]
    simp [JoinSession.unlockAnd, JoinSession.unlock, JoinSession.withXorVectors, JoinSession.withData, hmu]

/-- The vectors of some of the peers, one after the other: they are stored, and the
slots are empty again after each. -/
theorem deliverAll_xorWaiting {arrival : List (Choices × DcVector)} (hmem : ∀ a ∈ arrival, a.2.peerId ∈ js.peers.keys)
    (hvec : ∀ a ∈ arrival, CarriesMessages a.2 (vec a.2.peerId)) {late : ℕ} (hlate : late ∈ js.peers.keys)
    (hmiss : late ∉ arrival.map fun a => a.2.peerId) (done : List ℕ) (hdone : late ∉ done) (scripts : List Bytes) :
    ∃ scripts', deliverAll pkgs (arrival.map fun a => (a.1, .dcXorVector a.2)) (js.withXorVectors vec done scripts) =
      .ok (true, js.withXorVectors vec (done ++ arrival.map fun a => a.2.peerId) scripts') := by
  induction arrival generalizing done scripts with
  | nil => exact ⟨scripts, by simp [deliverAll]⟩
  | cons a arrival ih =>
    obtain ⟨ch, data⟩ := a
    rw [List.map_cons, List.mem_cons, not_or] at hmiss
    have hlate' : late ∉ done ++ [data.peerId] := by
      rw [List.mem_append, not_or]
      exact ⟨hdone, fun h => hmiss.1 (List.mem_singleton.mp h)⟩
    have hstep := dcXorVector_withXorVectors pkgs hsize h2 hmu hfresh ch (hvec _ (List.mem_cons_self ..))
      (hmem _ (List.mem_cons_self ..)) done scripts
    dsimp only at hstep
    rw [if_neg fun hall => hlate' (hall late hlate)] at hstep
    have hlen : GoMap.len js.peers ≠ 0 := by
      rw [← GoMap.length_keys]
      exact (List.length_pos_of_mem hlate).ne'
    have hdeliver : deliver pkgs ch (.dcXorVector data) (js.withXorVectors vec done scripts) =
        .ok (true, js.withXorVectors vec (done ++ [data.peerId]) (List.replicate (vec data.peerId).length [])) := by
      rw [deliver, handle, hstep]
      simp [finish, Done.next, JoinSession.withXorVectors, JoinSession.withData, hlen]
    obtain ⟨scripts', hrest⟩ := ih (fun b hb => hmem b (List.mem_cons_of_mem _ hb))
      (fun b hb => hvec b (List.mem_cons_of_mem _ hb)) hmiss.2 (done ++ [data.peerId]) hlate'
      (List.replicate (vec data.peerId).length [])
    refine ⟨scripts', ?_⟩
    rw [List.map_cons, deliverAll, hdeliver, ok_bind]
    dsimp only
    rw [if_pos rfl, hrest, List.append_assoc]
    rfl

end Round

/-- **The xor round recovers every script.** In whatever order the vectors arrive and
the peers are visited, all but the last message are only stored; after the last one
every slot holds the script of its owner, and the scripts are broadcast in the order
of the slots. -/
theorem xor_round_recovers (pkgs : Packages) (hlaws : pkgs.XorLaws) (js : JoinSession) (hmu : js.mu = false)
    (hfresh : ∀ p peer, js.peers.lookup p = some peer → peer.dcXorVector = [])
    (pad : ℕ → ℕ → Xored pkScriptSize) (hsymm : ∀ p ∈ js.peers.keys, ∀ q ∈ js.peers.keys, pad p q = pad q p)
    (n : ℕ) (h2 : 2 ≤ n) (owner : ℕ → ℕ) (howner : ∀ i < n, owner i ∈ js.peers.keys)
    (script : ℕ → Bytes) (hscript : ∀ i < n, (script i).length = pkScriptSize) (arrival : List (Choices × DcVector))
    (horder : (arrival.map fun a => a.2.peerId).Perm js.peers.keys)
    (hvec : ∀ a ∈ arrival, CarriesMessages a.2 (xorVector js.peers.keys pad owner script n a.2.peerId)) :
    ∃ first ch data js₁ done js₂,
      arrival = first ++ [(ch, data)] ∧
      deliverAll pkgs (first.map fun a => (a.1, .dcXorVector a.2)) js = .ok (true, js₁) ∧
      js₁.out = js.out ∧ js₁.state = js.state ∧
      dcXorVector pkgs ch data js₁ = .ok (done, js₂) ∧
      js₂.allPkScripts = (List.range n).map script ∧
      (ch.marshal [551] = true → done = .next ∧ js₂.state = .txInput ∧
        js₂.out = js.out ++ (GoMap.values ch.order [562] js₂.peers).map fun peer =>
          .send peer.conn (.dcXorVector ((List.range n).flatMap script))) := by
  let vec := xorVector js.peers.keys pad owner script n
  have hlen : ∀ p, (vec p).length = n := fun p => length_xorVector ..
  have hsize : ∀ p, ∀ msg ∈ vec p, msg.length = pkScriptSize := fun _ _ => length_of_mem_xorVector
  have h2' : ∀ p, 2 ≤ (vec p).length := fun p => (hlen p).symm ▸ h2
  rcases List.eq_nil_or_concat arrival with rfl | ⟨first, ⟨ch, data⟩, rfl⟩
  · rw [List.map_nil, List.nil_perm] at horder
    have hfirst := howner 0 (by omega)
    rw [horder] at hfirst
    cases hfirst
  rw [List.concat_eq_append] at *
  rw [List.map_append, List.map_singleton] at horder
  have hids := horder.nodup_iff.mpr js.peers.keys_nodup
  have hmem : ∀ a ∈ first ++ [(ch, data)], a.2.peerId ∈ js.peers.keys := fun a ha =>
    horder.mem_iff.mp (by simpa using List.mem_map_of_mem (f := fun a : Choices × DcVector => a.2.peerId) ha)
  have hlast : data.peerId ∈ js.peers.keys := hmem (ch, data) (by simp)
  obtain ⟨scripts, hwait⟩ := deliverAll_xorWaiting pkgs hsize h2' hmu hfresh (fun a ha => hmem a (by simp [ha]))
    (fun a ha => hvec a (by simp [ha])) hlast
    (fun h => (List.nodup_append.mp hids).2.2 _ h _ (List.mem_singleton_self _) rfl) [] List.not_mem_nil js.allPkScripts
  rw [JoinSession.withXorVectors_nil, List.nil_append] at hwait
  have hall : ∀ p ∈ js.peers.keys, p ∈ (first.map fun a => a.2.peerId) ++ [data.peerId] := fun p hp =>
    horder.mem_iff.mpr hp
  have hstep := dcXorVector_withXorVectors pkgs hsize h2' hmu hfresh ch (hvec (ch, data) (by simp)) hlast
    (first.map fun a => a.2.peerId) scripts
  have hslots : xorSlots pkgs ch (js.withXorVectors vec ((first.map fun a => a.2.peerId) ++ [data.peerId]) scripts).peers n =
      .ok ((List.range n).map script) :=
    xorSlots_eq hlaws ch (js.keys_withXorVectors _ _ _) hsymm howner hscript fun site =>
      js.values_withData (fun p peer => { peer with dcXorVector := vec p }) (fun _ _ => rfl) hall ch site
  dsimp only at hstep
  rw [if_pos hall, hlen, hslots, ok_bind] at hstep
  cases hm : ch.marshal [551]
  · rw [hm] at hstep
    exact ⟨first, ch, data, _, _, _, rfl, hwait, rfl, rfl, hstep, rfl, fun h => absurd (hm.symm.trans h) Bool.false_ne_true⟩
  · rw [hm] at hstep
    refine ⟨first, ch, data, _, _, _, rfl, hwait, rfl, rfl, hstep, rfl, fun _ => ⟨rfl, rfl, ?_⟩⟩
    rw [List.flatMap_def]
    rfl

/-- Two peers, the first slot of the second and the second of the first, with a pad of sevens. -/
theorem xor_round_recovers_two :
    ∃ ch data js₁ done js₂, dcXorVector plainPackages ch data js₁ = .ok (done, js₂) ∧
      js₂.allPkScripts = [List.replicate 25 1, List.replicate 25 2] := by
  let script := fun i => List.replicate 25 (UInt8.ofNat (i + 1))
  let message := fun p : ℕ => DcVector.mk p 2
    (xorVector [2, 1] (fun _ _ => Xored.ofList (List.replicate 25 7)) (fun i => 2 - i) script 2 p).flatten []
  obtain ⟨_, ch, data, js₁, done, js₂, _, _, _, _, hstep, hscripts, _⟩ :=
    xor_round_recovers plainPackages plainPackages_xor
      { newJoinSession 7 60 false (queuePeers [(0, 1), (1, 2)]) with state := .dcXor } rfl
      (fun p peer h => by
        obtain ⟨conn, _, rfl⟩ := lookup_newJoinSession 7 60 false h
        rfl)
      (fun _ _ => Xored.ofList (List.replicate 25 7)) (fun _ _ _ _ => rfl) 2 le_rfl (fun i => 2 - i)
      (by decide) script (fun i _ => List.length_replicate ..) [(plainChoices id, message 1), (plainChoices id, message 2)]
      (by decide) (by
        intro a ha
        rcases List.mem_pair.mp ha with rfl | rfl <;> exact ⟨rfl, rfl⟩)
  exact ⟨ch, data, js₁, done, js₂, hstep, hscripts⟩

end Dcrtxmatcher.Coinjoin
