import Dcrtxmatcher.Lib.BoundedPads
import Dcrtxmatcher.Coinjoin.Completeness

/-! What the vectors tell the server.

Two peers share 12 random bytes for the exponential round and 25 for the xor round,
and use each of them in every entry of their vectors. An entry of the exponential
vector less another one is therefore free of pads. Other paddings can only account
for other hashes if they shift all power sums by one and the same amount, and the
sums of so few pads of 96 bits are not closed under any shift. -/
namespace Dcrtxmatcher.Coinjoin
open Lib Lib.Pads Lib.PowerSums

/-- The random bytes that two peers share. -/
structure Padding where
  dcexpRng : Bytes
  dcXorRng : Bytes
  expSize : dcexpRng.length = expRandSize
  xorSize : dcXorRng.length = pkScriptSize

/-- `field.NewFF(field.FromBytes(dcexpRng))`, the bytes after four zeros. -/
def Padding.dcExpPadding (pkgs : Packages) (padding : Padding) : Field := newFF pkgs ([0, 0, 0, 0] ++ padding.dcexpRng)

/-- A family of paddings between the peers `ids`. -/
def PairwiseShared (ids : List ℕ) (paddings : ℕ → ℕ → Padding) : Prop :=
  ∀ p ∈ ids, ∀ q ∈ ids, paddings p q = paddings q p

section Vectors
variable (pkgs : Packages) (ids : List ℕ) (paddings : ℕ → ℕ → Padding) (hashes : ℕ → List Field) (scripts : ℕ → Bytes)

/-- The hashes of all peers, in the order of the slots. -/
def slots : List ℕ := ((allHashes ids hashes).map ZMod.val).sort (· ≤ ·)

/-- The exponential vector of peer `p`, when each peer has the given hashes. -/
def sentDcExpVector (p : ℕ) : List Field :=
  honestVector ids (fun p q => (paddings p q).dcExpPadding pkgs) (hashes p) p (allHashes ids hashes).card

/-- Its xor vector: the scripts of its hashes in their slots, and its pads in every slot. -/
def sentDcXorVector (p : ℕ) : List Bytes :=
  (slots ids hashes).map fun g => (Xored.ofList (slotContent (hashes p) scripts g) +
    (ids.map fun q => if q = p then 0 else Xored.ofList (paddings p q).dcXorRng).sum : Xored pkScriptSize).toList

/-- Whatever the paddings under `hashes`, there are paddings under `hashes'` with the same vectors. -/
def OwnershipHidden (hashes hashes' : ℕ → List Field) : Prop :=
  ∀ paddings, PairwiseShared ids paddings → ∃ paddings', PairwiseShared ids paddings' ∧ ∀ p ∈ ids,
    sentDcExpVector pkgs ids paddings hashes p = sentDcExpVector pkgs ids paddings' hashes' p ∧
      sentDcXorVector ids paddings hashes scripts p = sentDcXorVector ids paddings' hashes' scripts p

end Vectors

section Hidden
variable {pkgs : Packages} {ids : List ℕ} {hashes hashes' : ℕ → List Field} {scripts : ℕ → Bytes}

/-- The order of a peer's hashes does not show. -/
theorem ownershipHidden_of_perm (hall : allHashes ids hashes = allHashes ids hashes')
    (hown : ∀ p ∈ ids, (hashes p).Perm (hashes' p)) : OwnershipHidden pkgs ids scripts hashes hashes' := by
  intro paddings hshared
  refine ⟨paddings, hshared, fun p hp => ⟨?_, ?_⟩⟩
  · rw [sentDcExpVector, sentDcExpVector, hall, honestVector, honestVector]
    refine List.map_congr_left fun i _ => ?_
    rw [honestEntry, honestEntry, ((hown p hp).map _).sum_eq]
  · have hmem : ∀ g, g ∈ (hashes p).map ZMod.val ↔ g ∈ (hashes' p).map ZMod.val := fun g =>
      ((hown p hp).map ZMod.val).mem_iff
    rw [sentDcXorVector, sentDcXorVector, slots, slots, hall]
    refine List.map_congr_left fun g _ => ?_
    simp only [slotContent, hmem]

/-- Every sum of a peer's pads that occurs with some paddings. -/
def padSums (pkgs : Packages) (ids : List ℕ) (p : ℕ) : Set Field :=
  {s | ∃ paddings, PairwiseShared ids paddings ∧
    (ids.map (signed (fun p q => (paddings p q).dcExpPadding pkgs) p)).sum = s}

theorem padSums_nonempty (pkgs : Packages) (ids : List ℕ) (p : ℕ) : (padSums pkgs ids p).Nonempty :=
  ⟨_, fun _ _ => ⟨List.replicate expRandSize 0, List.replicate pkScriptSize 0, List.length_replicate, List.length_replicate⟩,
    fun _ _ _ _ => rfl, rfl⟩

/-- Hidden ownership shifts the power sums of a peer's hashes by one amount, and the sums of its pads with them. -/
theorem OwnershipHidden.shift (h : OwnershipHidden pkgs ids scripts hashes hashes')
    (hcard : (allHashes ids hashes).card = (allHashes ids hashes').card) {p : ℕ} (hp : p ∈ ids) {k : ℕ}
    (hk : k < (allHashes ids hashes).card) :
    ∀ s ∈ padSums pkgs ids p, s + (psum (hashes p : Multiset Field) (k + 1) - psum (hashes' p : Multiset Field) (k + 1)) ∈
      padSums pkgs ids p := by
  intro s ⟨paddings, hshared, hs⟩
  obtain ⟨paddings', hshared', hsame⟩ := h paddings hshared
  refine ⟨paddings', hshared', ?_⟩
  have hentry := congrArg (·[k]?) (hsame p hp).1
  simp only [sentDcExpVector, honestVector, List.getElem?_map, List.getElem?_range hk, List.getElem?_range (hcard ▸ hk),
    Option.map_some, Option.some.injEq, honestEntry] at hentry
  have hsum : ∀ l : List Field, psum (l : Multiset Field) (k + 1) = (l.map (· ^ (k + 1))).sum := fun l => by
    rw [psum, Multiset.map_coe, Multiset.sum_coe]
  rw [hsum, hsum, ← hs]
  linear_combination -hentry

/-- The sums of a peer's pads are residues of few numbers. -/
theorem eq_zero_of_shift (hrange : ∀ rng, rng.length = expRandSize → pkgs.fromBytes ([0, 0, 0, 0] ++ rng) < 2 ^ 96)
    (hpeers : ids.length ≤ 2 ^ 31) {p : ℕ} (hp : p ∈ ids) {c : Field}
    (h : ∀ s ∈ padSums pkgs ids p, s + c ∈ padSums pkgs ids p) : c = 0 := by
  apply eq_zero_of_add_mem (-(ids.countP (p < ·) * (2 ^ 96 - 1 : ℕ) : ℤ)) (ids.countP (· < p) * (2 ^ 96 - 1 : ℕ))
    (padSums_nonempty pkgs ids p) h
  · intro s ⟨paddings, _, hs⟩
    obtain ⟨z, hlo, hhi, hz⟩ := exists_int_sum_signed (fun p q => (paddings p q).dcExpPadding pkgs)
      (m := 2 ^ 96 - 1) (fun p q => ⟨_, Nat.le_sub_one_of_lt (hrange _ (paddings p q).expSize), rfl⟩) p ids
    exact ⟨z, hlo, hhi, hs.symm.trans hz⟩
  · have hothers := countP_others_lt hp
    have hprime : (fieldPrime : ℤ) = 2 ^ 127 - 1 := by norm_num [fieldPrime]
    rw [hprime]
    push_cast
    have hlt : ((ids.countP (p < ·) : ℤ) + ids.countP (· < p)) ≤ 2 ^ 31 - 1 := by
      have : ids.countP (p < ·) + ids.countP (· < p) + 1 ≤ 2 ^ 31 := hothers.trans hpeers
      omega
    linarith

/-- Hidden ownership leaves every peer its hashes. -/
theorem OwnershipHidden.perm (h : OwnershipHidden pkgs ids scripts hashes hashes')
    (hrange : ∀ rng, rng.length = expRandSize → pkgs.fromBytes ([0, 0, 0, 0] ++ rng) < 2 ^ 96)
    (hpeers : ids.length ≤ 2 ^ 31) (hall : allHashes ids hashes = allHashes ids hashes')
    (hnum : ∀ p ∈ ids, (hashes p).length = (hashes' p).length) (h1000 : ∀ p ∈ ids, (hashes p).length ≤ 1000) :
    ∀ p ∈ ids, (hashes p).Perm (hashes' p) := by
  intro p hp
  rw [← Multiset.coe_eq_coe]
  have hle : (hashes p).length ≤ (allHashes ids hashes).card := by
    rw [allHashes, Multiset.coe_card, List.length_flatMap]
    exact List.single_le_sum (fun _ _ => Nat.zero_le _) _ (List.mem_map_of_mem hp)
  apply eq_of_psum_eq
  · rw [Multiset.coe_card, Multiset.coe_card, hnum p hp]
  · intro i hi
    have hlt : (hashes p).length < fieldPrime := (h1000 p hp).trans_lt (by norm_num [fieldPrime])
    exact_mod_cast Flint.succ_ne_zero_of_lt hlt hi
  · intro i hi
    rw [Multiset.coe_card] at hi
    exact sub_eq_zero.mp (eq_zero_of_shift hrange hpeers hp (h.shift (congrArg _ hall) hp (hi.trans_le hle)))

/-- **When the vectors hide who owns what**: when every peer has the same hashes
either way, and then only. -/
theorem ownershipHidden_iff (hrange : ∀ rng, rng.length = expRandSize → pkgs.fromBytes ([0, 0, 0, 0] ++ rng) < 2 ^ 96)
    (hall : allHashes ids hashes = allHashes ids hashes')
    (hnum : ∀ p ∈ ids, (hashes p).length = (hashes' p).length) (h1000 : ∀ p ∈ ids, (hashes p).length ≤ 1000) :
    ((∀ p ∈ ids, (hashes p).Perm (hashes' p)) → OwnershipHidden pkgs ids scripts hashes hashes') ∧
      (ids.length ≤ 2 ^ 31 → OwnershipHidden pkgs ids scripts hashes hashes' → ∀ p ∈ ids, (hashes p).Perm (hashes' p)) :=
  ⟨ownershipHidden_of_perm hall, fun hpeers h => h.perm hrange hpeers hall hnum h1000⟩

end Hidden

/-! ### They are accepted -/

/-- The peers of a session sent these vectors, and the keys they revealed give the paddings. -/
structure SentAll (pkgs : Packages) (js : JoinSession) (paddings : ℕ → ℕ → Padding) (hashes : ℕ → List Field)
    (scripts : ℕ → Bytes) : Prop where
  numMsg : ∀ p peer, js.peers.lookup p = some peer → peer.numMsg = (hashes p).length
  exp : ∀ p peer, js.peers.lookup p = some peer → peer.dcExpVector = sentDcExpVector pkgs js.peers.keys paddings hashes p
  xor : ∀ p peer, js.peers.lookup p = some peer → peer.dcXorVector = sentDcXorVector js.peers.keys paddings hashes scripts p
  expPad : ∀ p peer q other, js.peers.lookup p = some peer → js.peers.lookup q = some other → p ≠ q →
    expPad pkgs peer.vk other.pk = (paddings p q).dcExpPadding pkgs
  xorPad : ∀ p peer q other, js.peers.lookup p = some peer → js.peers.lookup q = some other → p ≠ q →
    xorPad pkgs peer.vk other.pk = (paddings p q).dcXorRng

section Accepted
variable {pkgs : Packages} {js : JoinSession} {paddings : ℕ → ℕ → Padding} {hashes : ℕ → List Field} {scripts : ℕ → Bytes}
  {p : ℕ} {peer : PeerInfo}

theorem SentAll.total (h : SentAll pkgs js paddings hashes scripts) :
    totalMsgs js.peers = (allHashes js.peers.keys hashes).card := by
  rw [totalMsgs, allHashes, Multiset.coe_card, List.length_flatMap, GoMap.keys_eq, List.map_map]
  exact congrArg List.sum (List.map_congr_left fun e he => h.numMsg e.1 e.2 (GoMap.mem_toList.mp he))

variable (h : SentAll pkgs js paddings hashes scripts) (hkeyed : JoinSession.WellKeyed js.peers)
  (hp : js.peers.lookup p = some peer)
include h hkeyed hp

theorem SentAll.sum_signed :
    (js.peers.keys.map (signed (fun p q => (paddings p q).dcExpPadding pkgs) p)).sum = pads pkgs js.peers peer := by
  rw [pads, GoMap.keys_eq, List.map_map]
  refine congrArg List.sum (List.map_congr_left fun e he => ?_)
  have hother := GoMap.mem_toList.mp (show (e.1, e.2) ∈ GoMap.toList js.peers from he)
  rw [Function.comp_apply, signed_eq_padTerm, hkeyed p peer hp, hkeyed e.1 e.2 hother]
  by_cases hself : p = e.1
  · rw [hself, padTerm, padTerm, if_neg (lt_irrefl _), if_neg (lt_irrefl _), if_neg (lt_irrefl _), if_neg (lt_irrefl _)]
  · rw [h.expPad p peer e.1 e.2 hp hother hself]

theorem SentAll.sum_xorRng :
    (js.peers.keys.map fun q => if q = p then (0 : Xored pkScriptSize) else Xored.ofList (paddings p q).dcXorRng).sum =
      xorPads pkgs js.peers peer := by
  rw [xorPads, GoMap.keys_eq, List.map_map]
  refine congrArg List.sum (List.map_congr_left fun e he => ?_)
  have hother := GoMap.mem_toList.mp (show (e.1, e.2) ∈ GoMap.toList js.peers from he)
  rw [Function.comp_apply, hkeyed p peer hp, hkeyed e.1 e.2 hother]
  by_cases hself : e.1 = p
  · rw [if_pos hself, if_pos hself.symm]
  · rw [if_neg hself, if_neg (Ne.symm hself), h.xorPad p peer e.1 e.2 hp hother (Ne.symm hself)]

theorem SentAll.expEntry {i : ℕ} (hi : i < totalMsgs js.peers) :
    peer.dcExpVector[i]? = some (psum (hashes p : Multiset Field) (i + 1) + pads pkgs js.peers peer) := by
  rw [h.total] at hi
  rw [h.exp p peer hp, sentDcExpVector, honestVector, List.getElem?_map, List.getElem?_range hi, Option.map_some,
    honestEntry, h.sum_signed hkeyed hp, psum, Multiset.map_coe, Multiset.sum_coe]

/-- The hashes that the replay takes for the peer's are its hashes. -/
theorem SentAll.ownHashes_eq (h1000 : peer.numMsg ≤ 1000) : ownHashes pkgs js.peers peer = hashes p := by
  have hle : peer.numMsg ≤ totalMsgs js.peers := numMsg_le_totalMsgs hp
  have hlength : peer.dcExpVector.length = totalMsgs js.peers := by
    rw [h.exp p peer hp, sentDcExpVector, length_honestVector, h.total]
  have hstripped : (strippedEntries pkgs js.peers peer).length = peer.numMsg := by
    rw [strippedEntries, List.length_map, List.length_take, hlength, min_eq_left hle]
  refine Coinjoin.ownHashes_eq h1000 ⟨?_, fun i hi => ?_⟩
  · rw [hstripped, Multiset.coe_card, h.numMsg p peer hp]
  · rw [hstripped] at hi
    have hentry := h.expEntry hkeyed hp (hi.trans_le hle)
    rw [List.getElem?_eq_some_iff] at hentry
    obtain ⟨_, hentry⟩ := hentry
    simp only [strippedEntries, List.getElem_map, List.getElem_take, hentry, add_sub_cancel_right]

end Accepted

/-- The replay finds nothing wrong with such vectors. -/
theorem SentAll.not_exposed {pkgs : Packages} {js : JoinSession} {paddings : ℕ → ℕ → Padding} {hashes : ℕ → List Field}
    {scripts : ℕ → Bytes} (h : SentAll pkgs js paddings hashes scripts) (hkeyed : JoinSession.WellKeyed js.peers)
    {keyPair : Bytes → Bytes → Prop} (hpair : ∀ p peer, js.peers.lookup p = some peer → keyPair peer.vk peer.pk)
    (hfirst : js.totalMsg = 0) (h1000 : ∀ p peer, js.peers.lookup p = some peer → peer.numMsg ≤ 1000)
    (hsize : ∀ g, (scripts g).length = pkScriptSize)
    (hscript : ∀ p ∈ js.peers.keys, ∀ g ∈ hashes p, pkgs.sum127 (scripts g.val) = pkgs.getBytes g.val)
    {p : ℕ} {peer : PeerInfo} (hp : js.peers.lookup p = some peer) : ¬Exposed pkgs keyPair js peer := by
  have htotal : replayTotal js = totalMsgs js.peers := by rw [replayTotal, hfirst, zero_add]
  have hsorted : (reconstructed pkgs js.peers).sort (· ≤ ·) = slots js.peers.keys hashes := by
    rw [slots]
    congr 1
    have hsum : ∀ l : List (ℕ × PeerInfo), (l.map fun e => (hashes e.1 : Multiset Field).map ZMod.val).sum =
        ((l.map Prod.fst).flatMap hashes : Multiset Field).map ZMod.val := by
      intro l
      induction l with
      | nil => rfl
      | cons e l ih =>
        rw [List.map_cons, List.sum_cons, ih, List.map_cons, List.flatMap_cons, ← Multiset.coe_add, Multiset.map_add]
    rw [reconstructed, allHashes, GoMap.keys_eq, ← hsum]
    refine congrArg List.sum (List.map_congr_left fun e he => ?_)
    have he := GoMap.mem_toList.mp (show (e.1, e.2) ∈ GoMap.toList js.peers from he)
    rw [h.ownHashes_eq hkeyed he (h1000 e.1 e.2 he)]
  intro hexposed
  cases hexposed with
  | key hkey => exact hkey (hpair p peer hp)
  | tooMany hmany => exact absurd (h1000 p peer hp) (by omega)
  | exponential _ hcons =>
    refine hcons ⟨(hashes p : Multiset Field), by rw [Multiset.coe_card, h.numMsg p peer hp], fun i hi => ?_⟩
    exact h.expEntry hkeyed hp (htotal ▸ hi)
  | @xor hstate hnum i msg hmsg hbad =>
    rw [hsorted, h.ownHashes_eq hkeyed hp (h1000 p peer hp)] at hbad
    rw [h.xor p peer hp, sentDcXorVector, List.getElem?_map, Option.map_eq_some_iff] at hmsg
    obtain ⟨g, hg, rfl⟩ := hmsg
    have hlength : (slotContent (hashes p) scripts g).length = pkScriptSize := by
      rw [slotContent]
      split_ifs
      · exact hsize g
      · exact List.length_replicate
    have hcontent : unpadded pkgs js.peers peer (Xored.ofList (slotContent (hashes p) scripts g) +
        (js.peers.keys.map fun q => if q = p then 0 else Xored.ofList (paddings p q).dcXorRng).sum :
          Xored pkScriptSize).toList = slotContent (hashes p) scripts g := by
      rw [unpadded, Xored.ofList_toList, h.sum_xorRng hkeyed hp, add_assoc, Xored.add_self, add_zero]
      exact Xored.ofList_injective (Xored.length_toList _) hlength (Xored.ofList_toList _)
    rw [hcontent] at hbad
    have hmem : ∀ g', g' ∈ (hashes p : Multiset Field).map ZMod.val ↔ g' ∈ (hashes p).map ZMod.val := fun g' => by
      rw [Multiset.map_coe, Multiset.mem_coe]
    refine hbad ⟨fun g' hown hslot => ?_, fun hnone => ?_⟩
    · rw [hg, Option.some.injEq] at hslot
      rw [hslot, slotContent, if_pos ((hmem g').mp hown)]
      obtain ⟨x, hx, rfl⟩ := List.mem_map.mp ((hmem g').mp hown)
      exact hscript p (GoMap.mem_keys_of_lookup hp) x hx
    · rw [slotContent, if_neg fun hown => hnone g ((hmem g).mpr hown) hg]

/-! ### Two peers -/

theorem bigEndian_lt (b : Bytes) : bigEndian b < 256 ^ b.length := by
  induction b using List.reverseRecOn with
  | nil => exact one_pos
  | append_singleton b x ih =>
    have hx : x.toNat < 256 := x.toNat_lt
    have hstep : bigEndian (b ++ [x]) = 256 * bigEndian b + x.toNat := by simp [bigEndian]
    rw [hstep, List.length_append, List.length_singleton, pow_succ]
    omega

theorem plainPackages_range (rng : Bytes) (h : rng.length = expRandSize) :
    plainPackages.fromBytes ([0, 0, 0, 0] ++ rng) < 2 ^ 96 := by
  have hlt := bigEndian_lt rng
  rw [h] at hlt
  exact hlt

/-- The order of two hashes of one peer does not show. -/
theorem ownershipHidden_two :
    OwnershipHidden plainPackages [1, 2] (fun g => toBigEndian g 25) (fun p => if p = 1 then [10, 4] else [3])
      (fun p => if p = 1 then [4, 10] else [3]) :=
  (ownershipHidden_iff plainPackages_range (by decide) (by decide) (by decide)).1 (by decide)

/-- Two peers with one hash each, exchanged. -/
theorem exchange_not_hidden :
    allHashes [1, 2] (fun p => if p = 1 then [10] else [4]) = allHashes [1, 2] (fun p => if p = 1 then [4] else [10]) ∧
      ¬OwnershipHidden plainPackages [1, 2] (fun g => toBigEndian g 25) (fun p => if p = 1 then [10] else [4])
        (fun p => if p = 1 then [4] else [10]) := by
  have hall : allHashes [1, 2] (fun p => if p = 1 then [10] else [4]) =
      allHashes [1, 2] (fun p => if p = 1 then [4] else [10]) := by decide
  refine ⟨hall, fun h => ?_⟩
  have hperm := h.perm plainPackages_range (by decide) hall (by decide) (by decide) 1 (by decide)
  exact absurd hperm (by decide)

end Dcrtxmatcher.Coinjoin
