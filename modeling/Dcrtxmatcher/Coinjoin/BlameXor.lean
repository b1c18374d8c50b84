import Dcrtxmatcher.Coinjoin.Blame
import Dcrtxmatcher.Lib.Ranks

/-! Whom the slot check blames.

The replay sorts the hashes it reconstructs from the revealed keys and looks for
each peer's scripts at the positions of its hashes there. The peer put them at the
positions of its hashes in the list that was broadcast. The other peers decide
whether the two agree: whoever reveals another key, or sent a vector that has no
solution, takes its hashes out of the list or changes them. -/
namespace Dcrtxmatcher.Coinjoin
open Lib Lib.Pads Lib.PowerSums Lib.Ranks

/-! ### The reconstructed hashes -/

/-- A peer's first `NumMsg` entries with its pads taken off. -/
def strippedEntries (pkgs : Packages) (peers : GoMap ℕ PeerInfo) (peer : PeerInfo) : List Field :=
  (peer.dcExpVector.take peer.numMsg).map (· - pads pkgs peers peer)

open Classical in
/-- The hashes of which these are the power sums, none if there are no such hashes. -/
noncomputable def ownHashes (pkgs : Packages) (peers : GoMap ℕ PeerInfo) (peer : PeerInfo) : Multiset Field :=
  if h : ∃ M, Flint.HasPowerSums (strippedEntries pkgs peers peer) M then h.choose else 0

/-- The hashes of all peers, as numbers. -/
noncomputable def reconstructed (pkgs : Packages) (peers : GoMap ℕ PeerInfo) : Multiset ℕ :=
  ((GoMap.toList peers).map fun e => (ownHashes pkgs peers e.2).map ZMod.val).sum

section Reconstruction
variable {pkgs : Packages} {ch : Choices} {peers : GoMap ℕ PeerInfo} {p : ℕ} {peer : PeerInfo}

theorem length_strippedEntries_le : (strippedEntries pkgs peers peer).length ≤ peer.numMsg := by
  rw [strippedEntries, List.length_map, List.length_take]
  exact min_le_left ..

theorem card_ownHashes_le : (ownHashes pkgs peers peer).card ≤ peer.numMsg := by
  rw [ownHashes]
  split_ifs with h
  · rw [h.choose_spec.1]
    exact length_strippedEntries_le
  · exact Nat.zero_le _

theorem ownHashes_eq (h1000 : peer.numMsg ≤ 1000) {M : Multiset Field}
    (hM : Flint.HasPowerSums (strippedEntries pkgs peers peer) M) : ownHashes pkgs peers peer = M := by
  have h : ∃ M, Flint.HasPowerSums (strippedEntries pkgs peers peer) M := ⟨M, hM⟩
  rw [ownHashes, dif_pos h]
  refine Flint.HasPowerSums.unique ?_ h.choose_spec hM
  have hlen : (strippedEntries pkgs peers peer).length ≤ peer.numMsg := length_strippedEntries_le
  have : (1000 : ℕ) < fieldPrime := by norm_num [fieldPrime]
  omega

theorem ownHashes_eq_zero (h : ∀ M, ¬Flint.HasPowerSums (strippedEntries pkgs peers peer) M) :
    ownHashes pkgs peers peer = 0 := by
  rw [ownHashes, dif_neg (not_exists.mpr h)]

/-- What the replay hands to the solver. -/
theorem take_of_stripPads (hkeyed : JoinSession.WellKeyed peers) (hp : peers.lookup p = some peer)
    {keys : List (ℕ × Bytes)} (hkeys : sharedKeys pkgs peer (GoMap.values ch.order [901, p] peers) = .ok keys)
    {expVector : List Field} {opInfos : List PeerReplayInfo}
    (hstrip : stripPads pkgs p peer.numMsg (GoMap.range ch.order [977, p] (GoMap.ofList keys)) peer.dcExpVector =
      .ok (expVector, opInfos)) : expVector.take peer.numMsg = strippedEntries pkgs peers peer := by
  obtain ⟨hsum, -⟩ := padSum_of_stripPads hkeyed hp hkeys hstrip
  obtain ⟨-, hlen, hentry⟩ := stripPads_eq_ok hstrip
  refine List.ext_getElem (by simp [strippedEntries, hlen]) fun i hi hi' => ?_
  rw [List.length_take, lt_min_iff] at hi
  have := hentry i (hlen ▸ hi.2)
  rw [if_pos hi.1, hsum, ← List.getElem_eq_getD (h := hi.2) 0, ← List.getElem_eq_getD (h := hlen ▸ hi.2) 0] at this
  simp [strippedEntries, this]

/-- The hashes a turn of the replay enters are the reconstructed ones. -/
theorem hashes_of_turn (hflint : pkgs.flint.Correct fieldPrime)
    (hparse : ∀ x : Field, pkgs.uint128FromString (Hex.hexStr x.val) = x.val) (h1000 : peer.numMsg ≤ 1000)
    {totalMsg : ℕ} {expVector : List Field} {replayPeer : GoMap ℕ PeerReplayInfo}
    (htake : expVector.take peer.numMsg = strippedEntries pkgs peers peer) {verdict : Bool × Option PeerSlotInfo}
    (hturn : Turn pkgs ch totalMsg p peer expVector replayPeer verdict) :
    (verdict.2.elim 0 fun slotInfo => (slotInfo.pkScriptsHash : Multiset ℕ)) =
      (ownHashes pkgs peers peer).map ZMod.val := by
  have hprime : peer.numMsg < fieldPrime := by
    have : (1000 : ℕ) < fieldPrime := by norm_num [fieldPrime]
    omega
  have hget : ∀ i (hi : i < (strippedEntries pkgs peers peer).length),
      (strippedEntries pkgs peers peer).getD i 0 = (strippedEntries pkgs peers peer)[i] := fun i hi =>
    (List.getElem_eq_getD 0).symm
  cases hturn with
  | @unsolved ret roots h2 hlen hroots hret =>
    rw [htake] at hroots
    have hcount : (strippedEntries pkgs peers peer).length = peer.numMsg := by
      rw [← htake, List.length_take, min_eq_left hlen]
    rw [ownHashes_eq_zero fun M hM => ?_]
    · rfl
    · obtain ⟨roots', hroots', -⟩ := Flint.getRoots_of_psum pkgs.flint _ hflint h2 h1000 hprime hcount.ge
        (hM.1.trans hcount) fun i hi => by rw [hget i (hcount ▸ hi), hM.2 i (hcount ▸ hi)]
      rw [hroots'] at hroots
      cases hroots
      exact hret rfl
  | @several roots malicious h2 hlen hroots hdiff =>
    rw [htake] at hroots
    have hcount : (strippedEntries pkgs peers peer).length = peer.numMsg := by
      rw [← htake, List.length_take, min_eq_left hlen]
    obtain ⟨M, hcard, hM, hval⟩ := Flint.psum_of_getRoots pkgs.flint hflint h2 h1000 hprime hcount.ge hroots
    rw [ownHashes_eq h1000 ⟨hcard.trans hcount.symm, fun i hi => (hM i (hcount ▸ hi)).trans (hget i hi)⟩]
    show ((roots.map pkgs.uint128FromString : List ℕ) : Multiset ℕ) = _
    rw [← Multiset.map_coe, hval, Multiset.map_map]
    exact Multiset.map_congr rfl fun x _ => hparse x
  | @one ff malicious hone hff hdiff =>
    have hone' : strippedEntries pkgs peers peer = [ff] := by
      rw [← htake, hone]
      cases expVector with
      | nil => cases hff
      | cons x _ =>
        cases hff
        rfl
    rw [ownHashes_eq h1000 (M := {ff}) ⟨by rw [hone']; rfl, fun i hi => ?_⟩]
    · rfl
    · have hzero : i = 0 := by
        rw [hone', List.length_singleton] at hi
        omega
      subst hzero
      simp [psum, hone']
  | none hzero =>
    have hnil : strippedEntries pkgs peers peer = [] :=
      List.eq_nil_of_length_eq_zero (by have : (strippedEntries pkgs peers peer).length ≤ _ := length_strippedEntries_le; omega)
    rw [ownHashes_eq h1000 (M := 0) ⟨by rw [hnil]; rfl, fun i hi => by simp [hnil] at hi⟩]
    rfl

/-- The hashes a verdict enters into `peerSlotInfos`. -/
def Verdict.hashes (v : ℕ × Bool × Option PeerSlotInfo) : Multiset ℕ :=
  v.2.2.elim 0 fun slotInfo => (slotInfo.pkScriptsHash : Multiset ℕ)

/-- What a turn says about its member is said of all members, in the order visited. -/
theorem map_verdicts {β : Type} (g : Bool × Option PeerSlotInfo → β) (t : PeerInfo → β) {totalMsg : ℕ}
    {replayPeers : GoMap ℕ (GoMap ℕ Bytes)} {verdicts : List (ℕ × Bool × Option PeerSlotInfo)}
    (hkeyed : JoinSession.WellKeyed peers) (hreplay : replayKeys pkgs ch peers = .ok replayPeers)
    (h : expReplays pkgs ch totalMsg replayPeers peers = .ok verdicts)
    (hg : ∀ p peer expVector replayPeer verdict, peers.lookup p = some peer →
      expVector.take peer.numMsg = strippedEntries pkgs peers peer →
        Turn pkgs ch totalMsg p peer expVector replayPeer verdict → g verdict = t peer) :
    verdicts.map (fun v => g v.2) = (GoMap.range ch.order [971] peers).map fun e => t e.2 := by
  have hall := mapM_eq_ok.mp h
  have hmem : ∀ e ∈ GoMap.range ch.order [971] peers, peers.lookup e.1 = some e.2 := fun e he => GoMap.mem_range.mp he
  clear h
  generalize GoMap.range ch.order [971] peers = visited at hall hmem
  induction hall with
  | nil => rfl
  | @cons e v visited rest hturn _ ih =>
    have hrest := ih fun e' he' => hmem e' (List.mem_cons_of_mem e he')
    simp only [bind_eq_ok, Except.ok.injEq] at hturn
    obtain ⟨verdict, hverdict, rfl⟩ := hturn
    have hp := hmem e (List.mem_cons_self ..)
    obtain ⟨keys, hshared, hlookup⟩ := lookup_replayKeys hkeyed hreplay hp
    rw [hlookup, Option.getD_some] at hverdict
    obtain ⟨expVector, opInfos, hstrip, hturn⟩ := turn_of_expReplay hverdict
    have hsaid := hg e.1 e.2 expVector _ verdict hp (take_of_stripPads hkeyed hp hshared hstrip) hturn
    rw [List.map_cons, List.map_cons, hrest, ← hsaid]

/-- The entries of `peerSlotInfos`, with distinct ids. -/
theorem nodup_slotInfos {verdicts : List (ℕ × Bool × Option PeerSlotInfo)} (h : (verdicts.map Prod.fst).Nodup) :
    ((verdicts.filterMap fun (pid, _, slotInfo) => slotInfo.map (pid, ·)).map Prod.fst).Nodup := by
  refine List.Nodup.sublist ?_ h
  clear h
  induction verdicts with
  | nil => exact .slnil
  | cons v verdicts ih =>
    obtain ⟨pid, malicious, slotInfo⟩ := v
    cases slotInfo with
    | none => exact ih.cons _
    | some slotInfo => exact ih.cons_cons _

/-- The entry a peer gets is the one of its verdict. -/
theorem lookup_slotInfos {verdicts : List (ℕ × Bool × Option PeerSlotInfo)} (h : (verdicts.map Prod.fst).Nodup)
    {malicious : Bool} {slot : Option PeerSlotInfo} (hmem : (p, malicious, slot) ∈ verdicts) :
    (slotInfos verdicts).lookup p = slot := by
  refine Option.ext fun s => ?_
  rw [slotInfos, GoMap.lookup_ofList (nodup_slotInfos h), List.mem_filterMap]
  constructor
  · rintro ⟨v, hv, hsome⟩
    obtain ⟨_, hs, heq⟩ := Option.map_eq_some_iff.mp hsome
    cases heq
    have := List.inj_on_of_nodup_map h hv hmem rfl
    rw [this] at hs
    exact hs
  · rintro rfl
    exact ⟨_, hmem, rfl⟩

/-- The sorted list holds the hashes of all verdicts. -/
theorem sortedHashes_sum {verdicts : List (ℕ × Bool × Option PeerSlotInfo)} (hnodup : (verdicts.map Prod.fst).Nodup) :
    (sortedHashes ch (slotInfos verdicts) : Multiset ℕ) = (verdicts.map Verdict.hashes).sum := by
  have hvalues : (GoMap.values ch.order [1125] (slotInfos verdicts)).Perm
      ((verdicts.filterMap fun (pid, _, slotInfo) => slotInfo.map (pid, ·)).map Prod.snd) :=
    (GoMap.values_perm ..).trans ((GoMap.toList_ofList (nodup_slotInfos hnodup)).map Prod.snd)
  have hsum : ∀ l : List (ℕ × Bool × Option PeerSlotInfo),
      ((((l.filterMap fun (pid, _, slotInfo) => slotInfo.map (pid, ·)).map Prod.snd).flatMap
        (·.pkScriptsHash) : List ℕ) : Multiset ℕ) = (l.map Verdict.hashes).sum := by
    intro l
    induction l with
    | nil => rfl
    | cons v l ih =>
      obtain ⟨pid, malicious, slotInfo⟩ := v
      cases slotInfo with
      | none => exact ih.trans (zero_add _).symm
      | some slotInfo =>
        rw [List.map_cons, List.sum_cons, ← ih]
        rfl
  rw [sortedHashes, Multiset.coe_eq_coe.mpr (List.perm_insertionSort ..),
    Multiset.coe_eq_coe.mpr (hvalues.flatMap_right _), hsum]

/-- They are the reconstructed hashes. -/
theorem sortedHashes_eq {totalMsg : ℕ} {replayPeers : GoMap ℕ (GoMap ℕ Bytes)}
    {verdicts : List (ℕ × Bool × Option PeerSlotInfo)} (hkeyed : JoinSession.WellKeyed peers)
    (hflint : pkgs.flint.Correct fieldPrime)
    (hparse : ∀ x : Field, pkgs.uint128FromString (Hex.hexStr x.val) = x.val)
    (h1000 : ∀ p peer, peers.lookup p = some peer → peer.numMsg ≤ 1000)
    (hreplay : replayKeys pkgs ch peers = .ok replayPeers)
    (h : expReplays pkgs ch totalMsg replayPeers peers = .ok verdicts) :
    (sortedHashes ch (slotInfos verdicts) : Multiset ℕ) = reconstructed pkgs peers := by
  have hhashes : verdicts.map Verdict.hashes =
      (GoMap.range ch.order [971] peers).map fun e => (ownHashes pkgs peers e.2).map ZMod.val :=
    map_verdicts (fun verdict => verdict.2.elim 0 fun slotInfo => (slotInfo.pkScriptsHash : Multiset ℕ))
      (fun peer => (ownHashes pkgs peers peer).map ZMod.val) hkeyed hreplay h
      fun p peer _ _ _ hp htake hturn => hashes_of_turn hflint hparse (h1000 p peer hp) htake hturn
  rw [sortedHashes_sum (nodup_verdicts h), hhashes, reconstructed, ((GoMap.range_perm ..).map _).sum_eq]

theorem card_reconstructed_le : (reconstructed pkgs peers).card ≤ totalMsgs peers := by
  rw [reconstructed, totalMsgs]
  induction GoMap.toList peers with
  | nil => simp
  | cons e l ih =>
    simp only [List.map_cons, List.sum_cons, Multiset.card_add, Multiset.card_map]
    have : (ownHashes pkgs peers e.2).card ≤ e.2.numMsg := card_ownHashes_le
    omega

end Reconstruction

/-! ### Xor vectors -/

/-- The pad of the xor round that a private key gives with a public key. -/
def xorPad (pkgs : Packages) (vk pk : Bytes) : Bytes :=
  (pkgs.genSharedSecret32 vk pk).elim [] fun sharedKey => (pkgs.randBytes sharedKey pkScriptSize).getD []

/-- All xor pads of a peer together. -/
def xorPads (pkgs : Packages) (peers : GoMap ℕ PeerInfo) (peer : PeerInfo) : Xored pkScriptSize :=
  ((GoMap.toList peers).map fun e =>
    if peer.id = e.2.id then 0 else Xored.ofList (xorPad pkgs peer.vk e.2.pk)).sum

/-- What a peer puts into the slot of hash `g`: its script, or zero bytes when the
hash is not its own. -/
def slotContent (hashes : List Field) (scripts : ℕ → Bytes) (g : ℕ) : Bytes :=
  if g ∈ hashes.map ZMod.val then scripts g else List.replicate pkScriptSize 0

/-- Peer `p` sent an xor vector with the scripts of its hashes in the slots of the
broadcast list. The zero bytes of an empty slot are not the preimage of a hash of
its own. -/
structure FollowedXor (pkgs : Packages) (peers : GoMap ℕ PeerInfo) (peer : PeerInfo) (hashes : List Field)
    (scripts : ℕ → Bytes) (broadcast : List ℕ) : Prop where
  listed : ∀ g ∈ hashes, g.val ∈ broadcast
  size : ∀ g ∈ hashes, (scripts g.val).length = pkScriptSize
  script : ∀ g ∈ hashes, pkgs.sum127 (scripts g.val) = pkgs.getBytes g.val
  zeros : ∀ g ∈ hashes, pkgs.sum127 (List.replicate pkScriptSize 0) ≠ pkgs.getBytes g.val
  length : peer.dcXorVector.length = broadcast.length
  entry : ∀ i (h : i < peer.dcXorVector.length) (h' : i < broadcast.length),
    peer.dcXorVector[i].length = pkScriptSize ∧
      (Xored.ofList peer.dcXorVector[i] : Xored pkScriptSize) =
        Xored.ofList (slotContent hashes scripts broadcast[i]) + xorPads pkgs peers peer

section Xor
variable {pkgs : Packages} {ch : Choices} {peers : GoMap ℕ PeerInfo} {p : ℕ} {peer : PeerInfo} {hashes : List Field}
  {scripts : ℕ → Bytes} {broadcast : List ℕ}

theorem FollowedXor.length_content (hx : FollowedXor pkgs peers peer hashes scripts broadcast) (g : ℕ) :
    (slotContent hashes scripts g).length = pkScriptSize := by
  rw [slotContent]
  split_ifs with h
  · obtain ⟨x, hx', rfl⟩ := List.mem_map.mp h
    exact hx.size x hx'
  · simp

/-- Xoring byte strings of one length, in any order. -/
theorem foldl_xorBytes (hlaws : pkgs.XorLaws) {opInfos : List PeerReplayInfo}
    (hlen : ∀ opInfo ∈ opInfos, opInfo.dcXorRng.length = pkScriptSize) {msg : Bytes} (hmsg : msg.length = pkScriptSize) :
    (opInfos.foldl (fun realMsg replay => pkgs.xorBytes realMsg replay.dcXorRng) msg).length = pkScriptSize ∧
      (Xored.ofList (opInfos.foldl (fun realMsg replay => pkgs.xorBytes realMsg replay.dcXorRng) msg) :
        Xored pkScriptSize) = Xored.ofList msg + (opInfos.map fun opInfo => Xored.ofList opInfo.dcXorRng).sum := by
  induction opInfos generalizing msg with
  | nil => exact ⟨hmsg, (add_zero _).symm⟩
  | cons opInfo opInfos ih =>
    have hrng := hlen opInfo (List.mem_cons_self ..)
    have hxor := hlaws.xor msg opInfo.dcXorRng (hmsg.trans hrng.symm)
    have hlen' : (pkgs.xorBytes msg opInfo.dcXorRng).length = pkScriptSize := by
      rw [hxor, List.length_zipWith, hmsg, hrng, min_self]
    obtain ⟨h1, h2⟩ := ih (fun op hop => hlen op (List.mem_cons_of_mem _ hop)) hlen'
    refine ⟨h1, h2.trans ?_⟩
    rw [hxor, Xored.ofList_xor hmsg hrng, List.map_cons, List.sum_cons, add_assoc]

/-- An entry with the peer's pads taken off. -/
def unpadded (pkgs : Packages) (peers : GoMap ℕ PeerInfo) (peer : PeerInfo) (msg : Bytes) : Bytes :=
  (Xored.ofList msg + xorPads pkgs peers peer).toList

/-- The replay takes a member's pads off its entries. -/
theorem pkScripts_eq (hlaws : pkgs.XorLaws)
    (hrand : ∀ sharedKey rng, pkgs.randBytes sharedKey pkScriptSize = some rng → rng.length = pkScriptSize)
    (hkeyed : JoinSession.WellKeyed peers) {keys : List (ℕ × Bytes)}
    (hkeys : sharedKeys pkgs peer (GoMap.values ch.order [901, p] peers) = .ok keys)
    {expVector : List Field} {opInfos : List PeerReplayInfo}
    (hstrip : stripPads pkgs p peer.numMsg (GoMap.range ch.order [977, p] (GoMap.ofList keys)) peer.dcExpVector =
      .ok (expVector, opInfos)) (msgHash : List ℕ) (hsize : ∀ msg ∈ peer.dcXorVector, msg.length = pkScriptSize) :
    pkScripts pkgs ch ⟨p, msgHash, GoMap.ofList (opInfos.map fun opInfo => (opInfo.id, opInfo))⟩ peer.dcXorVector =
      peer.dcXorVector.map (unpadded pkgs peers peer) := by
  obtain ⟨hinfos, -, -⟩ := stripPads_eq_ok hstrip
  obtain ⟨hsum, hperm⟩ := sum_of_stripPads hkeyed hkeys hstrip
    (g := fun opInfo => (Xored.ofList opInfo.dcXorRng : Xored pkScriptSize))
    (t := fun _ sharedKey => Xored.ofList ((pkgs.randBytes sharedKey pkScriptSize).getD [])) fun opid sharedKey opInfo h => by
      obtain ⟨_, rng, -, hrng, rfl⟩ := replayInfo_eq_ok.mp h
      rw [hrng, Option.getD_some]
  have hpads : (opInfos.map fun opInfo => (Xored.ofList opInfo.dcXorRng : Xored pkScriptSize)).sum =
      xorPads pkgs peers peer := by
    rw [hsum, xorPads]
    refine congrArg List.sum (List.map_congr_left fun e _ => ?_)
    split_ifs
    · rfl
    · rw [xorPad]
      cases pkgs.genSharedSecret32 peer.vk e.2.pk
      · exact (Xored.ofList_zeros (n := pkScriptSize)).symm.trans (by
          funext i
          simp [Xored.ofList])
      · rfl
  have hlen : ∀ opInfo ∈ opInfos, opInfo.dcXorRng.length = pkScriptSize := by
    intro opInfo hop
    obtain ⟨e, -, he⟩ := mem_right_of_forall₂ hinfos hop
    obtain ⟨_, rng, -, hrng, rfl⟩ := replayInfo_eq_ok.mp he
    exact hrand _ _ hrng
  refine List.ext_getElem (by simp [pkScripts]) fun i hi hi' => ?_
  have hi₁ : i < peer.dcXorVector.length := by simpa [pkScripts] using hi
  have hvalues := hperm [1161, p, i]
  obtain ⟨h1, h2⟩ := foldl_xorBytes hlaws (fun op hop => hlen op (hvalues.mem_iff.mp hop))
    (hsize _ (List.getElem_mem hi₁))
  simp only [pkScripts, List.getElem_map, List.getElem_zipIdx, Nat.zero_add]
  refine Xored.ofList_injective h1 (by simp [unpadded]) (h2.trans ?_)
  rw [(hvalues.map _).sum_eq, hpads, unpadded, Xored.ofList_toList]

/-- What is left are the contents of the slots. -/
theorem FollowedXor.map_unpadded (hx : FollowedXor pkgs peers peer hashes scripts broadcast) :
    peer.dcXorVector.map (unpadded pkgs peers peer) = broadcast.map (slotContent hashes scripts) := by
  refine List.ext_getElem (by simp [hx.length]) fun i hi hi' => ?_
  obtain ⟨-, hentry⟩ := hx.entry i (by simpa using hi) (by simpa using hi')
  rw [List.getElem_map, List.getElem_map, unpadded, hentry, add_assoc, Xored.add_self, add_zero]
  exact Xored.ofList_injective (Xored.length_toList _) (hx.length_content _) (Xored.ofList_toList _)

theorem FollowedXor.size_entry (hx : FollowedXor pkgs peers peer hashes scripts broadcast) (msg : Bytes)
    (hmsg : msg ∈ peer.dcXorVector) : msg.length = pkScriptSize := by
  obtain ⟨i, hi, rfl⟩ := List.getElem_of_mem hmsg
  exact (hx.entry i hi (hx.length ▸ hi)).1

theorem mem_slotIndex {allMsgHash pkScriptsHash : List ℕ} {i : ℕ} :
    i ∈ slotIndex allMsgHash pkScriptsHash ↔ ∃ g ∈ pkScriptsHash, allMsgHash[i]? = some g := by
  simp only [slotIndex, List.mem_flatMap, List.mem_filter, List.mem_range, decide_eq_true_eq]
  constructor
  · rintro ⟨g, hg, _, hi⟩
    exact ⟨g, hg, hi⟩
  · rintro ⟨g, hg, hi⟩
    exact ⟨g, hg, (List.getElem?_eq_some_iff.mp hi).1, hi⟩

/-- A slot of a peer that followed the protocol is bad unless both lists have the
same hash of the peer there, or both none. -/
theorem FollowedXor.badSlot_iff (hx : FollowedXor pkgs peers peer hashes scripts broadcast)
    (hbytes : ∀ a b, a < fieldPrime → b < fieldPrime → pkgs.getBytes a = pkgs.getBytes b → a = b)
    {allMsgHash msgHash : List ℕ} (hmsg : (msgHash : Multiset ℕ) = hashes.map ZMod.val) {i : ℕ}
    (hi : i < broadcast.length) :
    badSlot pkgs allMsgHash (slotIndex allMsgHash msgHash) i (slotContent hashes scripts broadcast[i]) = false ↔
      ∀ g ∈ hashes, (allMsgHash[i]? = some g.val ↔ broadcast[i] = g.val) := by
  have hmem : ∀ x, x ∈ msgHash ↔ x ∈ hashes.map ZMod.val := fun x => by
    rw [← Multiset.mem_coe, hmsg, Multiset.mem_coe]
  rw [badSlot]
  split_ifs with hslot
  · obtain ⟨x, hx', hget⟩ := mem_slotIndex.mp hslot
    obtain ⟨g, hg, rfl⟩ := List.mem_map.mp ((hmem x).mp hx')
    have hD : allMsgHash.getD i 0 = g.val := by rw [List.getD_eq_getElem?_getD, hget, Option.getD_some]
    simp only [hD, hget, Option.some.injEq, decide_eq_false_iff_not, ne_eq, not_not]
    constructor
    · intro heq g' hg'
      have hown : broadcast[i] ∈ hashes.map ZMod.val := by
        by_contra hnot
        rw [slotContent, if_neg hnot] at heq
        exact hx.zeros g hg heq.symm
      obtain ⟨b, hb, hbv⟩ := List.mem_map.mp hown
      rw [slotContent, if_pos hown, ← hbv, hx.script b hb] at heq
      have := hbytes _ _ (ZMod.val_lt g) (ZMod.val_lt b) heq
      rw [← hbv, this]
    · intro h
      have hb := (h g hg).mp rfl
      rw [slotContent, if_pos (hb ▸ List.mem_map_of_mem hg), hb, hx.script g hg]
  · simp only [decide_eq_false_iff_not, ne_eq, not_not]
    have hnone : ∀ g ∈ hashes, allMsgHash[i]? ≠ some g.val := fun g hg h =>
      hslot (mem_slotIndex.mpr ⟨g.val, (hmem _).mpr (List.mem_map_of_mem hg), h⟩)
    constructor
    · intro heq g hg
      refine ⟨fun h => absurd h (hnone g hg), fun h => ?_⟩
      rw [slotContent, if_pos (h ▸ List.mem_map_of_mem hg), h] at heq
      have := hx.script g hg
      rw [heq] at this
      exact absurd this (hx.zeros g hg)
    · intro h
      rw [slotContent, if_neg]
      intro hown
      obtain ⟨g, hg, hgv⟩ := List.mem_map.mp hown
      exact hnone g hg ((h g hg).mpr hgv.symm)

end Xor

/-- Whether the slot check blames a peer, from its entry in `peerSlotInfos`. -/
theorem mem_xorReplays {pkgs : Packages} {ch : Choices} {peerSlotInfos : GoMap ℕ PeerSlotInfo}
    {peers : GoMap ℕ PeerInfo} {p : ℕ} {peer : PeerInfo} (hp : peers.lookup p = some peer) :
    p ∈ xorReplays pkgs ch peerSlotInfos peers ↔ ∃ slotInfo, peerSlotInfos.lookup p = some slotInfo ∧
      xorReplay pkgs ch (sortedHashes ch peerSlotInfos) slotInfo peer.dcXorVector = true := by
  rw [xorReplays, List.mem_filterMap]
  constructor
  · rintro ⟨⟨pid, slotInfo⟩, hmem, hsome⟩
    dsimp only at hsome
    split_ifs at hsome with hbad
    cases hsome
    rw [hp] at hbad
    exact ⟨slotInfo, GoMap.mem_range.mp hmem, hbad⟩
  · rintro ⟨slotInfo, hlookup, hbad⟩
    refine ⟨(p, slotInfo), GoMap.mem_range.mpr hlookup, ?_⟩
    dsimp only
    rw [hp]
    exact if_pos hbad

/-- Whoever the slot check blames has had its turn. -/
theorem mem_verdicts_of_xorReplays {pkgs : Packages} {ch : Choices} {peers : GoMap ℕ PeerInfo} {p : ℕ}
    {verdicts : List (ℕ × Bool × Option PeerSlotInfo)} (h : p ∈ xorReplays pkgs ch (slotInfos verdicts) peers) :
    ∃ v ∈ verdicts, v.1 = p := by
  obtain ⟨⟨pid, slotInfo⟩, hmem, hsome⟩ := List.mem_filterMap.mp h
  dsimp only at hsome
  split_ifs at hsome
  cases hsome
  obtain ⟨v, hv, hslot⟩ := List.mem_filterMap.mp (GoMap.mem_of_lookup_ofList (GoMap.mem_range.mp hmem))
  obtain ⟨_, -, heq⟩ := Option.map_eq_some_iff.mp hslot
  cases heq
  exact ⟨v, hv, rfl⟩

/-- The check of all slots of a peer that followed the protocol. -/
theorem FollowedXor.xorReplay_iff {pkgs : Packages} {ch : Choices} {peers : GoMap ℕ PeerInfo} {peer : PeerInfo}
    {hashes : List Field} {scripts : ℕ → Bytes} {broadcast : List ℕ}
    (hx : FollowedXor pkgs peers peer hashes scripts broadcast)
    (hbytes : ∀ a b, a < fieldPrime → b < fieldPrime → pkgs.getBytes a = pkgs.getBytes b → a = b)
    (slotInfo : PeerSlotInfo) (hmsg : (slotInfo.pkScriptsHash : Multiset ℕ) = hashes.map ZMod.val)
    (hscripts : Coinjoin.pkScripts pkgs ch slotInfo peer.dcXorVector = broadcast.map (slotContent hashes scripts))
    {A : List ℕ} (hA : A.Pairwise (· ≤ ·)) (hsorted : broadcast.Pairwise (· < ·)) (hlen : A.length ≤ broadcast.length) :
    xorReplay pkgs ch A slotInfo peer.dcXorVector = false ↔
      ∀ g ∈ hashes, A.countP (· < g.val) = broadcast.countP (· < g.val) ∧ A.count g.val = 1 := by
  have hslots : xorReplay pkgs ch A slotInfo peer.dcXorVector = false ↔
      ∀ i (hi : i < broadcast.length), ∀ g ∈ hashes, (A[i]? = some g.val ↔ broadcast[i] = g.val) := by
    rw [xorReplay, hscripts, List.any_eq_false]
    constructor
    · intro h i hi
      have hmem : (slotContent hashes scripts broadcast[i], i) ∈ (broadcast.map (slotContent hashes scripts)).zipIdx :=
        List.mk_mem_zipIdx_iff_getElem?.mpr (by simp [hi])
      exact (hx.badSlot_iff hbytes hmsg hi).mp (Bool.eq_false_iff.mpr (h _ hmem))
    · rintro h ⟨content, i⟩ hmem
      have hget := List.mk_mem_zipIdx_iff_getElem?.mp hmem
      rw [List.getElem?_map, Option.map_eq_some_iff] at hget
      obtain ⟨g, hg, rfl⟩ := hget
      obtain ⟨hi, rfl⟩ := List.getElem?_eq_some_iff.mp hg
      exact Bool.eq_false_iff.mp ((hx.badSlot_iff hbytes hmsg hi).mpr (h i hi))
  rw [hslots]
  constructor
  · intro h g hg
    refine (same_positions_iff hA hsorted hlen (hx.listed g hg)).mp fun i hi => ?_
    rw [h i hi g hg, List.getElem?_eq_getElem hi, Option.some.injEq]
  · intro h i hi g hg
    have := (same_positions_iff hA hsorted hlen (hx.listed g hg)).mpr (h g hg) i hi
    rw [this, List.getElem?_eq_getElem hi, Option.some.injEq]

/-- **When the slot check spares a peer that followed the protocol.** It does exactly
when each hash of the peer is reconstructed once and has as many hashes below it
among the reconstructed as among the broadcast ones. -/
theorem slot_check_spares_iff {pkgs : Packages} (hflint : pkgs.flint.Correct fieldPrime)
    (hparse : ∀ x : Field, pkgs.uint128FromString (Hex.hexStr x.val) = x.val) (hlaws : pkgs.XorLaws)
    (hrand : ∀ sharedKey rng, pkgs.randBytes sharedKey pkScriptSize = some rng → rng.length = pkScriptSize)
    (hbytes : ∀ a b, a < fieldPrime → b < fieldPrime → pkgs.getBytes a = pkgs.getBytes b → a = b) (ch : Choices)
    (js : JoinSession) (hstate : js.state = .txInput ∨ js.state = .revealSecret)
    (hkeyed : JoinSession.WellKeyed js.peers) (h1000 : totalMsgs js.peers ≤ 1000) (p : ℕ) (peer : PeerInfo)
    (hashes : List Field) (hp : FollowedExp pkgs js.peers p peer hashes) (broadcast : List ℕ)
    (hsorted : broadcast.Pairwise (· < ·)) (hcount : broadcast.length = totalMsgs js.peers) (scripts : ℕ → Bytes)
    (hx : FollowedXor pkgs js.peers peer hashes scripts broadcast) (f : Findings) (h : replay pkgs ch js = .ok f) :
    p ∉ f.xorIds ↔ ∀ g ∈ hashes,
      (reconstructed pkgs js.peers).countP (· < g.val) = broadcast.countP (· < g.val) ∧
        (reconstructed pkgs js.peers).count g.val = 1 := by
  obtain ⟨-, replayPeers, verdicts, -, hreplay, -, hverdicts, -, hxor⟩ := replay_eq_ok h
  rw [hxor, if_pos hstate, mem_xorReplays hp.member]
  have hnum : ∀ q qeer, js.peers.lookup q = some qeer → qeer.numMsg ≤ 1000 := fun _ _ hq =>
    (numMsg_le_totalMsgs hq).trans h1000
  have hA := sortedHashes_eq hkeyed hflint hparse hnum hreplay hverdicts
  have hAsorted : (sortedHashes ch (slotInfos verdicts)).Pairwise (· ≤ ·) := List.pairwise_insertionSort ..
  have hAlen : (sortedHashes ch (slotInfos verdicts)).length ≤ broadcast.length := by
    rw [← Multiset.coe_card, hA, hcount]
    exact card_reconstructed_le
  have hnodup := nodup_verdicts hverdicts
  rw [← hA]
  simp only [Multiset.coe_countP, Multiset.coe_count]
  obtain ⟨malicious, slot, keys, expVector, opInfos, hmem, hshared, hstrip, hturn⟩ :=
    exists_turn hkeyed hreplay hverdicts hp.member
  rw [lookup_slotInfos hnodup hmem]
  rcases Nat.eq_zero_or_pos peer.numMsg with hzero | hpos
  · -- a peer without messages is neither entered nor has it hashes
    have hnil : hashes = [] := List.eq_nil_of_length_eq_zero (hp.numMsg.symm.trans hzero)
    have hnone : slot = none := hturn.slot_of_zero hzero
    simp [hnil, hnone]
  · obtain ⟨-, msgHash, hmsg, hslot⟩ := hp.turn hkeyed hflint hparse hpos h1000 hshared hstrip hturn
    dsimp only at hslot
    have hiff := hx.xorReplay_iff hbytes ⟨p, msgHash, _⟩ hmsg
      ((pkScripts_eq hlaws hrand hkeyed hshared hstrip _ hx.size_entry).trans hx.map_unpadded) hAsorted hsorted hAlen
    rw [hslot, ← hiff]
    simp

/-- Peers 1 and 2 with keys 2 and 3 and one hash each, 10 and 4. Both sent what the
protocol asks for, but peer 2 has revealed the key 5. -/
noncomputable def otherKey : JoinSession :=
  let pad := fun _ _ => expPad plainPackages [2] [3]
  let script := fun n => toBigEndian n 25
  let padded := fun b => xorBytes b (xorPad plainPackages [2] [3])
  { newJoinSession 7 60 false (GoMap.ofList
      [(1, { newPeer 0 1 with
          pk := [2], vk := [2], numMsg := 1, dcExpVector := honestVector [2, 1] pad [(10 : ℕ)] 1 2
          dcXorVector := [padded (script 0), padded (script 10)] }),
        (2, { newPeer 1 2 with
          pk := [3], vk := [5], numMsg := 1, dcExpVector := honestVector [2, 1] pad [(4 : ℕ)] 2 2
          dcXorVector := [padded (script 4), padded (script 0)] })]) with
    state := .revealSecret }


/-- The slots of peer 1 there: zero bytes for the hash 4 and the script of 10. -/
theorem otherKey_slots (i : ℕ) (h : i < [List.replicate 25 (6 : UInt8), List.replicate 24 6 ++ [12]].length)
    (h' : i < [4, 10].length) :
    [List.replicate 25 (6 : UInt8), List.replicate 24 6 ++ [12]][i].length = pkScriptSize ∧
      (Xored.ofList [List.replicate 25 (6 : UInt8), List.replicate 24 6 ++ [12]][i] : Xored pkScriptSize) =
        Xored.ofList (slotContent [10] (toBigEndian · 25) [4, 10][i]) + Xored.ofList (List.replicate 25 6) := by
  match i, h with
  | 0, _ => decide +revert
  | 1, _ => decide +revert

/-- Peer 1 followed the protocol there. -/
theorem otherKey_follower : ∃ peer, peer.pk = peer.vk ∧ FollowedExp plainPackages otherKey.peers 1 peer [10] ∧
    FollowedXor plainPackages otherKey.peers peer [10] (toBigEndian · 25) [4, 10] := by
  obtain ⟨peer, hpeer⟩ : ∃ peer, otherKey.peers.lookup 1 = some peer := ⟨_, rfl⟩
  have hkey : peer.pk = peer.vk := by
    cases hpeer
    rfl
  have hexp : FollowedExp plainPackages otherKey.peers 1 peer [10] := by
    cases hpeer
    exact ⟨rfl, rfl, by decide⟩
  have hpads : xorPads plainPackages otherKey.peers peer = Xored.ofList (List.replicate 25 6) := by
    cases hpeer
    decide
  have hvec : peer.dcXorVector = [List.replicate 25 6, List.replicate 24 6 ++ [12]] := by
    cases hpeer
    decide
  have hval : (10 : Field).val = 10 := rfl
  refine ⟨peer, hkey, hexp, ?_, ?_, ?_, ?_, by rw [hvec]; rfl, ?_⟩
  · simp only [List.mem_singleton, forall_eq, hval]
    decide
  · simp only [List.mem_singleton, forall_eq, hval]
    decide
  · simp only [List.mem_singleton, forall_eq, hval]
    decide
  · simp only [List.mem_singleton, forall_eq, hval]
    decide
  · simp only [hvec, hpads]
    exact otherKey_slots

/-- In the exponential round the two vectors gave the list `[4, 10]`. -/
theorem otherKey_broadcast : ∃ sums roots,
    combine 2 ((GoMap.values (plainChoices id).order [423] otherKey.peers).map (·.dcExpVector)) = .ok sums ∧
      Flint.getRoots plainPackages.flint (Hex.hexStr fieldPrime) sums 2 = .ok (0, roots) ∧
      (roots : Multiset (List Char)) = [4, 10].map Hex.hexStr := by
  obtain ⟨roots, hroots, hM⟩ := Flint.getRoots_of_psum plainPackages.flint (p := fieldPrime) [14, 116] (n := 2)
    plainPackages_flint le_rfl (by norm_num) (by norm_num [fieldPrime]) le_rfl (M := {4, 10}) rfl (by decide)
  exact ⟨[14, 116], roots, by decide, hroots, hM.trans (by decide)⟩

/-- **The slot check can blame a peer that followed the protocol.** The hash
reconstructed with the key 5 is above 10, so the check looks for the script of peer 1
in the first slot. -/
theorem slot_check_blames_follower : ∃ peer f, otherKey.state = .revealSecret ∧ peer.pk = peer.vk ∧
    FollowedExp plainPackages otherKey.peers 1 peer [10] ∧
    FollowedXor plainPackages otherKey.peers peer [10] (toBigEndian · 25) [4, 10] ∧
    (∃ sums roots,
      combine 2 ((GoMap.values (plainChoices id).order [423] otherKey.peers).map (·.dcExpVector)) = .ok sums ∧
        Flint.getRoots plainPackages.flint (Hex.hexStr fieldPrime) sums 2 = .ok (0, roots) ∧
        (roots : Multiset (List Char)) = [4, 10].map Hex.hexStr) ∧
    replay plainPackages (plainChoices id) otherKey = .ok f ∧ 1 ∈ f.xorIds := by
  obtain ⟨peer, hkey, hexp, hxor⟩ := otherKey_follower
  exact ⟨peer, ⟨2, [2], [2], [1, 2]⟩, rfl, hkey, hexp, hxor, otherKey_broadcast, by decide, by decide⟩

/-- There the condition fails. -/
theorem slot_check_spares_iff_otherKey :
    ¬((reconstructed plainPackages otherKey.peers).countP (· < 10) = 1 ∧
      (reconstructed plainPackages otherKey.peers).count 10 = 1) := by
  obtain ⟨peer, -, hexp, hxor⟩ := otherKey_follower
  have hiff := slot_check_spares_iff plainPackages_flint plainPackages_parse plainPackages_xor (plainPackages_rand _)
    plainPackages_bytes (plainChoices id) otherKey (.inr rfl) (by decide) (by decide) 1 peer [10] hexp [4, 10] (by decide)
    rfl (toBigEndian · 25) hxor ⟨2, [2], [2], [1, 2]⟩ (by decide)
  intro h
  have hspared := hiff.mpr fun g hg => by
    rw [List.mem_singleton.mp hg]
    exact h
  exact hspared (by decide)

end Dcrtxmatcher.Coinjoin
