import Dcrtxmatcher.Coinjoin.ReplayRuns
import Dcrtxmatcher.Coinjoin.XorRound
import Mathlib.NumberTheory.LegendreSymbol.Basic

/-! When the replay blames somebody.

It does exactly when some peer is exposed by what it sent: a key pair that is not
one, a vector that is not that of any hashes, or an xor vector that does not fit the
reconstructed hashes. A peer that announced no messages is exposed by its key pair
only, whatever vectors it sent. If all peers announced messages and nobody is
exposed, the pads cancel and the rounds do not fail. -/
namespace Dcrtxmatcher.Coinjoin
open Lib Lib.Pads Lib.PowerSums

/-! ### Exposed peers -/

/-- What the peer with the hashes `own` may put into slot `i`: the preimage of its
hash there, or zero bytes. -/
structure Fits (pkgs : Packages) (allMsgHash : List ℕ) (own : Multiset ℕ) (i : ℕ) (content : Bytes) : Prop where
  slot : ∀ g ∈ own, allMsgHash[i]? = some g → pkgs.sum127 content = pkgs.getBytes g
  rest : (∀ g ∈ own, allMsgHash[i]? ≠ some g) → content = List.replicate pkScriptSize 0

/-- What a peer can give itself away by. -/
inductive Exposed (pkgs : Packages) (keyPair : Bytes → Bytes → Prop) (js : JoinSession) (peer : PeerInfo) : Prop
  | key (h : ¬keyPair peer.vk peer.pk)
  | tooMany (h : 1000 < peer.numMsg)
  | exponential (hnum : 0 < peer.numMsg) (h : ¬Consistent pkgs js.peers (replayTotal js) peer)
  | xor (hstate : js.state = .txInput ∨ js.state = .revealSecret) (hnum : 0 < peer.numMsg) {i : ℕ} {msg : Bytes}
      (hmsg : peer.dcXorVector[i]? = some msg)
      (h : ¬Fits pkgs ((reconstructed pkgs js.peers).sort (· ≤ ·)) ((ownHashes pkgs js.peers peer).map ZMod.val) i
        (unpadded pkgs js.peers peer msg))

/-! ### The three checks -/

theorem insertionSort_eq_sort {l : List ℕ} {M : Multiset ℕ} (h : (l : Multiset ℕ) = M) :
    l.insertionSort (· ≤ ·) = M.sort (· ≤ ·) := by
  have hperm : (l.insertionSort (· ≤ ·)).Perm (M.sort (· ≤ ·)) := by
    rw [← Multiset.coe_eq_coe, Multiset.sort_eq, ← h]
    exact Multiset.coe_eq_coe.mpr (List.perm_insertionSort ..)
  exact hperm.eq_of_pairwise (fun a b _ _ => le_antisymm) (List.pairwise_insertionSort ..) (Multiset.pairwise_sort ..)

section Findings
variable {pkgs : Packages} {ch : Choices} {peers : GoMap ℕ PeerInfo} {p : ℕ} {peer : PeerInfo}

theorem mem_keyIds_iff {keyPair : Bytes → Bytes → Prop}
    (hpair : ∀ turn a pa key1 key2, pkgs.genSharedSecret a (ch.generateKey turn).2 = some key1 →
      pkgs.genSharedSecret (ch.generateKey turn).1 pa = some key2 → (key1 = key2 ↔ keyPair a pa))
    (hkeyed : JoinSession.WellKeyed peers) {ids : List ℕ}
    (h : keyCheck pkgs ch (GoMap.values ch.order [869] peers).zipIdx = .ok ids) (hp : peers.lookup p = some peer) :
    p ∈ ids ↔ ¬keyPair peer.vk peer.pk := by
  have hne : ∀ e ∈ (GoMap.values ch.order [869] peers).zipIdx,
      (pkgs.genSharedSecret e.1.vk (ch.generateKey e.2).2 ≠ pkgs.genSharedSecret (ch.generateKey e.2).1 e.1.pk ↔
        ¬keyPair e.1.vk e.1.pk) := by
    intro e he
    obtain ⟨key1, key2, h1, h2⟩ := exists_keyCheck_iff.mp ⟨_, h⟩ e he
    rw [ne_eq, ← hpair _ _ _ _ _ h1 h2, h1, h2, Option.some.injEq]
  rw [mem_keyCheck h]
  constructor
  · rintro ⟨⟨q, turn⟩, hq, hid, hdiff⟩
    obtain ⟨k, hk⟩ := GoMap.mem_values.mp (List.fst_mem_of_mem_zipIdx hq)
    rw [hkeyed k q hk] at hid
    rw [hid] at hk
    cases hk.symm.trans hp
    exact (hne _ hq).mp hdiff
  · intro hkey
    obtain ⟨turn, hturn⟩ : ∃ turn, (peer, turn) ∈ (GoMap.values ch.order [869] peers).zipIdx := by
      obtain ⟨i, hi, heq⟩ := List.getElem_of_mem (GoMap.mem_values.mpr ⟨p, hp⟩ : peer ∈ GoMap.values ch.order [869] peers)
      exact ⟨i, List.mk_mem_zipIdx_iff_getElem?.mpr (List.getElem?_eq_some_iff.mpr ⟨hi, heq⟩)⟩
    exact ⟨_, hturn, hkeyed p peer hp, (hne _ hturn).mpr hkey⟩

/-- The list of all hashes, however it was collected. -/
theorem sort_of_sortedHashes {peerSlotInfos : GoMap ℕ PeerSlotInfo} {M : Multiset ℕ}
    (h : (sortedHashes ch peerSlotInfos : Multiset ℕ) = M) : sortedHashes ch peerSlotInfos = M.sort (· ≤ ·) := by
  refine insertionSort_eq_sort (h ▸ ?_)
  exact Multiset.coe_eq_coe.mpr (List.perm_insertionSort ..).symm

/-- A bad slot is one whose content does not fit. -/
theorem badSlot_iff {allMsgHash msgHash : List ℕ} {own : Multiset ℕ} (hown : (msgHash : Multiset ℕ) = own) {i : ℕ}
    {content : Bytes} :
    badSlot pkgs allMsgHash (slotIndex allMsgHash msgHash) i content = true ↔ ¬Fits pkgs allMsgHash own i content := by
  have hmem : ∀ g, g ∈ msgHash ↔ g ∈ own := fun g => by rw [← hown, Multiset.mem_coe]
  rw [badSlot]
  split_ifs with hslot
  · obtain ⟨g, hg, hget⟩ := mem_slotIndex.mp hslot
    rw [List.getD_eq_getElem?_getD, hget, Option.getD_some, decide_eq_true_iff, not_iff_not]
    refine ⟨fun heq => ⟨fun g' _ hget' => ?_, fun hrest => absurd hget (hrest g ((hmem g).mp hg))⟩, fun hfits => ?_⟩
    · rw [hget, Option.some.injEq] at hget'
      rw [← hget', heq]
    · exact (hfits.slot g ((hmem g).mp hg) hget).symm
  · rw [decide_eq_true_iff, not_iff_not]
    have hnone : ∀ g ∈ own, allMsgHash[i]? ≠ some g := fun g hg hget =>
      hslot (mem_slotIndex.mpr ⟨g, (hmem g).mpr hg, hget⟩)
    exact ⟨fun heq => ⟨fun g hg hget => absurd hget (hnone g hg), fun _ => heq⟩, fun hfits => hfits.rest hnone⟩

/-- A peer has a bad slot when one of its entries does not fit. -/
theorem xorReplay_iff {allMsgHash : List ℕ} {own : Multiset ℕ} (slotInfo : PeerSlotInfo)
    (hown : (slotInfo.pkScriptsHash : Multiset ℕ) = own) {vector : List Bytes}
    (hscripts : pkScripts pkgs ch slotInfo vector = vector.map (unpadded pkgs peers peer)) :
    xorReplay pkgs ch allMsgHash slotInfo vector = true ↔
      ∃ i msg, vector[i]? = some msg ∧ ¬Fits pkgs allMsgHash own i (unpadded pkgs peers peer msg) := by
  rw [xorReplay, hscripts, List.any_eq_true]
  constructor
  · rintro ⟨⟨content, i⟩, hmem, hbad⟩
    have hget := List.mk_mem_zipIdx_iff_getElem?.mp hmem
    rw [List.getElem?_map, Option.map_eq_some_iff] at hget
    obtain ⟨msg, hmsg, rfl⟩ := hget
    exact ⟨i, msg, hmsg, (badSlot_iff hown).mp hbad⟩
  · rintro ⟨i, msg, hmsg, hbad⟩
    refine ⟨(unpadded pkgs peers peer msg, i), List.mk_mem_zipIdx_iff_getElem?.mpr ?_, (badSlot_iff hown).mpr hbad⟩
    rw [List.getElem?_map, hmsg, Option.map_some]

section Verdicts
variable {replayPeers : GoMap ℕ (GoMap ℕ Bytes)} {n : ℕ} {verdicts : List (ℕ × Bool × Option PeerSlotInfo)}

/-- Whom the exponential check finds malicious. -/
theorem mem_expIds_iff (hflint : pkgs.flint.Correct fieldPrime)
    (hparse : ∀ x : Field, pkgs.uint128FromString (Hex.hexStr x.val) = x.val)
    (hbytes : ∀ a b, a < fieldPrime → b < fieldPrime → pkgs.getBytes a = pkgs.getBytes b → a = b)
    (hkeyed : JoinSession.WellKeyed peers) (hreplay : replayKeys pkgs ch peers = .ok replayPeers)
    (hverdicts : expReplays pkgs ch n replayPeers peers = .ok verdicts) (hnodup : (verdicts.map Prod.fst).Nodup)
    (hp : peers.lookup p = some peer) (hn : peer.numMsg ≤ n) :
    p ∈ verdicts.filterMap (fun v => if v.2.1 then some v.1 else none) ↔
      1000 < peer.numMsg ∨ 0 < peer.numMsg ∧ ¬Consistent pkgs peers n peer := by
  obtain ⟨malicious, slot, keys, expVector, opInfos, hmem, hshared, hstrip, hturn⟩ :=
    exists_turn hkeyed hreplay hverdicts hp
  obtain ⟨-, hpads⟩ := padSum_of_stripPads hkeyed hp hshared hstrip
  obtain ⟨-, hlen, -⟩ := stripPads_eq_ok hstrip
  rw [← hturn.malicious_iff hflint hparse hbytes hn hlen (take_of_stripPads hkeyed hp hshared hstrip) hpads,
    List.mem_filterMap]
  constructor
  · rintro ⟨v, hv, hsome⟩
    split_ifs at hsome with hmal
    cases hsome
    have := List.inj_on_of_nodup_map hnodup hv hmem rfl
    rwa [this] at hmal
  · intro hmal
    exact ⟨_, hmem, if_pos hmal⟩

/-- Whom the slot check finds malicious. -/
theorem mem_xorIds_iff (hflint : pkgs.flint.Correct fieldPrime)
    (hparse : ∀ x : Field, pkgs.uint128FromString (Hex.hexStr x.val) = x.val) (hlaws : pkgs.XorLaws)
    (hrand : ∀ sharedKey rng, pkgs.randBytes sharedKey pkScriptSize = some rng → rng.length = pkScriptSize)
    (hkeyed : JoinSession.WellKeyed peers) (h1000 : ∀ p peer, peers.lookup p = some peer → peer.numMsg ≤ 1000)
    (hreplay : replayKeys pkgs ch peers = .ok replayPeers)
    (hverdicts : expReplays pkgs ch n replayPeers peers = .ok verdicts) (hnodup : (verdicts.map Prod.fst).Nodup)
    (hp : peers.lookup p = some peer) (hsize : ∀ msg ∈ peer.dcXorVector, msg.length = pkScriptSize)
    (hn : peer.numMsg ≤ n) (hcons : 0 < peer.numMsg → Consistent pkgs peers n peer) :
    p ∈ xorReplays pkgs ch (slotInfos verdicts) peers ↔ 0 < peer.numMsg ∧ ∃ i msg, peer.dcXorVector[i]? = some msg ∧
      ¬Fits pkgs ((reconstructed pkgs peers).sort (· ≤ ·)) ((ownHashes pkgs peers peer).map ZMod.val) i
        (unpadded pkgs peers peer msg) := by
  obtain ⟨malicious, slot, keys, expVector, opInfos, hmem, hshared, hstrip, hturn⟩ :=
    exists_turn hkeyed hreplay hverdicts hp
  have htake := take_of_stripPads hkeyed hp hshared hstrip
  have hown := hashes_of_turn hflint hparse (h1000 p peer hp) htake hturn
  rw [mem_xorReplays hp, lookup_slotInfos hnodup hmem,
    sort_of_sortedHashes (sortedHashes_eq hkeyed hflint hparse h1000 hreplay hverdicts)]
  have hslot : ∀ slotInfo, slot = some slotInfo →
      0 < peer.numMsg ∧ slotInfo = ⟨p, slotInfo.pkScriptsHash, GoMap.ofList (opInfos.map fun opInfo => (opInfo.id, opInfo))⟩ := by
    intro slotInfo hsome
    subst hsome
    exact hturn.slot_eq rfl
  constructor
  · rintro ⟨slotInfo, hsome, hbad⟩
    obtain ⟨hpos, heq⟩ := hslot slotInfo hsome
    subst hsome
    refine ⟨hpos, (xorReplay_iff slotInfo hown ?_).mp hbad⟩
    rw [heq]
    exact pkScripts_eq hlaws hrand hkeyed hshared hstrip _ hsize
  · rintro ⟨hpos, hbad⟩
    obtain ⟨slotInfo, hsome⟩ : ∃ slotInfo, slot = some slotInfo := by
      rcases hslot' : slot with _ | slotInfo
      · -- an entry is missing only for hashes that do not exist
        rw [hslot'] at hown
        have hcard := congrArg Multiset.card hown
        rw [Multiset.card_map, ((hcons hpos).own (h1000 p peer hp) hn).1] at hcard
        exact absurd hcard.symm hpos.ne'
      · exact ⟨slotInfo, rfl⟩
    obtain ⟨-, heq⟩ := hslot slotInfo hsome
    subst hsome
    refine ⟨slotInfo, rfl, (xorReplay_iff slotInfo hown ?_).mpr hbad⟩
    rw [heq]
    exact pkScripts_eq hlaws hrand hkeyed hshared hstrip _ hsize

end Verdicts

end Findings

/-- Somebody is on a list of members exactly when some member has the property it
is a list of. -/
theorem ne_nil_iff_exists_member {peers : GoMap ℕ PeerInfo} {ids : List ℕ} {P : PeerInfo → Prop}
    (hmember : ∀ p ∈ ids, ∃ peer, peers.lookup p = some peer)
    (hiff : ∀ p peer, peers.lookup p = some peer → (p ∈ ids ↔ P peer)) :
    ids ≠ [] ↔ ∃ p peer, peers.lookup p = some peer ∧ P peer := by
  constructor
  · intro hne
    obtain ⟨p, hmem⟩ := List.exists_mem_of_ne_nil _ hne
    obtain ⟨peer, hp⟩ := hmember p hmem
    exact ⟨p, peer, hp, (hiff p peer hp).mp hmem⟩
  · rintro ⟨p, peer, hp, hP⟩
    exact List.ne_nil_of_mem ((hiff p peer hp).mpr hP)

/-- **Whom the replay blames.** -/
theorem maliciousIds_ne_nil_iff {pkgs : Packages} (hflint : pkgs.flint.Correct fieldPrime)
    (hparse : ∀ x : Field, pkgs.uint128FromString (Hex.hexStr x.val) = x.val) (hlaws : pkgs.XorLaws)
    (hrand : ∀ sharedKey rng, pkgs.randBytes sharedKey pkScriptSize = some rng → rng.length = pkScriptSize)
    (hbytes : ∀ a b, a < fieldPrime → b < fieldPrime → pkgs.getBytes a = pkgs.getBytes b → a = b)
    {keyPair : Bytes → Bytes → Prop} {ch : Choices}
    (hpair : ∀ turn a pa key1 key2, pkgs.genSharedSecret a (ch.generateKey turn).2 = some key1 →
      pkgs.genSharedSecret (ch.generateKey turn).1 pa = some key2 → (key1 = key2 ↔ keyPair a pa))
    {js : JoinSession} (hkeyed : JoinSession.WellKeyed js.peers)
    (hsize : ∀ p peer, js.peers.lookup p = some peer → ∀ msg ∈ peer.dcXorVector, msg.length = pkScriptSize)
    {f : Findings} (h : replay pkgs ch js = .ok f) :
    f.maliciousIds ≠ [] ↔ ∃ p peer, js.peers.lookup p = some peer ∧ Exposed pkgs keyPair js peer := by
  obtain ⟨-, replayPeers, verdicts, hkeys, hreplay, htotal, hverdicts, hexp, hxor⟩ := replay_eq_ok h
  have htotal' : f.totalMsg = replayTotal js := htotal.trans totalMsg_of_replay
  have hnum : ∀ {p peer}, js.peers.lookup p = some peer → peer.numMsg ≤ f.totalMsg := fun hp => by
    rw [htotal', replayTotal]
    exact (numMsg_le_totalMsgs hp).trans (Nat.le_add_left ..)
  have hnodup := nodup_verdicts hverdicts
  have hkeyIds : f.keyIds ≠ [] ↔ ∃ p peer, js.peers.lookup p = some peer ∧ ¬keyPair peer.vk peer.pk := by
    refine ne_nil_iff_exists_member (fun p hmem => ?_) fun p peer hp => mem_keyIds_iff hpair hkeyed hkeys hp
    obtain ⟨⟨peer, turn⟩, hq, rfl, -⟩ := (mem_keyCheck hkeys p).mp hmem
    obtain ⟨k, hk⟩ := GoMap.mem_values.mp (List.fst_mem_of_mem_zipIdx hq)
    exact ⟨peer, by rwa [hkeyed k peer hk]⟩
  have hexpIds : f.expIds ≠ [] ↔ ∃ p peer, js.peers.lookup p = some peer ∧
      (1000 < peer.numMsg ∨ 0 < peer.numMsg ∧ ¬Consistent pkgs js.peers f.totalMsg peer) := by
    rw [hexp]
    refine ne_nil_iff_exists_member (fun p hmem => ?_) fun p peer hp =>
      mem_expIds_iff hflint hparse hbytes hkeyed hreplay hverdicts hnodup hp (hnum hp)
    obtain ⟨v, hv, hsome⟩ := List.mem_filterMap.mp hmem
    split_ifs at hsome
    cases hsome
    obtain ⟨peer, hp, -⟩ := verdict_of_mem hverdicts hv
    exact ⟨peer, hp⟩
  have hblamed : f.maliciousIds ≠ [] ↔ f.keyIds ≠ [] ∨ f.expIds ≠ [] ∨ f.xorIds ≠ [] := by
    rw [Findings.maliciousIds, ne_eq, List.append_eq_nil_iff, List.append_eq_nil_iff, not_and_or, not_and_or, or_assoc]
  rw [hblamed, hkeyIds]
  by_cases hclean : f.expIds = []
  swap
  · -- the exponential check blames somebody
    refine iff_of_true (.inr (.inl hclean)) ?_
    obtain ⟨p, peer, hp, hgt | ⟨hpos, hcons⟩⟩ := hexpIds.mp hclean
    · exact ⟨p, peer, hp, .tooMany hgt⟩
    · exact ⟨p, peer, hp, .exponential hpos (htotal' ▸ hcons)⟩
  have hnone := not_iff_not.mpr hexpIds
  rw [not_not] at hnone
  replace hnone := hnone.mp hclean
  push Not at hnone
  have hxorIds : f.xorIds ≠ [] ↔ ∃ p peer, js.peers.lookup p = some peer ∧
      (js.state = .txInput ∨ js.state = .revealSecret) ∧ 0 < peer.numMsg ∧ ∃ i msg, peer.dcXorVector[i]? = some msg ∧
        ¬Fits pkgs ((reconstructed pkgs js.peers).sort (· ≤ ·)) ((ownHashes pkgs js.peers peer).map ZMod.val) i
          (unpadded pkgs js.peers peer msg) := by
    rw [hxor]
    split_ifs with hstate
    · refine ne_nil_iff_exists_member (fun p hmem => ?_) fun p peer hp => ?_
      · obtain ⟨v, hv, hfst⟩ := mem_verdicts_of_xorReplays hmem
        obtain ⟨peer, hp, -⟩ := verdict_of_mem hverdicts hv
        exact ⟨peer, hfst ▸ hp⟩
      · rw [mem_xorIds_iff hflint hparse hlaws hrand hkeyed (fun q qeer hq => (hnone q qeer hq).1) hreplay hverdicts
          hnodup hp (hsize p peer hp) (hnum hp) (hnone p peer hp).2, and_iff_right hstate]
    · simp [hstate]
  rw [hxorIds]
  constructor
  · rintro (⟨p, peer, hp, hkey⟩ | hne | ⟨p, peer, hp, hstate, hpos, i, msg, hmsg, hfits⟩)
    · exact ⟨p, peer, hp, .key hkey⟩
    · exact absurd hclean hne
    · exact ⟨p, peer, hp, .xor hstate hpos hmsg hfits⟩
  · rintro ⟨p, peer, hp, hexposed⟩
    cases hexposed with
    | key hkey => exact .inl ⟨p, peer, hp, hkey⟩
    | tooMany hgt => exact absurd (hnone p peer hp).1 (by omega)
    | exponential hpos hcons => exact absurd ((hnone p peer hp).2 hpos) (htotal' ▸ hcons)
    | xor hstate hpos hmsg hfits => exact .inr (.inr ⟨p, peer, hp, hstate, hpos, _, _, hmsg, hfits⟩)

/-! ### Failed rounds -/

/-- The sum of the vectors, over as many entries as one of them has. -/
def Combined (ch : Choices) (js : JoinSession) (n : ℕ) (sums : List Field) : Prop :=
  (∃ p peer, js.peers.lookup p = some peer ∧ peer.dcExpVector.length = n) ∧
    combine n ((GoMap.values ch.order [423] js.peers).map (·.dcExpVector)) = .ok sums

/-- The combined polynomial has no solution. -/
def ExponentialFailed (pkgs : Packages) (ch : Choices) (js : JoinSession) : Prop :=
  ∃ n sums ret roots, Combined ch js n sums ∧
    Flint.getRoots pkgs.flint (Hex.hexStr fieldPrime) sums n = .ok (ret, roots) ∧ ret ≠ 0

/-- A combined slot does not hash to the hash that was broadcast for it, in ascending order. -/
def XorFailed (pkgs : Packages) (ch : Choices) (js : JoinSession) : Prop :=
  ∃ (n : ℕ) (sums : List Field) (roots : List (List Char)) (slots : List Bytes) (i hash : ℕ) (slot : Bytes),
    Combined ch js n sums ∧
    Flint.getRoots pkgs.flint (Hex.hexStr fieldPrime) sums n = .ok (0, roots) ∧
    xorSlots pkgs ch js.peers slots.length = .ok slots ∧
    ((roots.map pkgs.uint128FromString).insertionSort (· ≤ ·))[i]? = some hash ∧ slots[i]? = some slot ∧
    pkgs.sum127 slot ≠ pkgs.getBytes hash

/-- Everybody announced messages and sent a vector with one entry for each message of
all peers, the hashes differ, and the xor vectors are there to be checked. -/
structure Regular (pkgs : Packages) (js : JoinSession) : Prop where
  first : js.totalMsg = 0
  least : 2 ≤ totalMsgs js.peers
  most : totalMsgs js.peers ≤ 1000
  announced : ∀ p peer, js.peers.lookup p = some peer → 0 < peer.numMsg
  length : ∀ p peer, js.peers.lookup p = some peer → peer.dcExpVector.length = totalMsgs js.peers
  distinct : (reconstructed pkgs js.peers).Nodup
  state : js.state = .txInput ∨ js.state = .revealSecret ∨
    ∀ p peer, js.peers.lookup p = some peer → peer.dcXorVector = []

/-- If `x` is in one of the multisets only and `g` vanishes on the others, only that one
is left of a sum of `g`. -/
theorem exists_sum_eq {α β G : Type*} [AddCommMonoid G] {l : List α} {f : α → Multiset β} {g : α → G} {x : β}
    (hnodup : (l.map f).sum.Nodup) (hx : x ∈ (l.map f).sum) (hg : ∀ a ∈ l, x ∉ f a → g a = 0) :
    ∃ a ∈ l, x ∈ f a ∧ (l.map g).sum = g a := by
  induction l with
  | nil => simp at hx
  | cons a l ih =>
    rw [List.map_cons, List.sum_cons] at hnodup hx
    obtain ⟨-, hrest, hdisj⟩ := Multiset.nodup_add.mp hnodup
    have hg' : ∀ b ∈ l, x ∉ f b → g b = 0 := fun b hb => hg b (List.mem_cons_of_mem a hb)
    rw [List.map_cons, List.sum_cons]
    rcases Multiset.mem_add.mp hx with hxa | hxl
    · have hzero : (l.map g).sum = 0 := by
        refine List.sum_eq_zero fun y hy => ?_
        obtain ⟨b, hb, rfl⟩ := List.mem_map.mp hy
        refine hg' b hb fun hxb => Multiset.disjoint_left.mp hdisj hxa ?_
        exact Multiset.mem_of_le (List.single_le_sum (fun _ _ => Multiset.zero_le _) _ (List.mem_map_of_mem hb)) hxb
      exact ⟨a, List.mem_cons_self .., hxa, by rw [hzero, add_zero]⟩
    · obtain ⟨b, hb, hxb, hsum⟩ := ih hrest hxl hg'
      have hxa : x ∉ f a := fun hxa => Multiset.disjoint_left.mp hdisj hxa hxl
      exact ⟨b, List.mem_cons_of_mem a hb, hxb, by rw [hg a (List.mem_cons_self ..) hxa, zero_add, hsum]⟩

section Unexposed
variable {pkgs : Packages} {peers : GoMap ℕ PeerInfo} {keyPair : Bytes → Bytes → Prop}

/-- With keys that are pairs, the pads of all peers cancel. -/
theorem sum_pads
    (hecdh : ∀ a pa b pb, keyPair a pa → keyPair b pb → pkgs.genSharedSecret32 a pb = pkgs.genSharedSecret32 b pa)
    (hkeys : ∀ e ∈ GoMap.toList peers, keyPair e.2.vk e.2.pk) :
    ((GoMap.toList peers).map fun e => pads pkgs peers e.2).sum = 0 := by
  refine sum_sum_eq_zero (fun a b : ℕ × PeerInfo => padTerm a.2.id b.2.id (expPad pkgs a.2.vk b.2.pk)) _ (fun a _ => ?_)
    fun a ha b hb => ?_
  · simp [padTerm]
  · rw [expPad, expPad, hecdh _ _ _ _ (hkeys a ha) (hkeys b hb), padTerm, padTerm]
    rcases lt_trichotomy a.2.id b.2.id with hlt | heq | hlt
    · simp [hlt, hlt.not_gt]
    · simp [heq]
    · simp [hlt, hlt.not_gt]

theorem sum_xorPads
    (hecdh : ∀ a pa b pb, keyPair a pa → keyPair b pb → pkgs.genSharedSecret32 a pb = pkgs.genSharedSecret32 b pa)
    (hkeys : ∀ e ∈ GoMap.toList peers, keyPair e.2.vk e.2.pk) :
    ((GoMap.toList peers).map fun e => xorPads pkgs peers e.2).sum = 0 := by
  refine sum_sum_eq_zero (fun a b : ℕ × PeerInfo =>
    if a.2.id = b.2.id then 0 else Xored.ofList (xorPad pkgs a.2.vk b.2.pk)) _ (fun a _ => if_pos rfl)
    fun a ha b hb => ?_
  by_cases hid : a.2.id = b.2.id
  · rw [if_pos hid, if_pos hid.symm, add_zero]
  · rw [if_neg hid, if_neg (Ne.symm hid), xorPad, xorPad, hecdh _ _ _ _ (hkeys a ha) (hkeys b hb), Xored.add_self]

/-- The hashes of all peers. -/
noncomputable def allOwn (pkgs : Packages) (peers : GoMap ℕ PeerInfo) : Multiset Field :=
  ((GoMap.toList peers).map fun e => ownHashes pkgs peers e.2).sum

theorem reconstructed_eq : reconstructed pkgs peers = (allOwn pkgs peers).map ZMod.val := by
  rw [reconstructed, allOwn, ← Multiset.coe_mapAddMonoidHom, map_list_sum, List.map_map]
  rfl

/-- The vectors add up to the power sums of all hashes. -/
theorem sum_vectors (ch : Choices)
    (hecdh : ∀ a pa b pb, keyPair a pa → keyPair b pb → pkgs.genSharedSecret32 a pb = pkgs.genSharedSecret32 b pa)
    (hkeys : ∀ e ∈ GoMap.toList peers, keyPair e.2.vk e.2.pk) {i : ℕ}
    (hcons : ∀ e ∈ GoMap.toList peers,
      e.2.dcExpVector[i]? = some (psum (ownHashes pkgs peers e.2) (i + 1) + pads pkgs peers e.2)) :
    (((GoMap.values ch.order [423] peers).map (·.dcExpVector)).map (·.getD i 0)).sum = psum (allOwn pkgs peers) (i + 1) := by
  have hentry : ((GoMap.toList peers).map fun e => e.2.dcExpVector.getD i 0) =
      (GoMap.toList peers).map fun e => psum (ownHashes pkgs peers e.2) (i + 1) + pads pkgs peers e.2 :=
    List.map_congr_left fun e he => by rw [List.getD_eq_getElem?_getD, hcons e he, Option.getD_some]
  rw [List.map_map, ((GoMap.values_perm ..).map _).sum_eq, List.map_map, allOwn, psum_listSum, List.map_map]
  refine (congrArg List.sum hentry).trans ?_
  rw [List.sum_map_add, sum_pads hecdh hkeys, add_zero]
  rfl

/-- Unless the exponential check blames somebody, the combined polynomial of a regular
session is solved by the hashes of all peers. -/
theorem Regular.getRoots {ch : Choices} {js : JoinSession} (hreg : Regular pkgs js) (hflint : pkgs.flint.Correct fieldPrime)
    (hecdh : ∀ a pa b pb, keyPair a pa → keyPair b pb → pkgs.genSharedSecret32 a pb = pkgs.genSharedSecret32 b pa)
    (hnone : ∀ p peer, js.peers.lookup p = some peer → ¬Exposed pkgs keyPair js peer) {n : ℕ} {sums : List Field}
    (hcombined : Combined ch js n sums) :
    ∃ roots, Flint.getRoots pkgs.flint (Hex.hexStr fieldPrime) sums n = .ok (0, roots) ∧
      (roots : Multiset (List Char)) = (allOwn pkgs js.peers).map fun r => Hex.hexStr r.val := by
  obtain ⟨⟨p, peer, hp, rfl⟩, hcombine⟩ := hcombined
  have hmember : ∀ e ∈ GoMap.toList js.peers, js.peers.lookup e.1 = some e.2 := fun e he => GoMap.mem_toList.mp he
  have htotal : replayTotal js = totalMsgs js.peers := by rw [replayTotal, hreg.first, zero_add]
  have hown : ∀ e ∈ GoMap.toList js.peers, (ownHashes pkgs js.peers e.2).card = e.2.numMsg ∧
      ∀ i < totalMsgs js.peers,
        e.2.dcExpVector[i]? = some (psum (ownHashes pkgs js.peers e.2) (i + 1) + pads pkgs js.peers e.2) := by
    intro e he
    have hle := numMsg_le_totalMsgs (hmember e he)
    refine Consistent.own (hle.trans hreg.most) hle ?_
    by_contra hcons
    exact hnone _ _ (hmember e he) (.exponential (hreg.announced _ _ (hmember e he)) (htotal ▸ hcons))
  have hkeys : ∀ e ∈ GoMap.toList js.peers, keyPair e.2.vk e.2.pk := fun e he => by
    by_contra hkey
    exact hnone _ _ (hmember e he) (.key hkey)
  rw [hreg.length p peer hp] at hcombine ⊢
  have hlen : ∀ v ∈ (GoMap.values ch.order [423] js.peers).map (·.dcExpVector), v.length ≤ totalMsgs js.peers := by
    intro v hv
    obtain ⟨q, hq, rfl⟩ := List.mem_map.mp hv
    obtain ⟨k, hk⟩ := GoMap.mem_values.mp hq
    exact (hreg.length k q hk).le
  rw [combine_eq hlen] at hcombine
  cases hcombine
  have hcard : (allOwn pkgs js.peers).card = totalMsgs js.peers := by
    refine (map_list_sum Multiset.cardHom _).trans ?_
    rw [List.map_map]
    exact congrArg List.sum (List.map_congr_left fun e he => (hown e he).1)
  refine Flint.getRoots_of_psum pkgs.flint _ hflint hreg.least hreg.most ?_ (by simp) hcard fun i hi => ?_
  · have : (1000 : ℕ) < fieldPrime := by norm_num [fieldPrime]
    exact hreg.most.trans_lt this
  · rw [← sum_vectors ch hecdh hkeys fun e he => (hown e he).2 i hi]
    simp [List.getD_eq_getElem?_getD, hi]

/-- Unless somebody is exposed, a combined slot holds the preimage of its hash. -/
theorem Regular.slot {ch : Choices} {js : JoinSession} (hreg : Regular pkgs js) (hlaws : pkgs.XorLaws)
    (hecdh : ∀ a pa b pb, keyPair a pa → keyPair b pb → pkgs.genSharedSecret32 a pb = pkgs.genSharedSecret32 b pa)
    (hsize : ∀ p peer, js.peers.lookup p = some peer → ∀ msg ∈ peer.dcXorVector, msg.length = pkScriptSize)
    (hnone : ∀ p peer, js.peers.lookup p = some peer → ¬Exposed pkgs keyPair js peer)
    {slots : List Bytes} (hslots : xorSlots pkgs ch js.peers slots.length = .ok slots) {i hash : ℕ} {slot : Bytes}
    (hhash : ((reconstructed pkgs js.peers).sort (· ≤ ·))[i]? = some hash) (hslot : slots[i]? = some slot) :
    pkgs.sum127 slot = pkgs.getBytes hash := by
  have hmember : ∀ e ∈ GoMap.toList js.peers, js.peers.lookup e.1 = some e.2 := fun e he => GoMap.mem_toList.mp he
  have hkeys : ∀ e ∈ GoMap.toList js.peers, keyPair e.2.vk e.2.pk := fun e he => by
    by_contra hkey
    exact hnone _ _ (hmember e he) (.key hkey)
  -- the slot is the sum of the entries in it
  obtain ⟨hi, rfl⟩ := List.getElem?_eq_some_iff.mp hslot
  have hxorSlot : xorSlot pkgs i ((GoMap.values ch.order [531, i] js.peers).map (·.dcXorVector)) = .ok slots[i] := by
    have := List.Forall₂.get (mapM_eq_ok.mp hslots) (i := i) (by simpa using hi) hi
    simpa using this
  obtain ⟨hall, hlength, hsum⟩ := xorSlot_eq_ok hlaws (fun v hv => by
    obtain ⟨q, hq, rfl⟩ := List.mem_map.mp hv
    obtain ⟨k, hk⟩ := GoMap.mem_values.mp hq
    exact hsize k q hk) hxorSlot
  rw [List.map_map, ((GoMap.values_perm ..).map _).sum_eq, List.map_map] at hsum
  have hentry : ∀ e ∈ GoMap.toList js.peers, ∃ msg, e.2.dcXorVector[i]? = some msg := fun e he =>
    ⟨_, List.getElem?_eq_getElem (hall _ (List.mem_map_of_mem (GoMap.mem_values.mpr ⟨e.1, hmember e he⟩)))⟩
  -- every entry is its content with the pads of its peer, and the pads cancel
  let content := fun e : ℕ × PeerInfo => unpadded pkgs js.peers e.2 (e.2.dcXorVector.getD i [])
  have hcontents : (Xored.ofList slots[i] : Xored pkScriptSize) =
      ((GoMap.toList js.peers).map fun e => Xored.ofList (content e)).sum := by
    have hsplit : ((GoMap.toList js.peers).map fun e => Xored.ofList (content e)).sum =
        ((GoMap.toList js.peers).map fun e => (Xored.ofList (e.2.dcXorVector.getD i []) : Xored pkScriptSize)).sum +
          ((GoMap.toList js.peers).map fun e => xorPads pkgs js.peers e.2).sum := by
      rw [← List.sum_map_add]
      exact congrArg List.sum (List.map_congr_left fun e _ => Xored.ofList_toList _)
    rw [hsplit, sum_xorPads hecdh hkeys, add_zero, hsum]
    rfl
  -- only the peer with the hash has a content there
  have hmem : hash ∈ ((GoMap.toList js.peers).map fun e => (ownHashes pkgs js.peers e.2).map ZMod.val).sum :=
    (Multiset.mem_sort _).mp (List.mem_of_getElem? hhash)
  have hstate : js.state = .txInput ∨ js.state = .revealSecret := by
    rcases hreg.state with h | h | h
    · exact .inl h
    · exact .inr h
    · obtain ⟨e, he, -, -⟩ := exists_sum_eq (g := fun _ => (0 : ℕ)) hreg.distinct hmem fun _ _ _ => rfl
      obtain ⟨msg, hmsg⟩ := hentry e he
      rw [h _ _ (hmember e he)] at hmsg
      cases hmsg
  have hfits : ∀ e ∈ GoMap.toList js.peers, Fits pkgs ((reconstructed pkgs js.peers).sort (· ≤ ·))
      ((ownHashes pkgs js.peers e.2).map ZMod.val) i (content e) := by
    intro e he
    obtain ⟨msg, hmsg⟩ := hentry e he
    by_contra hbad
    refine hnone _ _ (hmember e he) (.xor hstate (hreg.announced _ _ (hmember e he)) hmsg ?_)
    simpa [content, List.getD_eq_getElem?_getD, hmsg] using hbad
  obtain ⟨e, he, hown, hone⟩ := exists_sum_eq (g := fun e => (Xored.ofList (content e) : Xored pkScriptSize))
    hreg.distinct hmem fun e he hnot => by
      have hzero := (hfits e he).rest fun g hg hget => hnot (by
        rw [hhash, Option.some.injEq] at hget
        rwa [hget])
      rw [hzero, Xored.ofList_zeros]
  have hne : (GoMap.values ch.order [531, i] js.peers).map (·.dcXorVector) ≠ [] :=
    List.ne_nil_of_mem (List.mem_map_of_mem (GoMap.mem_values.mpr ⟨e.1, hmember e he⟩))
  have hslot' : slots[i] = content e :=
    Xored.ofList_injective (hlength hne) (Xored.length_toList _) (hcontents.trans hone)
  rw [hslot']
  exact (hfits e he).slot hash hown hhash

end Unexposed

/-! ### Blame completeness -/

/-- The session is one in which a round failed. -/
def Failed (pkgs : Packages) (ch : Choices) (js : JoinSession) : Prop :=
  ExponentialFailed pkgs ch js ∨ XorFailed pkgs ch js

theorem Regular.readable {pkgs : Packages} {js : JoinSession} (hreg : Regular pkgs js) {p : ℕ} {peer : PeerInfo}
    (hp : js.peers.lookup p = some peer) : Readable pkgs js.peers (replayTotal js) peer := by
  have hlen := hreg.length p peer hp
  have htotal : replayTotal js = totalMsgs js.peers := by rw [replayTotal, hreg.first, zero_add]
  exact fun _ => ⟨hlen ▸ numMsg_le_totalMsgs hp, .inr (.inl (by rw [htotal, hlen]))⟩

/-- **When a failed mix has a culprit.** The replay blames somebody for a failed round
exactly when it gets to its end and some peer is exposed, and both are so in every
regular session with a failed round. -/
theorem replay_blames_iff {pkgs : Packages} (hflint : pkgs.flint.Correct fieldPrime)
    (hparse : ∀ x : Field, pkgs.uint128FromString (Hex.hexStr x.val) = x.val) (hlaws : pkgs.XorLaws)
    (hrand : ∀ sharedKey rng, pkgs.randBytes sharedKey pkScriptSize = some rng → rng.length = pkScriptSize)
    (hbytes : ∀ a b, a < fieldPrime → b < fieldPrime → pkgs.getBytes a = pkgs.getBytes b → a = b)
    (keyPair : Bytes → Bytes → Prop) (ch : Choices)
    (hpair : ∀ turn a pa key1 key2, pkgs.genSharedSecret a (ch.generateKey turn).2 = some key1 →
      pkgs.genSharedSecret (ch.generateKey turn).1 pa = some key2 → (key1 = key2 ↔ keyPair a pa))
    (hecdh : ∀ a pa b pb, keyPair a pa → keyPair b pb → pkgs.genSharedSecret32 a pb = pkgs.genSharedSecret32 b pa)
    (js : JoinSession) (hkeyed : JoinSession.WellKeyed js.peers)
    (hsize : ∀ p peer, js.peers.lookup p = some peer → ∀ msg ∈ peer.dcXorVector, msg.length = pkScriptSize) :
    ((Failed pkgs ch js → ∃ f, replay pkgs ch js = .ok f ∧ f.maliciousIds ≠ []) ↔
      (Failed pkgs ch js → Replayable pkgs ch js ∧
        ∃ p peer, js.peers.lookup p = some peer ∧ Exposed pkgs keyPair js peer)) ∧
    (Regular pkgs js → js.errm = none → Secrets pkgs ch js.peers → Failed pkgs ch js →
      Replayable pkgs ch js ∧ ∃ p peer, js.peers.lookup p = some peer ∧ Exposed pkgs keyPair js peer) := by
  refine ⟨imp_congr_right fun _ => ?_, fun hreg herrm hsecrets hfailed =>
    ⟨⟨herrm, hsecrets, fun p peer hp => hreg.readable hp⟩, ?_⟩⟩
  · rw [← exists_replay_iff hflint hparse hbytes hkeyed]
    constructor
    · rintro ⟨f, h, hne⟩
      exact ⟨⟨f, h⟩, (maliciousIds_ne_nil_iff hflint hparse hlaws hrand hbytes hpair hkeyed hsize h).mp hne⟩
    · rintro ⟨⟨f, h⟩, hexposed⟩
      exact ⟨f, h, (maliciousIds_ne_nil_iff hflint hparse hlaws hrand hbytes hpair hkeyed hsize h).mpr hexposed⟩
  by_contra hnobody
  have hnone : ∀ p peer, js.peers.lookup p = some peer → ¬Exposed pkgs keyPair js peer :=
    fun p peer hp hexposed => hnobody ⟨p, peer, hp, hexposed⟩
  rcases hfailed with ⟨n, sums, ret, roots, hcombined, hroots, hret⟩ |
    ⟨n, sums, roots, slots, i, hash, slot, hcombined, hroots, hslots, hhash, hslot, hne⟩
  · obtain ⟨roots', hroots', -⟩ := hreg.getRoots hflint hecdh hnone hcombined
    rw [hroots'] at hroots
    cases hroots
    exact hret rfl
  · obtain ⟨roots', hroots', hown⟩ := hreg.getRoots hflint hecdh hnone hcombined
    rw [hroots'] at hroots
    cases hroots
    -- the hashes that were broadcast are the reconstructed ones
    have hvals : ((roots.map pkgs.uint128FromString : List ℕ) : Multiset ℕ) = reconstructed pkgs js.peers := by
      rw [reconstructed_eq, ← Multiset.map_coe, hown, Multiset.map_map]
      exact Multiset.map_congr rfl fun x _ => hparse x
    rw [insertionSort_eq_sort hvals] at hhash
    exact hne (hreg.slot hlaws hecdh hsize hnone hslots hhash hslot)

/-- Peers 1, 2 and 3 with keys 2, 3 and 4. Peers 1 and 2 sent the vectors of their
hashes, 10 and 4. Peer 3 announced no messages and its vector takes 14 and 118 off
the power sums, which makes them 0 and -2. -/
noncomputable def silentPeer : JoinSession :=
  let pad := fun p q => expPad plainPackages [UInt8.ofNat (p + 1)] [UInt8.ofNat (q + 1)]
  let peer := fun (p : ℕ) (hashes : List Field) (spoil : List Field) =>
    { newPeer p p with
      pk := [UInt8.ofNat (p + 1)], vk := [UInt8.ofNat (p + 1)], numMsg := hashes.length
      dcExpVector := List.zipWith (· + ·) (honestVector [3, 2, 1] pad hashes p 2) spoil }
  { newJoinSession 7 60 false (GoMap.ofList [(1, peer 1 [(10 : ℕ)] [0, 0]), (2, peer 2 [(4 : ℕ)] [0, 0]), (3, peer 3 [] [-(14 : ℕ), -(118 : ℕ)])]) with
    state := .dcExponential }

/-- No two numbers have the sum 0 and the sum of squares -2 there. -/
theorem silentPeer_failed : Failed plainPackages (plainChoices id) silentPeer := by
  have hcombine : combine 2 ((GoMap.values (plainChoices id).order [423] silentPeer.peers).map (·.dcExpVector)) =
      .ok [0, -2] := by decide
  obtain ⟨ret, roots, hroots⟩ := Flint.exists_getRoots plainPackages.flint (p := fieldPrime)
    (show 2 ≤ ([0, -2] : List Field).length by simp) two_pos
  refine .inl ⟨2, [0, -2], ret, roots, ⟨⟨3, _, rfl, by decide⟩, hcombine⟩, hroots, ?_⟩
  rintro rfl
  obtain ⟨M, hcard, hM, -⟩ := Flint.psum_of_getRoots plainPackages.flint plainPackages_flint le_rfl (by norm_num)
    (by norm_num [fieldPrime]) le_rfl hroots
  obtain ⟨a, b, rfl⟩ := Multiset.card_eq_two.mp hcard
  have h1 : a + b = 0 := by simpa [psum] using hM 0 (by norm_num)
  have h2 : a ^ 2 + b ^ 2 = -2 := by simpa [psum] using hM 1 (by norm_num)
  have hsq : a ^ 2 = -1 := by
    have hb : b = -a := by linear_combination h1
    rw [hb] at h2
    have htwo : (2 : Field) ≠ 0 := by decide
    exact mul_left_cancel₀ htwo (by linear_combination h2)
  have hmod : fieldPrime % 4 ≠ 3 := ZMod.exists_sq_eq_neg_one_iff.mp ⟨a, by rw [← hsq, sq]⟩
  exact hmod (by norm_num [fieldPrime])

/-- **A failed exponential round without a culprit.** -/
theorem silentPeer_unblamed :
    Failed plainPackages (plainChoices id) silentPeer ∧
      silentPeer.allSubmit (fun peer => peer.vk ≠ []) = true ∧
      ∃ f, replay plainPackages (plainChoices id) silentPeer = .ok f ∧ f.maliciousIds = [] :=
  ⟨silentPeer_failed, by decide, ⟨2, [], [], []⟩, by decide, rfl⟩

/-- There nobody is exposed. -/
theorem replay_blames_iff_silentPeer :
    ¬(Replayable plainPackages (plainChoices id) silentPeer ∧ ∃ p peer, silentPeer.peers.lookup p = some peer ∧
      Exposed plainPackages (fun vk pk => vk.headD 0 = pk.headD 0) silentPeer peer) := by
  intro hexposed
  have hsize : ∀ e ∈ GoMap.toList silentPeer.peers, ∀ msg ∈ e.2.dcXorVector, msg.length = pkScriptSize := by decide
  have hiff := replay_blames_iff plainPackages_flint plainPackages_parse plainPackages_xor (plainPackages_rand _)
    plainPackages_bytes (fun vk pk => vk.headD 0 = pk.headD 0) (plainChoices id) ?_ ?_ silentPeer (by decide)
    (fun p peer hp => hsize (p, peer) (GoMap.mem_toList.mpr hp))
  · obtain ⟨f, h, hne⟩ := hiff.1.mpr (fun _ => hexposed) silentPeer_failed
    have h' : replay plainPackages (plainChoices id) silentPeer = .ok ⟨2, [], [], []⟩ := by decide
    cases h.symm.trans h'
    exact hne rfl
  · rintro turn a pa key1 key2 h1 h2
    cases h1
    cases h2
    simp [plainChoices]
  · intro a pa b pb ha hb
    show multiplyKeys a pb = multiplyKeys b pa
    rw [multiplyKeys, multiplyKeys, ha, hb, mul_comm]

end Dcrtxmatcher.Coinjoin
