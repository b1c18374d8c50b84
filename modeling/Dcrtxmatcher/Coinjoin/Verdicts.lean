import Dcrtxmatcher.Coinjoin.Completeness
import Dcrtxmatcher.Coinjoin.TxBounds

/-! A replay that is run again.

What the checks find out does not depend on the order in which the maps are visited.
It depends on `TotalMsg`, which the next replay in the same session counts up from
where the last one left it. -/
namespace Dcrtxmatcher.Coinjoin
open Lib Lib.Pads Lib.PowerSums

/-! ### What is to hold -/

/-- Two replays blame the same peers by each check. -/
structure SameVerdict (f f' : Findings) : Prop where
  key : ∀ p, p ∈ f'.keyIds ↔ p ∈ f.keyIds
  exp : ∀ p, p ∈ f'.expIds ↔ p ∈ f.expIds
  xor : ∀ p, p ∈ f'.xorIds ↔ p ∈ f.xorIds

/-- The session after a verdict, before anybody is removed. -/
def JoinSession.judged (f : Findings) (js : JoinSession) : JoinSession :=
  { js with totalMsg := f.totalMsg, maliciousFinding := false }

/-- The message leads to the verdict. -/
def Reaches (pkgs : Packages) (ch : Choices) (rvSecret : RevealSecret) (js : JoinSession) (f : Findings) : Prop :=
  replay pkgs ch (storeSecret rvSecret js) = .ok f ∧
    revealSecret pkgs ch rvSecret js =
      .ok (⟨if f.maliciousIds = [] then none else some f.maliciousIds, .next⟩, (storeSecret rvSecret js).judged f)

/-- What a replay, and the next one on the same data, need. -/
structure Repeatable (pkgs : Packages) (ch ch' : Choices) (js : JoinSession) : Prop where
  free : js.mu = false
  errm : js.errm = none
  first : js.totalMsg = 0
  secrets : Secrets pkgs ch js.peers
  secrets' : Secrets pkgs ch' js.peers
  readable : ∀ p peer, js.peers.lookup p = some peer → Readable pkgs js.peers (totalMsgs js.peers) peer
  readable' : ∀ p peer, js.peers.lookup p = some peer →
    Readable pkgs js.peers (totalMsgs js.peers + totalMsgs js.peers) peer
  consistent : ∀ p peer, js.peers.lookup p = some peer → 0 < peer.numMsg → peer.numMsg ≤ 1000 →
    Consistent pkgs js.peers (totalMsgs js.peers) peer →
      Consistent pkgs js.peers (totalMsgs js.peers + totalMsgs js.peers) peer

/-! ### The slot check, in any order -/

section Slots
variable {pkgs : Packages} {ch : Choices} {peers : GoMap ℕ PeerInfo} {p : ℕ} {peer : PeerInfo}

/-- The hashes that a peer's turn enters, none when it makes no entry. -/
def turnHashes (pkgs : Packages) (peers : GoMap ℕ PeerInfo) (peer : PeerInfo) : Option (List ℕ) :=
  if 1 < peer.numMsg then
    match Flint.getRoots pkgs.flint (Hex.hexStr fieldPrime) (strippedEntries pkgs peers peer) peer.numMsg with
    | .ok (0, roots) => some (roots.map pkgs.uint128FromString)
    | _ => none
  else if peer.numMsg = 1 then (strippedEntries pkgs peers peer).head?.map fun ff => [ff.val]
  else none

theorem Turn.hashes_eq {totalMsg : ℕ} {expVector : List Field} {replayPeer : GoMap ℕ PeerReplayInfo}
    {verdict : Bool × Option PeerSlotInfo} (htake : expVector.take peer.numMsg = strippedEntries pkgs peers peer)
    (hturn : Turn pkgs ch totalMsg p peer expVector replayPeer verdict) :
    verdict.2.map (·.pkScriptsHash) = turnHashes pkgs peers peer := by
  rw [turnHashes]
  cases hturn with
  | @unsolved ret _ h2 _ hroots hret =>
    rw [if_pos h2, ← htake, hroots]
    cases ret with
    | zero => exact absurd rfl hret
    | succ ret => rfl
  | several h2 _ hroots =>
    rw [if_pos h2, ← htake, hroots]
    rfl
  | @one ff _ hone hff =>
    rw [if_neg (by omega), if_pos hone, ← htake, hone]
    cases expVector with
    | nil => cases hff
    | cons x _ =>
      cases hff
      rfl
  | none hzero =>
    rw [if_neg (by omega), if_neg (by omega)]
    rfl

/-- The hashes that all turns enter. -/
def enteredHashes (pkgs : Packages) (peers : GoMap ℕ PeerInfo) : Multiset ℕ :=
  ((GoMap.toList peers).map fun e => (((turnHashes pkgs peers e.2).getD [] : List ℕ) : Multiset ℕ)).sum

/-- A slot of the peer's vector is bad. -/
def BadVector (pkgs : Packages) (peers : GoMap ℕ PeerInfo) (peer : PeerInfo) : Prop :=
  ∃ msgHash, turnHashes pkgs peers peer = some msgHash ∧
    ((peer.dcXorVector.map (unpadded pkgs peers peer)).zipIdx.any fun e =>
      badSlot pkgs ((enteredHashes pkgs peers).sort (· ≤ ·))
        (slotIndex ((enteredHashes pkgs peers).sort (· ≤ ·)) msgHash) e.2 e.1) = true

variable {replayPeers : GoMap ℕ (GoMap ℕ Bytes)} {n : ℕ} {verdicts : List (ℕ × Bool × Option PeerSlotInfo)}

theorem sortedHashes_entered (hkeyed : JoinSession.WellKeyed peers) (hreplay : replayKeys pkgs ch peers = .ok replayPeers)
    (hverdicts : expReplays pkgs ch n replayPeers peers = .ok verdicts) :
    sortedHashes ch (slotInfos verdicts) = (enteredHashes pkgs peers).sort (· ≤ ·) := by
  apply sort_of_sortedHashes
  have hhashes : verdicts.map Verdict.hashes =
      (GoMap.range ch.order [971] peers).map fun e => (((turnHashes pkgs peers e.2).getD [] : List ℕ) : Multiset ℕ) := by
    apply map_verdicts (fun verdict => verdict.2.elim 0 fun slotInfo => (slotInfo.pkScriptsHash : Multiset ℕ))
      (fun peer => (((turnHashes pkgs peers peer).getD [] : List ℕ) : Multiset ℕ)) hkeyed hreplay hverdicts
    intro p peer expVector replayPeer verdict _ htake hturn
    rw [← hturn.hashes_eq htake]
    cases verdict.2 <;> rfl
  rw [sortedHashes_sum (nodup_verdicts hverdicts), hhashes, enteredHashes, ((GoMap.range_perm ..).map _).sum_eq]

/-- Whom the slot check blames. -/
theorem mem_xorReplays_iff (hlaws : pkgs.XorLaws)
    (hrand : ∀ sharedKey rng, pkgs.randBytes sharedKey pkScriptSize = some rng → rng.length = pkScriptSize)
    (hkeyed : JoinSession.WellKeyed peers) (hreplay : replayKeys pkgs ch peers = .ok replayPeers)
    (hverdicts : expReplays pkgs ch n replayPeers peers = .ok verdicts) (hp : peers.lookup p = some peer)
    (hsize : ∀ msg ∈ peer.dcXorVector, msg.length = pkScriptSize) :
    p ∈ xorReplays pkgs ch (slotInfos verdicts) peers ↔ BadVector pkgs peers peer := by
  obtain ⟨malicious, slot, keys, expVector, opInfos, hmem, hshared, hstrip, hturn⟩ :=
    exists_turn hkeyed hreplay hverdicts hp
  have hhashes := hturn.hashes_eq (take_of_stripPads hkeyed hp hshared hstrip)
  rw [mem_xorReplays hp, lookup_slotInfos (nodup_verdicts hverdicts) hmem,
    sortedHashes_entered hkeyed hreplay hverdicts]
  have hscripts : ∀ slotInfo, slot = some slotInfo →
      pkScripts pkgs ch slotInfo peer.dcXorVector = peer.dcXorVector.map (unpadded pkgs peers peer) := by
    intro slotInfo hsome
    obtain ⟨-, heq⟩ := hturn.slot_eq hsome
    rw [heq]
    exact pkScripts_eq hlaws hrand hkeyed hshared hstrip _ hsize
  constructor
  · intro h
    obtain ⟨slotInfo, hsome, hbad⟩ := h
    refine ⟨slotInfo.pkScriptsHash, ?_, ?_⟩
    · rw [← hhashes, hsome]
      rfl
    · rw [xorReplay, hscripts slotInfo hsome] at hbad
      exact hbad
  · intro h
    obtain ⟨msgHash, hsome, hbad⟩ := h
    rw [← hhashes] at hsome
    obtain ⟨slotInfo, hslot, rfl⟩ := Option.map_eq_some_iff.mp hsome
    refine ⟨slotInfo, hslot, ?_⟩
    rw [xorReplay, hscripts slotInfo hslot]
    exact hbad

end Slots

/-! ### Two replays -/

section Twice
variable {pkgs : Packages} {ch ch₁ ch₂ : Choices} {js : JoinSession} {f f' : Findings}

/-- Whoever is blamed is a member. -/
theorem member_of_blamed (hkeyed : JoinSession.WellKeyed js.peers) (h : replay pkgs ch js = .ok f) {p : ℕ}
    (hp : p ∈ f.keyIds ∨ p ∈ f.expIds ∨ p ∈ f.xorIds) : ∃ peer, js.peers.lookup p = some peer := by
  obtain ⟨-, replayPeers, verdicts, hkeys, -, -, hverdicts, hexp, hxor⟩ := replay_eq_ok h
  rcases hp with hkey | hmem | hmem
  · obtain ⟨e, he, rfl, -⟩ := (mem_keyCheck hkeys p).mp hkey
    obtain ⟨k, hk⟩ := GoMap.mem_values.mp (List.fst_mem_of_mem_zipIdx he)
    exact ⟨e.1, by rwa [hkeyed k e.1 hk]⟩
  · rw [hexp] at hmem
    obtain ⟨v, hv, hsome⟩ := List.mem_filterMap.mp hmem
    split_ifs at hsome
    cases hsome
    obtain ⟨peer, hp, -⟩ := verdict_of_mem hverdicts hv
    exact ⟨peer, hp⟩
  · rw [hxor] at hmem
    split_ifs at hmem
    · obtain ⟨v, hv, hfst⟩ := mem_verdicts_of_xorReplays hmem
      obtain ⟨peer, hp, -⟩ := verdict_of_mem hverdicts hv
      exact ⟨peer, hfst ▸ hp⟩
    · cases hmem

theorem totalMsg_of_replay_ok (h : replay pkgs ch js = .ok f) : f.totalMsg = replayTotal js := by
  obtain ⟨-, _, _, -, -, htotal, -⟩ := replay_eq_ok h
  exact htotal.trans totalMsg_of_replay

/-- Whom the exponential check of a replay blames. -/
theorem mem_expIds_of_replay (hflint : pkgs.flint.Correct fieldPrime)
    (hparse : ∀ x : Field, pkgs.uint128FromString (Hex.hexStr x.val) = x.val)
    (hbytes : ∀ a b, a < fieldPrime → b < fieldPrime → pkgs.getBytes a = pkgs.getBytes b → a = b)
    (hkeyed : JoinSession.WellKeyed js.peers) (h : replay pkgs ch js = .ok f) {p : ℕ} {peer : PeerInfo}
    (hp : js.peers.lookup p = some peer) :
    p ∈ f.expIds ↔ 1000 < peer.numMsg ∨ 0 < peer.numMsg ∧ ¬Consistent pkgs js.peers (replayTotal js) peer := by
  obtain ⟨-, replayPeers, verdicts, -, hreplay, -, hverdicts, hexp, -⟩ := replay_eq_ok h
  have hnum : peer.numMsg ≤ f.totalMsg := by
    rw [totalMsg_of_replay_ok h, replayTotal]
    exact (numMsg_le_totalMsgs hp).trans (Nat.le_add_left ..)
  rw [hexp, mem_expIds_iff hflint hparse hbytes hkeyed hreplay hverdicts (nodup_verdicts hverdicts) hp hnum,
    totalMsg_of_replay_ok h]

variable {js₁ js₂ : JoinSession}

/-- Two replays on the same members agree in the keys. -/
theorem mem_keyIds_same {keyPair : Bytes → Bytes → Prop}
    (hpair : ∀ ch : Choices, ch = ch₁ ∨ ch = ch₂ → ∀ turn a pa key1 key2,
      pkgs.genSharedSecret a (ch.generateKey turn).2 = some key1 →
        pkgs.genSharedSecret (ch.generateKey turn).1 pa = some key2 → (key1 = key2 ↔ keyPair a pa))
    (hpeers : js₂.peers = js₁.peers) (hkeyed : JoinSession.WellKeyed js₁.peers)
    (h₁ : replay pkgs ch₁ js₁ = .ok f) (h₂ : replay pkgs ch₂ js₂ = .ok f') (p : ℕ) : p ∈ f'.keyIds ↔ p ∈ f.keyIds := by
  have hkeyed₂ : JoinSession.WellKeyed js₂.peers := hpeers ▸ hkeyed
  obtain ⟨-, _, _, hkeys₁, -⟩ := replay_eq_ok h₁
  obtain ⟨-, _, _, hkeys₂, -⟩ := replay_eq_ok h₂
  have hmember : ∀ {peer}, js₁.peers.lookup p = some peer → (p ∈ f'.keyIds ↔ p ∈ f.keyIds) := by
    intro peer hp
    rw [mem_keyIds_iff (hpair ch₁ (.inl rfl)) hkeyed hkeys₁ hp,
      mem_keyIds_iff (hpair ch₂ (.inr rfl)) hkeyed₂ hkeys₂ (hpeers ▸ hp)]
  constructor
  · intro hmem
    obtain ⟨peer, hp⟩ := member_of_blamed hkeyed₂ h₂ (.inl hmem)
    exact (hmember (hpeers ▸ hp)).mp hmem
  · intro hmem
    obtain ⟨peer, hp⟩ := member_of_blamed hkeyed h₁ (.inl hmem)
    exact (hmember hp).mpr hmem

/-- They agree in the slots. -/
theorem mem_xorIds_same (hlaws : pkgs.XorLaws)
    (hrand : ∀ sharedKey rng, pkgs.randBytes sharedKey pkScriptSize = some rng → rng.length = pkScriptSize)
    (hpeers : js₂.peers = js₁.peers) (hstate : js₂.state = js₁.state) (hkeyed : JoinSession.WellKeyed js₁.peers)
    (hsize : ∀ p peer, js₁.peers.lookup p = some peer → ∀ msg ∈ peer.dcXorVector, msg.length = pkScriptSize)
    (h₁ : replay pkgs ch₁ js₁ = .ok f) (h₂ : replay pkgs ch₂ js₂ = .ok f') (p : ℕ) : p ∈ f'.xorIds ↔ p ∈ f.xorIds := by
  have hkeyed₂ : JoinSession.WellKeyed js₂.peers := hpeers ▸ hkeyed
  have hmember : ∀ {peer}, js₁.peers.lookup p = some peer → (p ∈ f'.xorIds ↔ p ∈ f.xorIds) := by
    intro peer hp
    obtain ⟨-, _, _, -, hreplay₁, -, hverdicts₁, -, hxor₁⟩ := replay_eq_ok h₁
    obtain ⟨-, _, _, -, hreplay₂, -, hverdicts₂, -, hxor₂⟩ := replay_eq_ok h₂
    rw [hxor₁, hxor₂, hstate]
    split_ifs
    · rw [hpeers] at hreplay₂ hverdicts₂ ⊢
      rw [mem_xorReplays_iff hlaws hrand hkeyed hreplay₁ hverdicts₁ hp (hsize p peer hp),
        mem_xorReplays_iff hlaws hrand hkeyed hreplay₂ hverdicts₂ hp (hsize p peer hp)]
    · rfl
  constructor
  · intro hmem
    obtain ⟨peer, hp⟩ := member_of_blamed hkeyed₂ h₂ (.inr (.inr hmem))
    exact (hmember (hpeers ▸ hp)).mp hmem
  · intro hmem
    obtain ⟨peer, hp⟩ := member_of_blamed hkeyed h₁ (.inr (.inr hmem))
    exact (hmember hp).mpr hmem

/-- They agree in the exponential vectors when these are consistent, or not, with both totals. -/
theorem mem_expIds_same_iff (hflint : pkgs.flint.Correct fieldPrime)
    (hparse : ∀ x : Field, pkgs.uint128FromString (Hex.hexStr x.val) = x.val)
    (hbytes : ∀ a b, a < fieldPrime → b < fieldPrime → pkgs.getBytes a = pkgs.getBytes b → a = b)
    (hpeers : js₂.peers = js₁.peers) (hkeyed : JoinSession.WellKeyed js₁.peers)
    (h₁ : replay pkgs ch₁ js₁ = .ok f) (h₂ : replay pkgs ch₂ js₂ = .ok f') :
    (∀ p, p ∈ f'.expIds ↔ p ∈ f.expIds) ↔
      ∀ p peer, js₁.peers.lookup p = some peer → 0 < peer.numMsg → peer.numMsg ≤ 1000 →
        (Consistent pkgs js₁.peers (replayTotal js₁) peer ↔ Consistent pkgs js₁.peers (replayTotal js₂) peer) := by
  have hkeyed₂ : JoinSession.WellKeyed js₂.peers := hpeers ▸ hkeyed
  have hmember : ∀ {p peer}, js₁.peers.lookup p = some peer → ((p ∈ f'.expIds ↔ p ∈ f.expIds) ↔
      (0 < peer.numMsg → peer.numMsg ≤ 1000 →
        (Consistent pkgs js₁.peers (replayTotal js₁) peer ↔ Consistent pkgs js₁.peers (replayTotal js₂) peer))) := by
    intro p peer hp
    rw [mem_expIds_of_replay hflint hparse hbytes hkeyed h₁ hp,
      mem_expIds_of_replay hflint hparse hbytes hkeyed₂ h₂ (hpeers ▸ hp), hpeers]
    by_cases h1000 : 1000 < peer.numMsg
    · simp [h1000]
    · by_cases hpos : 0 < peer.numMsg
      · simp only [h1000, hpos, false_or, true_and, not_lt.mp h1000, forall_const, not_iff_not]
        exact iff_comm
      · simp [hpos, h1000]
  constructor
  · intro h p peer hp
    exact (hmember hp).mp (h p)
  · intro h p
    constructor
    · intro hmem
      obtain ⟨peer, hp⟩ := member_of_blamed hkeyed₂ h₂ (.inr (.inl hmem))
      rw [hpeers] at hp
      exact ((hmember hp).mpr (h p peer hp)).mp hmem
    · intro hmem
      obtain ⟨peer, hp⟩ := member_of_blamed hkeyed h₁ (.inr (.inl hmem))
      exact ((hmember hp).mpr (h p peer hp)).mpr hmem

/-- More messages in all leave fewer vectors consistent. -/
theorem Consistent.mono {peers : GoMap ℕ PeerInfo} {m n : ℕ} {peer : PeerInfo} (hle : m ≤ n)
    (h : Consistent pkgs peers n peer) : Consistent pkgs peers m peer := by
  obtain ⟨M, hcard, hM⟩ := h
  exact ⟨M, hcard, fun i hi => hM i (hi.trans_le hle)⟩

end Twice

/-! ### The handler -/

section Handler
variable {pkgs : Packages} {ch : Choices} {rvSecret : RevealSecret} {js : JoinSession} {f : Findings}

/-- Once all secrets are revealed, a replay that gets to its end is the verdict. -/
theorem reaches_iff (hmember : rvSecret.peerId ∈ js.peers.keys)
    (hall : (storeSecret rvSecret js).allSubmit (fun peer => peer.vk ≠ []) = true) :
    Reaches pkgs ch rvSecret js f ↔ js.mu = false ∧ replay pkgs ch (storeSecret rvSecret js) = .ok f := by
  obtain ⟨peer, hp⟩ := GoMap.lookup_of_mem_keys hmember
  by_cases hmu : js.mu = false
  swap
  · apply iff_of_false _ fun h => hmu h.1
    intro h
    have hhandled := h.2
    rw [revealSecret, JoinSession.lock, if_pos (Bool.not_eq_false _ ▸ hmu)] at hhandled
    cases hhandled
  refine ⟨fun h => ⟨hmu, h.1⟩, fun h => ⟨h.2, ?_⟩⟩
  rw [revealSecret, js.lock_eq hmu, ok_bind, JoinSession.peers_withMu, hp]
  change (if (storeSecret rvSecret js).allSubmit (fun peer => peer.vk ≠ []) then
      afterReplay (storeSecret rvSecret js) (replay pkgs ch (storeSecret rvSecret js))
    else (JoinSession.withMu { storeSecret rvSecret js with maliciousFinding := false } true).unlockAnd .next) = _
  rw [if_pos hall, h.2]
  exact JoinSession.of_unlockAnd (P := (· = _)) ((storeSecret rvSecret js).judged f) hmu rfl

/-- A secret that is revealed again changes nothing. -/
theorem storeSecret_again (f : Findings) :
    storeSecret rvSecret ((storeSecret rvSecret js).judged f) = (storeSecret rvSecret js).judged f := by
  have hpeers : GoMap.modify rvSecret.peerId (fun peer => { peer with vk := rvSecret.vk })
      (GoMap.modify rvSecret.peerId (fun peer => { peer with vk := rvSecret.vk }) js.peers) =
        GoMap.modify rvSecret.peerId (fun peer => { peer with vk := rvSecret.vk }) js.peers := by
    simp only [GoMap.modify, GoMap.mapVal_mapVal]
    apply GoMap.mapVal_congr
    intro k v _
    split_ifs <;> rfl
  exact congrArg (fun peers => { (storeSecret rvSecret js).judged f with peers := peers }) hpeers

end Handler

/-- **The replay counts and blames right exactly when** it is the first one of the
session, gets to its end, and the vectors are as long and as consistent for twice the
messages as for the messages there are. -/
theorem replay_repeats_iff {pkgs : Packages} (hflint : pkgs.flint.Correct fieldPrime)
    (hparse : ∀ x : Field, pkgs.uint128FromString (Hex.hexStr x.val) = x.val) (hlaws : pkgs.XorLaws)
    (hrand : ∀ sharedKey rng, pkgs.randBytes sharedKey pkScriptSize = some rng → rng.length = pkScriptSize)
    (hbytes : ∀ a b, a < fieldPrime → b < fieldPrime → pkgs.getBytes a = pkgs.getBytes b → a = b)
    {keyPair : Bytes → Bytes → Prop} {ch₁ ch₂ : Choices}
    (hpair : ∀ ch : Choices, ch = ch₁ ∨ ch = ch₂ → ∀ turn a pa key1 key2,
      pkgs.genSharedSecret a (ch.generateKey turn).2 = some key1 →
        pkgs.genSharedSecret (ch.generateKey turn).1 pa = some key2 → (key1 = key2 ↔ keyPair a pa))
    {s : System} (hs : Reachable pkgs s) {rvSecret : RevealSecret} (hmember : rvSecret.peerId ∈ s.session.peers.keys)
    (hall : (storeSecret rvSecret s.session).allSubmit (fun peer => peer.vk ≠ []) = true) :
    (∃ f, Reaches pkgs ch₁ rvSecret s.session f ∧ f.totalMsg = totalMsgs (storeSecret rvSecret s.session).peers ∧
        ∃ f', Reaches pkgs ch₂ rvSecret ((storeSecret rvSecret s.session).judged f) f' ∧ SameVerdict f f') ↔
      Repeatable pkgs ch₁ ch₂ (storeSecret rvSecret s.session) := by
  have hwf : WellFormed (storeSecret rvSecret s.session) := hs.wellFormed.kept (kept_storeSecret rvSecret s.session)
  have hagain : ∀ f f', Reaches pkgs ch₂ rvSecret ((storeSecret rvSecret s.session).judged f) f' ↔
      s.session.mu = false ∧ replay pkgs ch₂ ((storeSecret rvSecret s.session).judged f) = .ok f' := by
    intro f f'
    have hreaches := @reaches_iff pkgs ch₂ rvSecret ((storeSecret rvSecret s.session).judged f) f'
    rw [storeSecret_again] at hreaches
    apply hreaches _ hall
    change _ ∈ (GoMap.modify _ _ s.session.peers).keys
    rwa [GoMap.keys_modify]
  simp only [reaches_iff hmember hall, hagain]
  generalize hjs : storeSecret rvSecret s.session = js at hwf ⊢
  have hmu : js.mu = s.session.mu := by
    rw [← hjs]
    rfl
  have htotal₂ : ∀ f, f.totalMsg = totalMsgs js.peers →
      replayTotal (js.judged f) = totalMsgs js.peers + totalMsgs js.peers := by
    intro f htotal
    change f.totalMsg + totalMsgs js.peers = _
    rw [htotal]
  have hsame_iff : ∀ f f', replay pkgs ch₁ js = .ok f → replay pkgs ch₂ (js.judged f) = .ok f' →
      ((∀ p, p ∈ f'.expIds ↔ p ∈ f.expIds) ↔ ∀ p peer, js.peers.lookup p = some peer → 0 < peer.numMsg →
        peer.numMsg ≤ 1000 → (Consistent pkgs js.peers (replayTotal js) peer ↔
          Consistent pkgs js.peers (replayTotal (js.judged f)) peer)) := by
    intro f f' h₁ h₂
    exact mem_expIds_same_iff hflint hparse hbytes rfl hwf.keyed h₁ h₂
  have hfirst_iff := @exists_replay_iff pkgs hflint hparse hbytes ch₁ js hwf.keyed
  have hsecond_iff : ∀ f, (∃ f', replay pkgs ch₂ (js.judged f) = .ok f') ↔ Replayable pkgs ch₂ (js.judged f) :=
    by
    intro f
    have hkeyed₂ : JoinSession.WellKeyed (js.judged f).peers := hwf.keyed
    exact @exists_replay_iff pkgs hflint hparse hbytes ch₂ (js.judged f) hkeyed₂
  constructor
  · intro h
    obtain ⟨f, hreached, htotal, f', hreached', hsame⟩ := h
    have h₁ := hreached.2
    have h₂ := hreached'.2
    have hfirst := hfirst_iff.mp ⟨f, h₁⟩
    have hsecond := (hsecond_iff f).mp ⟨f', h₂⟩
    have hcount : replayTotal js = totalMsgs js.peers := (totalMsg_of_replay_ok h₁).symm.trans htotal
    have hexp := (hsame_iff f f' h₁ h₂).mp hsame.exp
    have hreadable := hfirst.readable
    have hreadable' := hsecond.readable
    rw [hcount] at hreadable
    rw [htotal₂ f htotal] at hreadable'
    rw [hcount, htotal₂ f htotal] at hexp
    exact {
      free := hmu.trans hreached.1
      errm := hfirst.errm
      first := by
        rw [replayTotal] at hcount
        omega
      secrets := hfirst.secrets
      secrets' := hsecond.secrets
      readable := hreadable
      readable' := hreadable'
      consistent := fun p peer hp hpos h1000 => (hexp p peer hp hpos h1000).mp }
  · intro h
    have hcount : replayTotal js = totalMsgs js.peers := by rw [replayTotal, h.first, zero_add]
    have hfree := hmu.symm.trans h.free
    have hreadable : ∀ p peer, js.peers.lookup p = some peer → Readable pkgs js.peers (replayTotal js) peer := by
      rw [hcount]
      exact h.readable
    obtain ⟨f, h₁⟩ := hfirst_iff.mpr ⟨h.errm, h.secrets, hreadable⟩
    have htotal : f.totalMsg = totalMsgs js.peers := (totalMsg_of_replay_ok h₁).trans hcount
    have hreadable' : ∀ p peer, js.peers.lookup p = some peer →
        Readable pkgs js.peers (replayTotal (js.judged f)) peer := by
      rw [htotal₂ f htotal]
      exact h.readable'
    obtain ⟨f', h₂⟩ := (hsecond_iff f).mpr ⟨h.errm, h.secrets', hreadable'⟩
    have hexp : ∀ p, p ∈ f'.expIds ↔ p ∈ f.expIds := by
      apply (hsame_iff f f' h₁ h₂).mpr
      intro p peer hp hpos h1000
      rw [hcount, htotal₂ f htotal]
      exact ⟨h.consistent p peer hp hpos h1000, Consistent.mono (Nat.le_add_left ..)⟩
    have hpeers : (js.judged f).peers = js.peers := rfl
    have hstate : (js.judged f).state = js.state := rfl
    have hkey : ∀ p, p ∈ f'.keyIds ↔ p ∈ f.keyIds := mem_keyIds_same hpair hpeers hwf.keyed h₁ h₂
    have hxor : ∀ p, p ∈ f'.xorIds ↔ p ∈ f.xorIds :=
      mem_xorIds_same hlaws hrand hpeers hstate hwf.keyed hwf.xorSized h₁ h₂
    exact ⟨f, ⟨hfree, h₁⟩, htotal, f', ⟨hfree, h₂⟩, hkey, hexp, hxor⟩

/-- The vector of wallet `p` of three, for one message, with twice as many entries as
there are messages in all. The key of wallet `q` is `q + 4`. -/
noncomputable def longVector (p hash : ℕ) : DcVector :=
  let pad := fun p q => expPad plainPackages [UInt8.ofNat (p + 4)] [UInt8.ofNat (q + 4)]
  ⟨0, 4, (honestVector [1, 2, 3] pad [(hash : Field)] p 4).flatMap fun ff => toBigEndian ff.val 16, []⟩

/-- Two wallets send one message each, the third has none and sends no vector. -/
noncomputable def longRun : List (Choices × Event) :=
  turn 1 (.keyExchange ⟨0, [5], 1⟩) ++ turn 2 (.keyExchange ⟨0, [6], 1⟩) ++ turn 3 (.keyExchange ⟨0, [7], 0⟩) ++
    turn 1 (.dcExpVector (longVector 1 10)) ++ turn 2 (.dcExpVector (longVector 2 4)) ++
    turn 1 (.revealSecret ⟨0, [5]⟩) ++ turn 2 (.revealSecret ⟨0, [6]⟩)

/-- The last secret comes to a free session of two messages, and whoever announced one
has sent the powers of its hash with its pads, for twice the messages. -/
noncomputable def comesLast (rvSecret : RevealSecret) (s : System) : Bool :=
  let js := storeSecret rvSecret s.session
  s.session.state = .dcExponential ∧ s.session.mu = false ∧ s.session.errm = none ∧ s.session.totalMsg = 0 ∧
    rvSecret.peerId ∈ s.session.peers.keys ∧ js.allSubmit (fun peer => peer.vk ≠ []) = true ∧ totalMsgs js.peers = 2 ∧
    ∀ e ∈ GoMap.toList js.peers, 0 < e.2.numMsg → e.2.numMsg = 1 ∧ ∃ hash ∈ ([10, 4] : List ℕ),
      e.2.dcExpVector = (List.range 4).map fun i => (hash : Field) ^ (i + 1) + pads plainPackages js.peers e.2

theorem consistent_of_powers {pkgs : Packages} {peers : GoMap ℕ PeerInfo} {peer : PeerInfo} {hash : Field} {n : ℕ}
    (hnum : peer.numMsg = 1)
    (hvector : peer.dcExpVector = (List.range n).map fun i => hash ^ (i + 1) + pads pkgs peers peer) :
    Consistent pkgs peers n peer := by
  refine ⟨{hash}, hnum.symm, fun i hi => ?_⟩
  rw [hvector, List.getElem?_map, List.getElem?_range hi]
  simp [psum]

/-- The replay of two wallets with a message each, and of a third without, is right, twice. -/
theorem replay_repeats_iff_wallets : ∃ s, Reachable plainPackages s ∧ s.session.state = .dcExponential ∧
    totalMsgs (storeSecret ⟨3, [7]⟩ s.session).peers = 2 ∧
    ∃ f, Reaches plainPackages (plainChoices id) ⟨3, [7]⟩ s.session f ∧
      f.totalMsg = totalMsgs (storeSecret ⟨3, [7]⟩ s.session).peers ∧
      ∃ f', Reaches plainPackages (plainChoices id) ⟨3, [7]⟩ ((storeSecret ⟨3, [7]⟩ s.session).judged f) f' ∧
        SameVerdict f f' := by
  have hstart : Reachable plainPackages (System.start (newJoinSession 7 60 false (queuePeers [(1, 1), (2, 2), (3, 3)]))) :=
    .start 7 60 false [(1, 1), (2, 2), (3, 3)] (by decide) (by decide)
  obtain ⟨s, hs, hlast⟩ := hstart.of_any (l := longRun) (p := comesLast ⟨3, [7]⟩) (by decide +kernel)
  simp only [comesLast, Bool.decide_and, Bool.and_eq_true, decide_eq_true_eq] at hlast
  obtain ⟨hstate, hmu, herrm, htotal, hmember, hall, hcount, hpowers⟩ := hlast
  have hvectors : ∀ p peer, (storeSecret ⟨3, [7]⟩ s.session).peers.lookup p = some peer → 0 < peer.numMsg →
      peer.numMsg = 1 ∧ peer.dcExpVector.length = 4 ∧
        Consistent plainPackages (storeSecret ⟨3, [7]⟩ s.session).peers 4 peer := by
    intro p peer hp hpos
    obtain ⟨hnum, hash, -, hvector⟩ := hpowers (p, peer) (GoMap.mem_toList.mpr hp) hpos
    refine ⟨hnum, ?_, consistent_of_powers hnum hvector⟩
    dsimp only at hvector
    rw [hvector, List.length_map, List.length_range]
  have hreadable : ∀ n ≤ 4, ∀ p peer, (storeSecret ⟨3, [7]⟩ s.session).peers.lookup p = some peer →
      Readable plainPackages (storeSecret ⟨3, [7]⟩ s.session).peers n peer := by
    intro n hn p peer hp hpos
    obtain ⟨hnum, hlength, -⟩ := hvectors p peer hp hpos
    exact ⟨by omega, .inr (.inl (by omega))⟩
  have hsecrets : Secrets plainPackages (plainChoices id) (storeSecret ⟨3, [7]⟩ s.session).peers :=
    ⟨fun e _ => ⟨_, _, rfl, rfl⟩, fun p peer q other _ _ _ => ⟨_, _, _, rfl, rfl, rfl⟩⟩
  have hpair : ∀ ch : Choices, ch = plainChoices id ∨ ch = plainChoices id → ∀ turn a pa key1 key2,
      plainPackages.genSharedSecret a (ch.generateKey turn).2 = some key1 →
        plainPackages.genSharedSecret (ch.generateKey turn).1 pa = some key2 →
          (key1 = key2 ↔ a.headD 0 = pa.headD 0) := by
    intro ch hch turn a pa key1 key2 h1 h2
    obtain rfl : ch = plainChoices id := hch.elim id id
    cases h1
    cases h2
    simp [plainChoices]
  refine ⟨s, hs, hstate, hcount, (replay_repeats_iff plainPackages_flint plainPackages_parse plainPackages_xor
    (plainPackages_rand _) plainPackages_bytes hpair hs hmember hall).mpr ?_⟩
  exact {
    free := hmu
    errm := herrm
    first := htotal
    secrets := hsecrets
    secrets' := hsecrets
    readable := hreadable _ (by omega)
    readable' := hreadable _ (by omega)
    consistent := fun p peer hp hpos _ _ => by
      rw [hcount]
      exact (hvectors p peer hp hpos).2.2 }

/-- The last secret comes and the replay reads past a vector. -/
def readsPast (rvSecret : RevealSecret) (s : System) : Bool :=
  s.session.state = .dcXor ∧ rvSecret.peerId ∈ s.session.peers.keys ∧
    (storeSecret rvSecret s.session).allSubmit (fun peer => peer.vk ≠ []) = true ∧
    panics (revealSecret walletPackages (plainChoices id) rvSecret s.session)

/-- **More messages than entries stop the process**: the first of two wallets announces
three messages and sends a vector of two entries, as the other one does. -/
theorem fewer_entries_panic : ∃ s, Reachable walletPackages s ∧ s.session.state = .dcXor ∧
    ∃ rvSecret : RevealSecret, rvSecret.peerId ∈ s.session.peers.keys ∧
      (storeSecret rvSecret s.session).allSubmit (fun peer => peer.vk ≠ []) = true ∧
      ¬∃ f, Reaches walletPackages (plainChoices id) rvSecret s.session f ∧
        f.totalMsg = totalMsgs (storeSecret rvSecret s.session).peers ∧
        ∃ f', Reaches walletPackages (plainChoices id) rvSecret ((storeSecret rvSecret s.session).judged f) f' ∧
          SameVerdict f f' := by
  have hstart : Reachable walletPackages (System.start (newJoinSession 7 60 false (queuePeers [(1, 1), (2, 2)]))) :=
    .start 7 60 false [(1, 1), (2, 2)] (by decide) (by decide)
  obtain ⟨s, hs, hpast⟩ := hstart.of_any
    (l := turn 1 (.keyExchange ⟨0, [5], 3⟩) ++ turn 2 (.keyExchange ⟨0, [6], 1⟩) ++
      turn 1 (.dcExpVector (smallVector [10, 100])) ++ turn 2 (.dcExpVector (smallVector [4, 16])) ++
      turn 1 (.revealSecret ⟨0, [5]⟩))
    (p := readsPast ⟨2, [6]⟩) (by decide +kernel)
  simp only [readsPast, Bool.decide_and, Bool.decide_eq_true, Bool.and_eq_true, decide_eq_true_eq] at hpast
  obtain ⟨hstate, hmember, hall, hpanics⟩ := hpast
  refine ⟨s, hs, hstate, ⟨2, [6]⟩, hmember, hall, fun h => ?_⟩
  obtain ⟨f, hreached, -⟩ := h
  have hhandled := hreached.2
  rw [panics_iff.mp hpanics] at hhandled
  cases hhandled

end Dcrtxmatcher.Coinjoin
