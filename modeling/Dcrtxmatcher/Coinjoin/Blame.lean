import Dcrtxmatcher.Coinjoin.ReplayProofs

/-! Whom the replay blames.

A peer that sent what the protocol asks for passes the key check and the check of
its exponential vector, whatever the other peers sent: its own key and the public
keys of the others give back its pads, its own polynomial has its hashes as roots
(Newton), and the vector rebuilt from them is the one it sent. -/
namespace Dcrtxmatcher.Coinjoin
open Lib Lib.Pads Lib.PowerSums

/-- The number of messages of all peers together. -/
def totalMsgs (peers : GoMap ℕ PeerInfo) : ℕ := ((GoMap.toList peers).map fun e => e.2.numMsg).sum

/-- The public key a peer is known by. -/
def pkOf (peers : GoMap ℕ PeerInfo) (q : ℕ) : Bytes := (peers.lookup q).elim [] (·.pk)

/-- Peer `p` announced its `hashes` and sent their vector, padded with the secrets
its revealed key shares with the other peers. -/
structure FollowedExp (pkgs : Packages) (peers : GoMap ℕ PeerInfo) (p : ℕ) (peer : PeerInfo) (hashes : List Field) :
    Prop where
  member : peers.lookup p = some peer
  numMsg : peer.numMsg = hashes.length
  vector : peer.dcExpVector =
    honestVector peers.keys (fun _ q => expPad pkgs peer.vk (pkOf peers q)) hashes p (totalMsgs peers)

section Exponential
variable {pkgs : Packages} {ch : Choices} {peers : GoMap ℕ PeerInfo} {p : ℕ} {peer : PeerInfo} {hashes : List Field}

theorem numMsg_le_totalMsgs (hp : peers.lookup p = some peer) : peer.numMsg ≤ totalMsgs peers := by
  refine List.single_le_sum (fun _ _ => Nat.zero_le _) _ ?_
  exact List.mem_map.mpr ⟨(p, peer), GoMap.mem_toList.mpr hp, rfl⟩

/-- The sum of a peer's pads, by the ids of the peers. -/
theorem sum_signed_eq_pads (hkeyed : JoinSession.WellKeyed peers) (hp : peers.lookup p = some peer) :
    (peers.keys.map (signed (fun _ q => expPad pkgs peer.vk (pkOf peers q)) p)).sum = pads pkgs peers peer := by
  rw [pads, GoMap.keys_eq, List.map_map]
  refine congrArg List.sum (List.map_congr_left fun e he => ?_)
  have hlookup := GoMap.mem_toList.mp (show (e.1, e.2) ∈ GoMap.toList peers from he)
  rw [Function.comp_apply, signed_eq_padTerm, pkOf, hlookup, hkeyed p peer hp, hkeyed e.1 e.2 hlookup]
  rfl

theorem FollowedExp.getElem? (hp : FollowedExp pkgs peers p peer hashes) (hkeyed : JoinSession.WellKeyed peers) {i : ℕ}
    (hi : i < totalMsgs peers) :
    peer.dcExpVector[i]? = some ((hashes.map (· ^ (i + 1))).sum + pads pkgs peers peer) := by
  rw [hp.vector, honestVector, List.getElem?_map, List.getElem?_range hi, Option.map_some, honestEntry,
    sum_signed_eq_pads hkeyed hp.member]

theorem FollowedExp.length (hp : FollowedExp pkgs peers p peer hashes) :
    peer.dcExpVector.length = totalMsgs peers := by
  rw [hp.vector, length_honestVector]

/-- The vector rebuilt from the hashes does not differ from the one sent. -/
theorem FollowedExp.differs (hp : FollowedExp pkgs peers p peer hashes) (hkeyed : JoinSession.WellKeyed peers)
    {site totalMsg : ℕ} {replayPeer : GoMap ℕ PeerReplayInfo}
    (hpads : ∀ site, padSum p (GoMap.values ch.order site replayPeer) = pads pkgs peers peer) {msgs : List Field}
    (hmsgs : (msgs : Multiset Field) = hashes) :
    Coinjoin.differs pkgs peer.dcExpVector 0 (sentVector ch site totalMsg p msgs replayPeer) ≠ .ok true := by
  refine differs_ne_true fun j x y hx hy => ?_
  have hj : j < totalMsgs peers := by
    rw [← hp.length]
    exact (List.getElem?_eq_some_iff.mp (by simpa using hx)).1
  have hjt : j < totalMsg := by
    have := (List.getElem?_eq_some_iff.mp hy).1
    rwa [length_sentVector] at this
  rw [Nat.zero_add, hp.getElem? hkeyed hj, Option.some.injEq] at hx
  rw [getElem?_sentVector hpads hjt, Option.some.injEq] at hy
  rw [← hx, ← hy, ((Multiset.coe_eq_coe.mp hmsgs).map _).sum_eq]

/-- The turn of a peer that followed the protocol: it is not malicious, and the
hashes it is entered with are its own. -/
theorem FollowedExp.turn (hp : FollowedExp pkgs peers p peer hashes) (hkeyed : JoinSession.WellKeyed peers)
    (hflint : pkgs.flint.Correct fieldPrime)
    (hparse : ∀ x : Field, pkgs.uint128FromString (Hex.hexStr x.val) = x.val) (hpos : 0 < peer.numMsg)
    (h1000 : totalMsgs peers ≤ 1000) {totalMsg : ℕ} {expVector : List Field} {opInfos : List PeerReplayInfo}
    {keys : List (ℕ × Bytes)} (hkeys : sharedKeys pkgs peer (GoMap.values ch.order [901, p] peers) = .ok keys)
    (hstrip : stripPads pkgs p peer.numMsg (GoMap.range ch.order [977, p] (GoMap.ofList keys)) peer.dcExpVector =
      .ok (expVector, opInfos)) {verdict : Bool × Option PeerSlotInfo}
    (hturn : Turn pkgs ch totalMsg p peer expVector (GoMap.ofList (opInfos.map fun opInfo => (opInfo.id, opInfo))) verdict) :
    verdict.1 = false ∧ ∃ msgHash : List ℕ, (msgHash : Multiset ℕ) = hashes.map ZMod.val ∧
      verdict.2 = some ⟨p, msgHash, GoMap.ofList (opInfos.map fun opInfo => (opInfo.id, opInfo))⟩ := by
  obtain ⟨hsum, hpads⟩ := padSum_of_stripPads hkeyed hp.member hkeys hstrip
  obtain ⟨-, hlen, hentry⟩ := stripPads_eq_ok hstrip
  have hle := numMsg_le_totalMsgs hp.member
  -- the stripped entries are the power sums of the peer's own hashes
  have hstripped : ∀ i < peer.numMsg, expVector.getD i 0 = (hashes.map (· ^ (i + 1))).sum := by
    intro i hi
    have hi' : i < peer.dcExpVector.length := by
      rw [hp.length]
      omega
    rw [hentry i hi', if_pos hi, hsum, List.getD_eq_getElem?_getD, hp.getElem? hkeyed (by omega), Option.getD_some,
      add_sub_cancel_right]
  have hnum : peer.numMsg ≤ expVector.length := by
    rw [hlen, hp.length]
    exact hle
  have hprime : peer.numMsg < fieldPrime := by
    have : (1000 : ℕ) < fieldPrime := by norm_num [fieldPrime]
    omega
  have hsolve : 1 < peer.numMsg → ∃ roots,
      Flint.getRoots pkgs.flint (Hex.hexStr fieldPrime) (expVector.take peer.numMsg) peer.numMsg = .ok (0, roots) ∧
        (roots : Multiset (List Char)) = (hashes : Multiset Field).map fun r => Hex.hexStr r.val := by
    intro h2
    refine Flint.getRoots_of_psum pkgs.flint _ hflint h2 (by omega) hprime (by rw [List.length_take]; omega)
      (by rw [Multiset.coe_card, hp.numMsg]) fun i hi => ?_
    have htake : (expVector.take peer.numMsg).getD i 0 = expVector.getD i 0 := by
      simp only [List.getD_eq_getElem?_getD, List.getElem?_take_of_lt hi]
    rw [htake, hstripped i hi, psum, Multiset.map_coe, Multiset.sum_coe]
  cases hturn with
  | @unsolved ret roots h2 _ hroots hret =>
    obtain ⟨roots', hroots', -⟩ := hsolve h2
    rw [hroots'] at hroots
    cases hroots
    exact absurd rfl hret
  | @several roots malicious h2 _ hroots hdiff =>
    obtain ⟨roots', hroots', hM⟩ := hsolve h2
    rw [hroots'] at hroots
    cases hroots
    have hvals : ((roots.map pkgs.uint128FromString : List ℕ) : Multiset ℕ) = hashes.map ZMod.val := by
      rw [← Multiset.map_coe, hM, Multiset.map_map, ← Multiset.map_coe]
      exact Multiset.map_congr rfl fun x _ => hparse x
    have hmsgs : (((roots.map pkgs.uint128FromString).map (Nat.cast : ℕ → Field) : List Field) : Multiset Field) =
        hashes := by
      rw [← Multiset.map_coe, hvals, Multiset.map_coe, List.map_map]
      simp [Function.comp_def]
    refine ⟨?_, _, hvals, rfl⟩
    cases malicious
    · rfl
    · exact absurd hdiff (hp.differs hkeyed hpads hmsgs)
  | @one ff malicious hone hff hdiff =>
    obtain ⟨x, rfl⟩ := List.length_eq_one_iff.mp (hp.numMsg ▸ hone)
    have hx : ff = x := by
      have := hstripped 0 (by omega)
      rw [List.getD_eq_getElem?_getD, hff] at this
      simpa using this
    subst hx
    refine ⟨?_, _, rfl, rfl⟩
    cases malicious
    · rfl
    · exact absurd hdiff (hp.differs hkeyed hpads rfl)
  | none hzero => omega

end Exponential

/-- **Blame soundness of the key and exponential checks.** -/
theorem replay_spares_followed {pkgs : Packages} (hflint : pkgs.flint.Correct fieldPrime)
    (hparse : ∀ x : Field, pkgs.uint128FromString (Hex.hexStr x.val) = x.val)
    (keyPair : Bytes → Bytes → Prop)
    (hecdh : ∀ a pa b pb, keyPair a pa → keyPair b pb → pkgs.genSharedSecret a pb = pkgs.genSharedSecret b pa)
    (ch : Choices) (hgen : ∀ turn, keyPair (ch.generateKey turn).1 (ch.generateKey turn).2)
    (js : JoinSession) (hkeyed : JoinSession.WellKeyed js.peers) (h1000 : totalMsgs js.peers ≤ 1000)
    (p : ℕ) (peer : PeerInfo) (hashes : List Field) (hpos : hashes ≠ []) (hkey : keyPair peer.vk peer.pk)
    (hp : FollowedExp pkgs js.peers p peer hashes) (f : Findings) (h : replay pkgs ch js = .ok f) :
    p ∉ f.keyIds ∧ p ∉ f.expIds := by
  obtain ⟨-, replayPeers, verdicts, hkeys, hreplay, -, hverdicts, hexp, -⟩ := replay_eq_ok h
  constructor
  · intro hmem
    obtain ⟨⟨q, turn⟩, hq, hid, hne⟩ := (mem_keyCheck hkeys p).mp hmem
    obtain ⟨k, hk⟩ := GoMap.mem_values.mp (List.fst_mem_of_mem_zipIdx hq)
    have hqp : q = peer := by
      rw [hkeyed k q hk] at hid
      rw [hid] at hk
      exact Option.some.inj (hk.symm.trans hp.member)
    exact hne (hqp ▸ hecdh _ _ _ _ hkey (hgen turn))
  · rw [hexp, List.mem_filterMap]
    rintro ⟨⟨pid, malicious, slotInfo⟩, hv, hsome⟩
    dsimp only at hsome
    split_ifs at hsome with hmal
    cases hsome
    obtain ⟨peer', hp', hturn⟩ := verdict_of_mem hverdicts hv
    cases hp'.symm.trans hp.member
    obtain ⟨keys, hshared, hlookup⟩ := lookup_replayKeys hkeyed hreplay hp.member
    rw [hlookup, Option.getD_some] at hturn
    obtain ⟨expVector, opInfos, hstrip, hturn⟩ := turn_of_expReplay hturn
    have hnum : 0 < peer.numMsg := by
      rw [hp.numMsg]
      exact List.length_pos_iff.mpr hpos
    have hfalse := (hp.turn hkeyed hflint hparse hnum h1000 hshared hstrip hturn).1
    exact absurd hmal (by simpa using hfalse)

/-- Peers 1 and 2 with keys 2 and 3. Peer 1 sends the vector of its hash 10, peer 2
sends anything. -/
noncomputable def oneFollows : JoinSession :=
  let vector := honestVector [2, 1] (fun _ _ => expPad plainPackages [2] [3]) [10] 1 2
  { newJoinSession 7 60 false (GoMap.ofList
      [(1, { newPeer 0 1 with pk := [2], vk := [2], numMsg := 1, dcExpVector := vector }),
        (2, { newPeer 1 2 with pk := [3], vk := [3], numMsg := 1, dcExpVector := [7, 7] })]) with
    state := .dcExponential }

/-- Peer 2 is blamed there and peer 1 is not. -/
theorem replay_spares_followed_one :
    ∃ f, replay plainPackages (plainChoices id) oneFollows = .ok f ∧ f.maliciousIds = [2] ∧
      1 ∉ f.keyIds ∧ 1 ∉ f.expIds := by
  obtain ⟨peer, hpeer⟩ : ∃ peer, oneFollows.peers.lookup 1 = some peer := ⟨_, rfl⟩
  have hfollowed : FollowedExp plainPackages oneFollows.peers 1 peer [10] := by
    cases hpeer
    exact ⟨rfl, rfl, by decide⟩
  have hkey : peer.pk = peer.vk := by
    cases hpeer
    rfl
  refine ⟨⟨2, [], [2], []⟩, by decide, rfl, ?_⟩
  refine replay_spares_followed plainPackages_flint plainPackages_parse (fun a pa => pa = a) ?_ (plainChoices id)
    (fun _ => rfl) oneFollows (by decide) (by decide) 1 peer [10] (by simp) hkey hfollowed _ (by decide)
  rintro a _ b _ rfl rfl
  exact multiplyKeys_comm ..

end Dcrtxmatcher.Coinjoin
