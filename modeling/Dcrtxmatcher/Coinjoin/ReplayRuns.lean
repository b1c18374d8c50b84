import Dcrtxmatcher.Coinjoin.BlameXor

/-! When the replay runs to its end.

It stops at a secret or a random stream that cannot be had, at an error left over from
before, and it panics at a vector that is too short: shorter than the peer's own
number of messages, or shorter than the rebuilt vector with nothing before its end
to tell the two apart. -/
namespace Dcrtxmatcher.Coinjoin
open Lib Lib.Pads Lib.PowerSums

/-- `NumMsg` hashes and the peer's pads account for the first `n` entries of its vector. -/
def Consistent (pkgs : Packages) (peers : GoMap ℕ PeerInfo) (n : ℕ) (peer : PeerInfo) : Prop :=
  ∃ M : Multiset Field, M.card = peer.numMsg ∧
    ∀ i < n, peer.dcExpVector[i]? = some (psum M (i + 1) + pads pkgs peers peer)

/-- The number of messages the replay counts; `TotalMsg` is never set back. -/
def replayTotal (js : JoinSession) : ℕ := js.totalMsg + totalMsgs js.peers

/-- The vector is long enough to be replayed with `n` messages in all. -/
def Readable (pkgs : Packages) (peers : GoMap ℕ PeerInfo) (n : ℕ) (peer : PeerInfo) : Prop :=
  0 < peer.numMsg → peer.numMsg ≤ peer.dcExpVector.length ∧
    (1000 < peer.numMsg ∨ n ≤ peer.dcExpVector.length ∨ ¬Consistent pkgs peers peer.dcExpVector.length peer)

/-- A private and a public key have a secret, and the secret its random streams. -/
def HasStreams (pkgs : Packages) (vk pk : Bytes) : Prop :=
  ∃ sharedKey dcexpRng dcXorRng, pkgs.genSharedSecret32 vk pk = some sharedKey ∧
    pkgs.randBytes sharedKey expRandSize = some dcexpRng ∧ pkgs.randBytes sharedKey pkScriptSize = some dcXorRng

/-- The secrets the replay needs. -/
structure Secrets (pkgs : Packages) (ch : Choices) (peers : GoMap ℕ PeerInfo) : Prop where
  server : ∀ e ∈ (GoMap.values ch.order [869] peers).zipIdx, ∃ key1 key2,
    pkgs.genSharedSecret e.1.vk (ch.generateKey e.2).2 = some key1 ∧
      pkgs.genSharedSecret (ch.generateKey e.2).1 e.1.pk = some key2
  shared : ∀ p peer q other, peers.lookup p = some peer → peers.lookup q = some other → p ≠ q →
    HasStreams pkgs peer.vk other.pk

/-! ### Keys -/

theorem exists_keyCheck_iff {pkgs : Packages} {ch : Choices} {visited : List (PeerInfo × ℕ)} :
    (∃ ids, keyCheck pkgs ch visited = .ok ids) ↔ ∀ e ∈ visited, ∃ key1 key2,
      pkgs.genSharedSecret e.1.vk (ch.generateKey e.2).2 = some key1 ∧
        pkgs.genSharedSecret (ch.generateKey e.2).1 e.1.pk = some key2 := by
  induction visited with
  | nil => exact iff_of_true ⟨[], rfl⟩ (by simp)
  | cons e visited ih =>
    obtain ⟨p, turn⟩ := e
    simp only [keyCheck, bind_eq_ok, Stop.require_eq_ok, Except.ok.injEq]
    rw [List.forall_mem_cons, ← ih]
    constructor
    · rintro ⟨_, key1, h1, key2, h2, rest, hrest, -⟩
      exact ⟨⟨key1, key2, h1, h2⟩, rest, hrest⟩
    · rintro ⟨⟨key1, key2, h1, h2⟩, rest, hrest⟩
      exact ⟨_, key1, h1, key2, h2, rest, hrest, rfl⟩

theorem exists_sharedKeys_iff {pkgs : Packages} {p : PeerInfo} {others : List PeerInfo} :
    (∃ keys, sharedKeys pkgs p others = .ok keys) ↔
      ∀ op ∈ others, p.id ≠ op.id → ∃ sharedKey, pkgs.genSharedSecret32 p.vk op.pk = some sharedKey := by
  induction others with
  | nil => exact iff_of_true ⟨[], rfl⟩ (by simp)
  | cons op others ih =>
    rw [sharedKeys, List.forall_mem_cons, ← ih]
    split_ifs with hid
    · simp [hid]
    · simp only [bind_eq_ok, Stop.require_eq_ok, Except.ok.injEq]
      constructor
      · rintro ⟨_, key, hkey, keys, hkeys, -⟩
        exact ⟨fun _ => ⟨key, hkey⟩, keys, hkeys⟩
      · rintro ⟨hkey, keys, hkeys⟩
        obtain ⟨key, hkey⟩ := hkey hid
        exact ⟨_, key, hkey, keys, hkeys, rfl⟩

/-- The shared keys are the secrets with the other peers. -/
theorem mem_sharedKeys {pkgs : Packages} {p : PeerInfo} {others : List PeerInfo} {keys : List (ℕ × Bytes)}
    (h : sharedKeys pkgs p others = .ok keys) (e : ℕ × Bytes) :
    e ∈ keys ↔ ∃ op ∈ others, p.id ≠ op.id ∧ op.id = e.1 ∧ pkgs.genSharedSecret32 p.vk op.pk = some e.2 := by
  induction others generalizing keys with
  | nil =>
    cases h
    simp
  | cons op others ih =>
    rw [sharedKeys] at h
    split_ifs at h with hid
    · rw [ih h]
      simp [hid]
    · simp only [bind_eq_ok, Stop.require_eq_ok, Except.ok.injEq] at h
      obtain ⟨key, hkey, rest, hrest, rfl⟩ := h
      rw [List.mem_cons, ih hrest]
      simp [hid, hkey, Prod.ext_iff, eq_comm]

/-! ### Vectors -/

theorem exists_stripPads_iff (pkgs : Packages) {pid : ℕ} (numMsg : ℕ) {keys : List (ℕ × Bytes)} (v : List Field)
    (hne : ∀ e ∈ keys, pid ≠ e.1) :
    (∃ r, stripPads pkgs pid numMsg keys v = .ok r) ↔
      (∀ e ∈ keys, ∃ opInfo, replayInfo pkgs e.1 e.2 = .ok opInfo) ∧ (keys ≠ [] → numMsg ≤ v.length) := by
  induction keys generalizing v with
  | nil => exact iff_of_true ⟨_, rfl⟩ (by simp)
  | cons e keys ih =>
    obtain ⟨opid, sharedKey⟩ := e
    have hne' := hne (opid, sharedKey) (List.mem_cons_self ..)
    simp only [stripPads, bind_eq_ok, Stop.lift_eq_ok, Except.ok.injEq]
    rw [List.forall_mem_cons]
    constructor
    · rintro ⟨_, opInfo, hinfo, v₁, hstrip, r, hrest, -⟩
      obtain ⟨hle, hlen, -⟩ := stripPad_eq_ok hstrip
      exact ⟨⟨⟨opInfo, hinfo⟩, ((ih _ fun e he => hne e (List.mem_cons_of_mem _ he)).mp ⟨r, hrest⟩).1⟩, fun _ => hle hne'⟩
    · rintro ⟨⟨⟨opInfo, hinfo⟩, hinfos⟩, hle⟩
      obtain ⟨v₁, hstrip⟩ : ∃ v₁, stripPad pid opid opInfo.dcExpPadding numMsg v = .ok v₁ := by
        rw [stripPad, if_neg fun h => absurd (hle (by simp)) (by omega)]
        exact ⟨_, rfl⟩
      obtain ⟨-, hlen, -⟩ := stripPad_eq_ok hstrip
      obtain ⟨r, hrest⟩ := (ih v₁ fun e he => hne e (List.mem_cons_of_mem _ he)).mpr
        ⟨hinfos, fun _ => hlen ▸ hle (by simp)⟩
      exact ⟨_, opInfo, hinfo, v₁, hstrip, r, hrest, rfl⟩

/-- A comparison ends, at the end of the rebuilt vector or at a difference. -/
theorem exists_differs_iff {pkgs : Packages} {v sent : List Field} {i : ℕ} :
    (∃ malicious, differs pkgs v i sent = .ok malicious) ↔
      (∀ j < sent.length, i + j < v.length) ∨ ∃ (j : ℕ) (x y : Field), v[i + j]? = some x ∧ sent[j]? = some y ∧
        pkgs.getBytes x.val ≠ pkgs.getBytes y.val := by
  induction sent generalizing i with
  | nil => exact iff_of_true ⟨_, rfl⟩ (.inl (by simp))
  | cons y sent ih =>
    simp only [differs, bind_eq_ok, index_eq_ok]
    rcases hx : v[i]? with _ | x
    · have hlen := List.getElem?_eq_none_iff.mp hx
      refine iff_of_false (by simp) ?_
      rintro (hall | ⟨j, x, _, hj, -⟩)
      · have := hall 0 (by simp)
        omega
      · have := (List.getElem?_eq_some_iff.mp hj).1
        omega
    · have hi := (List.getElem?_eq_some_iff.mp hx).1
      by_cases hne : pkgs.getBytes x.val ≠ pkgs.getBytes y.val
      · exact iff_of_true ⟨true, x, rfl, if_pos hne⟩ (.inr ⟨0, x, y, hx, rfl, hne⟩)
      · have htail : (∃ malicious x', some x = some x' ∧ (if pkgs.getBytes x'.val ≠ pkgs.getBytes y.val then Except.ok true
            else differs pkgs v (i + 1) sent) = .ok malicious) ↔
              ∃ malicious, differs pkgs v (i + 1) sent = .ok malicious := by
          rw [not_not] at hne
          simp [hne]
        rw [htail, ih]
        constructor
        · rintro (hall | ⟨j, x', y', hx', hy', hne'⟩)
          · refine .inl fun j hj => ?_
            rcases j with _ | j
            · exact hi
            · have := hall j (by simpa using hj)
              omega
          · exact .inr ⟨j + 1, x', y', by rwa [show i + (j + 1) = i + 1 + j by omega], hy', hne'⟩
        · rintro (hall | ⟨j, x', y', hx', hy', hne'⟩)
          · refine .inl fun j hj => ?_
            have := hall (j + 1) (by simpa using hj)
            omega
          · rcases j with _ | j
            · rw [Nat.add_zero, hx, Option.some.injEq] at hx'
              rw [List.getElem?_cons_zero, Option.some.injEq] at hy'
              subst hx' hy'
              exact absurd hne' hne
            · exact .inr ⟨j, x', y', by rwa [show i + 1 + j = i + (j + 1) by omega], hy', hne'⟩

section Check
variable {pkgs : Packages} {ch : Choices} {peers : GoMap ℕ PeerInfo} {p : ℕ} {peer : PeerInfo} {n : ℕ}

/-- The comparison with the vector rebuilt from the hashes `M`. -/
theorem differs_sentVector_iff
    (hbytes : ∀ a b, a < fieldPrime → b < fieldPrime → pkgs.getBytes a = pkgs.getBytes b → a = b) {site : ℕ}
    {msgs : List Field} {replayPeer : GoMap ℕ PeerReplayInfo}
    (hpads : ∀ site, padSum p (GoMap.values ch.order site replayPeer) = pads pkgs peers peer) {malicious : Bool}
    (h : differs pkgs peer.dcExpVector 0 (sentVector ch site n p msgs replayPeer) = .ok malicious) :
    malicious = false ↔
      ∀ i < n, peer.dcExpVector[i]? = some (psum (msgs : Multiset Field) (i + 1) + pads pkgs peers peer) := by
  have hsum : ∀ k, (msgs.map (· ^ k)).sum = psum (msgs : Multiset Field) k := fun k => by
    rw [psum, Multiset.map_coe, Multiset.sum_coe]
  rw [differs_eq_false_iff hbytes h]
  constructor
  · intro hall i hi
    refine hall i _ ?_
    rw [getElem?_sentVector hpads hi, hsum]
  · intro hall j y hy
    have hj : j < n := by
      have := (List.getElem?_eq_some_iff.mp hy).1
      rwa [length_sentVector] at this
    rw [getElem?_sentVector hpads hj, hsum] at hy
    rw [hall j hj, hy]

/-- That comparison ends. -/
theorem exists_differs_sentVector_iff
    (hbytes : ∀ a b, a < fieldPrime → b < fieldPrime → pkgs.getBytes a = pkgs.getBytes b → a = b) {site : ℕ}
    {msgs : List Field} {replayPeer : GoMap ℕ PeerReplayInfo}
    (hpads : ∀ site, padSum p (GoMap.values ch.order site replayPeer) = pads pkgs peers peer) :
    (∃ malicious, differs pkgs peer.dcExpVector 0 (sentVector ch site n p msgs replayPeer) = .ok malicious) ↔
      n ≤ peer.dcExpVector.length ∨ ∃ i < peer.dcExpVector.length,
        peer.dcExpVector[i]? ≠ some (psum (msgs : Multiset Field) (i + 1) + pads pkgs peers peer) := by
  have hsum : ∀ k, (msgs.map (· ^ k)).sum = psum (msgs : Multiset Field) k := fun k => by
    rw [psum, Multiset.map_coe, Multiset.sum_coe]
  rw [exists_differs_iff, length_sentVector]
  simp only [Nat.zero_add]
  by_cases hn : n ≤ peer.dcExpVector.length
  · exact iff_of_true (.inl fun j hj => hj.trans_le hn) (.inl hn)
  rw [not_le] at hn
  constructor
  · rintro (hall | ⟨j, x, y, hx, hy, hne⟩)
    · exact absurd (hall _ hn) (lt_irrefl _)
    · obtain ⟨hj, -⟩ := List.getElem?_eq_some_iff.mp hx
      refine .inr ⟨j, hj, fun heq => hne ?_⟩
      rw [getElem?_sentVector hpads (hj.trans hn), hsum, ← heq, hx, Option.some.injEq] at hy
      rw [hy]
  · rintro (hle | ⟨j, hj, hne⟩)
    · omega
    · refine .inr ⟨j, _, _, List.getElem?_eq_getElem hj, getElem?_sentVector hpads (hj.trans hn), fun heq => hne ?_⟩
      rw [List.getElem?_eq_getElem hj, Option.some.injEq, ← hsum]
      exact ZMod.val_injective _ (hbytes _ _ (ZMod.val_lt _) (ZMod.val_lt _) heq)

theorem Consistent.hasPowerSums {M : Multiset Field} (hcard : M.card = peer.numMsg) (hn : peer.numMsg ≤ n)
    (hM : ∀ i < n, peer.dcExpVector[i]? = some (psum M (i + 1) + pads pkgs peers peer)) :
    Flint.HasPowerSums (strippedEntries pkgs peers peer) M := by
  have hlen : (strippedEntries pkgs peers peer).length = peer.numMsg := by
    rw [strippedEntries, List.length_map, List.length_take, min_eq_left]
    by_contra hlt
    rw [not_le] at hlt
    have := hM peer.dcExpVector.length (by omega)
    simp at this
  refine ⟨hcard.trans hlen.symm, fun i hi => ?_⟩
  have hi' : i < peer.numMsg := hlen ▸ hi
  obtain ⟨hi'', hget⟩ := List.getElem?_eq_some_iff.mp (hM i (by omega))
  simp [strippedEntries, hget]

/-- A consistent vector is accounted for by the peer's own hashes. -/
theorem Consistent.own (h1000 : peer.numMsg ≤ 1000) (hn : peer.numMsg ≤ n) (h : Consistent pkgs peers n peer) :
    (ownHashes pkgs peers peer).card = peer.numMsg ∧
      ∀ i < n, peer.dcExpVector[i]? = some (psum (ownHashes pkgs peers peer) (i + 1) + pads pkgs peers peer) := by
  obtain ⟨M, hcard, hM⟩ := h
  rw [ownHashes_eq h1000 (Consistent.hasPowerSums hcard hn hM)]
  exact ⟨hcard, hM⟩

theorem consistent_iff_own (h1000 : peer.numMsg ≤ 1000) (hn : peer.numMsg ≤ n)
    (hcard : (ownHashes pkgs peers peer).card = peer.numMsg) :
    Consistent pkgs peers n peer ↔
      ∀ i < n, peer.dcExpVector[i]? = some (psum (ownHashes pkgs peers peer) (i + 1) + pads pkgs peers peer) :=
  ⟨fun h => (h.own h1000 hn).2, fun h => ⟨_, hcard, h⟩⟩

/-- A peer whose polynomial has no solution is not consistent. -/
theorem not_consistent_of_getRoots (hflint : pkgs.flint.Correct fieldPrime) (h2 : 2 ≤ peer.numMsg)
    (hn : peer.numMsg ≤ n) {ret : ℕ} {roots : List (List Char)} (hret : ret ≠ 0)
    (hroots : Flint.getRoots pkgs.flint (Hex.hexStr fieldPrime) (strippedEntries pkgs peers peer) peer.numMsg =
      .ok (ret, roots)) : 1000 < peer.numMsg ∨ ¬Consistent pkgs peers n peer := by
  rw [or_iff_not_imp_left, not_lt]
  rintro h1000 ⟨M, hcard, hM⟩
  have hprime : 1000 < fieldPrime := by norm_num [fieldPrime]
  obtain ⟨hcard', hpsum⟩ := Consistent.hasPowerSums hcard hn hM
  obtain ⟨roots', hroots', -⟩ : ∃ roots', Flint.getRoots pkgs.flint (Hex.hexStr fieldPrime)
      (strippedEntries pkgs peers peer) peer.numMsg = .ok (0, roots') ∧ _ :=
    Flint.getRoots_of_psum pkgs.flint _ hflint h2 h1000 (by omega) (by omega) hcard fun i hi => by
      rw [hpsum i (by omega), List.getElem_eq_getD 0]
  rw [hroots'] at hroots
  cases hroots
  exact hret rfl

/-- The solution of a peer's polynomial are its own hashes. -/
theorem own_of_getRoots (hflint : pkgs.flint.Correct fieldPrime)
    (hparse : ∀ x : Field, pkgs.uint128FromString (Hex.hexStr x.val) = x.val) (hpos : 0 < peer.numMsg)
    (hlen : peer.numMsg ≤ peer.dcExpVector.length) {roots : List (List Char)}
    (hroots : Flint.getRoots pkgs.flint (Hex.hexStr fieldPrime) (strippedEntries pkgs peers peer) peer.numMsg =
      .ok (0, roots)) :
    peer.numMsg ≤ 1000 ∧ (ownHashes pkgs peers peer).card = peer.numMsg ∧
      (((roots.map pkgs.uint128FromString).map (Nat.cast : ℕ → Field) : List Field) : Multiset Field) =
        ownHashes pkgs peers peer := by
  have hprime : 1000 < fieldPrime := by norm_num [fieldPrime]
  have hlen' : (strippedEntries pkgs peers peer).length = peer.numMsg := by
    rw [strippedEntries, List.length_map, List.length_take, min_eq_left hlen]
  obtain ⟨h2, h1000⟩ := Flint.range_of_getRoots pkgs.flint hlen'.ge hpos (by omega) hroots
  obtain ⟨M, hcard, hM, hval⟩ := Flint.psum_of_getRoots pkgs.flint hflint h2 h1000 (by omega) hlen'.ge hroots
  have hown : ownHashes pkgs peers peer = M :=
    ownHashes_eq h1000 ⟨hcard.trans hlen'.symm, fun i hi => by rw [hM i (hlen' ▸ hi), List.getElem_eq_getD 0]⟩
  refine ⟨h1000, by rw [hown, hcard], ?_⟩
  rw [hown, List.map_map, ← Multiset.map_coe, hval, Multiset.map_map]
  simp [hparse]

/-- The first stripped entry of a peer with one message is its own hash. -/
theorem own_of_one (hone : peer.numMsg = 1) {ff : Field} (hff : (strippedEntries pkgs peers peer)[0]? = some ff) :
    ownHashes pkgs peers peer = ([ff] : List Field) := by
  obtain ⟨h0, hget⟩ := List.getElem?_eq_some_iff.mp hff
  have hlen : (strippedEntries pkgs peers peer).length ≤ peer.numMsg := length_strippedEntries_le
  refine ownHashes_eq (by omega) ⟨by simp; omega, fun i hi => ?_⟩
  obtain rfl : i = 0 := by omega
  simp [psum, hget]

end Check

/-! ### One turn -/

section Turn
variable {pkgs : Packages} {ch : Choices} {peers : GoMap ℕ PeerInfo} {p : ℕ} {peer : PeerInfo} {n : ℕ}
  {expVector : List Field} {replayPeer : GoMap ℕ PeerReplayInfo} {verdict : Bool × Option PeerSlotInfo}

/-- A turn of the replay finds a peer malicious that has messages and whose vector no
hashes account for. -/
theorem Turn.malicious_iff (hflint : pkgs.flint.Correct fieldPrime)
    (hparse : ∀ x : Field, pkgs.uint128FromString (Hex.hexStr x.val) = x.val)
    (hbytes : ∀ a b, a < fieldPrime → b < fieldPrime → pkgs.getBytes a = pkgs.getBytes b → a = b)
    (hn : peer.numMsg ≤ n) (hlen : expVector.length = peer.dcExpVector.length)
    (htake : expVector.take peer.numMsg = strippedEntries pkgs peers peer)
    (hpads : ∀ site, padSum p (GoMap.values ch.order site replayPeer) = pads pkgs peers peer)
    (h : Turn pkgs ch n p peer expVector replayPeer verdict) :
    verdict.1 = true ↔ 1000 < peer.numMsg ∨ 0 < peer.numMsg ∧ ¬Consistent pkgs peers n peer := by
  have hsolved : ∀ {site msgs malicious}, 0 < peer.numMsg → peer.numMsg ≤ 1000 →
      (ownHashes pkgs peers peer).card = peer.numMsg → ((msgs : List Field) : Multiset Field) = ownHashes pkgs peers peer →
      differs pkgs peer.dcExpVector 0 (sentVector ch site n p msgs replayPeer) = .ok malicious →
      (malicious = true ↔ 1000 < peer.numMsg ∨ 0 < peer.numMsg ∧ ¬Consistent pkgs peers n peer) := by
    intro site msgs malicious hpos h1000 hcard hmsgs hdiff
    rw [← Bool.not_eq_false, differs_sentVector_iff hbytes hpads hdiff, hmsgs, ← consistent_iff_own h1000 hn hcard]
    simp [hpos, h1000.not_gt]
  cases h with
  | @unsolved ret roots h2 _ hroots hret =>
    rw [htake] at hroots
    have := not_consistent_of_getRoots hflint h2 hn hret hroots
    exact iff_of_true rfl (this.imp_right fun hcons => ⟨by omega, hcons⟩)
  | @several roots malicious h2 hle hroots hdiff =>
    rw [htake] at hroots
    obtain ⟨h1000, hcard, hmsgs⟩ := own_of_getRoots hflint hparse (by omega) (hlen ▸ hle) hroots
    exact hsolved (by omega) h1000 hcard hmsgs hdiff
  | @one ff malicious hone hff hdiff =>
    have hown := own_of_one hone (by rw [← htake, List.getElem?_take_of_lt (by omega), hff])
    exact hsolved (by omega) (by omega) (by rw [hown, hone]; rfl) hown.symm hdiff
  | none hzero => simp [hzero]

/-- A turn that ends had a vector that was long enough. -/
theorem Turn.readable (hflint : pkgs.flint.Correct fieldPrime)
    (hparse : ∀ x : Field, pkgs.uint128FromString (Hex.hexStr x.val) = x.val)
    (hbytes : ∀ a b, a < fieldPrime → b < fieldPrime → pkgs.getBytes a = pkgs.getBytes b → a = b)
    (hlen : expVector.length = peer.dcExpVector.length)
    (htake : expVector.take peer.numMsg = strippedEntries pkgs peers peer)
    (hpads : ∀ site, padSum p (GoMap.values ch.order site replayPeer) = pads pkgs peers peer)
    (h : Turn pkgs ch n p peer expVector replayPeer verdict) : Readable pkgs peers n peer := by
  have hsolved : ∀ {site msgs malicious}, peer.numMsg ≤ peer.dcExpVector.length → peer.numMsg ≤ 1000 →
      (ownHashes pkgs peers peer).card = peer.numMsg → ((msgs : List Field) : Multiset Field) = ownHashes pkgs peers peer →
      differs pkgs peer.dcExpVector 0 (sentVector ch site n p msgs replayPeer) = .ok malicious →
      n ≤ peer.dcExpVector.length ∨ ¬Consistent pkgs peers peer.dcExpVector.length peer := by
    intro site msgs malicious hle h1000 hcard hmsgs hdiff
    refine ((exists_differs_sentVector_iff hbytes hpads).mp ⟨malicious, hdiff⟩).imp_right ?_
    rintro ⟨i, hi, hne⟩ hcons
    rw [hmsgs] at hne
    exact hne ((consistent_iff_own h1000 hle hcard).mp hcons i hi)
  intro hpos
  cases h with
  | @unsolved ret roots h2 hle hroots hret =>
    rw [htake] at hroots
    rw [hlen] at hle
    exact ⟨hle, (not_consistent_of_getRoots hflint h2 hle hret hroots).imp_right .inr⟩
  | @several roots malicious h2 hle hroots hdiff =>
    rw [htake] at hroots
    rw [hlen] at hle
    obtain ⟨h1000, hcard, hmsgs⟩ := own_of_getRoots hflint hparse hpos hle hroots
    exact ⟨hle, .inr (hsolved hle h1000 hcard hmsgs hdiff)⟩
  | @one ff malicious hone hff hdiff =>
    have hle : peer.numMsg ≤ peer.dcExpVector.length := by
      have := (List.getElem?_eq_some_iff.mp hff).1
      omega
    have hown := own_of_one hone (by rw [← htake, List.getElem?_take_of_lt (by omega), hff])
    exact ⟨hle, .inr (hsolved hle (by omega) (by rw [hown, hone]; rfl) hown.symm hdiff)⟩
  | none hzero => omega

/-- When a turn ends. -/
theorem exists_expReplay_iff (hflint : pkgs.flint.Correct fieldPrime)
    (hparse : ∀ x : Field, pkgs.uint128FromString (Hex.hexStr x.val) = x.val)
    (hbytes : ∀ a b, a < fieldPrime → b < fieldPrime → pkgs.getBytes a = pkgs.getBytes b → a = b)
    (hkeyed : JoinSession.WellKeyed peers) (hp : peers.lookup p = some peer) {keys : List (ℕ × Bytes)}
    (hshared : sharedKeys pkgs peer (GoMap.values ch.order [901, p] peers) = .ok keys) :
    (∃ verdict, expReplay pkgs ch n (GoMap.ofList keys) p peer = .ok verdict) ↔
      (∀ e ∈ keys, ∃ opInfo, replayInfo pkgs e.1 e.2 = .ok opInfo) ∧ Readable pkgs peers n peer := by
  have hnodup : (keys.map Prod.fst).Nodup := by
    rw [sharedKeys_ids hshared]
    exact (ids_of_values hkeyed _).filter _
  have hvisited : ∀ e, e ∈ GoMap.range ch.order [977, p] (GoMap.ofList keys) ↔ e ∈ keys := fun e =>
    ((GoMap.range_perm ..).trans (GoMap.toList_ofList hnodup)).mem_iff
  have hne : ∀ e ∈ GoMap.range ch.order [977, p] (GoMap.ofList keys), p ≠ e.1 := by
    intro e he hpe
    obtain ⟨op, -, hid, hop, -⟩ := (mem_sharedKeys hshared e).mp ((hvisited e).mp he)
    exact hid (by rw [hkeyed p peer hp, hop, hpe])
  have hstrips := exists_stripPads_iff pkgs peer.numMsg peer.dcExpVector hne
  constructor
  · rintro ⟨verdict, hverdict⟩
    obtain ⟨expVector, opInfos, hstrip, hturn⟩ := turn_of_expReplay hverdict
    obtain ⟨-, hlen, -⟩ := stripPads_eq_ok hstrip
    obtain ⟨-, hpads⟩ := padSum_of_stripPads hkeyed hp hshared hstrip
    exact ⟨fun e he => (hstrips.mp ⟨_, hstrip⟩).1 e ((hvisited e).mpr he),
      hturn.readable hflint hparse hbytes hlen (take_of_stripPads hkeyed hp hshared hstrip) hpads⟩
  · rintro ⟨hinfos, hreadable⟩
    obtain ⟨⟨expVector, opInfos⟩, hstrip⟩ := hstrips.mpr ⟨fun e he => hinfos e ((hvisited e).mp he), fun _ => by
      rcases Nat.eq_zero_or_pos peer.numMsg with hzero | hpos
      · omega
      · exact (hreadable hpos).1⟩
    obtain ⟨-, hlen, -⟩ := stripPads_eq_ok hstrip
    obtain ⟨-, hpads⟩ := padSum_of_stripPads hkeyed hp hshared hstrip
    have htake := take_of_stripPads hkeyed hp hshared hstrip
    have hdiffers : ∀ site msgs, 0 < peer.numMsg → peer.numMsg ≤ 1000 →
        (ownHashes pkgs peers peer).card = peer.numMsg → ((msgs : List Field) : Multiset Field) = ownHashes pkgs peers peer →
        ∃ malicious, differs pkgs peer.dcExpVector 0 (sentVector ch site n p msgs
          (GoMap.ofList (opInfos.map fun opInfo => (opInfo.id, opInfo)))) = .ok malicious := by
      intro site msgs hpos h1000 hcard hmsgs
      obtain ⟨hle, hgt | hn | hcons⟩ := hreadable hpos
      · omega
      · exact (exists_differs_sentVector_iff hbytes hpads).mpr (.inl hn)
      · refine (exists_differs_sentVector_iff hbytes hpads).mpr (.inr ?_)
        by_contra hall
        push Not at hall
        rw [hmsgs] at hall
        exact hcons ((consistent_iff_own h1000 hle hcard).mpr hall)
    rw [expReplay, hstrip, ok_bind]
    dsimp only
    by_cases h2 : 1 < peer.numMsg
    · obtain ⟨hle, -⟩ := hreadable (by omega)
      have hslice : slice expVector 0 peer.numMsg = .ok (strippedEntries pkgs peers peer) := by
        rw [slice, if_pos ⟨Nat.zero_le _, hlen ▸ hle⟩, htake, List.drop_zero]
      have hlen' : peer.numMsg ≤ (strippedEntries pkgs peers peer).length := by
        rw [← htake, List.length_take, min_eq_left (hlen ▸ hle)]
      obtain ⟨ret, roots, hroots⟩ := Flint.exists_getRoots pkgs.flint (p := fieldPrime) hlen' (by omega)
      rw [if_pos h2, Stop.lift_eq_ok.mpr hslice, ok_bind, Stop.lift_eq_ok.mpr hroots, ok_bind]
      dsimp only
      by_cases hret : ret ≠ 0
      · exact ⟨_, if_pos hret⟩
      · rw [not_not] at hret
        subst hret
        obtain ⟨h1000, hcard, hmsgs⟩ := own_of_getRoots hflint hparse (by omega) hle hroots
        obtain ⟨malicious, hdiff⟩ := hdiffers 1049 _ (by omega) h1000 hcard hmsgs
        rw [if_neg (not_not.mpr rfl), Stop.lift_eq_ok.mpr hdiff]
        exact ⟨_, rfl⟩
    rw [if_neg h2]
    by_cases hone : peer.numMsg = 1
    · obtain ⟨hle, -⟩ := hreadable (by omega)
      have hi : 0 < expVector.length := by omega
      have hown : ownHashes pkgs peers peer = ([expVector[0]] : List Field) := by
        refine own_of_one hone ?_
        rw [← htake, List.getElem?_take_of_lt (by omega), List.getElem?_eq_getElem hi]
      obtain ⟨malicious, hdiff⟩ := hdiffers 1092 _ (by omega) (by omega) (by rw [hown, hone]; rfl) hown.symm
      rw [if_pos hone, Stop.lift_eq_ok.mpr (index_of_lt hi), ok_bind, Stop.lift_eq_ok.mpr hdiff]
      exact ⟨_, rfl⟩
    · exact ⟨_, if_neg hone⟩

end Turn

/-! ### The replay as a whole -/

/-- What the replay needs to get to its end. -/
structure Replayable (pkgs : Packages) (ch : Choices) (js : JoinSession) : Prop where
  errm : js.errm = none
  secrets : Secrets pkgs ch js.peers
  readable : ∀ p peer, js.peers.lookup p = some peer → Readable pkgs js.peers (replayTotal js) peer

theorem totalMsg_of_replay {ch : Choices} {js : JoinSession} :
    js.totalMsg + ((GoMap.values ch.order [898] js.peers).map (·.numMsg)).sum = replayTotal js := by
  rw [replayTotal, totalMsgs, ((GoMap.values_perm ..).map _).sum_eq, List.map_map]
  rfl

/-- **When the replay runs to its end.** -/
theorem exists_replay_iff {pkgs : Packages} (hflint : pkgs.flint.Correct fieldPrime)
    (hparse : ∀ x : Field, pkgs.uint128FromString (Hex.hexStr x.val) = x.val)
    (hbytes : ∀ a b, a < fieldPrime → b < fieldPrime → pkgs.getBytes a = pkgs.getBytes b → a = b) {ch : Choices}
    {js : JoinSession} (hkeyed : JoinSession.WellKeyed js.peers) :
    (∃ f, replay pkgs ch js = .ok f) ↔ Replayable pkgs ch js := by
  constructor
  · rintro ⟨f, h⟩
    obtain ⟨herrm, replayPeers, verdicts, hkeys, hreplay, htotal, hverdicts, -, -⟩ := replay_eq_ok h
    rw [totalMsg_of_replay] at htotal
    have hturn : ∀ p peer, js.peers.lookup p = some peer → ∃ keys,
        sharedKeys pkgs peer (GoMap.values ch.order [901, p] js.peers) = .ok keys ∧
        (∀ e ∈ keys, ∃ opInfo, replayInfo pkgs e.1 e.2 = .ok opInfo) ∧ Readable pkgs js.peers (replayTotal js) peer := by
      intro p peer hp
      obtain ⟨keys, hshared, hlookup⟩ := lookup_replayKeys hkeyed hreplay hp
      obtain ⟨v, -, hv⟩ := exists_of_mapM hverdicts (GoMap.mem_range.mpr hp)
      obtain ⟨verdict, hverdict, -⟩ := bind_eq_ok.mp hv
      rw [hlookup, Option.getD_some, htotal] at hverdict
      exact ⟨keys, hshared, (exists_expReplay_iff hflint hparse hbytes hkeyed hp hshared).mp ⟨verdict, hverdict⟩⟩
    refine ⟨herrm, ⟨exists_keyCheck_iff.mp ⟨_, hkeys⟩, fun p peer q other hp hq hne => ?_⟩, fun p peer hp => ?_⟩
    · obtain ⟨keys, hshared, hinfos, -⟩ := hturn p peer hp
      obtain ⟨sharedKey, hkey⟩ := exists_sharedKeys_iff.mp ⟨keys, hshared⟩ other (GoMap.mem_values.mpr ⟨q, hq⟩)
        (by rwa [hkeyed p peer hp, hkeyed q other hq])
      obtain ⟨opInfo, hinfo⟩ := hinfos (other.id, sharedKey) ((mem_sharedKeys hshared _).mpr
        ⟨other, GoMap.mem_values.mpr ⟨q, hq⟩, by rwa [hkeyed p peer hp, hkeyed q other hq], rfl, hkey⟩)
      obtain ⟨dcexpRng, dcXorRng, h1, h2, -⟩ := replayInfo_eq_ok.mp hinfo
      exact ⟨sharedKey, dcexpRng, dcXorRng, hkey, h1, h2⟩
    · obtain ⟨_, _, _, hreadable⟩ := hturn p peer hp
      exact hreadable
  · rintro ⟨herrm, hsecrets, hreadable⟩
    obtain ⟨ids, hkeys⟩ := exists_keyCheck_iff.mpr hsecrets.server
    have hshared : ∀ p peer, js.peers.lookup p = some peer →
        ∃ keys, sharedKeys pkgs peer (GoMap.values ch.order [901, p] js.peers) = .ok keys := by
      intro p peer hp
      refine exists_sharedKeys_iff.mpr fun op hop hid => ?_
      obtain ⟨q, hq⟩ := GoMap.mem_values.mp hop
      obtain ⟨sharedKey, -, -, hkey, -⟩ := hsecrets.shared p peer q op hp hq
        (by rwa [hkeyed p peer hp, hkeyed q op hq] at hid)
      exact ⟨sharedKey, hkey⟩
    obtain ⟨replayPeers, hreplay⟩ : ∃ replayPeers, replayKeys pkgs ch js.peers = .ok replayPeers := by
      obtain ⟨entries, hentries⟩ := exists_mapM (l := GoMap.values ch.order [898] js.peers) (f := fun p => do
        let keys ← sharedKeys pkgs p (GoMap.values ch.order [901, p.id] js.peers)
        .ok (p.id, GoMap.ofList keys)) fun peer hpeer => by
          obtain ⟨p, hp⟩ := GoMap.mem_values.mp hpeer
          obtain ⟨keys, hkeys⟩ := hshared p peer hp
          exact ⟨_, by rw [hkeyed p peer hp, hkeys, ok_bind]⟩
      exact ⟨_, by rw [replayKeys, hentries, ok_bind]⟩
    obtain ⟨verdicts, hverdicts⟩ : ∃ verdicts, expReplays pkgs ch (replayTotal js) replayPeers js.peers = .ok verdicts := by
      refine exists_mapM fun e he => ?_
      have hp := GoMap.mem_range.mp he
      obtain ⟨keys, hkeys, hlookup⟩ := lookup_replayKeys hkeyed hreplay hp
      have hinfos : ∀ e' ∈ keys, ∃ opInfo, replayInfo pkgs e'.1 e'.2 = .ok opInfo := by
        intro e' he'
        obtain ⟨op, hop, hid, -, hkey⟩ := (mem_sharedKeys hkeys e').mp he'
        obtain ⟨q, hq⟩ := GoMap.mem_values.mp hop
        obtain ⟨sharedKey, dcexpRng, dcXorRng, hkey', h1, h2⟩ := hsecrets.shared e.1 e.2 q op hp hq
          (by rwa [hkeyed e.1 e.2 hp, hkeyed q op hq] at hid)
        rw [hkey, Option.some.injEq] at hkey'
        exact ⟨_, replayInfo_eq_ok.mpr ⟨dcexpRng, dcXorRng, hkey' ▸ h1, hkey' ▸ h2, rfl⟩⟩
      obtain ⟨verdict, hverdict⟩ := (exists_expReplay_iff (n := replayTotal js) hflint hparse hbytes hkeyed hp hkeys).mpr
        ⟨hinfos, hreadable e.1 e.2 hp⟩
      refine ⟨(e.1, verdict), ?_⟩
      show (do
        let verdict ← expReplay pkgs ch (replayTotal js) ((replayPeers.lookup e.1).getD ∅) e.1 e.2
        Except.ok (e.1, verdict)) = _
      rw [hlookup, Option.getD_some, hverdict, ok_bind]
    rw [replay, hkeys, ok_bind, herrm]
    dsimp only
    rw [hreplay, ok_bind, totalMsg_of_replay, hverdicts, ok_bind]
    exact ⟨_, rfl⟩

end Dcrtxmatcher.Coinjoin
