import Dcrtxmatcher.Coinjoin.Exponential

/-! What the parts of the replay compute.

Everything about a peer's pads is a sum over the other peers, of the pad that the
revealed key and the other's public key give, with its sign (`padTerm`). Taking
the pads off and putting them on are exact inverses whatever order the maps are
visited in. -/
namespace Dcrtxmatcher.Coinjoin
open Lib Lib.Pads Lib.PowerSums

/-! ### Pads -/

/-- The pad of the exponential round that comes out of a shared key. -/
def keyPad (pkgs : Packages) (sharedKey : Bytes) : Field :=
  match pkgs.randBytes sharedKey expRandSize with
  | some rng => newFF pkgs ([0, 0, 0, 0] ++ rng)
  | none => 0

/-- The pad a private key gives with a public key. -/
def expPad (pkgs : Packages) (vk pk : Bytes) : Field :=
  match pkgs.genSharedSecret32 vk pk with
  | some sharedKey => keyPad pkgs sharedKey
  | none => 0

/-- A pad with the sign that `pid` gives it against `opid`. -/
def padTerm (pid opid : ℕ) (padding : Field) : Field :=
  if opid < pid then padding else if pid < opid then -padding else 0

theorem signed_eq_padTerm (pad : ℕ → ℕ → Field) (p q : ℕ) : signed pad p q = padTerm p q (pad p q) := rfl

/-- The sum of a peer's pads, with their signs. -/
def padSum (pid : ℕ) (opInfos : List PeerReplayInfo) : Field :=
  (opInfos.map fun opInfo => padTerm pid opInfo.id opInfo.dcExpPadding).sum

theorem padEntry_eq (pid : ℕ) (x : Field) (opInfos : List PeerReplayInfo) :
    padEntry pid x opInfos = x + padSum pid opInfos := by
  rw [padEntry, padSum]
  induction opInfos generalizing x with
  | nil => simp
  | cons opInfo opInfos ih =>
    rw [List.foldl_cons, ih, List.map_cons, List.sum_cons, ← add_assoc]
    congr 1
    rw [padTerm]
    split_ifs <;> ring

theorem padSum_perm {pid : ℕ} {a b : List PeerReplayInfo} (h : a.Perm b) : padSum pid a = padSum pid b :=
  (h.map _).sum_eq

/-! ### Taking them off -/

theorem replayInfo_eq_ok {pkgs : Packages} {opid : ℕ} {sharedKey : Bytes} {opInfo : PeerReplayInfo} :
    replayInfo pkgs opid sharedKey = .ok opInfo ↔
      ∃ dcexpRng dcXorRng, pkgs.randBytes sharedKey expRandSize = some dcexpRng ∧
        pkgs.randBytes sharedKey pkScriptSize = some dcXorRng ∧
        opInfo = ⟨opid, newFF pkgs ([0, 0, 0, 0] ++ dcexpRng), dcXorRng⟩ := by
  simp only [replayInfo, bind_eq_ok, Stop.require_eq_ok, Except.ok.injEq]
  constructor
  · rintro ⟨a, ha, b, hb, h⟩
    exact ⟨a, b, ha, hb, h.symm⟩
  · rintro ⟨a, b, ha, hb, h⟩
    exact ⟨a, ha, b, hb, h.symm⟩

theorem replayInfo_pad {pkgs : Packages} {opid : ℕ} {sharedKey : Bytes} {opInfo : PeerReplayInfo}
    (h : replayInfo pkgs opid sharedKey = .ok opInfo) :
    opInfo.id = opid ∧ opInfo.dcExpPadding = keyPad pkgs sharedKey := by
  obtain ⟨a, _, ha, _, rfl⟩ := replayInfo_eq_ok.mp h
  exact ⟨rfl, by rw [keyPad, ha]⟩

theorem stripPad_eq_ok {pid opid : ℕ} {padding : Field} {numMsg : ℕ} {v v' : List Field}
    (h : stripPad pid opid padding numMsg v = .ok v') :
    (pid ≠ opid → numMsg ≤ v.length) ∧ v'.length = v.length ∧
      ∀ i < v.length, v'.getD i 0 = v.getD i 0 - (if i < numMsg then padTerm pid opid padding else 0) := by
  unfold stripPad at h
  by_cases hlen : pid ≠ opid ∧ v.length < numMsg
  · rw [if_pos hlen] at h
    cases h
  rw [if_neg hlen] at h
  cases h
  rw [not_and, not_lt] at hlen
  refine ⟨hlen, by simp, fun i hi => ?_⟩
  simp only [List.getD_eq_getElem?_getD, List.getElem?_map, List.getElem?_zipIdx, List.getElem?_eq_getElem hi,
    Option.map_some, Option.getD_some, Nat.zero_add, padTerm]
  split_ifs <;> ring

/-- The vector without pads, entry by entry, and the pads. -/
theorem stripPads_eq_ok {pkgs : Packages} {pid numMsg : ℕ} {keys : List (ℕ × Bytes)} {v v' : List Field}
    {opInfos : List PeerReplayInfo} (h : stripPads pkgs pid numMsg keys v = .ok (v', opInfos)) :
    List.Forall₂ (fun e opInfo => replayInfo pkgs e.1 e.2 = .ok opInfo) keys opInfos ∧
      v'.length = v.length ∧
      ∀ i < v.length, v'.getD i 0 = v.getD i 0 - (if i < numMsg then padSum pid opInfos else 0) := by
  induction keys generalizing v v' opInfos with
  | nil =>
    cases h
    exact ⟨.nil, rfl, fun i _ => by simp [padSum]⟩
  | cons e keys ih =>
    obtain ⟨opid, sharedKey⟩ := e
    simp only [stripPads, bind_eq_ok, Stop.lift_eq_ok, Prod.exists, Except.ok.injEq, Prod.mk.injEq] at h
    obtain ⟨opInfo, hinfo, v₁, hstrip, v₂, rest, hrest, rfl, rfl⟩ := h
    obtain ⟨_, hlen₁, hentry₁⟩ := stripPad_eq_ok hstrip
    obtain ⟨hinfos, hlen₂, hentry₂⟩ := ih hrest
    refine ⟨.cons hinfo hinfos, hlen₂.trans hlen₁, fun i hi => ?_⟩
    have hcons : padSum pid (opInfo :: rest) = padTerm pid opid opInfo.dcExpPadding + padSum pid rest := by
      rw [padSum, List.map_cons, List.sum_cons, (replayInfo_pad hinfo).1, padSum]
    rw [hentry₂ i (hlen₁ ▸ hi), hentry₁ i hi, hcons]
    split_ifs <;> ring

/-- A sum over the pads is one over the shared keys. -/
theorem sum_of_keys {G : Type*} [AddCommMonoid G] {pkgs : Packages} {keys : List (ℕ × Bytes)}
    {opInfos : List PeerReplayInfo} (h : List.Forall₂ (fun e opInfo => replayInfo pkgs e.1 e.2 = .ok opInfo) keys opInfos)
    {g : PeerReplayInfo → G} {t : ℕ → Bytes → G}
    (hg : ∀ opid sharedKey opInfo, replayInfo pkgs opid sharedKey = .ok opInfo → g opInfo = t opid sharedKey) :
    (opInfos.map g).sum = (keys.map fun e => t e.1 e.2).sum := by
  induction h with
  | nil => rfl
  | cons hinfo _ ih => rw [List.map_cons, List.sum_cons, hg _ _ _ hinfo, List.map_cons, List.sum_cons, ih]

theorem ids_of_keys {pkgs : Packages} {keys : List (ℕ × Bytes)} {opInfos : List PeerReplayInfo}
    (h : List.Forall₂ (fun e opInfo => replayInfo pkgs e.1 e.2 = .ok opInfo) keys opInfos) :
    opInfos.map (·.id) = keys.map Prod.fst := by
  induction h with
  | nil => rfl
  | cons hinfo _ ih => rw [List.map_cons, List.map_cons, ih, (replayInfo_pad hinfo).1]

/-! ### Shared keys -/

theorem sharedKeys_ids {pkgs : Packages} {p : PeerInfo} {others : List PeerInfo} {keys : List (ℕ × Bytes)}
    (h : sharedKeys pkgs p others = .ok keys) :
    keys.map Prod.fst = (others.map (·.id)).filter (· ≠ p.id) := by
  induction others generalizing keys with
  | nil =>
    cases h
    rfl
  | cons op others ih =>
    rw [sharedKeys] at h
    split_ifs at h with hid
    · rw [ih h, List.map_cons, List.filter_cons_of_neg (by simp [hid])]
    · simp only [bind_eq_ok, Stop.require_eq_ok, Except.ok.injEq] at h
      obtain ⟨key, _, rest, hrest, rfl⟩ := h
      rw [List.map_cons, ih hrest, List.map_cons, List.filter_cons_of_pos (by simpa using Ne.symm hid)]

/-- A sum over the shared keys is one over the other peers, by their public keys. -/
theorem sum_of_sharedKeys {G : Type*} [AddCommMonoid G] {pkgs : Packages} {p : PeerInfo} {others : List PeerInfo}
    {keys : List (ℕ × Bytes)} (h : sharedKeys pkgs p others = .ok keys) (t : ℕ → Bytes → G) :
    (keys.map fun e => t e.1 e.2).sum =
      (others.map fun op => if p.id = op.id then 0 else (pkgs.genSharedSecret32 p.vk op.pk).elim 0 (t op.id)).sum := by
  induction others generalizing keys with
  | nil =>
    cases h
    rfl
  | cons op others ih =>
    rw [sharedKeys] at h
    split_ifs at h with hid
    · rw [ih h, List.map_cons, List.sum_cons, if_pos hid, zero_add]
    · simp only [bind_eq_ok, Stop.require_eq_ok, Except.ok.injEq] at h
      obtain ⟨key, hkey, rest, hrest, rfl⟩ := h
      rw [List.map_cons, List.sum_cons, ih hrest, List.map_cons, List.sum_cons, if_neg hid, hkey]
      rfl

/-- The ids met in a loop over the peers are distinct. -/
theorem ids_of_values {ch : Choices} {peers : GoMap ℕ PeerInfo} (hkeyed : JoinSession.WellKeyed peers) (site : List ℕ) :
    ((GoMap.values ch.order site peers).map (·.id)).Nodup := by
  have hids : (GoMap.values ch.order site peers).map (·.id) = (GoMap.range ch.order site peers).map Prod.fst := by
    rw [GoMap.values, List.map_map]
    exact List.map_congr_left fun e he => hkeyed e.1 e.2 (GoMap.mem_range.mp he)
  rw [hids]
  exact GoMap.nodup_range ..

/-- With every peer under its own id, a member's shared keys are found under it. -/
theorem lookup_replayKeys {pkgs : Packages} {ch : Choices} {peers : GoMap ℕ PeerInfo}
    {replayPeers : GoMap ℕ (GoMap ℕ Bytes)} (hkeyed : JoinSession.WellKeyed peers)
    (h : replayKeys pkgs ch peers = .ok replayPeers) {p : ℕ} {peer : PeerInfo} (hp : peers.lookup p = some peer) :
    ∃ keys, sharedKeys pkgs peer (GoMap.values ch.order [901, p] peers) = .ok keys ∧
      replayPeers.lookup p = some (GoMap.ofList keys) := by
  simp only [replayKeys, bind_eq_ok, Except.ok.injEq] at h
  obtain ⟨entries, hentries, rfl⟩ := h
  have hids : entries.map Prod.fst = (GoMap.values ch.order [898] peers).map (·.id) := by
    have hall := mapM_eq_ok.mp hentries
    clear hentries
    generalize GoMap.values ch.order [898] peers = visited at hall
    induction hall with
    | nil => rfl
    | cons hentry _ ih =>
      simp only [bind_eq_ok, Except.ok.injEq] at hentry
      obtain ⟨_, _, rfl⟩ := hentry
      rw [List.map_cons, List.map_cons, ih]
  have hnodup : (entries.map Prod.fst).Nodup := by
    rw [hids]
    exact ids_of_values hkeyed _
  obtain ⟨entry, hmem, hentry⟩ := exists_of_mapM hentries (GoMap.mem_values.mpr ⟨p, hp⟩)
  simp only [bind_eq_ok, Except.ok.injEq, hkeyed p peer hp] at hentry
  obtain ⟨keys, hkeys, rfl⟩ := hentry
  exact ⟨keys, hkeys, (GoMap.lookup_ofList hnodup).mpr hmem⟩

/-! ### The pads of one peer -/

section PeerPads
variable {pkgs : Packages} {ch : Choices} {peers : GoMap ℕ PeerInfo} {p : ℕ} {peer : PeerInfo}
  {keys : List (ℕ × Bytes)} {v v' : List Field} {numMsg : ℕ} {opInfos : List PeerReplayInfo}

/-- What a member's turn of the replay adds up over its pads, taking them off or
putting them on, is a sum over the other peers. -/
theorem sum_of_stripPads {G : Type*} [AddCommMonoid G] (hkeyed : JoinSession.WellKeyed peers)
    (hkeys : sharedKeys pkgs peer (GoMap.values ch.order [901, p] peers) = .ok keys)
    (h : stripPads pkgs p numMsg (GoMap.range ch.order [977, p] (GoMap.ofList keys)) v = .ok (v', opInfos))
    {g : PeerReplayInfo → G} {t : ℕ → Bytes → G}
    (hg : ∀ opid sharedKey opInfo, replayInfo pkgs opid sharedKey = .ok opInfo → g opInfo = t opid sharedKey) :
    (opInfos.map g).sum = ((GoMap.toList peers).map fun e =>
        if peer.id = e.2.id then 0 else (pkgs.genSharedSecret32 peer.vk e.2.pk).elim 0 (t e.2.id)).sum ∧
      ∀ site, (GoMap.values ch.order site (GoMap.ofList (opInfos.map fun opInfo => (opInfo.id, opInfo)))).Perm opInfos := by
  have hnodup : (keys.map Prod.fst).Nodup := by
    rw [sharedKeys_ids hkeys]
    exact (ids_of_values hkeyed _).filter _
  have hperm : (GoMap.range ch.order [977, p] (GoMap.ofList keys)).Perm keys :=
    (GoMap.range_perm ..).trans (GoMap.toList_ofList hnodup)
  obtain ⟨hinfos, -, -⟩ := stripPads_eq_ok h
  constructor
  · rw [sum_of_keys hinfos hg, (hperm.map _).sum_eq, sum_of_sharedKeys hkeys,
      ((GoMap.values_perm ..).map _).sum_eq, List.map_map]
    rfl
  · intro site
    have hfst : (opInfos.map fun opInfo => (opInfo.id, opInfo)).map Prod.fst = opInfos.map (·.id) := by
      rw [List.map_map]
      rfl
    have hids : ((opInfos.map fun opInfo => (opInfo.id, opInfo)).map Prod.fst).Nodup := by
      rw [hfst, ids_of_keys hinfos]
      exact (hperm.map Prod.fst).nodup_iff.mpr hnodup
    refine (GoMap.values_perm ..).trans (((GoMap.toList_ofList hids).map Prod.snd).trans (.of_eq ?_))
    rw [List.map_map]
    exact List.map_id _

/-- All pads of a peer among `peers`, with their signs. -/
def pads (pkgs : Packages) (peers : GoMap ℕ PeerInfo) (peer : PeerInfo) : Field :=
  ((GoMap.toList peers).map fun e => padTerm peer.id e.2.id (expPad pkgs peer.vk e.2.pk)).sum

/-- What the replay strips from a member's vector and puts on again are its pads. -/
theorem padSum_of_stripPads (hkeyed : JoinSession.WellKeyed peers) (hp : peers.lookup p = some peer)
    (hkeys : sharedKeys pkgs peer (GoMap.values ch.order [901, p] peers) = .ok keys)
    (h : stripPads pkgs p numMsg (GoMap.range ch.order [977, p] (GoMap.ofList keys)) v = .ok (v', opInfos)) :
    padSum p opInfos = pads pkgs peers peer ∧
      ∀ site, padSum p (GoMap.values ch.order site (GoMap.ofList (opInfos.map fun opInfo => (opInfo.id, opInfo)))) =
        pads pkgs peers peer := by
  obtain ⟨hsum, hperm⟩ := sum_of_stripPads hkeyed hkeys h
    (g := fun opInfo => padTerm p opInfo.id opInfo.dcExpPadding)
    (t := fun opid sharedKey => padTerm p opid (keyPad pkgs sharedKey)) fun opid sharedKey opInfo hinfo => by
      obtain ⟨hid, hpad⟩ := replayInfo_pad hinfo
      rw [hid, hpad]
  have hpads : padSum p opInfos = pads pkgs peers peer := by
    rw [padSum, hsum, pads]
    refine congrArg List.sum (List.map_congr_left fun e _ => ?_)
    rw [hkeyed p peer hp, expPad]
    split_ifs with hid
    · simp [padTerm, hid]
    · cases pkgs.genSharedSecret32 peer.vk e.2.pk
      · simp [padTerm]
      · rfl
  exact ⟨hpads, fun site => by rw [padSum_perm (hperm site), hpads]⟩

end PeerPads

/-! ### Comparing vectors -/

/-- A vector that agrees with the rebuilt one as far as it goes does not differ from it. -/
theorem differs_ne_true {pkgs : Packages} {v sent : List Field} {i : ℕ}
    (h : ∀ j x y, v[i + j]? = some x → sent[j]? = some y → x = y) : differs pkgs v i sent ≠ .ok true := by
  induction sent generalizing i with
  | nil => exact fun h => by cases h
  | cons y sent ih =>
    intro hdiff
    obtain ⟨x, hx, hrest⟩ := bind_eq_ok.mp hdiff
    have hxy : x = y := h 0 x y (index_eq_ok.mp hx) rfl
    rw [hxy, if_neg (not_not.mpr rfl)] at hrest
    exact ih (fun j x y hx hy => h (j + 1) x y (by rwa [show i + (j + 1) = i + 1 + j by omega]) hy) hrest

/-- A vector that does not differ agrees in the bytes of every entry rebuilt. -/
theorem differs_eq_false {pkgs : Packages} {v sent : List Field} {i : ℕ} (h : differs pkgs v i sent = .ok false)
    (j : ℕ) (hj : j < sent.length) :
    ∃ x, v[i + j]? = some x ∧ pkgs.getBytes x.val = pkgs.getBytes sent[j].val := by
  induction sent generalizing i j with
  | nil => simp at hj
  | cons y sent ih =>
    obtain ⟨x, hx, hrest⟩ := bind_eq_ok.mp h
    split_ifs at hrest with heq
    · cases hrest
    rw [not_not] at heq
    cases j with
    | zero => exact ⟨x, index_eq_ok.mp hx, heq⟩
    | succ j =>
      obtain ⟨x', hx', hb⟩ := ih hrest j (by simpa using hj)
      exact ⟨x', by rwa [show i + (j + 1) = i + 1 + j by omega], hb⟩

/-- The comparison of a vector, for bytes that tell numbers apart. -/
theorem differs_eq_false_iff {pkgs : Packages}
    (hbytes : ∀ a b, a < fieldPrime → b < fieldPrime → pkgs.getBytes a = pkgs.getBytes b → a = b)
    {v sent : List Field} {malicious : Bool} (h : differs pkgs v 0 sent = .ok malicious) :
    malicious = false ↔ ∀ (j : ℕ) (y : Field), sent[j]? = some y → v[j]? = some y := by
  constructor
  · rintro rfl j y hy
    obtain ⟨hj, rfl⟩ := List.getElem?_eq_some_iff.mp hy
    obtain ⟨x, hx, hb⟩ := differs_eq_false h j hj
    rw [Nat.zero_add] at hx
    rw [hx, ZMod.val_injective _ (hbytes _ _ (ZMod.val_lt x) (ZMod.val_lt _) hb)]
  · intro hall
    cases malicious with
    | false => rfl
    | true =>
      refine absurd h (differs_ne_true fun j x y hx hy => ?_)
      rw [Nat.zero_add, hall j y hy, Option.some.injEq] at hx
      exact hx.symm

theorem length_sentVector {ch : Choices} {site totalMsg pid : ℕ} {msgs : List Field}
    {replayPeer : GoMap ℕ PeerReplayInfo} : (sentVector ch site totalMsg pid msgs replayPeer).length = totalMsg := by
  simp [sentVector]

/-- The rebuilt vector, for pads that come to the same sum in every order. -/
theorem getElem?_sentVector {ch : Choices} {site totalMsg pid : ℕ} {msgs : List Field}
    {replayPeer : GoMap ℕ PeerReplayInfo} {c : Field}
    (hpads : ∀ site, padSum pid (GoMap.values ch.order site replayPeer) = c) {j : ℕ} (hj : j < totalMsg) :
    (sentVector ch site totalMsg pid msgs replayPeer)[j]? = some ((msgs.map (· ^ (j + 1))).sum + c) := by
  rw [sentVector, List.getElem?_map, List.getElem?_range hj, Option.map_some, padEntry_eq, hpads]

/-! ### Keys -/

theorem mem_keyCheck {pkgs : Packages} {ch : Choices} {visited : List (PeerInfo × ℕ)} {ids : List ℕ}
    (h : keyCheck pkgs ch visited = .ok ids) (id : ℕ) :
    id ∈ ids ↔ ∃ e ∈ visited, e.1.id = id ∧
      pkgs.genSharedSecret e.1.vk (ch.generateKey e.2).2 ≠ pkgs.genSharedSecret (ch.generateKey e.2).1 e.1.pk := by
  induction visited generalizing ids with
  | nil =>
    cases h
    simp
  | cons e visited ih =>
    obtain ⟨p, turn⟩ := e
    simp only [keyCheck, bind_eq_ok, Stop.require_eq_ok, Except.ok.injEq] at h
    obtain ⟨key1, h1, key2, h2, rest, hrest, rfl⟩ := h
    have hne : (pkgs.genSharedSecret p.vk (ch.generateKey turn).2 ≠ pkgs.genSharedSecret (ch.generateKey turn).1 p.pk) ↔
        key1 ≠ key2 := by
      rw [show pkgs.genSharedSecret p.vk (ch.generateKey turn).2 = some key1 from h1,
        show pkgs.genSharedSecret (ch.generateKey turn).1 p.pk = some key2 from h2, ne_eq, Option.some.injEq]
    simp only [List.mem_cons, exists_eq_or_imp, hne, ← ih hrest]
    split_ifs with heq
    · simp [heq, eq_comm]
    · simp [heq]

/-! ### One turn of the loop over the peers -/

/-- The three ways in which a turn ends: by the number of messages the peer announced. -/
inductive Turn (pkgs : Packages) (ch : Choices) (totalMsg pid : ℕ) (pInfo : PeerInfo) (expVector : List Field)
    (replayPeer : GoMap ℕ PeerReplayInfo) : Bool × Option PeerSlotInfo → Prop where
  /-- The polynomial of the stripped entries has no solution. -/
  | unsolved {ret : ℕ} {roots : List (List Char)} (hnum : 1 < pInfo.numMsg) (hlen : pInfo.numMsg ≤ expVector.length)
      (hroots : Flint.getRoots pkgs.flint (Hex.hexStr fieldPrime) (expVector.take pInfo.numMsg) pInfo.numMsg =
        .ok (ret, roots)) (hret : ret ≠ 0) :
      Turn pkgs ch totalMsg pid pInfo expVector replayPeer (true, none)
  | several {roots : List (List Char)} {malicious : Bool} (hnum : 1 < pInfo.numMsg)
      (hlen : pInfo.numMsg ≤ expVector.length)
      (hroots : Flint.getRoots pkgs.flint (Hex.hexStr fieldPrime) (expVector.take pInfo.numMsg) pInfo.numMsg =
        .ok (0, roots))
      (hdiff : differs pkgs pInfo.dcExpVector 0 (sentVector ch 1049 totalMsg pid
        ((roots.map pkgs.uint128FromString).map (Nat.cast : ℕ → Field)) replayPeer) = .ok malicious) :
      Turn pkgs ch totalMsg pid pInfo expVector replayPeer
        (malicious, some ⟨pid, roots.map pkgs.uint128FromString, replayPeer⟩)
  | one {ff : Field} {malicious : Bool} (hnum : pInfo.numMsg = 1) (hff : expVector[0]? = some ff)
      (hdiff : differs pkgs pInfo.dcExpVector 0 (sentVector ch 1092 totalMsg pid [ff] replayPeer) = .ok malicious) :
      Turn pkgs ch totalMsg pid pInfo expVector replayPeer (malicious, some ⟨pid, [ff.val], replayPeer⟩)
  /-- A peer that announced no messages is not looked at. -/
  | none (hnum : pInfo.numMsg = 0) : Turn pkgs ch totalMsg pid pInfo expVector replayPeer (false, none)

theorem turn_of_expReplay {pkgs : Packages} {ch : Choices} {totalMsg : ℕ} {keys : GoMap ℕ Bytes} {pid : ℕ}
    {pInfo : PeerInfo} {verdict : Bool × Option PeerSlotInfo}
    (h : expReplay pkgs ch totalMsg keys pid pInfo = .ok verdict) :
    ∃ expVector opInfos,
      stripPads pkgs pid pInfo.numMsg (GoMap.range ch.order [977, pid] keys) pInfo.dcExpVector = .ok (expVector, opInfos) ∧
      Turn pkgs ch totalMsg pid pInfo expVector (GoMap.ofList (opInfos.map fun opInfo => (opInfo.id, opInfo))) verdict := by
  obtain ⟨⟨expVector, opInfos⟩, hstrip, h⟩ := bind_eq_ok.mp h
  refine ⟨expVector, opInfos, hstrip, ?_⟩
  dsimp only at h
  split_ifs at h with hnum hone
  · obtain ⟨firsts, hfirsts, h⟩ := bind_eq_ok.mp h
    rw [Stop.lift_eq_ok, slice] at hfirsts
    split_ifs at hfirsts with hlen
    · cases hfirsts
      obtain ⟨⟨ret, roots⟩, hroots, h⟩ := bind_eq_ok.mp h
      rw [Stop.lift_eq_ok] at hroots
      dsimp only at h
      split_ifs at h with hret
      · cases h
        exact .unsolved hnum hlen.2 hroots hret
      · rw [not_not] at hret
        obtain ⟨malicious, hdiff, h⟩ := bind_eq_ok.mp h
        cases h
        exact .several hnum hlen.2 (hret ▸ hroots) (Stop.lift_eq_ok.mp hdiff)
  · obtain ⟨ff, hff, h⟩ := bind_eq_ok.mp h
    obtain ⟨malicious, hdiff, h⟩ := bind_eq_ok.mp h
    cases h
    exact .one hone (index_eq_ok.mp (Stop.lift_eq_ok.mp hff)) (Stop.lift_eq_ok.mp hdiff)
  · cases h
    exact .none (by omega)

/-- The entry a turn makes. -/
theorem Turn.slot_eq {pkgs : Packages} {ch : Choices} {totalMsg pid : ℕ} {pInfo : PeerInfo}
    {expVector : List Field} {replayPeer : GoMap ℕ PeerReplayInfo} {verdict : Bool × Option PeerSlotInfo}
    (h : Turn pkgs ch totalMsg pid pInfo expVector replayPeer verdict) {slotInfo : PeerSlotInfo}
    (hslot : verdict.2 = some slotInfo) :
    0 < pInfo.numMsg ∧ slotInfo = ⟨pid, slotInfo.pkScriptsHash, replayPeer⟩ := by
  cases h with
  | unsolved => cases hslot
  | several h2 =>
    cases hslot
    exact ⟨by omega, rfl⟩
  | one h1 =>
    cases hslot
    exact ⟨by omega, rfl⟩
  | none => cases hslot

theorem Turn.slot_of_zero {pkgs : Packages} {ch : Choices} {totalMsg pid : ℕ} {pInfo : PeerInfo}
    {expVector : List Field} {replayPeer : GoMap ℕ PeerReplayInfo} {verdict : Bool × Option PeerSlotInfo}
    (h : Turn pkgs ch totalMsg pid pInfo expVector replayPeer verdict) (hzero : pInfo.numMsg = 0) :
    verdict.2 = Option.none := by
  cases h with
  | unsolved => rfl
  | several h2 => omega
  | one h1 => omega
  | none => rfl

/-! ### The replay as a whole -/

/-- A replay that runs to its end, taken apart. -/
theorem replay_eq_ok {pkgs : Packages} {ch : Choices} {js : JoinSession} {f : Findings}
    (h : replay pkgs ch js = .ok f) :
    js.errm = none ∧ ∃ replayPeers verdicts,
      keyCheck pkgs ch (GoMap.values ch.order [869] js.peers).zipIdx = .ok f.keyIds ∧
      replayKeys pkgs ch js.peers = .ok replayPeers ∧
      f.totalMsg = js.totalMsg + ((GoMap.values ch.order [898] js.peers).map (·.numMsg)).sum ∧
      expReplays pkgs ch f.totalMsg replayPeers js.peers = .ok verdicts ∧
      f.expIds = verdicts.filterMap (fun v => if v.2.1 then some v.1 else none) ∧
      f.xorIds = if js.state = .txInput ∨ js.state = .revealSecret then xorReplays pkgs ch (slotInfos verdicts) js.peers
        else [] := by
  obtain ⟨keyIds, hkeys, h⟩ := bind_eq_ok.mp h
  cases herrm : js.errm with
  | some err =>
    rw [herrm] at h
    cases h
  | none =>
    rw [herrm] at h
    simp only [bind_eq_ok, Except.ok.injEq] at h
    obtain ⟨replayPeers, hreplay, verdicts, hverdicts, rfl⟩ := h
    exact ⟨rfl, replayPeers, verdicts, hkeys, hreplay, rfl, hverdicts, rfl, rfl⟩

/-- The verdict on a member comes from its own turn of the loop. -/
theorem verdict_of_mem {pkgs : Packages} {ch : Choices} {totalMsg : ℕ} {replayPeers : GoMap ℕ (GoMap ℕ Bytes)}
    {peers : GoMap ℕ PeerInfo} {verdicts : List (ℕ × Bool × Option PeerSlotInfo)}
    (h : expReplays pkgs ch totalMsg replayPeers peers = .ok verdicts) {v : ℕ × Bool × Option PeerSlotInfo}
    (hv : v ∈ verdicts) : ∃ peer, peers.lookup v.1 = some peer ∧
      expReplay pkgs ch totalMsg ((replayPeers.lookup v.1).getD ∅) v.1 peer = .ok v.2 := by
  obtain ⟨⟨pid, peer⟩, hmem, hturn⟩ := mem_of_mapM h hv
  simp only [bind_eq_ok, Except.ok.injEq] at hturn
  obtain ⟨verdict, hverdict, rfl⟩ := hturn
  exact ⟨peer, GoMap.mem_range.mp hmem, hverdict⟩

/-- Every peer gets one verdict. -/
theorem nodup_verdicts {pkgs : Packages} {ch : Choices} {totalMsg : ℕ} {replayPeers : GoMap ℕ (GoMap ℕ Bytes)}
    {peers : GoMap ℕ PeerInfo} {verdicts : List (ℕ × Bool × Option PeerSlotInfo)}
    (h : expReplays pkgs ch totalMsg replayPeers peers = .ok verdicts) : (verdicts.map Prod.fst).Nodup := by
  have hids : verdicts.map Prod.fst = (GoMap.range ch.order [971] peers).map Prod.fst := by
    have hall := mapM_eq_ok.mp h
    clear h
    generalize GoMap.range ch.order [971] peers = visited at hall
    induction hall with
    | nil => rfl
    | cons hturn _ ih =>
      simp only [bind_eq_ok, Except.ok.injEq] at hturn
      obtain ⟨_, _, rfl⟩ := hturn
      rw [List.map_cons, List.map_cons, ih]
  rw [hids]
  exact GoMap.nodup_range ..

/-- Every member has its turn and gets a verdict. -/
theorem exists_turn {pkgs : Packages} {ch : Choices} {totalMsg : ℕ} {replayPeers : GoMap ℕ (GoMap ℕ Bytes)}
    {peers : GoMap ℕ PeerInfo} {verdicts : List (ℕ × Bool × Option PeerSlotInfo)}
    (hkeyed : JoinSession.WellKeyed peers) (hreplay : replayKeys pkgs ch peers = .ok replayPeers)
    (h : expReplays pkgs ch totalMsg replayPeers peers = .ok verdicts) {p : ℕ} {peer : PeerInfo}
    (hp : peers.lookup p = some peer) : ∃ malicious slot keys expVector opInfos, (p, malicious, slot) ∈ verdicts ∧
      sharedKeys pkgs peer (GoMap.values ch.order [901, p] peers) = .ok keys ∧
      stripPads pkgs p peer.numMsg (GoMap.range ch.order [977, p] (GoMap.ofList keys)) peer.dcExpVector =
        .ok (expVector, opInfos) ∧
      Turn pkgs ch totalMsg p peer expVector (GoMap.ofList (opInfos.map fun opInfo => (opInfo.id, opInfo)))
        (malicious, slot) := by
  obtain ⟨v, hmem, hturn⟩ := exists_of_mapM h (GoMap.mem_range.mpr hp)
  simp only [bind_eq_ok, Except.ok.injEq] at hturn
  obtain ⟨⟨malicious, slot⟩, hturn, rfl⟩ := hturn
  obtain ⟨keys, hshared, hkeys⟩ := lookup_replayKeys hkeyed hreplay hp
  rw [hkeys, Option.getD_some] at hturn
  obtain ⟨expVector, opInfos, hstrip, hturn⟩ := turn_of_expReplay hturn
  exact ⟨malicious, slot, keys, expVector, opInfos, hmem, hshared, hstrip, hturn⟩

end Dcrtxmatcher.Coinjoin
