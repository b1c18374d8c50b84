import Dcrtxmatcher.Coinjoin.Reference
import Dcrtxmatcher.Coinjoin.Run
import Dcrtxmatcher.Lib.Pads

/-! The exponential round.

An honest peer's vector holds the power sums of its hashes, each with the peer's
signed pads. The pads of all peers cancel, so the sum over the peers is the vector
of power sums of all hashes, and its solution is the multiset of all hashes. -/
namespace Dcrtxmatcher.Coinjoin
open Lib Lib.Pads Lib.PowerSums

/-! ### What a peer sends -/

/-- The `i`-th entry of peer `p` among the peers `ids`: a power sum of its hashes
and its pads, added for smaller ids and subtracted for larger ones. -/
def honestEntry (ids : List ℕ) (pad : ℕ → ℕ → Field) (hashes : List Field) (p i : ℕ) : Field :=
  (hashes.map (· ^ (i + 1))).sum + (ids.map (signed pad p)).sum

/-- The vector of `n` entries. -/
def honestVector (ids : List ℕ) (pad : ℕ → ℕ → Field) (hashes : List Field) (p n : ℕ) : List Field :=
  (List.range n).map (honestEntry ids pad hashes p)

@[simp] theorem length_honestVector (ids : List ℕ) (pad : ℕ → ℕ → Field) (hashes : List Field) (p n : ℕ) :
    (honestVector ids pad hashes p n).length = n := by simp [honestVector]

/-- The message carries the vector, 16 bytes an entry. -/
structure Carries (pkgs : Packages) (data : DcVector) (v : List Field) : Prop where
  len : data.len = v.length
  size : data.vector.length = v.length * pkScriptHashSize
  entry : ∀ i (h : i < v.length),
    newFF pkgs ((data.vector.take ((i + 1) * pkScriptHashSize)).drop (i * pkScriptHashSize)) = v[i]

/-! ### Reading it -/

theorem readEntries_carried {pkgs : Packages} {data : DcVector} {v : List Field} (hv : Carries pkgs data v)
    (hnz : 0 ∉ v) (peerId : ℕ) {n i : ℕ} (hn : n + i = v.length) :
    readEntries pkgs peerId (data.vector ++ data.spare) i n = .ok (v.drop i, none) := by
  induction n generalizing i with
  | zero => rw [readEntries, List.drop_eq_nil_of_le (by omega)]
  | succ n ih =>
    have hi : i < v.length := by omega
    have hslice : slice (data.vector ++ data.spare) (i * pkScriptHashSize) ((i + 1) * pkScriptHashSize) =
        .ok ((data.vector.take ((i + 1) * pkScriptHashSize)).drop (i * pkScriptHashSize)) := by
      have hle : (i + 1) * pkScriptHashSize ≤ data.vector.length := by
        rw [hv.size]
        exact Nat.mul_le_mul_right _ hi
      have hmono : i * pkScriptHashSize ≤ (i + 1) * pkScriptHashSize := Nat.mul_le_mul_right _ (by omega)
      rw [slice, if_pos ⟨hmono, by rw [List.length_append]; omega⟩, List.take_append_of_le_length hle]
    have hne : v[i] ≠ 0 := fun h => hnz (h ▸ List.getElem_mem hi)
    rw [readEntries, hslice, ok_bind, hv.entry i hi, if_neg hne, ih (by omega), ok_bind,
      List.drop_eq_getElem_cons hi]

/-! ### Adding up -/

theorem addVector_eq {n : ℕ} (f : ℕ → Field) {v : List Field} (h : v.length ≤ n) :
    addVector ((List.range n).map f) v = .ok ((List.range n).map fun i => f i + v.getD i 0) := by
  rw [addVector, if_neg (by simpa using h)]
  congr 1
  refine List.ext_getElem (by simp) fun i _ _ => ?_
  simp

/-- The sum of vectors that are no longer than the first. -/
theorem combine_eq {n : ℕ} {vectors : List (List Field)} (h : ∀ v ∈ vectors, v.length ≤ n) :
    combine n vectors = .ok ((List.range n).map fun i => (vectors.map (·.getD i 0)).sum) := by
  have hfold : ∀ f : ℕ → Field, vectors.foldlM addVector ((List.range n).map f) =
      .ok ((List.range n).map fun i => f i + (vectors.map (·.getD i 0)).sum) := by
    induction vectors with
    | nil => simp
    | cons v vectors ih =>
      intro f
      rw [List.foldlM_cons, addVector_eq f (h v (by simp)), ok_bind, ih fun v' hv' => h v' (by simp [hv'])]
      simp only [List.map_cons, List.sum_cons, add_assoc]
  have hzero : List.replicate n (0 : Field) = (List.range n).map fun _ => 0 := by simp
  rw [combine, hzero, hfold]
  simp only [zero_add]

/-- All hashes of the peers `ids`. -/
def allHashes (ids : List ℕ) (hashes : ℕ → List Field) : Multiset Field := (ids.flatMap hashes : List Field)

theorem psum_allHashes (ids : List ℕ) (hashes : ℕ → List Field) (k : ℕ) :
    psum (allHashes ids hashes) k = (ids.map fun p => ((hashes p).map (· ^ k)).sum).sum := by
  rw [allHashes, psum, Multiset.map_coe, Multiset.sum_coe, List.map_flatMap, List.flatMap, List.sum_flatten,
    List.map_map]
  rfl

/-- The pads cancel: what is left of the honest entries is a power sum of all hashes. -/
theorem sum_honestEntry {ids : List ℕ} {pad : ℕ → ℕ → Field}
    (hsymm : ∀ p ∈ ids, ∀ q ∈ ids, pad p q = pad q p) (hashes : ℕ → List Field) (i : ℕ) :
    (ids.map fun p => honestEntry ids pad (hashes p) p i).sum = psum (allHashes ids hashes) (i + 1) := by
  simp only [honestEntry, List.sum_map_add, sum_signed_eq_zero ids hsymm, add_zero, psum_allHashes]

/-! ### The roots -/

theorem length_padRoot {root : List Char} (h : root.length ≤ 32) : (padRoot root).length = 32 := by
  rw [padRoot, List.length_leftpad]
  exact max_eq_left h

/-- Printed numbers of at most 32 digits are sent as 16 bytes each. -/
theorem encodeRoots_eq {roots : List (List Char)} (h : ∀ root ∈ roots, ∃ n < 16 ^ 32, root = Hex.hexStr n) :
    encodeRoots roots = .ok (roots.flatMap fun root => Hex.decodeString (padRoot root)) := by
  induction roots with
  | nil => rfl
  | cons root roots ih =>
    obtain ⟨n, hn, rfl⟩ := h root (by simp)
    have hsize : (Hex.decodeString (padRoot (Hex.hexStr n))).length = pkScriptHashSize := by
      refine Hex.length_decodeString (length_padRoot (Hex.length_hexStr_le (by norm_num) hn)) fun c hc => ?_
      rcases List.mem_append.mp hc with hc | hc
      · rw [List.eq_of_mem_replicate hc]
        exact ⟨0, by norm_num, by decide⟩
      · exact Hex.hexVal_of_mem_hexStr hc
    rw [encodeRoots, if_pos hsize, ih fun root' hroot' => h root' (by simp [hroot'])]
    rfl

theorem val_lt (x : Field) : x.val < 16 ^ 32 :=
  (ZMod.val_lt x).trans (by norm_num [fieldPrime])

/-- What the end of the round does with vectors that sum to the power sums of a multiset. -/
theorem solveExponential_of_psum {pkgs : Packages} (hflint : pkgs.flint.Correct fieldPrime) (ch : Choices)
    (js : JoinSession) (hmu : js.mu = true) {n : ℕ} (h2 : 2 ≤ n) (h1000 : n ≤ 1000)
    (hlen : ∀ v ∈ (GoMap.values ch.order [423] js.peers).map (·.dcExpVector), v.length ≤ n)
    {M : Multiset Field} (hcard : M.card = n)
    (hsum : ∀ i < n,
      (((GoMap.values ch.order [423] js.peers).map (·.dcExpVector)).map (·.getD i 0)).sum = psum M (i + 1)) :
    ∃ roots sent,
      combine n ((GoMap.values ch.order [423] js.peers).map (·.dcExpVector)) =
        .ok ((List.range n).map fun i => psum M (i + 1)) ∧
      Flint.getRoots pkgs.flint (Hex.hexStr fieldPrime) ((List.range n).map fun i => psum M (i + 1)) n =
        .ok (0, roots) ∧
      (roots : Multiset (List Char)) = M.map (fun r => Hex.hexStr r.val) ∧
      encodeRoots roots = .ok sent ∧
      solveExponential pkgs ch n js =
        if ch.marshal [474] then
          .ok (.next, { ((js.broadcast ch 482 (.dcExpVector n sent)).newTimer js.roundTimeOut) with
            state := .dcXor, mu := false })
        else js.failWith .marshal := by
  have hcombine := combine_eq hlen
  rw [List.map_congr_left fun i hi => hsum i (List.mem_range.mp hi)] at hcombine
  obtain ⟨roots, hroots, hM⟩ := Flint.getRoots_of_psum pkgs.flint (p := fieldPrime)
    ((List.range n).map fun i => psum M (i + 1)) (n := n) hflint h2 h1000
    (by norm_num [fieldPrime]; omega) (by simp) hcard
    (fun i hi => by simp [List.getD_eq_getElem?_getD, hi])
  have hnum : ∀ root ∈ roots, ∃ m < 16 ^ 32, root = Hex.hexStr m := by
    intro root hroot
    rw [← Multiset.mem_coe, hM, Multiset.mem_map] at hroot
    obtain ⟨r, _, rfl⟩ := hroot
    exact ⟨r.val, val_lt r, rfl⟩
  have hcount : roots.length = n := by
    rw [← Multiset.coe_card, hM, Multiset.card_map, hcard]
  refine ⟨roots, _, hcombine, hroots, hM, encodeRoots_eq hnum, ?_⟩
  rw [solveExponential, hcombine, ok_bind, hroots, ok_bind]
  dsimp only
  rw [if_neg (by simp), encodeRoots_eq hnum, hcount]
  dsimp only
  cases ch.marshal [474]
  · rfl
  · simp [JoinSession.unlockAnd, JoinSession.unlock, JoinSession.newTimer, JoinSession.broadcast, hmu]

/-! ### The round -/

/-- A valid vector from a member is stored; the last one ends the round. -/
theorem dcExpVector_of_carried {pkgs : Packages} (ch : Choices) {data : DcVector} {v : List Field}
    (hv : Carries pkgs data v) (hnz : 0 ∉ v) (h2 : 2 ≤ v.length) (js : JoinSession) (hmu : js.mu = false)
    (herrm : js.errm = none) (hmem : data.peerId ∈ js.peers.keys) :
    dcExpVector pkgs ch data js =
      let js' := js.setPeer data.peerId fun peer => { peer with dcExpVector := v }
      if js'.allSubmit (fun peer => peer.dcExpVector ≠ []) then
        solveExponential pkgs ch v.length { js' with mu := true }
      else .ok (.next, js') := by
  obtain ⟨peer, hpeer⟩ := GoMap.lookup_of_mem_keys hmem
  have hsize : ¬data.vector.length < pkScriptHashSize * 2 := by
    rw [hv.size, pkScriptHashSize]
    omega
  rw [dcExpVector, JoinSession.lock_of_free hmu, ok_bind]
  dsimp only
  rw [hpeer]
  dsimp only
  rw [if_neg hsize, hv.len, readEntries_carried hv hnz peer.id (by omega), ok_bind]
  have hnone : ¬js.errm.isSome = true := by simp [herrm]
  refine (if_neg hnone).trans ?_
  by_cases hall : (js.setPeer data.peerId fun peer => { peer with dcExpVector := v }).allSubmit
      (fun peer => peer.dcExpVector ≠ []) = true
  · rw [if_pos hall]
    exact if_pos hall
  · rw [if_neg hall]
    refine (if_neg hall).trans ?_
    simp [JoinSession.unlockAnd, JoinSession.unlock, JoinSession.setPeer, hmu]

namespace JoinSession

/-- The session once the peers `done` have submitted what `set` writes for them. -/
def withData (set : ℕ → PeerInfo → PeerInfo) (done : List ℕ) (js : JoinSession) : JoinSession :=
  { js with peers := GoMap.mapVal (fun p peer => if p ∈ done then set p peer else peer) js.peers }

section Data
variable (set : ℕ → PeerInfo → PeerInfo) (js : JoinSession)

@[simp] theorem keys_withData (done : List ℕ) : (js.withData set done).peers.keys = js.peers.keys :=
  GoMap.keys_mapVal _ _

/-- It only matters which members are done. -/
theorem peers_withData_congr {done done' : List ℕ} (hdone : ∀ p ∈ js.peers.keys, p ∈ done)
    (hdone' : ∀ p ∈ js.peers.keys, p ∈ done') : (js.withData set done).peers = (js.withData set done').peers := by
  simp only [withData]
  refine GoMap.mapVal_congr fun p peer hp => ?_
  have hmem := GoMap.mem_keys_of_lookup hp
  rw [if_pos (hdone p hmem), if_pos (hdone' p hmem)]

theorem withData_nil : js.withData set [] = js := by
  simp [withData, GoMap.mapVal]

theorem setPeer_withData (hset : ∀ p peer, set p (set p peer) = set p peer) (done : List ℕ) (p : ℕ) :
    (js.withData set done).setPeer p (set p) = js.withData set (done ++ [p]) := by
  rw [setPeer, GoMap.modify, withData, withData, GoMap.mapVal_mapVal]
  congr 2
  funext q peer
  by_cases hq : q = p
  · subst hq
    by_cases hd : q ∈ done <;> simp [hd, hset]
  · simp [hq]

/-- Everybody has submitted once all ids are done. -/
theorem allSubmit_withData {has : PeerInfo → Bool} (hfresh : ∀ p peer, js.peers.lookup p = some peer → has peer = false)
    (hset : ∀ p peer, has (set p peer) = true) {done : List ℕ} :
    (js.withData set done).allSubmit has = true ↔ ∀ p ∈ js.peers.keys, p ∈ done := by
  simp only [allSubmit, List.all_eq_true, Prod.forall, GoMap.mem_toList, withData, GoMap.lookup_mapVal,
    Option.map_eq_some_iff]
  constructor
  · intro h p hp
    obtain ⟨peer, hpeer⟩ := GoMap.lookup_of_mem_keys hp
    by_contra hd
    have hhas := h p _ ⟨peer, hpeer, rfl⟩
    rw [if_neg hd, hfresh p peer hpeer] at hhas
    cases hhas
  · rintro h p _ ⟨peer, hpeer, rfl⟩
    rw [if_pos (h p (GoMap.mem_keys_of_lookup hpeer))]
    exact hset p peer

/-- What everybody has submitted, in the order a loop visits them. -/
theorem values_withData {α : Type} {get : PeerInfo → α} {vec : ℕ → α} (hget : ∀ p peer, get (set p peer) = vec p)
    {done : List ℕ} (hdone : ∀ p ∈ js.peers.keys, p ∈ done) (ch : Choices) (site : List ℕ) :
    ((GoMap.values ch.order site (js.withData set done).peers).map get).Perm (js.peers.keys.map vec) := by
  refine ((GoMap.values_perm ch.order site (js.withData set done).peers).map get).trans (.of_eq ?_)
  rw [withData, GoMap.toList_mapVal, GoMap.keys_eq]
  simp only [List.map_map]
  refine List.map_congr_left fun e he => ?_
  have hp : e.1 ∈ js.peers.keys := by
    rw [GoMap.keys_eq]
    exact List.mem_map_of_mem he
  simp [Function.comp_def, hdone e.1 hp, hget]

end Data

/-- The session once the peers `done` have sent their vectors. -/
def withVectors (vec : ℕ → List Field) (done : List ℕ) (js : JoinSession) : JoinSession :=
  { js with peers := GoMap.mapVal (fun p peer => if p ∈ done then { peer with dcExpVector := vec p } else peer) js.peers }

variable (vec : ℕ → List Field) (js : JoinSession)

@[simp] theorem keys_withVectors (done : List ℕ) : (js.withVectors vec done).peers.keys = js.peers.keys :=
  js.keys_withData _ done

theorem peers_withVectors_congr {done done' : List ℕ} (hdone : ∀ p ∈ js.peers.keys, p ∈ done)
    (hdone' : ∀ p ∈ js.peers.keys, p ∈ done') :
    (js.withVectors vec done).peers = (js.withVectors vec done').peers :=
  js.peers_withData_congr _ hdone hdone'

theorem withVectors_nil : js.withVectors vec [] = js := js.withData_nil _

theorem setPeer_withVectors (done : List ℕ) (p : ℕ) :
    (js.withVectors vec done).setPeer p (fun peer => { peer with dcExpVector := vec p }) =
      js.withVectors vec (done ++ [p]) :=
  js.setPeer_withData (fun p peer => { peer with dcExpVector := vec p }) (fun _ _ => rfl) done p

theorem allSubmit_withVectors {done : List ℕ} (hfresh : ∀ p peer, js.peers.lookup p = some peer → peer.dcExpVector = [])
    (hvec : ∀ p, vec p ≠ []) :
    (js.withVectors vec done).allSubmit (fun peer => peer.dcExpVector ≠ []) = true ↔ ∀ p ∈ js.peers.keys, p ∈ done :=
  js.allSubmit_withData _ (fun p peer hp => decide_eq_false (not_not.mpr (hfresh p peer hp)))
    fun p _ => decide_eq_true (hvec p)

/-- The vectors in the order a loop visits them, entry by entry. -/
theorem sum_withVectors {done : List ℕ} (hdone : ∀ p ∈ js.peers.keys, p ∈ done) (ch : Choices) (site : List ℕ) (i : ℕ) :
    (((GoMap.values ch.order site (js.withVectors vec done).peers).map (·.dcExpVector)).map (·.getD i 0)).sum =
      (js.peers.keys.map fun p => (vec p).getD i 0).sum := by
  have hperm : ((GoMap.values ch.order site (js.withVectors vec done).peers).map (·.dcExpVector)).Perm
      (js.peers.keys.map vec) :=
    js.values_withData (fun p peer => { peer with dcExpVector := vec p }) (fun _ _ => rfl) hdone ch site
  rw [(hperm.map _).sum_eq, List.map_map]
  rfl

end JoinSession

/-- The vectors of some of the peers, one after the other: they are stored and
nothing else happens. -/
theorem deliverAll_waiting {pkgs : Packages} {js : JoinSession} (vec : ℕ → List Field) {arrival : List (Choices × DcVector)}
    (done : List ℕ) (hmu : js.mu = false) (herrm : js.errm = none)
    (hfresh : ∀ p peer, js.peers.lookup p = some peer → peer.dcExpVector = [])
    (hmem : ∀ a ∈ arrival, a.2.peerId ∈ js.peers.keys)
    (hvec : ∀ a ∈ arrival, Carries pkgs a.2 (vec a.2.peerId)) (hnz : ∀ p ∈ js.peers.keys, 0 ∉ vec p)
    (h2 : ∀ p, 2 ≤ (vec p).length)
    {late : ℕ} (hlate : late ∈ js.peers.keys) (hdone : late ∉ done) (hmiss : late ∉ arrival.map fun a => a.2.peerId) :
    deliverAll pkgs (arrival.map fun a => (a.1, .dcExpVector a.2)) (js.withVectors vec done) =
      .ok (true, js.withVectors vec (done ++ arrival.map fun a => a.2.peerId)) := by
  induction arrival generalizing done with
  | nil => simp [deliverAll]
  | cons a arrival ih =>
    obtain ⟨ch, data⟩ := a
    rw [List.map_cons, List.mem_cons, not_or] at hmiss
    have hne : ∀ p, vec p ≠ [] := fun p h => by
      have := h2 p
      rw [h] at this
      exact absurd this (by simp)
    have hfirst : data.peerId ∈ js.peers.keys := hmem _ (List.mem_cons_self ..)
    have hstep := dcExpVector_of_carried ch (hvec _ (List.mem_cons_self ..)) (hnz _ hfirst) (h2 _)
      (js.withVectors vec done) hmu herrm (by simpa using hfirst)
    dsimp only at hstep
    have hwait : ¬(js.withVectors vec (done ++ [data.peerId])).allSubmit (fun peer => peer.dcExpVector ≠ []) = true := by
      rw [JoinSession.allSubmit_withVectors vec js hfresh hne]
      intro hall
      rcases List.mem_append.mp (hall late hlate) with h | h
      · exact hdone h
      · exact hmiss.1 (List.mem_singleton.mp h)
    rw [JoinSession.setPeer_withVectors, if_neg hwait] at hstep
    have hlen : GoMap.len js.peers ≠ 0 := by
      rw [← GoMap.length_keys]
      exact (List.length_pos_of_mem hlate).ne'
    have hdeliver : deliver pkgs ch (.dcExpVector data) (js.withVectors vec done) =
        .ok (true, js.withVectors vec (done ++ [data.peerId])) := by
      rw [deliver, handle, hstep]
      simp [finish, Done.next, JoinSession.withVectors, hlen]
    rw [List.map_cons, deliverAll, hdeliver, ok_bind]
    dsimp only
    rw [if_pos rfl, ih _ (fun b hb => hmem b (List.mem_cons_of_mem _ hb)) (fun b hb => hvec b (List.mem_cons_of_mem _ hb))
      (by simpa using ⟨hdone, hmiss.1⟩) hmiss.2]
    simp

/-- **The exponential round recovers exactly the hidden hashes.** In whatever order
the vectors arrive and the peers are visited, all but the last message are only
stored; the last one makes the handler combine the vectors into the power sums of
all hashes, solve them, and broadcast the hashes. -/
theorem exponential_round_recovers (pkgs : Packages) (hflint : pkgs.flint.Correct fieldPrime) (js : JoinSession)
    (hmu : js.mu = false) (herrm : js.errm = none)
    (hfresh : ∀ p peer, js.peers.lookup p = some peer → peer.dcExpVector = [])
    (pad : ℕ → ℕ → Field) (hsymm : ∀ p ∈ js.peers.keys, ∀ q ∈ js.peers.keys, pad p q = pad q p)
    (hashes : ℕ → List Field) (n : ℕ) (hn : (js.peers.keys.map fun p => (hashes p).length).sum = n)
    (h2 : 2 ≤ n) (h1000 : n ≤ 1000) (arrival : List (Choices × DcVector))
    (horder : (arrival.map fun a => a.2.peerId).Perm js.peers.keys)
    (hvec : ∀ a ∈ arrival, Carries pkgs a.2 (honestVector js.peers.keys pad (hashes a.2.peerId) a.2.peerId n))
    (hnz : ∀ p ∈ js.peers.keys, 0 ∉ honestVector js.peers.keys pad (hashes p) p n) :
    ∃ first ch data js₁ js₂ roots sent,
      arrival = first ++ [(ch, data)] ∧
      deliverAll pkgs (first.map fun a => (a.1, .dcExpVector a.2)) js = .ok (true, js₁) ∧
      js₁.out = js.out ∧ js₁.state = js.state ∧
      dcExpVector pkgs ch data js₁ = solveExponential pkgs ch n js₂ ∧
      js₂.peers = (js.withVectors (fun p => honestVector js.peers.keys pad (hashes p) p n) js.peers.keys).peers ∧
      combine n ((GoMap.values ch.order [423] js₂.peers).map (·.dcExpVector)) =
        .ok ((List.range n).map fun i => psum (allHashes js.peers.keys hashes) (i + 1)) ∧
      Flint.getRoots pkgs.flint (Hex.hexStr fieldPrime)
        ((List.range n).map fun i => psum (allHashes js.peers.keys hashes) (i + 1)) n = .ok (0, roots) ∧
      (roots : Multiset (List Char)) = (allHashes js.peers.keys hashes).map (fun r => Hex.hexStr r.val) ∧
      encodeRoots roots = .ok sent ∧
      (ch.marshal [474] = true → ∃ js₃, dcExpVector pkgs ch data js₁ = .ok (.next, js₃) ∧ js₃.state = .dcXor ∧
        js₃.out = js.out ++ (GoMap.values ch.order [482] js₂.peers).map fun peer =>
          .send peer.conn (.dcExpVector n sent)) := by
  let vec := fun p => honestVector js.peers.keys pad (hashes p) p n
  have hlen : ∀ p, (vec p).length = n := fun p => length_honestVector ..
  have hne : ∀ p, vec p ≠ [] := fun p h => by
    have := hlen p
    rw [h, List.length_nil] at this
    omega
  rcases List.eq_nil_or_concat arrival with rfl | ⟨first, ⟨ch, data⟩, rfl⟩
  · rw [List.map_nil, List.nil_perm] at horder
    rw [horder] at hn
    simp only [List.map_nil, List.sum_nil] at hn
    omega
  rw [List.concat_eq_append] at *
  rw [List.map_append, List.map_singleton] at horder
  have hids := horder.nodup_iff.mpr js.peers.keys_nodup
  have hmem : ∀ a ∈ first ++ [(ch, data)], a.2.peerId ∈ js.peers.keys := fun a ha =>
    horder.mem_iff.mp (by simpa using List.mem_map_of_mem (f := fun a : Choices × DcVector => a.2.peerId) ha)
  have hlast : data.peerId ∈ js.peers.keys := hmem (ch, data) (by simp)
  have hwait := deliverAll_waiting vec [] hmu herrm hfresh (fun a ha => hmem a (by simp [ha]))
    (fun a ha => hvec a (by simp [ha])) hnz (fun p => by rw [hlen p]; exact h2) hlast (by simp)
    (fun h => (List.nodup_append.mp hids).2.2 _ h _ (List.mem_singleton_self _) rfl)
  rw [JoinSession.withVectors_nil, List.nil_append] at hwait
  have hstep := dcExpVector_of_carried ch (hvec (ch, data) (by simp)) (hnz _ hlast) (by rw [length_honestVector]; exact h2)
    (js.withVectors vec (first.map fun a => a.2.peerId)) hmu herrm (by simpa using hlast)
  have hall : ∀ p ∈ js.peers.keys, p ∈ (first.map fun a => a.2.peerId) ++ [data.peerId] := fun p hp =>
    horder.mem_iff.mpr hp
  dsimp only at hstep
  rw [length_honestVector, JoinSession.setPeer_withVectors vec js,
    if_pos ((JoinSession.allSubmit_withVectors vec js hfresh hne).mpr hall)] at hstep
  have hvalues : ∀ v ∈ (GoMap.values ch.order [423]
      (js.withVectors vec ((first.map fun a => a.2.peerId) ++ [data.peerId])).peers).map (·.dcExpVector), v.length ≤ n := by
    intro v hv
    obtain ⟨_, hmem, rfl⟩ := List.mem_map.mp hv
    obtain ⟨p, hp⟩ := GoMap.mem_values.mp hmem
    rw [JoinSession.withVectors, GoMap.lookup_mapVal, Option.map_eq_some_iff] at hp
    obtain ⟨peer, hpeer, rfl⟩ := hp
    rw [if_pos (hall p (GoMap.mem_keys_of_lookup hpeer))]
    exact (hlen p).le
  have hcard : (allHashes js.peers.keys hashes).card = n := by
    rw [allHashes, Multiset.coe_card, List.length_flatMap, hn]
  have hsum : ∀ i < n, (((GoMap.values ch.order [423] (js.withVectors vec
      ((first.map fun a => a.2.peerId) ++ [data.peerId])).peers).map (·.dcExpVector)).map (·.getD i 0)).sum =
        psum (allHashes js.peers.keys hashes) (i + 1) := by
    intro i hi
    rw [JoinSession.sum_withVectors vec js hall, ← sum_honestEntry hsymm hashes i]
    refine congrArg List.sum (List.map_congr_left fun p _ => ?_)
    simp [vec, honestVector, hi]
  obtain ⟨roots, sent, hcombine, hroots, hM, hsent, hsolve⟩ := solveExponential_of_psum hflint ch
    { js.withVectors vec ((first.map fun a => a.2.peerId) ++ [data.peerId]) with mu := true } rfl h2 h1000
    hvalues hcard hsum
  refine ⟨first, ch, data, _, _, roots, sent, rfl, hwait, rfl, rfl, hstep, ?_, hcombine, hroots, hM, hsent, fun hm => ?_⟩
  · exact js.peers_withVectors_congr vec hall fun p hp => hp
  · rw [hstep, hsolve, if_pos hm]
    exact ⟨_, rfl, rfl, rfl⟩

/-- Two peers with one hash each, 10 and 4, and the pad 5: the vectors are `[5, 95]`
and `[9, 21]`, and arrive in the order of the ids. -/
theorem exponential_round_recovers_two :
    ∃ roots, Flint.getRoots Flint.referenceLibrary (Hex.hexStr fieldPrime)
        ((List.range 2).map fun i => psum (allHashes [2, 1] fun p => if p = 1 then [10] else [4]) (i + 1)) 2 =
          .ok (0, roots) ∧
      (roots : Multiset (List Char)) = {['4'], ['a']} := by
  obtain ⟨_, _, _, _, _, roots, _, _, _, _, _, _, _, _, hroots, hM, _⟩ :=
    exponential_round_recovers plainPackages plainPackages_flint
      { newJoinSession 7 60 false (queuePeers [(0, 1), (1, 2)]) with state := .dcExponential } rfl rfl
      (fun p peer h => by
        obtain ⟨conn, _, rfl⟩ := lookup_newJoinSession 7 60 false h
        rfl)
      (fun _ _ => 5) (fun _ _ _ _ => rfl) (fun p => if p = 1 then [10] else [4]) 2 rfl le_rfl (by norm_num)
      [(plainChoices id, ⟨1, 2, toBigEndian 5 16 ++ toBigEndian 95 16, []⟩),
        (plainChoices id, ⟨2, 2, toBigEndian 9 16 ++ toBigEndian 21 16, []⟩)]
      (by decide)
      (by
        intro a ha
        rcases List.mem_pair.mp ha with rfl | rfl <;> exact ⟨rfl, rfl, by decide⟩)
      (by decide)
  refine ⟨roots, hroots, hM.trans ?_⟩
  decide

end Dcrtxmatcher.Coinjoin
