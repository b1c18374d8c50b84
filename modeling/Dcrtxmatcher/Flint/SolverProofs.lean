import Dcrtxmatcher.Flint.Solver
import Dcrtxmatcher.Lib.PowerSums
import Mathlib.RingTheory.UniqueFactorizationDomain.NormalizedFactors
import Mathlib.FieldTheory.Finite.Basic

/-! What the solver computes.

Modulo a prime larger than the number `n` of power sums, the loop's coefficients
satisfy Newton's recurrence, so the polynomial is the one whose root multiset has
these power sums, if there is such a multiset. Unique factorisation then makes
the test of the factors succeed exactly in that case, and the extracted values
are the multiset. -/
namespace Dcrtxmatcher.Flint
open Lib.PowerSums Lib.Hex Polynomial

variable {p : ℕ}

/-- The multiset has `sums.length` elements and `sums` are its first power sums. -/
def HasPowerSums (sums : List (ZMod p)) (M : Multiset (ZMod p)) : Prop :=
  M.card = sums.length ∧ ∀ i (h : i < sums.length), psum M (i + 1) = sums[i]

theorem succ_ne_zero_of_lt [Fact p.Prime] {n i : ℕ} (hn : n < p) (hi : i < n) : ((i + 1 : ℕ) : ZMod p) ≠ 0 := by
  rw [Ne, ZMod.natCast_eq_zero_iff]
  exact fun h => absurd (Nat.le_of_dvd (Nat.succ_pos i) h) (by omega)

/-- Modulo a prime larger than their number, power sums determine the multiset. -/
theorem HasPowerSums.unique [Fact p.Prime] {sums : List (ZMod p)} (hp : sums.length < p) {M N : Multiset (ZMod p)}
    (hM : HasPowerSums sums M) (hN : HasPowerSums sums N) : M = N := by
  refine eq_of_psum_eq (hM.1.trans hN.1.symm) (fun i hi => ?_) fun i hi => ?_
  · rw [hM.1] at hi
    exact_mod_cast succ_ne_zero_of_lt hp hi
  · rw [hM.1] at hi
    rw [hM.2 i hi, hN.2 i hi]

/-! ### The coefficients -/

section Coefficients
variable (fl : Library) (sums : List ℤ)

/-- The power sums modulo `p`, as a sequence. -/
def sumAt (p : ℕ) (sums : List ℤ) (i : ℕ) : ZMod p := (sums.getD i 0 : ℤ)

/-- The coefficients modulo `p`, as a sequence. -/
def coeffAt (p : ℕ) (i : ℕ) : ZMod p := (nextCoeff fl p sums (coeffs fl p sums i) i : ℤ)

theorem coeffs_length (i : ℕ) : (coeffs fl p sums i).length = i := by
  induction i with
  | zero => rfl
  | succ i ih => simp [coeffs, ih]

theorem coeffs_getD {i k : ℕ} (h : k < i) :
    (coeffs fl p sums i).getD k 0 = nextCoeff fl p sums (coeffs fl p sums k) k := by
  induction i with
  | zero => omega
  | succ i ih =>
    rw [coeffs, List.getD_eq_getElem?_getD]
    rcases Nat.lt_succ_iff_lt_or_eq.mp h with hlt | rfl
    · rw [List.getElem?_append_left (by rwa [coeffs_length]), ← List.getD_eq_getElem?_getD, ih hlt]
    · rw [List.getElem?_append_right (by rw [coeffs_length])]
      simp [coeffs_length]

theorem coeffSum_cast (coeff : List ℤ) (i : ℕ) :
    ((coeffSum sums coeff i : ℤ) : ZMod p) = sumAt p sums i +
      ∑ k ∈ Finset.range i, ((coeff.getD k 0 : ℤ) : ZMod p) * sumAt p sums (i - 1 - k) := by
  have hfold : ∀ m, (((List.range m).foldl (fun c k => c + coeff.getD k 0 * sums.getD (i - 1 - k) 0)
      (sums.getD i 0) : ℤ) : ZMod p) = sumAt p sums i +
        ∑ k ∈ Finset.range m, ((coeff.getD k 0 : ℤ) : ZMod p) * sumAt p sums (i - 1 - k) := by
    intro m
    induction m with
    | zero => simp [sumAt]
    | succ m ih =>
      rw [List.range_succ, List.foldl_append, List.foldl_cons, List.foldl_nil, Int.cast_add, ih,
        Int.cast_mul, Finset.sum_range_succ, add_assoc, sumAt, sumAt]
  exact hfold i

/-- The loop computes a solution of Newton's recurrence. -/
theorem newton_coeffAt [Fact p.Prime] (hfl : fl.Correct p) (hn : sums.length < p) :
    Newton sums.length (sumAt p sums) (coeffAt fl sums p) := by
  intro i hi
  have hunit : ((-(i + 1) : ℤ) : ZMod p) ≠ 0 := by
    have := succ_ne_zero_of_lt hn hi
    push_cast at this ⊢
    exact neg_ne_zero.mpr this
  have hinv := hfl.invmod _ hunit
  have hsum : ∑ k ∈ Finset.range i, coeffAt fl sums p k * sumAt p sums (i - 1 - k) =
      ∑ k ∈ Finset.range i, (((coeffs fl p sums i).getD k 0 : ℤ) : ZMod p) * sumAt p sums (i - 1 - k) :=
    Finset.sum_congr rfl fun k hk => by rw [coeffs_getD fl sums (Finset.mem_range.mp hk), coeffAt]
  rw [hsum, ← coeffSum_cast, coeffAt, nextCoeff, Int.cast_mul]
  push_cast at hinv ⊢
  linear_combination -((coeffSum sums (coeffs fl p sums i) i : ℤ) : ZMod p) * hinv

theorem getCoeff_buildPoly (i j : ℕ) (hi : i ≤ sums.length) :
    Poly.getCoeff (buildPoly fl p sums i) j =
      if j = sums.length then 1
      else if j < sums.length ∧ sums.length - i ≤ j then coeffAt fl sums p (sums.length - 1 - j) else 0 := by
  induction i with
  | zero =>
    rw [buildPoly, Poly.getCoeff_setCoeff]
    split_ifs with h1 h2
    · rfl
    · omega
    · rfl
  | succ i ih =>
    rw [buildPoly, Poly.getCoeff_setCoeff, ih (by omega)]
    by_cases hj : j = sums.length - i - 1
    · rw [if_pos hj, if_neg (by omega), if_pos (by omega), coeffAt,
        show sums.length - 1 - j = i by omega]
    · rw [if_neg hj]
      by_cases htop : j = sums.length
      · rw [if_pos htop, if_pos htop]
      · rw [if_neg htop, if_neg htop]
        exact if_congr (by omega) rfl rfl

/-- The polynomial handed to flint has the given multiset of roots exactly when
its coefficients are those of the multiset. -/
theorem buildPoly_eq_rootPoly [Nontrivial (ZMod p)] (M : Multiset (ZMod p)) (hcard : M.card = sums.length) :
    (buildPoly fl p sums sums.length).toPolynomial = rootPoly M ↔
      ∀ i < sums.length, coeffAt fl sums p i = coeffFromTop M i := by
  have hbuild := fun j => getCoeff_buildPoly (p := p) fl sums sums.length j le_rfl
  constructor
  · intro h i hi
    have hcoeff := congrArg (fun P => P.coeff (sums.length - 1 - i)) h
    simp only [Poly.coeff_toPolynomial, hbuild] at hcoeff
    rw [if_neg (by omega), if_pos (by omega), show sums.length - 1 - (sums.length - 1 - i) = i by omega]
      at hcoeff
    rw [hcoeff, coeffFromTop, hcard]
  · intro h
    ext j
    rw [Poly.coeff_toPolynomial, hbuild]
    rcases lt_trichotomy j sums.length with hj | hj | hj
    · rw [if_neg (by omega), if_pos (by omega), h _ (by omega), coeffFromTop, hcard,
        show sums.length - 1 - (sums.length - 1 - j) = j by omega]
    · have hmonic := rootPoly_monic M
      rw [Monic, leadingCoeff, rootPoly_natDegree, hcard] at hmonic
      rw [if_pos hj, hj, hmonic]
    · rw [if_neg (by omega), if_neg (by omega),
        coeff_eq_zero_of_natDegree_lt (by rwa [rootPoly_natDegree, hcard])]

theorem buildPoly_monic [Nontrivial (ZMod p)] :
    (buildPoly fl p sums sums.length).toPolynomial.Monic := by
  have hbuild := fun j => getCoeff_buildPoly (p := p) fl sums sums.length j le_rfl
  refine monic_of_natDegree_le_of_coeff_eq_one sums.length ?_ ?_
  · refine natDegree_le_iff_coeff_eq_zero.mpr fun j hj => ?_
    rw [Poly.coeff_toPolynomial, hbuild, if_neg (by omega), if_neg (by omega)]
  · rw [Poly.coeff_toPolynomial, hbuild, if_pos rfl]

/-- The multiset with power sums `sums` is the root multiset of the polynomial. -/
theorem buildPoly_eq_iff [Fact p.Prime] (hfl : fl.Correct p) (hn : sums.length < p)
    (M : Multiset (ZMod p)) (hcard : M.card = sums.length) :
    (buildPoly fl p sums sums.length).toPolynomial = rootPoly M ↔
      ∀ i < sums.length, psum M (i + 1) = sumAt p sums i := by
  rw [buildPoly_eq_rootPoly fl sums M hcard]
  have hloop := newton_coeffAt fl sums hfl hn
  have hM := newton_coeffFromTop M
  rw [hcard] at hM
  constructor
  · exact fun h => Newton.sum_unique hM (hloop.congr (fun _ _ => rfl) h)
  · refine fun h => Newton.coeff_unique (fun i hi => ?_) hloop (hM.congr h fun _ _ => rfl)
    exact_mod_cast succ_ne_zero_of_lt hn hi

end Coefficients

/-! ### The factors -/

/-- The extracted values, as field elements. -/
def rootsOf (factors : List (Poly p × ℕ)) : Multiset (ZMod p) :=
  ((extractRoots factors).map (Nat.cast : ℕ → ZMod p) : List (ZMod p))

/-- When every factor is monic and linear, their product is the polynomial whose
roots are the extracted values, and the exponents count these. -/
theorem prod_of_countRoots [Fact p.Prime] {factors : List (Poly p × ℕ)} {k : ℕ}
    (h : countRoots factors = some k) :
    (factors.map fun g => g.1.toPolynomial ^ g.2).prod = rootPoly (rootsOf factors) ∧
      (extractRoots factors).length = k := by
  induction factors generalizing k with
  | nil =>
    cases h
    exact ⟨by simp [rootsOf, extractRoots, rootPoly], rfl⟩
  | cons g factors ih =>
    rw [countRoots] at h
    split_ifs at h with hlin
    obtain ⟨m, hm, rfl⟩ := Option.map_eq_some_iff.mp h
    obtain ⟨hprod, hlen⟩ := ih hm
    rw [not_or, not_not, not_not] at hlin
    constructor
    · rw [List.map_cons, List.prod_cons, hprod, Poly.toPolynomial_of_linear hlin.1 hlin.2]
      simp only [rootPoly, rootsOf, extractRoots, List.flatMap_cons, List.map_append, List.map_replicate,
        ZMod.natCast_val, ZMod.cast_id', id_eq, Multiset.map_coe, Multiset.prod_coe, List.prod_append,
        List.prod_replicate, map_neg, sub_neg_eq_add]
    · simp only [extractRoots, List.flatMap_cons, List.length_append, List.length_replicate] at hlen ⊢
      rw [hlen]

/-- A monic irreducible factor of a product of linear factors is one of them. -/
theorem linear_of_dvd_rootPoly [Fact p.Prime] {g : (ZMod p)[X]} {M : Multiset (ZMod p)} (hmonic : g.Monic)
    (hirr : Irreducible g) (hdvd : g ∣ rootPoly M) : ∃ r, g = X - C r := by
  obtain ⟨r, _, hgf⟩ := Prime.exists_mem_multiset_map_dvd hirr.prime hdvd
  exact ⟨r, eq_of_monic_of_associated hmonic (monic_X_sub_C r)
    (hirr.associated_of_dvd (irreducible_X_sub_C r) hgf)⟩

/-- If the factors multiply to a product of linear polynomials, all of them pass
the solver's test. -/
theorem countRoots_of_prod [Fact p.Prime] {factors : List (Poly p × ℕ)} {M : Multiset (ZMod p)}
    (hmonic : ∀ g ∈ factors, g.1.toPolynomial.Monic) (hirr : ∀ g ∈ factors, Irreducible g.1.toPolynomial)
    (hexp : ∀ g ∈ factors, 0 < g.2)
    (hdvd : (factors.map fun g => g.1.toPolynomial ^ g.2).prod ∣ rootPoly M) :
    ∃ k, countRoots factors = some k := by
  induction factors with
  | nil => exact ⟨0, rfl⟩
  | cons g factors ih =>
    rw [List.map_cons, List.prod_cons] at hdvd
    have hmem := List.mem_cons_self (a := g) (l := factors)
    obtain ⟨k, hk⟩ := ih (fun g' hg' => hmonic g' (List.mem_cons_of_mem g hg'))
      (fun g' hg' => hirr g' (List.mem_cons_of_mem g hg'))
      (fun g' hg' => hexp g' (List.mem_cons_of_mem g hg')) (dvd_of_mul_left_dvd hdvd)
    obtain ⟨r, hr⟩ := linear_of_dvd_rootPoly (hmonic g hmem) (hirr g hmem)
      ((dvd_pow_self _ (hexp g hmem).ne').trans (dvd_of_mul_right_dvd hdvd))
    have hdeg : g.1.degree = 1 := by rw [← Poly.natDegree_toPolynomial, hr, natDegree_X_sub_C]
    have hlead : g.1.lead = 1 := by rw [← Poly.leadingCoeff_toPolynomial, hr, leadingCoeff_X_sub_C]
    exact ⟨g.2 + k, by rw [countRoots, if_neg (by simp [hdeg, hlead]), hk, Option.map_some]⟩

theorem extractRoots_lt [Fact p.Prime] {factors : List (Poly p × ℕ)} {m : ℕ}
    (h : m ∈ extractRoots factors) : m < p := by
  obtain ⟨g, _, hg⟩ := List.mem_flatMap.mp h
  rw [List.eq_of_mem_replicate hg]
  exact ZMod.val_lt _

theorem rootsOf_map_val [Fact p.Prime] (factors : List (Poly p × ℕ)) :
    (rootsOf factors).map ZMod.val = (extractRoots factors : Multiset ℕ) := by
  rw [rootsOf, Multiset.map_coe, List.map_map]
  congr 1
  conv_rhs => rw [← List.map_id (extractRoots factors)]
  refine List.map_congr_left fun m hm => ?_
  exact ZMod.val_natCast_of_lt (extractRoots_lt hm)

/-! ### The solver -/

section Solver
variable (fl : Library) {messages : List ℕ} {sums : List ℤ} [Fact p.Prime]

omit [Fact p.Prime] in
theorem solvePoly_eq (h2 : 2 ≤ sums.length) (h1000 : sums.length ≤ 1000)
    (hlen : messages.length = sums.length) (hp : sums.length < p) :
    solvePoly fl messages p sums =
      match countRoots (fl.factorKaltofenShoup p (buildPoly fl p sums sums.length)) with
      | none => (retInvalid, messages)
      | some nRoots => if nRoots ≠ sums.length then (retInvalid, messages)
          else (0, extractRoots (fl.factorKaltofenShoup p (buildPoly fl p sums sums.length))) := by
  refine (if_neg (by omega)).trans ((if_neg (by omega)).trans ((if_neg ?_).trans (if_neg (by omega))))
  exact not_not.mpr hlen

/-- Power sums of a multiset are solved, and the multiset is what comes out. -/
theorem solvePoly_of_psum (hfl : fl.Correct p) (h2 : 2 ≤ sums.length) (h1000 : sums.length ≤ 1000)
    (hlen : messages.length = sums.length) (hp : sums.length < p) {M : Multiset (ZMod p)}
    (hcard : M.card = sums.length) (hM : ∀ i < sums.length, psum M (i + 1) = sumAt p sums i) :
    ∃ out, solvePoly fl messages p sums = (0, out) ∧ (out : Multiset ℕ) = M.map ZMod.val ∧
      ∀ m ∈ out, m < p := by
  have hpoly := (buildPoly_eq_iff fl sums hfl hp M hcard).mpr hM
  have hmon := buildPoly_monic (p := p) fl sums
  have hprod := hfl.prod _ hmon
  obtain ⟨k, hk⟩ := countRoots_of_prod (M := M) (hfl.monic _ hmon) (hfl.irreducible _ hmon)
    (hfl.exponent _ hmon) (by rw [hprod, hpoly])
  obtain ⟨hroots, hlen'⟩ := prod_of_countRoots hk
  have hset : rootsOf (fl.factorKaltofenShoup p (buildPoly fl p sums sums.length)) = M := by
    have := congrArg roots (hroots.symm.trans (hprod.trans hpoly))
    simpa only [rootPoly, roots_multiset_prod_X_sub_C] using this
  have hk' : k = sums.length := by
    rw [← hcard, ← hset, rootsOf, Multiset.coe_card, List.length_map, hlen']
  refine ⟨_, ?_, by rw [← hset, rootsOf_map_val], fun m hm => extractRoots_lt hm⟩
  rw [solvePoly_eq fl h2 h1000 hlen hp, hk]
  exact if_neg (not_not.mpr hk')

/-- Whatever the solver accepts are power sums, of the values it returns. -/
theorem psum_of_solvePoly (hfl : fl.Correct p) (h2 : 2 ≤ sums.length) (h1000 : sums.length ≤ 1000)
    (hlen : messages.length = sums.length) (hp : sums.length < p) {out : List ℕ}
    (h : solvePoly fl messages p sums = (0, out)) :
    ∃ M : Multiset (ZMod p), M.card = sums.length ∧ (out : Multiset ℕ) = M.map ZMod.val ∧
      ∀ i < sums.length, psum M (i + 1) = sumAt p sums i := by
  have hmon := buildPoly_monic (p := p) fl sums
  rw [solvePoly_eq fl h2 h1000 hlen hp] at h
  cases hk : countRoots (fl.factorKaltofenShoup p (buildPoly fl p sums sums.length)) with
  | none =>
    rw [hk] at h
    cases h
  | some k =>
    rw [hk] at h
    dsimp only at h
    split_ifs at h with hne
    · cases h
    rw [not_not] at hne
    obtain ⟨hroots, hlen'⟩ := prod_of_countRoots hk
    have hcard : (rootsOf (fl.factorKaltofenShoup p (buildPoly fl p sums sums.length))).card =
        sums.length := by
      rw [rootsOf, Multiset.coe_card, List.length_map, hlen', hne]
    cases h
    exact ⟨_, hcard, (rootsOf_map_val _).symm, (buildPoly_eq_iff fl sums hfl hp _ hcard).mp
      ((hfl.prod _ hmon).symm.trans hroots)⟩

omit [Fact p.Prime] in
/-- Otherwise the solver answers `RET_INVALID`. -/
theorem solvePoly_ret (h2 : 2 ≤ sums.length) (h1000 : sums.length ≤ 1000)
    (hlen : messages.length = sums.length) (hp : sums.length < p) :
    (solvePoly fl messages p sums).1 = 0 ∨ (solvePoly fl messages p sums).1 = retInvalid := by
  rw [solvePoly_eq fl h2 h1000 hlen hp]
  split
  · exact Or.inr rfl
  · split_ifs
    · exact Or.inr rfl
    · exact Or.inl rfl

/-- The integers as power sums, read modulo the prime. -/
theorem hasPowerSums_cast {M : Multiset (ZMod p)} : HasPowerSums (sums.map Int.cast) M ↔
    M.card = sums.length ∧ ∀ i < sums.length, psum M (i + 1) = sumAt p sums i := by
  have hread : ∀ i (h : i < sums.length), (sums[i] : ZMod p) = sumAt p sums i := by
    intro i h
    rw [sumAt, List.getD_eq_getElem?_getD, List.getElem?_eq_getElem h, Option.getD_some]
  constructor
  · intro h
    refine ⟨by simpa using h.1, fun i hi => ?_⟩
    rw [h.2 i (by simpa using hi), List.getElem_map, hread]
  · intro h
    refine ⟨by simpa using h.1, fun i hi => ?_⟩
    rw [List.getElem_map, hread, h.2 i (by simpa using hi)]

/-- **The solver is correct**: it returns 0 for the power sums of a multiset and for
nothing else, with the multiset, the only one, as numbers below the prime; the power
sums of a list of field elements give the list back. -/
theorem solvePoly_solves (hfl : fl.Correct p) (h2 : 2 ≤ sums.length) (h1000 : sums.length ≤ 1000)
    (hlen : messages.length = sums.length) (hp : sums.length < p) :
    ((solvePoly fl messages p sums).1 = 0 ↔ ∃ M : Multiset (ZMod p), HasPowerSums (sums.map Int.cast) M) ∧
    ((solvePoly fl messages p sums).1 ≠ 0 → (solvePoly fl messages p sums).1 = retInvalid) ∧
    (∀ M : Multiset (ZMod p), HasPowerSums (sums.map Int.cast) M →
      ((solvePoly fl messages p sums).2 : Multiset ℕ) = M.map ZMod.val ∧
      (∀ m ∈ (solvePoly fl messages p sums).2, m < p) ∧
      ∀ N : Multiset (ZMod p), HasPowerSums (sums.map Int.cast) N → N = M) ∧
    ∀ l : List (ZMod p), l.length = sums.length →
      (∀ i (h : i < sums.length), (sums[i] : ZMod p) = (l.map (· ^ (i + 1))).sum) →
      (solvePoly fl messages p sums).1 = 0 ∧
        ((solvePoly fl messages p sums).2.map (Nat.cast : ℕ → ZMod p)).Perm l := by
  have hsolved : ∀ M : Multiset (ZMod p), HasPowerSums (sums.map Int.cast) M →
      ∃ out, solvePoly fl messages p sums = (0, out) ∧ (out : Multiset ℕ) = M.map ZMod.val ∧ ∀ m ∈ out, m < p := by
    intro M hM
    obtain ⟨hcard, hsums⟩ := hasPowerSums_cast.mp hM
    exact solvePoly_of_psum fl hfl h2 h1000 hlen hp hcard hsums
  refine ⟨⟨fun hret => ?_, fun hex => ?_⟩, (solvePoly_ret fl h2 h1000 hlen hp).resolve_left, fun M hM => ?_,
    fun l hl hsums => ?_⟩
  · obtain ⟨M, hcard, -, hsums⟩ := psum_of_solvePoly fl hfl h2 h1000 hlen hp (Prod.ext hret rfl)
    exact ⟨M, hasPowerSums_cast.mpr ⟨hcard, hsums⟩⟩
  · obtain ⟨M, hM⟩ := hex
    obtain ⟨out, hout, -⟩ := hsolved M hM
    rw [hout]
  · obtain ⟨out, hout, hmessages, hlt⟩ := hsolved M hM
    rw [hout]
    exact ⟨hmessages, hlt, fun N hN => hN.unique (by rwa [List.length_map]) hM⟩
  · have hlist : HasPowerSums (sums.map Int.cast) (l : Multiset (ZMod p)) := by
      refine ⟨by rw [Multiset.coe_card, hl, List.length_map], fun i hi => ?_⟩
      rw [List.length_map] at hi
      rw [List.getElem_map, hsums i hi]
      rfl
    obtain ⟨out, hout, hmessages, -⟩ := hsolved l hlist
    rw [hout]
    refine ⟨rfl, Multiset.coe_eq_coe.mp ?_⟩
    rw [← Multiset.map_coe, hmessages, Multiset.map_map]
    exact (Multiset.map_congr rfl fun m _ => ZMod.natCast_zmod_val m).trans (Multiset.map_id _)

/-! ### The caller in Go -/

theorem mapM_ofHex (l : List ℕ) : (l.map hexStr).mapM ofHex = some l := by
  induction l with
  | nil => rfl
  | cons n l ih =>
    rw [List.map_cons, List.mapM_cons, ofHex_hexStr, ih]
    rfl

omit [Fact p.Prime] in
/-- On printed numbers `solve` is `solvePoly` between two conversions: roots below
the prime never print longer than it. -/
theorem solve_eq (s : List ℕ) (hlt : ∀ m ∈ (solvePoly fl (List.replicate s.length 0) p (s.map Int.ofNat)).2, m < p) :
    solve fl (hexStr p) (s.map hexStr) =
      let r := solvePoly fl (List.replicate s.length 0) p (s.map Int.ofNat)
      if r.1 = 0 then (0, r.2.map hexStr) else (r.1, []) := by
  have hlen : (s.map hexStr).length = s.length := List.length_map _
  rw [solve, ofHex_hexStr, mapM_ofHex, hlen]
  dsimp only
  split_ifs with hret hlong
  · obtain ⟨m, hm, hgt⟩ := List.any_eq_true.mp hlong
    have := length_hexStr_mono (hlt m hm).le
    simp only [decide_eq_true_eq] at hgt
    omega
  · rw [hret]
  · rfl

variable {ps : List (ZMod p)} {n : ℕ}

/-- The integers the power sums of a slice are parsed to. -/
def parsed (ps : List (ZMod p)) (n : ℕ) : List ℤ := ((ps.take n).map ZMod.val).map Int.ofNat

omit [Fact p.Prime] in
theorem length_parsed (hn : n ≤ ps.length) : (parsed ps n).length = n := by simp [parsed, hn]

theorem sumAt_parsed (hn : n ≤ ps.length) {i : ℕ} (hi : i < n) : sumAt p (parsed ps n) i = ps.getD i 0 := by
  have hi' : i < ps.length := by omega
  simp [sumAt, parsed, List.getD_eq_getElem?_getD, hi, hi']

omit [Fact p.Prime] in
theorem getRoots_eq (hn : n ≤ ps.length) (hpos : 0 < n)
    (hlt : ∀ m ∈ (solvePoly fl (List.replicate n 0) p (parsed ps n)).2, m < p) :
    getRoots fl (hexStr p) ps n =
      let r := solvePoly fl (List.replicate n 0) p (parsed ps n)
      .ok (if r.1 = 0 then (0, r.2.map hexStr) else (r.1, [])) := by
  have hlen : ((ps.take n).map ZMod.val).length = n := by simp [hn]
  have hmap : (ps.take n).map (fun x => hexStr x.val) = ((ps.take n).map ZMod.val).map hexStr := by
    rw [List.map_map]
    rfl
  have hsolve := solve_eq fl (p := p) ((ps.take n).map ZMod.val) (by rw [hlen]; exact hlt)
  rw [getRoots, if_neg (by omega), hmap, hsolve, hlen]
  dsimp only [parsed]
  split_ifs <;> simp_all

/-- Whatever the library does, the roots are representatives. -/
theorem solvePoly_lt (n : ℕ) (sums : List ℤ) : ∀ m ∈ (solvePoly fl (List.replicate n 0) p sums).2, m < p := by
  have hzero : ∀ m ∈ List.replicate n 0, m < p := fun m hm => by
    rw [List.eq_of_mem_replicate hm]
    exact (Fact.out : p.Prime).pos
  unfold solvePoly
  dsimp only
  split_ifs
  · exact hzero
  · exact hzero
  · exact hzero
  · exact hzero
  · split
    · exact hzero
    · split_ifs
      · exact hzero
      · exact fun m hm => extractRoots_lt hm

variable (ps) in
/-- `GetRoots` on the power sums of a multiset returns 0 and its elements. -/
theorem getRoots_of_psum (hfl : fl.Correct p) (h2 : 2 ≤ n) (h1000 : n ≤ 1000) (hp : n < p)
    (hn : n ≤ ps.length) {M : Multiset (ZMod p)} (hcard : M.card = n)
    (hM : ∀ i < n, psum M (i + 1) = ps.getD i 0) :
    ∃ roots, getRoots fl (hexStr p) ps n = .ok (0, roots) ∧
      (roots : Multiset (List Char)) = M.map fun r => hexStr r.val := by
  have hlen := length_parsed hn
  obtain ⟨out, hsolve, hout, _⟩ := solvePoly_of_psum fl hfl (by omega) (by omega)
    (show (List.replicate n 0).length = (parsed ps n).length by simp [hlen]) (by omega) (by rw [hcard, hlen])
    fun i hi => by rw [sumAt_parsed hn (by omega)]; exact hM i (by omega)
  refine ⟨out.map hexStr, ?_, ?_⟩
  · rw [getRoots_eq fl hn (by omega) (solvePoly_lt fl n _), hsolve]
    rfl
  · rw [← Multiset.map_coe, hout, Multiset.map_map]
    rfl

/-- Whenever `GetRoots` returns 0, what it was given are the power sums of what it returns. -/
theorem psum_of_getRoots (hfl : fl.Correct p) (h2 : 2 ≤ n) (h1000 : n ≤ 1000) (hp : n < p)
    (hn : n ≤ ps.length) {roots : List (List Char)} (h : getRoots fl (hexStr p) ps n = .ok (0, roots)) :
    ∃ M : Multiset (ZMod p), M.card = n ∧ (∀ i < n, psum M (i + 1) = ps.getD i 0) ∧
      (roots : Multiset (List Char)) = M.map fun r => hexStr r.val := by
  have hlen := length_parsed hn
  rw [getRoots_eq fl hn (by omega) (solvePoly_lt fl n _)] at h
  dsimp only at h
  split_ifs at h with hret
  · obtain ⟨M, hcard, hout, hM⟩ := psum_of_solvePoly fl hfl (by omega) (by omega)
      (show (List.replicate n 0).length = (parsed ps n).length by simp [hlen]) (by omega) (Prod.ext hret rfl)
    refine ⟨M, by rw [hcard, hlen], fun i hi => ?_, ?_⟩
    · rw [hM i (by omega), sumAt_parsed hn hi]
    · injection h with h
      rw [← show _ = roots from congrArg Prod.snd h, ← Multiset.map_coe, hout, Multiset.map_map]
      rfl
  · injection h with h
    exact absurd (congrArg Prod.fst h) hret

omit [Fact p.Prime] in
/-- `GetRoots` returns 0 only for 2 to 1000 power sums. -/
theorem range_of_getRoots (hn : n ≤ ps.length) (hpos : 0 < n) (hp : 0 < p) {roots : List (List Char)}
    (h : getRoots fl (hexStr p) ps n = .ok (0, roots)) : 2 ≤ n ∧ n ≤ 1000 := by
  by_contra hrange
  have hsolve : solvePoly fl (List.replicate n 0) p (parsed ps n) = (retInputError, List.replicate n 0) := by
    simp only [solvePoly, length_parsed hn]
    by_cases h2 : n < 2
    · rw [if_pos h2]
    · rw [if_neg h2, if_pos (by omega)]
  have hlt : ∀ m ∈ List.replicate n 0, m < p := fun m hm => by rwa [List.eq_of_mem_replicate hm]
  rw [getRoots_eq fl hn hpos (by rwa [hsolve]), hsolve] at h
  cases h

omit [Fact p.Prime] in
/-- `GetRoots` returns on every slice that is long enough. -/
theorem exists_getRoots (hn : n ≤ ps.length) (hpos : 0 < n) : ∃ ret roots, getRoots fl (hexStr p) ps n = .ok (ret, roots) := by
  rw [getRoots, if_neg (by omega)]
  dsimp only
  split_ifs
  · exact ⟨_, _, rfl⟩
  · exact ⟨_, _, rfl⟩

end Solver

/-! ### A correct library -/

open Classical UniqueFactorizationMonoid in
/-- Inverses by the extended Euclidean algorithm and factors with their
multiplicities: what flint is required to compute, at every prime. -/
noncomputable def referenceLibrary : Library where
  invmod a p := ((a : ZMod p)⁻¹).val
  factorKaltofenShoup p f :=
    if h : p.Prime then
      haveI := Fact.mk h
      (normalizedFactors f.toPolynomial).toFinset.toList.map fun g =>
        (Poly.ofPolynomial g, (normalizedFactors f.toPolynomial).count g)
    else []

open Classical UniqueFactorizationMonoid in
theorem referenceLibrary_correct [hp : Fact p.Prime] : referenceLibrary.Correct p := by
  have hfactor : ∀ f : Poly p, ∀ g ∈ referenceLibrary.factorKaltofenShoup p f,
      ∃ P ∈ normalizedFactors f.toPolynomial,
        g = (Poly.ofPolynomial P, (normalizedFactors f.toPolynomial).count P) := by
    intro f g hg
    simp only [referenceLibrary, dif_pos hp.out, List.mem_map, Finset.mem_toList,
      Multiset.mem_toFinset] at hg
    obtain ⟨P, hP, rfl⟩ := hg
    exact ⟨P, hP, rfl⟩
  refine ⟨fun a ha => ?_, fun f hf g hg => ?_, fun f hf g hg => ?_, fun f hf g hg => ?_, fun f hf => ?_⟩
  · rw [referenceLibrary, Int.cast_natCast, ZMod.natCast_zmod_val]
    exact mul_inv_cancel₀ ha
  · obtain ⟨P, hP, rfl⟩ := hfactor f g hg
    rw [Poly.toPolynomial_ofPolynomial, ← normalize_normalized_factor P hP]
    exact monic_normalize (irreducible_of_normalized_factor P hP).ne_zero
  · obtain ⟨P, hP, rfl⟩ := hfactor f g hg
    rw [Poly.toPolynomial_ofPolynomial]
    exact irreducible_of_normalized_factor P hP
  · obtain ⟨P, hP, rfl⟩ := hfactor f g hg
    exact Multiset.count_pos.mpr hP
  · simp only [referenceLibrary, dif_pos hp.out, List.map_map, Function.comp_def,
      Poly.toPolynomial_ofPolynomial]
    rw [Finset.prod_map_toList, ← Finset.prod_multiset_count, prod_normalizedFactors_eq hf.ne_zero,
      hf.normalize_eq_self]

/-- The power sums of 4, 4 and 10 modulo 101. -/
theorem solvePoly_solves_three :
    ((solvePoly referenceLibrary [0, 0, 0] 101 [18, 132, 17]).2.map (Nat.cast : ℕ → ZMod 101)).Perm [4, 4, 10] := by
  have hsums : ∀ i (h : i < ([18, 132, 17] : List ℤ).length), ((([18, 132, 17] : List ℤ)[i] : ℤ) : ZMod 101) =
      (([4, 4, 10] : List (ZMod 101)).map (· ^ (i + 1))).sum := by decide
  have hprime : Fact (Nat.Prime 101) := ⟨by decide +kernel⟩
  exact ((solvePoly_solves referenceLibrary referenceLibrary_correct (by decide) (by decide) rfl (by decide)).2.2.2
    [4, 4, 10] rfl hsums).2

end Dcrtxmatcher.Flint
