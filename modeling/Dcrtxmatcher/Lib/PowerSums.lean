import Mathlib.RingTheory.MvPolynomial.Symmetric.NewtonIdentities
import Mathlib.RingTheory.Polynomial.Vieta
import Mathlib.RingTheory.Polynomial.UniqueFactorization
import Mathlib.Algebra.Polynomial.Roots
import Mathlib.Tactic.LinearCombination

/-! Power sums of multisets and the monic polynomial they determine.

A multiset of `n` field elements is the root multiset of one monic polynomial of
degree `n`. Newton's identities tie the coefficients of that polynomial to the
first `n` power sums through a recurrence (`Newton`), and when `1, …, n` are
invertible each side of the recurrence determines the other: the coefficients
come from the power sums (`Newton.coeff_unique`) and the power sums from the
coefficients (`Newton.sum_unique`). So the first `n` power sums determine the
multiset (`eq_of_psum_eq`). -/
namespace Dcrtxmatcher.Lib.PowerSums
open Polynomial

section Ring
variable {R : Type*} [CommRing R]

/-- The `k`-th power sum. -/
def psum (M : Multiset R) (k : ℕ) : R := (M.map (· ^ k)).sum

@[simp] theorem psum_zero (k : ℕ) : psum (0 : Multiset R) k = 0 := rfl

@[simp] theorem psum_add (M N : Multiset R) (k : ℕ) : psum (M + N) k = psum M k + psum N k := by
  simp [psum]

/-- A sum of multisets has the sums of their power sums. -/
theorem psum_listSum (l : List (Multiset R)) (k : ℕ) : psum l.sum k = (l.map (psum · k)).sum := by
  induction l with
  | nil => rfl
  | cons M l ih => rw [List.sum_cons, psum_add, ih, List.map_cons, List.sum_cons]

/-- The monic polynomial whose roots are the multiset. -/
noncomputable def rootPoly (M : Multiset R) : R[X] := (M.map fun r => X - C r).prod

theorem rootPoly_monic (M : Multiset R) : (rootPoly M).Monic :=
  monic_multiset_prod_of_monic _ _ fun r _ => monic_X_sub_C r

theorem rootPoly_natDegree [Nontrivial R] (M : Multiset R) : (rootPoly M).natDegree = M.card := by
  simp [rootPoly, natDegree_multiset_prod_X_sub_C_eq_card]

/-- Coefficients below the leading one, counted from the top. -/
noncomputable def coeffFromTop (M : Multiset R) (i : ℕ) : R := (rootPoly M).coeff (M.card - 1 - i)

theorem coeffFromTop_eq_esymm (M : Multiset R) {i : ℕ} (hi : i < M.card) :
    coeffFromTop M i = (-1) ^ (i + 1) * M.esymm (i + 1) := by
  rw [coeffFromTop, rootPoly, Multiset.prod_X_sub_C_coeff M (by omega),
    show M.card - (M.card - 1 - i) = i + 1 by omega]

/-! ### The recurrence -/

/-- Newton's recurrence between the coefficients `c`, counted from the top, and
the power sums `s`, where `s i` is the power sum of exponent `i + 1`. -/
def Newton (n : ℕ) (s c : ℕ → R) : Prop :=
  ∀ i < n, (i + 1 : R) * c i + (s i + ∑ k ∈ Finset.range i, c k * s (i - 1 - k)) = 0

/-- Newton's identities for the elementary symmetric functions of a multiset. -/
theorem mul_esymm_eq_sum (M : Multiset R) (k : ℕ) :
    (k : R) * M.esymm k = (-1) ^ (k + 1) *
      ∑ j ∈ Finset.range k, (-1) ^ j * M.esymm j * psum M (k - j) := by
  obtain ⟨f, hf⟩ : ∃ f : Fin M.card → R, Finset.univ.val.map f = M := by
    obtain ⟨l, rfl⟩ := Quot.exists_rep M
    refine ⟨fun i => l.get (i.cast (by simp)), ?_⟩
    exact (Fin.univ_val_map _).trans (congrArg _ (List.ofFn_get l))
  have hsum : ∀ m, MvPolynomial.aeval f (MvPolynomial.psum (Fin M.card) R m) = psum M m := by
    intro m
    simp only [MvPolynomial.psum, map_sum, map_pow, MvPolynomial.aeval_X, psum]
    conv_rhs => rw [← hf, Multiset.map_map]
    rfl
  have hesymm : ∀ m, MvPolynomial.aeval f (MvPolynomial.esymm (Fin M.card) R m) = M.esymm m := by
    intro m
    rw [MvPolynomial.aeval_esymm_eq_multiset_esymm, hf]
  have h := congrArg (MvPolynomial.aeval f) (MvPolynomial.mul_esymm_eq_sum (Fin M.card) R k)
  simp only [map_mul, map_natCast, map_pow, map_neg, map_one, map_sum, hsum, hesymm] at h
  rw [h]
  congr 1
  rw [Finset.sum_filter, Finset.Nat.sum_antidiagonal_eq_sum_range_succ_mk, Finset.sum_range_succ]
  simp only [lt_irrefl, if_false, add_zero]
  refine Finset.sum_congr rfl fun j hj => ?_
  rw [if_pos (Finset.mem_range.mp hj)]

/-- The coefficients and the power sums of one multiset satisfy the recurrence. -/
theorem newton_coeffFromTop (M : Multiset R) :
    Newton M.card (fun i => psum M (i + 1)) (coeffFromTop M) := by
  intro i hi
  have h := mul_esymm_eq_sum M (i + 1)
  have hzero : M.esymm 0 = 1 := by simp [Multiset.esymm]
  rw [Finset.sum_range_succ', Nat.sub_zero, pow_zero, one_mul, hzero, one_mul] at h
  have hc : ∀ k < i + 1, coeffFromTop M k = (-1) ^ (k + 1) * M.esymm (k + 1) :=
    fun k hk => coeffFromTop_eq_esymm M (by omega)
  have hsum : ∑ k ∈ Finset.range i, coeffFromTop M k * psum M (i - 1 - k + 1) =
      ∑ k ∈ Finset.range i, (-1) ^ (k + 1) * M.esymm (k + 1) * psum M (i - k) := by
    refine Finset.sum_congr rfl fun k hk => ?_
    have hk := Finset.mem_range.mp hk
    rw [hc k (by omega), show i - 1 - k + 1 = i - k by omega]
  have hsign : ((-1 : R) ^ (i + 1)) * (-1) ^ (i + 1 + 1) = -1 := by
    rw [← pow_add, show i + 1 + (i + 1 + 1) = 2 * (i + 1) + 1 by omega, pow_succ, pow_mul]
    simp
  push_cast at h
  show (i + 1 : R) * coeffFromTop M i + (psum M (i + 1) + _) = 0
  rw [hsum, hc i (by omega), mul_left_comm, h, ← mul_assoc, hsign]
  ring

end Ring

section Field
variable {F : Type*} [Field F]

/-- The recurrence determines the coefficients. -/
theorem Newton.coeff_unique {n : ℕ} {s c d : ℕ → F} (hn : ∀ i < n, (i + 1 : F) ≠ 0)
    (hc : Newton n s c) (hd : Newton n s d) : ∀ i < n, c i = d i := by
  intro i
  induction i using Nat.strong_induction_on with
  | _ i ih =>
    intro hi
    have hsum : ∑ k ∈ Finset.range i, c k * s (i - 1 - k) = ∑ k ∈ Finset.range i, d k * s (i - 1 - k) :=
      Finset.sum_congr rfl fun k hk => by
        have hk := Finset.mem_range.mp hk
        rw [ih k hk (by omega)]
    have hci := hc i hi
    have hdi := hd i hi
    rw [hsum] at hci
    exact mul_left_cancel₀ (hn i hi) (by linear_combination hci - hdi)

/-- The recurrence determines the power sums. -/
theorem Newton.sum_unique {n : ℕ} {s t c : ℕ → F} (hs : Newton n s c) (ht : Newton n t c) :
    ∀ i < n, s i = t i := by
  intro i
  induction i using Nat.strong_induction_on with
  | _ i ih =>
    intro hi
    have hsum : ∑ k ∈ Finset.range i, c k * s (i - 1 - k) = ∑ k ∈ Finset.range i, c k * t (i - 1 - k) :=
      Finset.sum_congr rfl fun k hk => by
        have hk := Finset.mem_range.mp hk
        rw [ih (i - 1 - k) (by omega) (by omega)]
    have hsi := hs i hi
    have hti := ht i hi
    rw [hsum] at hsi
    linear_combination hsi - hti

/-- The recurrence reads coefficients only below `n`. -/
theorem Newton.congr {n : ℕ} {s t c d : ℕ → F} (h : Newton n s c) (hst : ∀ i < n, s i = t i)
    (hcd : ∀ i < n, c i = d i) : Newton n t d := by
  intro i hi
  have hsum : ∑ k ∈ Finset.range i, d k * t (i - 1 - k) = ∑ k ∈ Finset.range i, c k * s (i - 1 - k) :=
    Finset.sum_congr rfl fun k hk => by
      have hk := Finset.mem_range.mp hk
      rw [hcd k (by omega), hst (i - 1 - k) (by omega)]
  rw [hsum, ← hst i hi, ← hcd i hi]
  exact h i hi

/-- Two monic polynomials of one degree with the same lower coefficients, counted
from the top, are the root polynomials of the same multiset. -/
theorem eq_of_coeffFromTop_eq {M N : Multiset F} (hcard : M.card = N.card)
    (h : ∀ i < M.card, coeffFromTop M i = coeffFromTop N i) : M = N := by
  have hpoly : rootPoly M = rootPoly N := by
    ext j
    rcases lt_trichotomy j M.card with hj | hj | hj
    · have := h (M.card - 1 - j) (by omega)
      simp only [coeffFromTop, ← hcard] at this
      rwa [show M.card - 1 - (M.card - 1 - j) = j by omega] at this
    · have hM := rootPoly_monic M
      have hN := rootPoly_monic N
      rw [Monic, leadingCoeff, rootPoly_natDegree] at hM hN
      rw [hj, hM, hcard, hN]
    · rw [coeff_eq_zero_of_natDegree_lt (by rwa [rootPoly_natDegree]),
        coeff_eq_zero_of_natDegree_lt (by rwa [rootPoly_natDegree, ← hcard])]
  have hroots := congrArg roots hpoly
  simpa only [rootPoly, roots_multiset_prod_X_sub_C] using hroots

/-- The first `n` power sums determine a multiset of `n` elements. -/
theorem eq_of_psum_eq {M N : Multiset F} (hcard : M.card = N.card)
    (hn : ∀ i < M.card, (i + 1 : F) ≠ 0)
    (h : ∀ i < M.card, psum M (i + 1) = psum N (i + 1)) : M = N := by
  refine eq_of_coeffFromTop_eq hcard ?_
  have hM := newton_coeffFromTop M
  have hN := newton_coeffFromTop N
  rw [← hcard] at hN
  exact Newton.coeff_unique hn (hM.congr h fun _ _ => rfl) hN

end Field

end Dcrtxmatcher.Lib.PowerSums
