import Mathlib.Algebra.Polynomial.Monic
import Mathlib.Algebra.Polynomial.Degree.Operations
import Mathlib.Data.ZMod.Basic
import Mathlib.RingTheory.UniqueFactorizationDomain.Basic

/-! The part of flint that the solver calls.

A polynomial modulo `p` (`fmpz_mod_polyxx`) is its list of coefficients, the
constant one first. The coefficient operations are written out; inversion modulo
`p` and factorisation are flint's own and enter as a parameter, `Flint`, with what
flint documents about them as `Flint.Correct`. -/
namespace Dcrtxmatcher.Flint

/-- `fmpz_mod_polyxx`. -/
abbrev Poly (p : ℕ) := List (ZMod p)

namespace Poly
variable {p : ℕ}

def getCoeff (f : Poly p) (i : ℕ) : ZMod p := f.getD i 0

/-- Longer lists of coefficients are filled up with zeros. -/
def setCoeff (f : Poly p) (i : ℕ) (c : ZMod p) : Poly p :=
  if i < f.length then f.set i c else f ++ List.replicate (i - f.length) 0 ++ [c]

/-- The zero polynomial has degree -1 in flint and 0 here; the solver only asks
whether a degree is 1. -/
def degree (f : Poly p) : ℕ := Nat.findGreatest (fun i => getCoeff f i ≠ 0) f.length

def lead (f : Poly p) : ZMod p := getCoeff f (degree f)

/-- The polynomial a list of coefficients stands for. -/
noncomputable def toPolynomial : Poly p → Polynomial (ZMod p)
  | [] => 0
  | c :: f => Polynomial.C c + Polynomial.X * toPolynomial f

theorem coeff_toPolynomial (f : Poly p) (i : ℕ) : (toPolynomial f).coeff i = getCoeff f i := by
  induction f generalizing i with
  | nil => simp [toPolynomial, getCoeff]
  | cons c f ih =>
    cases i with
    | zero => simp [toPolynomial, getCoeff]
    | succ i =>
      rw [toPolynomial, Polynomial.coeff_add, Polynomial.coeff_C_succ, zero_add, Polynomial.coeff_X_mul, ih]
      simp [getCoeff]

theorem getCoeff_setCoeff (f : Poly p) (i j : ℕ) (c : ZMod p) :
    getCoeff (setCoeff f i c) j = if j = i then c else getCoeff f j := by
  simp only [getCoeff, setCoeff, List.getD_eq_getElem?_getD]
  split_ifs with hi hj hj
  · simp [hj, hi]
  · simp [List.getElem?_set_ne (Ne.symm hj)]
  · have hle : f.length ≤ i := by omega
    rw [hj, List.getElem?_append_right (by simp; omega)]
    simp [hle]
  · rcases lt_or_ge j f.length with h | h
    · rw [List.append_assoc, List.getElem?_append_left h]
    · rw [List.getElem?_eq_none h, List.append_assoc, List.getElem?_append_right h]
      rcases lt_or_ge (j - f.length) (i - f.length) with h' | h'
      · rw [List.getElem?_append_left (by simpa using h')]
        simp [h']
      · rw [List.getElem?_append_right (by simpa using h'), List.getElem?_eq_none (by simp; omega)]

theorem natDegree_toPolynomial (f : Poly p) : (toPolynomial f).natDegree = degree f := by
  refine le_antisymm (Polynomial.natDegree_le_iff_coeff_eq_zero.mpr fun i hi => ?_) ?_
  · rw [coeff_toPolynomial]
    by_contra hne
    have hlt : i < f.length := by
      by_contra hge
      simp [getCoeff, List.getD_eq_getElem?_getD, List.getElem?_eq_none (not_lt.mp hge)] at hne
    exact Nat.findGreatest_is_greatest hi hlt.le hne
  · rcases Nat.eq_zero_or_pos (degree f) with h | h
    · omega
    · refine Polynomial.le_natDegree_of_ne_zero ?_
      rw [coeff_toPolynomial]
      exact Nat.findGreatest_of_ne_zero rfl h.ne'

theorem leadingCoeff_toPolynomial (f : Poly p) : (toPolynomial f).leadingCoeff = lead f := by
  rw [Polynomial.leadingCoeff, natDegree_toPolynomial, coeff_toPolynomial, lead]

/-- A monic linear polynomial is `X + c` with `c` its constant coefficient. -/
theorem toPolynomial_of_linear {f : Poly p} (hdeg : f.degree = 1) (hlead : f.lead = 1) :
    toPolynomial f = Polynomial.X + Polynomial.C (getCoeff f 0) := by
  have hmonic : (toPolynomial f).Monic := by rw [Polynomial.Monic, leadingCoeff_toPolynomial, hlead]
  rw [← coeff_toPolynomial]
  exact hmonic.eq_X_add_C (by rw [natDegree_toPolynomial, hdeg])

/-- The list of coefficients of a polynomial. -/
noncomputable def ofPolynomial (P : Polynomial (ZMod p)) : Poly p :=
  (List.range (P.natDegree + 1)).map P.coeff

theorem toPolynomial_ofPolynomial (P : Polynomial (ZMod p)) : toPolynomial (ofPolynomial P) = P := by
  ext i
  rw [coeff_toPolynomial, getCoeff, ofPolynomial, List.getD_eq_getElem?_getD]
  rcases lt_or_ge i (P.natDegree + 1) with h | h
  · simp [h]
  · rw [List.getElem?_eq_none (by simpa using h), Option.getD_none,
      Polynomial.coeff_eq_zero_of_natDegree_lt (by omega)]

end Poly

/-- What the solver takes from flint: `fmpz_invmod` and
`fmpz_mod_poly_factor_kaltofen_shoup`, whose factors come with their exponents. -/
structure Library where
  invmod : ℤ → ℕ → ℤ
  factorKaltofenShoup : (p : ℕ) → Poly p → List (Poly p × ℕ)

/-- What flint documents: the inverse of a unit, and for a monic polynomial of
positive degree its monic irreducible factors with their exponents. -/
structure Library.Correct (fl : Library) (p : ℕ) : Prop where
  invmod : ∀ a : ℤ, (a : ZMod p) ≠ 0 → (a : ZMod p) * (fl.invmod a p : ZMod p) = 1
  monic : ∀ f : Poly p, f.toPolynomial.Monic → ∀ g ∈ fl.factorKaltofenShoup p f, g.1.toPolynomial.Monic
  irreducible : ∀ f : Poly p, f.toPolynomial.Monic →
    ∀ g ∈ fl.factorKaltofenShoup p f, Irreducible g.1.toPolynomial
  exponent : ∀ f : Poly p, f.toPolynomial.Monic → ∀ g ∈ fl.factorKaltofenShoup p f, 0 < g.2
  prod : ∀ f : Poly p, f.toPolynomial.Monic →
    ((fl.factorKaltofenShoup p f).map fun g => g.1.toPolynomial ^ g.2).prod = f.toPolynomial

end Dcrtxmatcher.Flint
