import Dcrtxmatcher.Lib.Pads
import Mathlib.Algebra.Field.ZMod
import Mathlib.Data.Int.Interval
import Mathlib.Tactic.Linarith
import Mathlib.Tactic.Ring

/-! Pads that are small against the modulus.

Residues modulo a prime that are closed under adding some `c ≠ 0` are all residues
(`eq_univ_of_add_mem`). The signed pads of one party, each at most `m`, sum up to the
residue of a number in an interval of `m` times the number of other parties
(`exists_int_sum_signed`); if that is shorter than the modulus, their sums are closed
under adding nothing but zero. -/
namespace Dcrtxmatcher.Lib.Pads

section Translation
variable {p : ℕ} [Fact p.Prime] {A : Set (ZMod p)} {c : ZMod p}

theorem add_nsmul_mem (h : ∀ a ∈ A, a + c ∈ A) {a : ZMod p} (ha : a ∈ A) (k : ℕ) : a + k • c ∈ A := by
  induction k with
  | zero => rwa [zero_nsmul, add_zero]
  | succ k ih =>
    rw [succ_nsmul, ← add_assoc]
    exact h _ ih

theorem eq_univ_of_add_mem (hne : A.Nonempty) (h : ∀ a ∈ A, a + c ∈ A) (hc : c ≠ 0) : A = Set.univ := by
  obtain ⟨a, ha⟩ := hne
  apply Set.eq_univ_of_forall
  intro x
  have hx : a + ((x - a) / c).val • c = x := by
    rw [nsmul_eq_mul, ZMod.natCast_zmod_val, div_mul_cancel₀ _ hc, add_sub_cancel]
  exact hx ▸ add_nsmul_mem h ha _

/-- Residues of the numbers in a short interval are closed under adding zero only. -/
theorem eq_zero_of_add_mem (lo hi : ℤ) (hne : A.Nonempty) (h : ∀ a ∈ A, a + c ∈ A)
    (hA : ∀ a ∈ A, ∃ z : ℤ, lo ≤ z ∧ z ≤ hi ∧ a = z) (hshort : hi + 1 - lo < p) : c = 0 := by
  by_contra hc
  have hall := eq_univ_of_add_mem hne h hc
  have hsub : (Finset.univ : Finset (ZMod p)) ⊆ (Finset.Icc lo hi).image Int.cast := by
    intro a _
    obtain ⟨z, hlo, hhi, rfl⟩ := hA a (hall ▸ Set.mem_univ a)
    exact Finset.mem_image_of_mem _ (Finset.mem_Icc.mpr ⟨hlo, hhi⟩)
  have hcard := (Finset.card_le_card hsub).trans Finset.card_image_le
  have hpos := (Fact.out : p.Prime).pos
  rw [Finset.card_univ, ZMod.card, Int.card_Icc] at hcard
  omega

end Translation

section Signed
variable {ι : Type*} [LinearOrder ι] {n : ℕ}

/-- Signed pads of party `p` against the parties `l`, each pad at most `m`. -/
theorem exists_int_sum_signed (pad : ι → ι → ZMod n) {m : ℕ} (hpad : ∀ p q, ∃ k ≤ m, pad p q = (k : ZMod n)) (p : ι)
    (l : List ι) : ∃ z : ℤ, -(l.countP (p < ·) * m : ℤ) ≤ z ∧ z ≤ l.countP (· < p) * m ∧ (l.map (signed pad p)).sum = z := by
  induction l with
  | nil => exact ⟨0, by simp, by simp, by simp⟩
  | cons q l ih =>
    obtain ⟨z, hlo, hhi, hsum⟩ := ih
    obtain ⟨k, hk, hq⟩ := hpad p q
    rw [List.map_cons, List.sum_cons, hsum, signed, hq]
    have hk' : (k : ℤ) ≤ m := by exact_mod_cast hk
    rcases lt_trichotomy q p with hlt | rfl | hlt
    · refine ⟨k + z, ?_, ?_, by rw [if_pos hlt]; push_cast; ring⟩
      · rw [List.countP_cons_of_neg (by simpa using hlt.le)]
        omega
      · rw [List.countP_cons_of_pos (by simpa using hlt)]
        push_cast
        linarith
    · refine ⟨z, ?_, ?_, by rw [if_neg (lt_irrefl q), if_neg (lt_irrefl q), zero_add]⟩
      · rwa [List.countP_cons_of_neg (by simp)]
      · rwa [List.countP_cons_of_neg (by simp)]
    · refine ⟨-k + z, ?_, ?_, by rw [if_neg hlt.not_gt, if_pos hlt]; push_cast; ring⟩
      · rw [List.countP_cons_of_pos (by simpa using hlt)]
        push_cast
        linarith
      · rw [List.countP_cons_of_neg (by simpa using hlt.le)]
        omega

/-- A party has fewer others than there are parties. -/
theorem countP_others_lt {p : ι} {l : List ι} (hp : p ∈ l) :
    l.countP (p < ·) + l.countP (· < p) + 1 ≤ l.length := by
  have hcount : ∀ l : List ι, l.countP (p < ·) + l.countP (· < p) + l.count p = l.length := by
    intro l
    induction l with
    | nil => rfl
    | cons q l ih =>
      rcases lt_trichotomy q p with hlt | rfl | hlt
      · simp only [List.countP_cons, List.count_cons, List.length_cons, hlt, hlt.not_gt, hlt.ne, beq_iff_eq, decide_true,
          decide_false, if_true, if_false, Bool.false_eq_true]
        omega
      · simp only [List.countP_cons, List.count_cons, List.length_cons, lt_irrefl, BEq.rfl, decide_false, if_true, if_false,
          Bool.false_eq_true]
        omega
      · simp only [List.countP_cons, List.count_cons, List.length_cons, hlt, hlt.not_gt, hlt.ne', beq_iff_eq, decide_true,
          decide_false, if_true, if_false, Bool.false_eq_true]
        omega
  have hpos := List.count_pos_iff.mpr hp
  have := hcount l
  omega

end Signed

end Dcrtxmatcher.Lib.Pads
