import Mathlib.Data.List.Count
import Mathlib.Data.List.Sort
import Mathlib.Order.Defs.LinearOrder

/-! Positions in sorted lists.

An element of a sorted list stands right after the elements below it, as often as
it occurs (`sorted_getElem?_iff`). So it has the same positions in two sorted lists
exactly when both have as many elements below it. -/
namespace Dcrtxmatcher.Lib.Ranks

variable {α : Type*} [LinearOrder α]

theorem countP_lt_eq_zero {l : List α} {g : α} (h : ∀ a ∈ l, g ≤ a) : l.countP (· < g) = 0 :=
  List.countP_eq_zero.mpr fun a ha => by simpa using h a ha

/-- Where an element of a sorted list stands. -/
theorem sorted_getElem?_iff {l : List α} (hl : l.Pairwise (· ≤ ·)) (g : α) (i : ℕ) :
    l[i]? = some g ↔ l.countP (· < g) ≤ i ∧ i < l.countP (· < g) + l.count g := by
  induction l generalizing i with
  | nil => simp
  | cons a l ih =>
    obtain ⟨hle, hl⟩ := List.pairwise_cons.mp hl
    rcases lt_trichotomy a g with hlt | rfl | hgt
    · have hcountP : (a :: l).countP (· < g) = l.countP (· < g) + 1 := by simp [hlt]
      have hcount : (a :: l).count g = l.count g := List.count_cons_of_ne hlt.ne
      rw [hcountP, hcount]
      cases i with
      | zero => simp [hlt.ne]
      | succ i => rw [List.getElem?_cons_succ, ih hl]; omega
    · have hzero : l.countP (· < a) = 0 := countP_lt_eq_zero hle
      have hcountP : (a :: l).countP (· < a) = 0 := by simp [hzero]
      rw [hcountP, List.count_cons_self]
      cases i with
      | zero => simp
      | succ i => rw [List.getElem?_cons_succ, ih hl, hzero]; omega
    · have hzero : ∀ b ∈ a :: l, g ≤ b := by
        intro b hb
        rcases List.mem_cons.mp hb with rfl | hb
        · exact hgt.le
        · exact hgt.le.trans (hle b hb)
      have hnone : g ∉ a :: l := by
        intro hg
        rcases List.mem_cons.mp hg with rfl | hg
        · exact lt_irrefl _ hgt
        · exact absurd (hle g hg) (not_le.mpr hgt)
      rw [countP_lt_eq_zero hzero, List.count_eq_zero_of_not_mem hnone]
      constructor
      · exact fun h => absurd (List.mem_of_getElem? h) hnone
      · omega

/-- **An element of a strictly sorted list has the same positions in another sorted
list that is no longer, exactly when it occurs there once and with as many
elements below it.** -/
theorem same_positions_iff {A B : List α} (hA : A.Pairwise (· ≤ ·)) (hB : B.Pairwise (· < ·))
    (hlen : A.length ≤ B.length) {g : α} (hg : g ∈ B) :
    (∀ i < B.length, (A[i]? = some g ↔ B[i]? = some g)) ↔
      A.countP (· < g) = B.countP (· < g) ∧ A.count g = 1 := by
  have hone : B.count g = 1 := List.count_eq_one_of_mem (hB.imp fun h => h.ne) hg
  have hposB := fun i => sorted_getElem?_iff (hB.imp le_of_lt) g i
  have hposA := fun i => sorted_getElem?_iff hA g i
  have hAlen : A.countP (· < g) + A.count g ≤ A.length := by
    rcases Nat.eq_zero_or_pos (A.count g) with h | h
    · rw [h]
      exact List.countP_le_length
    · have hlast := (hposA (A.countP (· < g) + A.count g - 1)).mpr (by omega)
      have := (List.getElem?_eq_some_iff.mp hlast).1
      omega
  have hrank : B.countP (· < g) < B.length :=
    (List.getElem?_eq_some_iff.mp ((hposB (B.countP (· < g))).mpr (by omega))).1
  simp only [hposA, hposB, hone]
  constructor
  · intro h
    have hat := (h (B.countP (· < g)) hrank).mpr (by omega)
    have hfirst := (h (A.countP (· < g)) (by omega)).mp (by omega)
    have hlast := (h (A.countP (· < g) + A.count g - 1) (by omega)).mp (by omega)
    omega
  · rintro ⟨hrankA, hcount⟩ i _
    omega

end Dcrtxmatcher.Lib.Ranks
