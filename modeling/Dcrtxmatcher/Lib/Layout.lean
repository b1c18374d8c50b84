import Mathlib.Data.List.Nodup
import Mathlib.Data.List.Flatten
import Mathlib.Data.List.Range

/-! Lists laid one after the other.

Every list belongs to a key. `positions` are the places its elements get in the
result; together they are all the places, each once. -/
namespace Dcrtxmatcher.Lib.Layout
variable {K α : Type} [DecidableEq K]

/-- The places of a key's elements, when the first list starts at place `n`. -/
def positions (n : ℕ) : List (K × List α) → K → List ℕ
  | [], _ => []
  | (k', l) :: rest, k =>
    (if k' = k then (List.range l.length).map (· + n) else []) ++ positions (n + l.length) rest k

theorem positions_of_notMem {blocks : List (K × List α)} {k : K} (h : k ∉ blocks.map Prod.fst) (n : ℕ) :
    positions n blocks k = [] := by
  induction blocks generalizing n with
  | nil => rfl
  | cons block rest ih =>
    rw [List.map_cons, List.mem_cons, not_or] at h
    rw [positions, if_neg (Ne.symm h.1), ih h.2, List.nil_append]

/-- With distinct keys the places of a key are those of its one list. -/
theorem positions_head {k : K} {l : List α} {rest : List (K × List α)} (h : k ∉ rest.map Prod.fst) (n : ℕ) :
    positions n ((k, l) :: rest) k = (List.range l.length).map (· + n) := by
  rw [positions, if_pos rfl, positions_of_notMem h, List.append_nil]

theorem positions_tail {k k' : K} (hne : k' ≠ k) (l : List α) (rest : List (K × List α)) (n : ℕ) :
    positions n ((k', l) :: rest) k = positions (n + l.length) rest k := by
  rw [positions, if_neg hne, List.nil_append]

/-- A key has a place for each element of its list. -/
theorem length_positions {blocks : List (K × List α)} (h : (blocks.map Prod.fst).Nodup) {k : K} {l : List α}
    (hmem : (k, l) ∈ blocks) (n : ℕ) : (positions n blocks k).length = l.length := by
  induction blocks generalizing n with
  | nil => cases hmem
  | cons block rest ih =>
    obtain ⟨k', l'⟩ := block
    rw [List.map_cons, List.nodup_cons] at h
    rcases List.mem_cons.mp hmem with heq | hrest
    · cases heq
      rw [positions_head h.1, List.length_map, List.length_range]
    · have hne : k' ≠ k := fun heq => h.1 (List.mem_map.mpr ⟨(k, l), hrest, heq.symm⟩)
      rw [positions_tail hne, ih h.2 hrest]

/-- The keys in their order have the places in theirs. -/
theorem flatMap_positions {blocks : List (K × List α)} (h : (blocks.map Prod.fst).Nodup) (n : ℕ) :
    (blocks.flatMap fun block => positions n blocks block.1) = List.range' n (blocks.flatMap Prod.snd).length := by
  induction blocks generalizing n with
  | nil => rfl
  | cons block rest ih =>
    obtain ⟨k, l⟩ := block
    rw [List.map_cons, List.nodup_cons] at h
    have htail : ∀ block ∈ rest, positions n ((k, l) :: rest) block.1 = positions (n + l.length) rest block.1 := by
      intro block hmem
      refine positions_tail (fun heq => h.1 ?_) l rest n
      exact List.mem_map.mpr ⟨block, hmem, heq.symm⟩
    have hhead : (List.range l.length).map (· + n) = List.range' n l.length := by
      simp only [Nat.add_comm _ n, List.range_eq_range', List.map_add_range', Nat.add_zero]
    rw [List.flatMap_cons, positions_head h.1, List.flatMap_congr htail, ih h.2, hhead, List.range'_append_1,
      List.flatMap_cons, List.length_append]

/-- At its places a key finds its elements in order. -/
theorem getElem?_positions {blocks : List (K × List α)} (h : (blocks.map Prod.fst).Nodup) {k : K} {l : List α}
    (hmem : (k, l) ∈ blocks) (before : List α) {i place : ℕ} (hi : (positions before.length blocks k)[i]? = some place) :
    (before ++ blocks.flatMap Prod.snd)[place]? = l[i]? := by
  induction blocks generalizing before with
  | nil => cases hmem
  | cons block rest ih =>
    obtain ⟨k', l'⟩ := block
    rw [List.map_cons, List.nodup_cons] at h
    rw [List.flatMap_cons]
    rcases List.mem_cons.mp hmem with heq | hrest
    · cases heq
      rw [positions_head h.1, List.getElem?_map, Option.map_eq_some_iff] at hi
      obtain ⟨_, hj, rfl⟩ := hi
      obtain ⟨hlt, rfl⟩ := List.getElem?_eq_some_iff.mp hj
      rw [List.length_range] at hlt
      rw [List.getElem_range, List.getElem?_append_right (Nat.le_add_left ..), Nat.add_sub_cancel,
        List.getElem?_append_left hlt]
    · have hne : k' ≠ k := fun heq => h.1 (List.mem_map.mpr ⟨(k, l), hrest, heq.symm⟩)
      rw [positions_tail hne, ← List.length_append] at hi
      rw [← List.append_assoc]
      exact ih h.2 hrest (before ++ l') hi

end Dcrtxmatcher.Lib.Layout
