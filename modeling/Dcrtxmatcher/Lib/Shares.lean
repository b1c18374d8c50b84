import Mathlib.Data.List.Nodup
import Mathlib.Data.List.Perm.Basic
import Mathlib.Data.List.Range
import Mathlib.Data.Option.Basic
import Mathlib.Logic.Function.Basic

/-! A list whose places are shared out.

Every owner has the list of its places and the piece that stands there. New
pieces go to the end, and the whole list may be permuted. -/
namespace Dcrtxmatcher.Lib
variable {K α : Type}

/-- The places of `l` belong to owners, each to one, and hold the owners' pieces. -/
structure Shares (places : K → List ℕ) (piece : K → List α) (l : List α) : Prop where
  disjoint : ∀ k k', k ≠ k' → (places k).Disjoint (places k')
  nodup : ∀ k, (places k).Nodup
  cover : ∀ i < l.length, ∃ k, i ∈ places k
  holds : ∀ k, (places k).map (l[·]?) = (piece k).map some

namespace Shares
variable {places : K → List ℕ} {piece : K → List α} {l : List α}

theorem empty : Shares (fun _ : K => []) (fun _ => []) ([] : List α) where
  disjoint _ _ _ := List.disjoint_nil_left _
  nodup _ := List.nodup_nil
  cover i hi := absurd hi (Nat.not_lt_zero i)
  holds _ := rfl

theorem length (h : Shares places piece l) (k : K) : (places k).length = (piece k).length := by
  simpa only [List.length_map] using congrArg List.length (h.holds k)

/-- The `j`-th place of an owner holds the `j`-th element of its piece. -/
theorem getElem?_place (h : Shares places piece l) {k : K} {j i : ℕ} (hi : (places k)[j]? = some i) :
    l[i]? = (piece k)[j]? := by
  have hj := congrArg (·[j]?) (h.holds k)
  simp only [List.getElem?_map, hi, Option.map_some] at hj
  cases hpiece : (piece k)[j]? with
  | none =>
    rw [hpiece] at hj
    cases hj
  | some a =>
    rw [hpiece, Option.map_some] at hj
    exact Option.some_inj.mp hj

theorem lt_of_mem (h : Shares places piece l) {k : K} {i : ℕ} (hi : i ∈ places k) : i < l.length := by
  obtain ⟨j, hj⟩ := List.mem_iff_getElem?.mp hi
  have hlt : j < (piece k).length := by
    rw [← h.length]
    exact (List.getElem?_eq_some_iff.mp hj).1
  have hl := h.getElem?_place hj
  rw [List.getElem?_eq_getElem hlt] at hl
  exact (List.getElem?_eq_some_iff.mp hl).1

/-- Whatever is in the list comes from a piece. -/
theorem exists_piece (h : Shares places piece l) {a : α} (ha : a ∈ l) : ∃ k, a ∈ piece k := by
  obtain ⟨i, hi⟩ := List.mem_iff_getElem?.mp ha
  obtain ⟨k, hk⟩ := h.cover i (List.getElem?_eq_some_iff.mp hi).1
  obtain ⟨j, hj⟩ := List.mem_iff_getElem?.mp hk
  exact ⟨k, List.mem_iff_getElem?.mpr ⟨j, by rw [← h.getElem?_place hj, hi]⟩⟩

theorem piece_eq_nil (h : Shares places piece l) {k : K} (hk : places k = []) : piece k = [] := by
  rw [← List.length_eq_zero_iff, ← h.length, hk, List.length_nil]

/-- An owner without places gets the places of a piece put at the end. -/
theorem append [DecidableEq K] (h : Shares places piece l) {k : K} (hk : places k = []) (new : List α) :
    Shares (Function.update places k (List.range' l.length new.length)) (Function.update piece k new) (l ++ new) := by
  have hnew : ∀ {i}, i ∈ List.range' l.length new.length → l.length ≤ i := fun hi => (List.mem_range'_1.mp hi).1
  refine ⟨?_, ?_, ?_, ?_⟩
  · intro k₁ k₂ hne i h₁ h₂
    by_cases hk₁ : k₁ = k
    · rw [hk₁, Function.update_self] at h₁
      rw [Function.update_of_ne (fun heq => hne (by rw [hk₁, heq]))] at h₂
      exact absurd (h.lt_of_mem h₂) (Nat.not_lt.mpr (hnew h₁))
    · rw [Function.update_of_ne hk₁] at h₁
      by_cases hk₂ : k₂ = k
      · rw [hk₂, Function.update_self] at h₂
        exact absurd (h.lt_of_mem h₁) (Nat.not_lt.mpr (hnew h₂))
      · rw [Function.update_of_ne hk₂] at h₂
        exact h.disjoint k₁ k₂ hne h₁ h₂
  · intro k'
    by_cases hk' : k' = k
    · rw [hk', Function.update_self]
      exact List.nodup_range'
    · rw [Function.update_of_ne hk']
      exact h.nodup k'
  · intro i hi
    by_cases hold : i < l.length
    · obtain ⟨k', hk'⟩ := h.cover i hold
      refine ⟨k', ?_⟩
      rwa [Function.update_of_ne]
      intro heq
      rw [heq, hk] at hk'
      cases hk'
    · refine ⟨k, ?_⟩
      rw [Function.update_self]
      rw [List.length_append] at hi
      exact List.mem_range'_1.mpr ⟨by omega, hi⟩
  · intro k'
    by_cases hk' : k' = k
    · rw [hk', Function.update_self, Function.update_self]
      apply List.ext_getElem?
      intro j
      rw [List.getElem?_map, List.getElem?_map]
      by_cases hj : j < new.length
      · rw [List.getElem?_eq_getElem (by rwa [List.length_range']), List.getElem_range', Option.map_some,
          List.getElem?_append_right (by omega), List.getElem?_eq_getElem hj, Option.map_some,
          show l.length + 1 * j - l.length = j by omega, List.getElem?_eq_getElem hj]
      · rw [List.getElem?_eq_none (by rw [List.length_range']; omega), List.getElem?_eq_none (by omega)]
        rfl
    · rw [Function.update_of_ne hk', Function.update_of_ne hk', ← h.holds k']
      refine List.map_congr_left fun i hi => ?_
      rw [List.getElem?_append_left (h.lt_of_mem hi)]

/-- The list rearranged, the places with it. -/
theorem move (h : Shares places piece l) {perm : List ℕ} (hperm : perm.Perm (List.range l.length)) {l' : List α}
    (hlength : l'.length = l.length) {places' : K → List ℕ}
    (hplaces : ∀ k, (places' k).map some = (places k).map (perm[·]?))
    (hmoved : ∀ i j : ℕ, perm[i]? = some j → l'[j]? = l[i]?) : Shares places' piece l' := by
  have hnodup : perm.Nodup := hperm.nodup_iff.mpr List.nodup_range
  -- a place and where it came from
  have hfrom : ∀ k j, j ∈ places' k ↔ ∃ i ∈ places k, perm[i]? = some j := by
    intro k j
    rw [← List.mem_map_of_injective (Option.some_injective ℕ), hplaces, List.mem_map]
  have hinj : ∀ {i i' j : ℕ}, perm[i]? = some j → perm[i']? = some j → i = i' := by
    intro i i' j hi hi'
    obtain ⟨hlt, hij⟩ := List.getElem?_eq_some_iff.mp hi
    obtain ⟨hlt', hij'⟩ := List.getElem?_eq_some_iff.mp hi'
    exact (hnodup.getElem_inj_iff).mp (hij.trans hij'.symm)
  refine ⟨?_, ?_, ?_, ?_⟩
  · intro k k' hne j hj hj'
    obtain ⟨i, hi, hij⟩ := (hfrom k j).mp hj
    obtain ⟨i', hi', hij'⟩ := (hfrom k' j).mp hj'
    exact h.disjoint k k' hne hi (hinj hij hij' ▸ hi')
  · intro k
    rw [← List.nodup_map_iff (Option.some_injective ℕ), hplaces]
    refine (h.nodup k).map_on fun i hi i' hi' heq => ?_
    obtain ⟨j, hj⟩ : ∃ j, perm[i]? = some j := by
      have hlt := h.lt_of_mem hi
      rw [← List.length_range (n := l.length), ← hperm.length_eq] at hlt
      exact ⟨_, List.getElem?_eq_getElem hlt⟩
    exact hinj hj (heq ▸ hj)
  · intro j hj
    rw [hlength] at hj
    obtain ⟨i, hij⟩ := List.mem_iff_getElem?.mp (hperm.mem_iff.mpr (List.mem_range.mpr hj))
    have hi : i < l.length := by
      rw [← List.length_range (n := l.length), ← hperm.length_eq]
      exact (List.getElem?_eq_some_iff.mp hij).1
    obtain ⟨k, hk⟩ := h.cover i hi
    exact ⟨k, (hfrom k j).mpr ⟨i, hk, hij⟩⟩
  · intro k
    rw [← h.holds k]
    have hread : ∀ {js is : List ℕ}, js.map some = is.map (perm[·]?) → js.map (l'[·]?) = is.map (l[·]?) := by
      intro js
      induction js with
      | nil =>
        intro is hjs
        rw [List.map_nil, eq_comm, List.map_eq_nil_iff] at hjs
        rw [hjs]
        rfl
      | cons j js ih =>
        intro is hjs
        cases is with
        | nil => cases hjs
        | cons i is =>
          rw [List.map_cons, List.map_cons, List.cons.injEq] at hjs
          rw [List.map_cons, List.map_cons, hmoved i j hjs.1.symm, ih hjs.2]
    exact hread (hplaces k)

/-- What is moved to new places is the same but for the order. -/
theorem perm_of_moved {l l' : List α} {perm : List ℕ} (hperm : perm.Perm (List.range l.length)) (hlength : l'.length = l.length)
    (hmoved : ∀ i j : ℕ, perm[i]? = some j → l'[j]? = l[i]?) : l'.Perm l := by
  have hread : ∀ l : List α, l.map some = (List.range l.length).map (l[·]?) := fun l => by
    refine List.ext_getElem (by simp) fun i hi _ => ?_
    simp only [List.length_map] at hi
    simp [hi]
  have hsame : perm.map (l'[·]?) = (List.range l.length).map (l[·]?) := by
    refine List.ext_getElem (by simp [hperm.length_eq]) fun i hi _ => ?_
    rw [List.length_map] at hi
    rw [List.getElem_map, List.getElem_map, List.getElem_range]
    exact hmoved i _ (List.getElem?_eq_getElem hi)
  refine (List.map_perm_map_iff (Option.some_injective α)).mp ?_
  rw [hread l', hlength, hread l, ← hsame]
  exact (hperm.map _).symm

end Shares

/-- The places of the owners are the numbers below `n`, each once. -/
structure Partition (places : K → List ℕ) (n : ℕ) : Prop where
  disjoint : ∀ k k', k ≠ k' → (places k).Disjoint (places k')
  nodup : ∀ k, (places k).Nodup
  cover : ∀ i < n, ∃ k, i ∈ places k
  bound : ∀ k, ∀ i ∈ places k, i < n

theorem Shares.partition {places : K → List ℕ} {piece : K → List α} {l : List α} (h : Shares places piece l) :
    Partition places l.length :=
  ⟨h.disjoint, h.nodup, h.cover, fun _ _ => h.lt_of_mem⟩

/-- Whoever owns places owns what stands there. -/
theorem Partition.shares {places : K → List ℕ} {l : List α} (h : Partition places l.length) :
    Shares places (fun k => (places k).filterMap (l[·]?)) l := by
  refine ⟨h.disjoint, h.nodup, h.cover, fun k => ?_⟩
  have hread : ∀ is : List ℕ, (∀ i ∈ is, i < l.length) → is.map (l[·]?) = (is.filterMap (l[·]?)).map some := by
    intro is
    induction is with
    | nil => exact fun _ => rfl
    | cons i is ih =>
      intro his
      have hi := his i (List.mem_cons_self ..)
      rw [List.filterMap_cons_some (List.getElem?_eq_getElem hi), List.map_cons, List.map_cons,
        ih fun i' hi' => his i' (List.mem_cons_of_mem i hi'), List.getElem?_eq_getElem hi]
  exact hread _ (h.bound k)

/-! ### Carrying entries to new places -/

/-- `new'` is `new` with the entries of `old` at `indes` carried to where `perm` puts them. -/
structure Carried (perm : List ℕ) (old : List α) (indes : List ℕ) (new new' : List α) : Prop where
  length : new'.length = new.length
  carried : ∀ i j : ℕ, perm[i]? = some j → i ∈ indes → new'[j]? = old[i]?
  kept : ∀ i j : ℕ, perm[i]? = some j → i ∉ indes → new'[j]? = new[j]?

namespace Carried
variable {perm : List ℕ} {old new new' new'' : List α} {indes indes' : List ℕ}

theorem nil : Carried perm old [] new new :=
  ⟨rfl, fun _ _ _ h => absurd h List.not_mem_nil, fun _ _ _ _ => rfl⟩

theorem trans (h : Carried perm old indes new new') (h' : Carried perm old indes' new' new'') :
    Carried perm old (indes ++ indes') new new'' := by
  refine ⟨h'.length.trans h.length, ?_, ?_⟩
  · intro i j hij hi
    by_cases hi' : i ∈ indes'
    · exact h'.carried i j hij hi'
    · rw [h'.kept i j hij hi']
      exact h.carried i j hij ((List.mem_append.mp hi).resolve_right hi')
  · intro i j hij hi
    rw [List.mem_append, not_or] at hi
    rw [h'.kept i j hij hi.2, h.kept i j hij hi.1]

/-- One entry set at its new place. -/
theorem set (hperm : perm.Nodup) {i j : ℕ} {a : α} (hij : perm[i]? = some j) (ha : old[i]? = some a)
    (hj : j < new.length) : Carried perm old [i] new (new.set j a) := by
  refine ⟨List.length_set, ?_, ?_⟩
  · intro i' j' hij' hi'
    rw [List.mem_singleton] at hi'
    rw [hi', hij, Option.some_inj] at hij'
    rw [hi', ← hij', List.getElem?_set_self hj, ha]
  · intro i' j' hij' hi'
    rw [List.mem_singleton] at hi'
    refine List.getElem?_set_ne fun hjj' => hi' ?_
    -- the permutation takes no place twice
    obtain ⟨hlt, heq⟩ := List.getElem?_eq_some_iff.mp hij
    obtain ⟨hlt', heq'⟩ := List.getElem?_eq_some_iff.mp hij'
    exact hperm.getElem_inj_iff.mp (heq'.trans (hjj'.symm.trans heq.symm))

end Carried

end Dcrtxmatcher.Lib
