import Dcrtxmatcher.Lib.Shares

/-! A list some of whose places belong to owners.

As `Shares`, but there may be places that are nobody's, where an owner has left or has
got other places. Whatever they hold, they can be taken for the share of one more owner. -/
namespace Dcrtxmatcher.Lib
variable {K α : Type}

/-- Each owner has places of its own, and they hold the owner's piece. -/
structure Pieces (places : K → List ℕ) (piece : K → List α) (l : List α) : Prop where
  disjoint : ∀ k k', k ≠ k' → (places k).Disjoint (places k')
  nodup : ∀ k, (places k).Nodup
  holds : ∀ k, (places k).map (l[·]?) = (piece k).map some

/-- What can be read at places in range. -/
theorem exists_read {l : List α} {is : List ℕ} (h : ∀ i ∈ is, i < l.length) : ∃ r : List α, is.map (l[·]?) = r.map some := by
  induction is with
  | nil => exact ⟨[], rfl⟩
  | cons i is ih =>
    obtain ⟨r, hr⟩ := ih fun i' hi' => h i' (List.mem_cons_of_mem i hi')
    have hi := List.getElem?_eq_getElem (h i (List.mem_cons_self ..))
    exact ⟨_ :: r, by rw [List.map_cons, List.map_cons, hr, hi]⟩

theorem Shares.pieces {places : K → List ℕ} {piece : K → List α} {l : List α} (h : Shares places piece l) : Pieces places piece l :=
  ⟨h.disjoint, h.nodup, h.holds⟩

/-- The owners but one. -/
theorem Shares.owners {places : Option K → List ℕ} {piece : Option K → List α} {l : List α} (h : Shares places piece l) :
    Pieces (fun k => places (some k)) (fun k => piece (some k)) l :=
  ⟨fun k k' hne => h.disjoint (some k) (some k') fun heq => hne (Option.some.inj heq), fun k => h.nodup (some k), fun k => h.holds (some k)⟩

namespace Pieces
variable {places : K → List ℕ} {piece : K → List α} {l : List α}

theorem lt_of_mem (h : Pieces places piece l) {k : K} {i : ℕ} (hi : i ∈ places k) : i < l.length := by
  have hread : l[i]? ∈ (piece k).map some := h.holds k ▸ List.mem_map_of_mem hi
  obtain ⟨a, -, ha⟩ := List.mem_map.mp hread
  exact (List.getElem?_eq_some_iff.mp ha.symm).1

/-- Nobody's places as the share of one more owner. -/
theorem exists_shares (h : Pieces places piece l) : ∃ (rest : List ℕ) (left : List α),
    Shares (fun k : Option K => k.elim rest places) (fun k => k.elim left piece) l := by
  classical
  obtain ⟨rest, hrest⟩ : ∃ rest, rest = (List.range l.length).filter fun i => decide (∀ k, i ∉ places k) := ⟨_, rfl⟩
  have hmem : ∀ i, i ∈ rest ↔ i < l.length ∧ ∀ k, i ∉ places k := fun i => by simp [hrest]
  obtain ⟨left, hleft⟩ : ∃ left : List α, rest.map (l[·]?) = left.map some := exists_read fun i hi => ((hmem i).mp hi).1
  refine ⟨rest, left, ?_, ?_, ?_, ?_⟩
  · intro k k' hne i hi hi'
    cases k with
    | none =>
      cases k' with
      | none => exact hne rfl
      | some k' => exact ((hmem i).mp hi).2 k' hi'
    | some k =>
      cases k' with
      | none => exact ((hmem i).mp hi').2 k hi
      | some k' => exact h.disjoint k k' (fun heq => hne (congrArg some heq)) hi hi'
  · intro k
    cases k with
    | none =>
      show rest.Nodup
      rw [hrest]
      exact List.nodup_range.filter _
    | some k => exact h.nodup k
  · intro i hi
    by_cases howner : ∃ k, i ∈ places k
    · obtain ⟨k, hk⟩ := howner
      exact ⟨some k, hk⟩
    · exact ⟨none, (hmem i).mpr ⟨hi, not_exists.mp howner⟩⟩
  · intro k
    cases k with
    | none => exact hleft
    | some k => exact h.holds k

/-- Some owners leave. -/
theorem leave (h : Pieces places piece l) {places' : K → List ℕ} {piece' : K → List α}
    (hleft : ∀ k, places' k = places k ∧ piece' k = piece k ∨ places' k = [] ∧ piece' k = []) : Pieces places' piece' l where
  disjoint k k' hne := by
    rcases hleft k with ⟨hk, -⟩ | ⟨hk, -⟩
    · rcases hleft k' with ⟨hk', -⟩ | ⟨hk', -⟩
      · rw [hk, hk']
        exact h.disjoint k k' hne
      · rw [hk']
        exact List.disjoint_nil_right _
    · rw [hk]
      exact List.disjoint_nil_left _
  nodup k := by
    rcases hleft k with ⟨hk, -⟩ | ⟨hk, -⟩
    · rw [hk]
      exact h.nodup k
    · rw [hk]
      exact List.nodup_nil
  holds k := by
    rcases hleft k with ⟨hk, hpiece⟩ | ⟨hk, hpiece⟩
    · rw [hk, hpiece]
      exact h.holds k
    · rw [hk, hpiece]
      rfl

/-- An owner gets the places of a piece put at the end instead of those that it had. -/
theorem replace [DecidableEq K] (h : Pieces places piece l) (k : K) (new : List α) :
    Pieces (Function.update places k (List.range' l.length new.length)) (Function.update piece k new) (l ++ new) := by
  have hdropped : Pieces (Function.update places k []) (Function.update piece k []) l := h.leave fun k' => by
    by_cases hk' : k' = k
    · rw [hk', Function.update_self, Function.update_self]
      exact .inr ⟨rfl, rfl⟩
    · rw [Function.update_of_ne hk', Function.update_of_ne hk']
      exact .inl ⟨rfl, rfl⟩
  obtain ⟨rest, left, hshares⟩ := hdropped.exists_shares
  have hnone : Function.update places k [] k = [] := Function.update_self ..
  have hnew := (Shares.append (k := some k) hshares hnone new).owners
  have howner : ∀ {β : Type} (f : K → List β) (g b : List β), (fun k' : K =>
      Function.update (fun o : Option K => o.elim g (Function.update f k [])) (some k) b (some k')) = Function.update f k b := by
    intro β f g b
    funext k'
    by_cases hk' : k' = k
    · rw [hk', Function.update_self, Function.update_self]
    · rw [Function.update_of_ne fun heq => hk' (Option.some.inj heq), Function.update_of_ne hk']
      exact Function.update_of_ne hk' _ _
  rwa [howner, howner] at hnew

/-- The list rearranged, the owners' places with what they hold. -/
theorem move (h : Pieces places piece l) {perm : List ℕ} (hperm : perm.Perm (List.range l.length)) {l' : List α}
    (hlength : l'.length = l.length) {places' : K → List ℕ} (hplaces : ∀ k, (places' k).map some = (places k).map (perm[·]?))
    (hmoved : ∀ k, ∀ i ∈ places k, ∀ j, perm[i]? = some j → l'[j]? = l[i]?) : Pieces places' piece l' := by
  have hrange : ∀ j ∈ perm, j < l'.length := fun j hj => hlength ▸ List.mem_range.mp (hperm.mem_iff.mp hj)
  -- the new list in the old order holds the same for the owners
  obtain ⟨l₀, hl₀⟩ := exists_read hrange
  have hback : ∀ i j : ℕ, perm[i]? = some j → l'[j]? = l₀[i]? := by
    intro i j hij
    have hi := congrArg (·[i]?) hl₀
    simp only [List.getElem?_map, hij, Option.map_some] at hi
    cases hread : l₀[i]? with
    | none =>
      rw [hread] at hi
      cases hi
    | some a =>
      rw [hread] at hi
      exact Option.some.inj hi
  have hlength₀ : l₀.length = l.length := by
    have hsame := congrArg List.length hl₀
    rw [List.length_map, List.length_map, hperm.length_eq, List.length_range] at hsame
    exact hsame.symm
  have hl : Pieces places piece l₀ := ⟨h.disjoint, h.nodup, fun k => by
    rw [← h.holds k]
    refine List.map_congr_left fun i hi => ?_
    obtain ⟨j, hj⟩ : ∃ j, perm[i]? = some j := by
      have hlt := h.lt_of_mem hi
      rw [← List.length_range (n := l.length), ← hperm.length_eq] at hlt
      exact ⟨_, List.getElem?_eq_getElem hlt⟩
    rw [← hback i j hj, hmoved k i hi j hj]⟩
  obtain ⟨rest, left, hshares⟩ := hl.exists_shares
  obtain ⟨rest', hrest'⟩ : ∃ rest' : List ℕ, rest.map (perm[·]?) = rest'.map some := by
    refine exists_read fun i hi => ?_
    have hlt : i < l₀.length := hshares.lt_of_mem (k := none) hi
    rwa [hperm.length_eq, List.length_range, ← hlength₀]
  have hmoved' : Shares (fun k : Option K => k.elim rest' places') (fun k => k.elim left piece) l' := by
    refine hshares.move (hlength₀.symm ▸ hperm) (hlength.trans hlength₀.symm) (fun k => ?_) hback
    cases k with
    | none => exact hrest'.symm
    | some k => exact hplaces k
  exact hmoved'.owners

end Pieces

end Dcrtxmatcher.Lib
