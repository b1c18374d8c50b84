import Mathlib.Data.List.AList
import Mathlib.Algebra.BigOperators.Group.List.Basic

/-! Maps whose iteration order is not specified.

A map is an association list with distinct keys; nothing depends on the order of
the list. A loop over a map visits its keys in an order chosen from outside, a
`VisitOrder`: some permutation of the keys for each loop, so that a result about
every `VisitOrder` is a result about every run of the loop. -/
namespace Dcrtxmatcher.Lib

/-- A map from `K` to `V`. -/
abbrev GoMap (K V : Type) := AList fun _ : K => V

/-- The orders in which loops visit map keys. A loop is named by a list of
numbers: where it stands and, inside other loops, their indices. -/
structure VisitOrder (K : Type) where
  visit : List ℕ → List K → List K
  perm : ∀ site keys, (visit site keys).Perm keys

/-- Keys in the order the map happens to hold them. -/
def VisitOrder.listed {K : Type} : VisitOrder K := ⟨fun _ keys => keys, fun _ keys => .refl keys⟩

namespace GoMap
variable {K V : Type}

/-- The entries as pairs. -/
def toList (m : GoMap K V) : List (K × V) := m.entries.map fun e => (e.1, e.2)

theorem keys_eq (m : GoMap K V) : m.keys = (toList m).map Prod.fst := by
  simp [toList, AList.keys, List.keys, Function.comp_def]

theorem nodup_toList (m : GoMap K V) : ((toList m).map Prod.fst).Nodup := by
  rw [← keys_eq]
  exact m.keys_nodup

/-- The number of entries, Go's `len`. -/
def len (m : GoMap K V) : ℕ := m.entries.length

theorem length_toList (m : GoMap K V) : (toList m).length = len m := by simp [toList, len]

theorem length_keys (m : GoMap K V) : m.keys.length = len m := by simp [AList.keys, List.keys, len]

/-- Every value changed, the keys kept. -/
def mapVal (g : K → V → V) (m : GoMap K V) : GoMap K V :=
  ⟨m.entries.map fun e => ⟨e.1, g e.1 e.2⟩, by
    rw [List.NodupKeys, List.keys, List.map_map]
    exact m.nodupKeys⟩

@[simp] theorem keys_mapVal (g : K → V → V) (m : GoMap K V) : (mapVal g m).keys = m.keys := by
  simp [mapVal, AList.keys, List.keys, Function.comp_def]

@[simp] theorem len_mapVal (g : K → V → V) (m : GoMap K V) : len (mapVal g m) = len m := by
  simp [mapVal, len]

theorem toList_mapVal (g : K → V → V) (m : GoMap K V) :
    toList (mapVal g m) = (toList m).map fun e => (e.1, g e.1 e.2) := by
  simp [toList, mapVal, Function.comp_def]

theorem mapVal_mapVal (f g : K → V → V) (m : GoMap K V) :
    mapVal g (mapVal f m) = mapVal (fun k v => g k (f k v)) m := by
  apply AList.ext
  simp [mapVal, Function.comp_def]

variable [DecidableEq K]

theorem mem_toList {m : GoMap K V} {k : K} {v : V} : (k, v) ∈ toList m ↔ m.lookup k = some v := by
  rw [← Option.mem_def, AList.mem_lookup_iff]
  simp only [toList, List.mem_map, Prod.mk.injEq]
  constructor
  · rintro ⟨⟨_, _⟩, h, rfl, rfl⟩
    exact h
  · exact fun h => ⟨⟨k, v⟩, h, rfl, rfl⟩

theorem mem_keys_of_lookup {m : GoMap K V} {k : K} {v : V} (h : m.lookup k = some v) : k ∈ m.keys := by
  rw [keys_eq]
  exact List.mem_map_of_mem (f := Prod.fst) (mem_toList.mpr h)

theorem lookup_of_mem_keys {m : GoMap K V} {k : K} (h : k ∈ m.keys) : ∃ v, m.lookup k = some v := by
  rw [keys_eq] at h
  obtain ⟨⟨_, v⟩, hmem, rfl⟩ := List.mem_map.mp h
  exact ⟨v, mem_toList.mp hmem⟩

theorem len_ne_zero_iff {m : GoMap K V} : len m ≠ 0 ↔ ∃ k v, m.lookup k = some v := by
  rw [← length_keys, ← Nat.pos_iff_ne_zero, List.length_pos_iff_exists_mem]
  constructor
  · rintro ⟨k, hk⟩
    obtain ⟨v, hv⟩ := lookup_of_mem_keys hk
    exact ⟨k, v, hv⟩
  · rintro ⟨k, v, hv⟩
    exact ⟨k, mem_keys_of_lookup hv⟩

theorem mapVal_congr {f g : K → V → V} {m : GoMap K V}
    (h : ∀ k v, m.lookup k = some v → f k v = g k v) : mapVal f m = mapVal g m := by
  apply AList.ext
  refine List.map_congr_left fun e he => ?_
  rw [h e.1 e.2 (mem_toList.mp (List.mem_map.mpr ⟨e, he, rfl⟩))]

@[simp] theorem lookup_mapVal (g : K → V → V) (m : GoMap K V) (k : K) :
    (mapVal g m).lookup k = (m.lookup k).map (g k) := by
  rcases h : m.lookup k with _ | v
  · have hk : k ∉ m.keys := by
      intro hk
      obtain ⟨v, hv⟩ := lookup_of_mem_keys hk
      rw [h] at hv
      cases hv
    rw [Option.map_none, AList.lookup_eq_none, AList.mem_keys, keys_mapVal]
    exact hk
  · rw [Option.map_some, ← mem_toList, toList_mapVal]
    exact List.mem_map.mpr ⟨(k, v), mem_toList.mpr h, rfl⟩

/-- The entries by key. -/
theorem filterMap_keys (m : GoMap K V) : (m.keys.filterMap fun k => (m.lookup k).map (k, ·)) = toList m := by
  rw [keys_eq, List.filterMap_map]
  have hself : ∀ e ∈ toList m, ((fun k => (m.lookup k).map (k, ·)) ∘ Prod.fst) e = some e :=
    fun e he => by simp [mem_toList.mp (show (e.1, e.2) ∈ toList m from he)]
  rw [List.filterMap_congr hself, List.filterMap_some]

theorem mem_keys_iff {m : GoMap K V} {k : K} : k ∈ m.keys ↔ (m.lookup k).isSome = true := by
  rw [AList.lookup_isSome, AList.mem_keys]

/-- The keys in their order and the value of each say what a map is. -/
theorem eq_of_lookup {m m' : GoMap K V} (hkeys : m.keys = m'.keys) (hlookup : ∀ k, m.lookup k = m'.lookup k) : m = m' := by
  have hlist : toList m = toList m' := by
    rw [← filterMap_keys, ← filterMap_keys, hkeys]
    exact List.filterMap_congr fun k _ => by rw [hlookup]
  apply AList.ext
  refine List.map_injective_iff.mpr (fun e e' he => ?_) hlist
  obtain ⟨hfst, hsnd⟩ := Prod.mk.inj he
  exact Sigma.ext hfst (heq_of_eq hsnd)

/-- Maps with the same entries but for the values have the same keys. -/
theorem keys_perm {W : Type} {m : GoMap K V} {m' : GoMap K W} (h : ∀ k, (m.lookup k).isSome = (m'.lookup k).isSome) :
    m.keys.Perm m'.keys :=
  (List.perm_ext_iff_of_nodup m.keys_nodup m'.keys_nodup).mpr fun k => by rw [mem_keys_iff, mem_keys_iff, h]

/-- What is read off the values does not depend on the order of the entries. -/
theorem map_toList_perm {W α : Type} {m : GoMap K V} {m' : GoMap K W} {f : V → α} {g : W → α}
    (h : ∀ k, (m.lookup k).map f = (m'.lookup k).map g) :
    ((toList m).map fun e => f e.2).Perm ((toList m').map fun e => g e.2) := by
  have hread : ∀ {U : Type} (l : GoMap K U) (r : U → α),
      ((toList l).map fun e => r e.2) = l.keys.filterMap fun k => (l.lookup k).map r := by
    intro U l r
    rw [← filterMap_keys, List.map_filterMap]
    exact List.filterMap_congr fun k _ => by cases l.lookup k <;> rfl
  rw [hread, hread]
  have hkeys : m.keys.Perm m'.keys := keys_perm fun k => by
    have hk := congrArg Option.isSome (h k)
    rwa [Option.isSome_map, Option.isSome_map] at hk
  exact (hkeys.filterMap _).trans (.of_eq (List.filterMap_congr fun k _ => h k))

/-- One value changed, nothing where the key is absent. -/
def modify (k : K) (f : V → V) (m : GoMap K V) : GoMap K V :=
  mapVal (fun k' v => if k' = k then f v else v) m

@[simp] theorem keys_modify (k : K) (f : V → V) (m : GoMap K V) : (modify k f m).keys = m.keys :=
  keys_mapVal _ m

@[simp] theorem len_modify (k : K) (f : V → V) (m : GoMap K V) : len (modify k f m) = len m :=
  len_mapVal _ m

@[simp] theorem lookup_modify_self (k : K) (f : V → V) (m : GoMap K V) :
    (modify k f m).lookup k = (m.lookup k).map f := by
  simp [modify]

theorem lookup_modify_ne {k k' : K} (h : k' ≠ k) (f : V → V) (m : GoMap K V) :
    (modify k f m).lookup k' = m.lookup k' := by
  simp [modify, h]

theorem toList_modify (k : K) (f : V → V) (m : GoMap K V) :
    toList (modify k f m) = (toList m).map fun e => (e.1, if e.1 = k then f e.2 else e.2) :=
  toList_mapVal _ m

theorem mapVal_modify {g : K → V → V} {k : K} {f f' : V → V} (h : ∀ v, g k (f v) = f' (g k v)) (m : GoMap K V) :
    mapVal g (modify k f m) = modify k f' (mapVal g m) := by
  rw [modify, modify, mapVal_mapVal, mapVal_mapVal]
  congr 1
  funext k' v
  split_ifs with hk
  · rw [hk, h]
  · rfl

/-! ### Erasing -/

theorem len_erase {m : GoMap K V} {k : K} (h : k ∈ m.keys) : len (m.erase k) = len m - 1 := by
  rw [← length_keys, AList.keys_erase, List.length_erase_of_mem h, length_keys]

theorem lookup_erase_eq (m : GoMap K V) (k k' : K) :
    (m.erase k).lookup k' = if k' = k then none else m.lookup k' := by
  split_ifs with h
  · rw [h, AList.lookup_erase]
  · exact AList.lookup_erase_ne h

theorem mapVal_erase (g : K → V → V) (k : K) (m : GoMap K V) : mapVal g (m.erase k) = (mapVal g m).erase k := by
  apply eq_of_lookup
  · simp
  · intro k'
    rw [lookup_mapVal, lookup_erase_eq, lookup_erase_eq, lookup_mapVal]
    split_ifs <;> rfl

/-- The entry that is erased, and the others. -/
theorem toList_erase {m : GoMap K V} {k : K} {v : V} (h : m.lookup k = some v) :
    ((k, v) :: toList (m.erase k)).Perm (toList m) := by
  have hkeys : (k :: (m.erase k).keys).Perm m.keys := by
    rw [AList.keys_erase]
    exact (List.perm_cons_erase (mem_keys_of_lookup h)).symm
  have hentries := hkeys.filterMap fun k => (m.lookup k).map (k, ·)
  rw [filterMap_keys, List.filterMap_cons_some (by rw [h]; rfl)] at hentries
  rw [← filterMap_keys (m.erase k)]
  refine (List.Perm.of_eq ?_).trans hentries
  refine congrArg _ (List.filterMap_congr fun k' hk' => ?_)
  have hne : k' ≠ k := fun heq => by
    rw [heq, mem_keys_iff, AList.lookup_erase] at hk'
    cases hk'
  rw [AList.lookup_erase_ne hne]

/-! ### Filling a map -/

/-- A map filled in order: of two entries for one key the later stays. -/
def ofList (l : List (K × V)) : GoMap K V := l.foldl (fun m e => m.insert e.1 e.2) ∅

theorem toList_insert {m : GoMap K V} {k : K} (h : k ∉ m.keys) (v : V) :
    (toList (m.insert k v)).Perm ((k, v) :: toList m) := by
  rw [toList, AList.entries_insert_of_notMem (by rwa [AList.mem_keys])]
  exact .refl _

theorem toList_foldl_insert (l : List (K × V)) (m : GoMap K V) (hl : (l.map Prod.fst).Nodup)
    (hm : ∀ k ∈ l.map Prod.fst, k ∉ m.keys) :
    (toList (l.foldl (fun m e => m.insert e.1 e.2) m)).Perm (toList m ++ l) := by
  induction l generalizing m with
  | nil => simp
  | cons e l ih =>
    rw [List.map_cons, List.nodup_cons] at hl
    have hnew : e.1 ∉ m.keys := hm e.1 (by simp)
    refine (ih (m.insert e.1 e.2) hl.2 fun k hk => ?_).trans ?_
    · rw [← AList.mem_keys, AList.mem_insert, not_or]
      exact ⟨fun h => hl.1 (h ▸ hk), hm k (by simp [hk])⟩
    · exact ((toList_insert hnew e.2).append_right l).trans List.perm_middle.symm

/-- Distinct keys: the map holds exactly the entries of the list. -/
theorem toList_ofList {l : List (K × V)} (hl : (l.map Prod.fst).Nodup) : (toList (ofList l)).Perm l :=
  toList_foldl_insert l ∅ hl fun k _ => AList.notMem_empty k

theorem lookup_insert_eq (m : GoMap K V) (k k' : K) (v : V) :
    (m.insert k v).lookup k' = if k' = k then some v else m.lookup k' := by
  split_ifs with h
  · rw [h, AList.lookup_insert]
  · exact AList.lookup_insert_ne h

/-- What the list gives a key, or else what was there before. -/
theorem lookup_foldl_insert (l : List (K × V)) (m : GoMap K V) (k : K) :
    (l.foldl (fun m e => m.insert e.1 e.2) m).lookup k = ((ofList l).lookup k).or (m.lookup k) := by
  induction l generalizing m with
  | nil => rfl
  | cons e l ih =>
    have hcons : ofList (e :: l) = l.foldl (fun m e => m.insert e.1 e.2) ((∅ : GoMap K V).insert e.1 e.2) := rfl
    rw [List.foldl_cons, ih, hcons, ih, Option.or_assoc, lookup_insert_eq, lookup_insert_eq, AList.lookup_empty]
    split_ifs <;> simp

/-- The first entry matters when no later one has its key. -/
theorem lookup_ofList_cons (e : K × V) (l : List (K × V)) (k : K) :
    (ofList (e :: l)).lookup k = ((ofList l).lookup k).or (if k = e.1 then some e.2 else none) := by
  rw [ofList, List.foldl_cons, lookup_foldl_insert, lookup_insert_eq, AList.lookup_empty]

theorem mapVal_insert (g : V → V) (k : K) (v : V) (m : GoMap K V) :
    mapVal (fun _ => g) (m.insert k v) = (mapVal (fun _ => g) m).insert k (g v) := by
  apply eq_of_lookup
  · simp
  · intro k'
    rw [lookup_mapVal, lookup_insert_eq, lookup_insert_eq, lookup_mapVal]
    split_ifs <;> rfl

/-- Two maps filled side by side, the values of one computed from those of the other. -/
theorem beside_insert {W : Type} {f : V → W} {m : GoMap K V} {m' : GoMap K W} (hkeys : m'.keys = m.keys)
    (hlookup : ∀ k, m'.lookup k = (m.lookup k).map f) (k : K) (v : V) :
    (m'.insert k (f v)).keys = (m.insert k v).keys ∧
      ∀ k', (m'.insert k (f v)).lookup k' = ((m.insert k v).lookup k').map f := by
  constructor
  · rw [AList.keys_insert, AList.keys_insert, hkeys]
  · intro k'
    rw [lookup_insert_eq, lookup_insert_eq, hlookup]
    split_ifs <;> rfl

theorem mapVal_ofList (g : V → V) (l : List (K × V)) :
    mapVal (fun _ => g) (ofList l) = ofList (l.map fun e => (e.1, g e.2)) := by
  have hfold : ∀ m : GoMap K V, mapVal (fun _ => g) (l.foldl (fun m e => m.insert e.1 e.2) m) =
      (l.map fun e => (e.1, g e.2)).foldl (fun m e => m.insert e.1 e.2) (mapVal (fun _ => g) m) := by
    induction l with
    | nil => exact fun _ => rfl
    | cons e l ih =>
      intro m
      rw [List.foldl_cons, ih, mapVal_insert, List.map_cons, List.foldl_cons]
  exact hfold ∅

/-- Whatever is in the map comes from the list. -/
theorem mem_of_lookup_ofList {l : List (K × V)} {k : K} {v : V} (h : (ofList l).lookup k = some v) : (k, v) ∈ l := by
  have hfold : ∀ m : GoMap K V, (l.foldl (fun m e => m.insert e.1 e.2) m).lookup k = some v →
      (k, v) ∈ l ∨ m.lookup k = some v := by
    clear h
    induction l with
    | nil => exact fun m h => .inr h
    | cons e l ih =>
      intro m h
      rcases ih (m.insert e.1 e.2) h with hmem | hlookup
      · exact .inl (List.mem_cons_of_mem e hmem)
      · rw [lookup_insert_eq] at hlookup
        split_ifs at hlookup with hk
        · cases hlookup
          exact .inl (hk ▸ List.mem_cons_self ..)
        · exact .inr hlookup
  rcases hfold ∅ h with hmem | hempty
  · exact hmem
  · rw [AList.lookup_empty] at hempty
    cases hempty

/-- Of the entries with one key the map keeps one. -/
theorem toList_ofList_subperm [DecidableEq V] (l : List (K × V)) : (toList (ofList l)).Subperm l := by
  refine List.subperm_of_subset (nodup_toList _).of_map fun e he => ?_
  exact mem_of_lookup_ofList (mem_toList.mp (show (e.1, e.2) ∈ toList (ofList l) from he))

theorem keys_ofList_subset (l : List (K × V)) : (ofList l).keys ⊆ l.map Prod.fst := fun _ hk =>
  let ⟨_, hv⟩ := lookup_of_mem_keys hk
  List.mem_map_of_mem (mem_of_lookup_ofList hv)

/-- A map that keeps every entry of a list is made from distinct keys. -/
theorem nodup_of_len_ofList {l : List (K × V)} (h : len (ofList l) = l.length) : (l.map Prod.fst).Nodup := by
  have hsub := List.subperm_of_subset (ofList l).keys_nodup (keys_ofList_subset l)
  have hperm := hsub.perm_of_length_le (by rw [length_keys, h, List.length_map])
  exact hperm.nodup_iff.mp (ofList l).keys_nodup

theorem lookup_ofList {l : List (K × V)} (hl : (l.map Prod.fst).Nodup) {k : K} {v : V} :
    (ofList l).lookup k = some v ↔ (k, v) ∈ l := by
  rw [← mem_toList, (toList_ofList hl).mem_iff]

/-! ### Loops over a map -/

/-- The entries in the order a loop visits them. -/
def range (o : VisitOrder K) (site : List ℕ) (m : GoMap K V) : List (K × V) :=
  (o.visit site m.keys).filterMap fun k => (m.lookup k).map (k, ·)

/-- The order depends on the keys alone. -/
theorem range_mapVal (o : VisitOrder K) (site : List ℕ) (g : K → V → V) (m : GoMap K V) :
    range o site (mapVal g m) = (range o site m).map fun e => (e.1, g e.1 e.2) := by
  rw [range, range, keys_mapVal, List.map_filterMap]
  refine List.filterMap_congr fun k _ => ?_
  rw [lookup_mapVal]
  cases m.lookup k <;> rfl

theorem range_beside {W : Type} {f : V → W} {m : GoMap K V} {m' : GoMap K W} (hkeys : m'.keys = m.keys)
    (hlookup : ∀ k, m'.lookup k = (m.lookup k).map f) (o : VisitOrder K) (site : List ℕ) :
    range o site m' = (range o site m).map fun e => (e.1, f e.2) := by
  rw [range, range, hkeys, List.map_filterMap]
  refine List.filterMap_congr fun k _ => ?_
  rw [hlookup]
  cases m.lookup k <;> rfl

/-- A loop visits every entry once. -/
theorem range_perm (o : VisitOrder K) (site : List ℕ) (m : GoMap K V) :
    (range o site m).Perm (toList m) := by
  exact ((o.perm site m.keys).filterMap _).trans (.of_eq (filterMap_keys m))

theorem mem_range {o : VisitOrder K} {site : List ℕ} {m : GoMap K V} {k : K} {v : V} :
    (k, v) ∈ range o site m ↔ m.lookup k = some v := by
  rw [(range_perm o site m).mem_iff, mem_toList]

theorem nodup_range (o : VisitOrder K) (site : List ℕ) (m : GoMap K V) :
    ((range o site m).map Prod.fst).Nodup :=
  ((range_perm o site m).map Prod.fst).nodup_iff.mpr (nodup_toList m)

theorem length_range (o : VisitOrder K) (site : List ℕ) (m : GoMap K V) :
    (range o site m).length = len m := by
  rw [(range_perm o site m).length_eq, length_toList]

/-- The values in the order a loop visits them. -/
def values (o : VisitOrder K) (site : List ℕ) (m : GoMap K V) : List V :=
  (range o site m).map Prod.snd

theorem values_mapVal (o : VisitOrder K) (site : List ℕ) (g : V → V) (m : GoMap K V) :
    values o site (mapVal (fun _ => g) m) = (values o site m).map g := by
  rw [values, values, range_mapVal, List.map_map, List.map_map]
  rfl

theorem mem_values {o : VisitOrder K} {site : List ℕ} {m : GoMap K V} {v : V} :
    v ∈ values o site m ↔ ∃ k, m.lookup k = some v := by
  simp [values, mem_range]

theorem values_perm (o : VisitOrder K) (site : List ℕ) (m : GoMap K V) :
    (values o site m).Perm ((toList m).map Prod.snd) :=
  (range_perm o site m).map Prod.snd

end GoMap

end Dcrtxmatcher.Lib
