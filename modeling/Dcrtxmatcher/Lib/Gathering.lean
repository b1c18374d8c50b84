import Dcrtxmatcher.Lib.Runs
import Mathlib.Data.List.MinMax
import Mathlib.Data.List.Nodup
import Mathlib.Data.List.Perm.Subperm

/-! Stages in which every member acts once, in any order.

While members are missing the stage is open, and what may happen is that one of them
acts; the last one closes it. What may happen in an open stage leads to an open stage or,
after as many events as there are members, to its end. -/
namespace Dcrtxmatcher.Lib
variable {State Event ι : Type}

/-- Of the members some have acted, once each, and some are missing. -/
structure Underway (members done : List ι) : Prop where
  nodup : done.Nodup
  subset : done ⊆ members
  missing : ∃ i ∈ members, i ∉ done

theorem Underway.start {members : List ι} (h : members ≠ []) : Underway members [] where
  nodup := List.nodup_nil
  subset := List.nil_subset _
  missing := by
    obtain ⟨i, hi⟩ := List.exists_mem_of_ne_nil members h
    exact ⟨i, hi, List.not_mem_nil⟩

theorem Underway.next {members done : List ι} (h : Underway members done) {i : ι} (hi : i ∈ members) (hnew : i ∉ done)
    (hmissing : ∃ j ∈ members, j ∉ done ++ [i]) : Underway members (done ++ [i]) where
  nodup := List.nodup_append.mpr ⟨h.nodup, List.nodup_singleton i, fun _ hj _ hi' => by
    rintro rfl
    exact hnew (List.mem_singleton.mp hi' ▸ hj)⟩
  subset := List.append_subset.mpr ⟨h.subset, fun _ hj => List.mem_singleton.mp hj ▸ hi⟩
  missing := hmissing

/-- Once nobody is missing any more, those that have acted are the members. -/
theorem Underway.perm {members done : List ι} (h : Underway members done) (hnodup : members.Nodup) {i : ι} (hi : i ∈ members)
    (hnew : i ∉ done) (hall : ∀ j ∈ members, j ∈ done ++ [i]) : (done ++ [i]).Perm members := by
  have hsingle : [i] ⊆ members := fun _ hj => List.mem_singleton.mp hj ▸ hi
  have hdone : (done ++ [i]).Nodup :=
    List.nodup_append.mpr ⟨h.nodup, List.nodup_singleton i, fun j hj j' hj' heq =>
      hnew (List.mem_singleton.mp hj' ▸ heq ▸ hj)⟩
  exact (List.perm_ext_iff_of_nodup hdone hnodup).mpr fun j => ⟨fun hj => List.append_subset.mpr ⟨h.subset, hsingle⟩ hj, hall j⟩

/-- Fewer have acted than there are members. -/
theorem Underway.length_lt {members done : List ι} (h : Underway members done) : done.length < members.length := by
  refine Nat.lt_of_le_of_ne (List.subperm_of_subset h.nodup h.subset).length_le fun heq => ?_
  obtain ⟨i, hi, hmissing⟩ := h.missing
  have hperm := (List.subperm_of_subset h.nodup h.subset).perm_of_length_le (Nat.le_of_eq heq.symm)
  exact hmissing (hperm.mem_iff.mpr hi)

/-- A stage of a system, open with those that have acted so far, or closed. Any event
that may happen in the open stage is the act of a missing member and goes through, and
there is one. -/
structure Stage (step : State → Event → Option State) (ok : State → Event → Prop) (members : List ι)
    (Open : List ι → State → Prop) (Closed : State → Prop) : Prop where
  acts : ∀ {done : List ι} {s : State} {ev : Event}, Underway members done → Open done s → ok s ev →
    ∃ i ∈ members, i ∉ done ∧ ∃ s', step s ev = some s' ∧
      ((∃ j ∈ members, j ∉ done ++ [i]) → Open (done ++ [i]) s') ∧ ((∀ j ∈ members, j ∈ done ++ [i]) → Closed s')
  able : ∀ {done : List ι} {s : State}, Underway members done → Open done s → ∃ ev, ok s ev

namespace Stage
variable {step : State → Event → Option State} {ok : State → Event → Prop} {members : List ι}
  {Open : List ι → State → Prop} {Closed : State → Prop} {done : List ι} {s : State}

/-- The stage goes on with one more, or everybody has acted and it is closed. -/
theorem advance (h : Stage step ok members Open Closed) (hnodup : members.Nodup) (hunderway : Underway members done)
    (hopen : Open done s) {ev : Event} (hok : ok s ev) : ∃ s', step s ev = some s' ∧
      ((∃ i, Underway members (done ++ [i]) ∧ Open (done ++ [i]) s') ∨ done.length + 1 = members.length ∧ Closed s') := by
  obtain ⟨i, hi, hnew, s', hstep, hopen', hclosed⟩ := h.acts hunderway hopen hok
  refine ⟨s', hstep, ?_⟩
  by_cases hmissing : ∃ j ∈ members, j ∉ done ++ [i]
  · exact .inl ⟨i, hunderway.next hi hnew hmissing, hopen' hmissing⟩
  · push Not at hmissing
    have hlength := (hunderway.perm hnodup hi hnew hmissing).length_eq
    rw [List.length_append, List.length_singleton] at hlength
    exact .inr ⟨hlength, hclosed hmissing⟩

end Stage

/-- A system that counts its events. -/
def counted (step : State → Event → Option State) (t : ℕ × State) (ev : Event) : Option (ℕ × State) :=
  (step t.2 ev).map fun s => (t.1 + 1, s)

theorem counted_eq_some {step : State → Event → Option State} {t t' : ℕ × State} {ev : Event} :
    counted step t ev = some t' ↔ t'.1 = t.1 + 1 ∧ step t.2 ev = some t'.2 := by
  rw [counted, Option.map_eq_some_iff]
  constructor
  · rintro ⟨s, hs, rfl⟩
    exact ⟨rfl, hs⟩
  · intro ⟨hcount, hs⟩
    exact ⟨t'.2, hs, Prod.ext hcount.symm rfl⟩

/-! ### Who comes last -/

section Last
variable {κ L β : Type} [LinearOrder L] {members : List ι} {size : ι → L} (F : L → β) (bad : β)

/-- When the one that comes last decides by its size, and it ends badly when somebody's is
greater, then all ends agree exactly when all sizes do. -/
theorem ends_agree_iff (hbad : ∀ i ∈ members, F (size i) = bad ↔ ∃ j ∈ members, size i < size j) :
    (∀ i ∈ members, ∀ j ∈ members, F (size i) = F (size j)) ↔ ∀ i ∈ members, ∀ j ∈ members, size i = size j := by
  constructor
  · intro hsame i hi j hj
    -- somebody of the greatest size does not end badly
    obtain ⟨k, hk, hgreatest⟩ : ∃ k ∈ members, ∀ j ∈ members, size j ≤ size k := by
      obtain ⟨k, hmax⟩ := Option.ne_none_iff_exists'.mp fun hnone : members.argmax size = none => by
        rw [List.argmax_eq_none] at hnone
        rw [hnone] at hi
        cases hi
      exact ⟨k, List.argmax_mem hmax, fun j hj => List.le_of_mem_argmax hj hmax⟩
    have hgood : ∀ i ∈ members, ∀ j ∈ members, ¬ size i < size j := by
      intro i hi j hj hlt
      obtain ⟨j', hj', hlt'⟩ := (hbad k hk).mp ((hsame k hk i hi).trans ((hbad i hi).mpr ⟨j, hj, hlt⟩))
      exact absurd hlt' (not_lt.mpr (hgreatest j' hj'))
    exact le_antisymm (not_lt.mp (hgood j hj i hi)) (not_lt.mp (hgood i hi j hj))
  · intro hsame i hi j hj
    rw [hsame i hi j hj]

variable {outcome : List (κ × ι) → ι → β}

/-- An order ends badly exactly when somebody's size is greater than that of the last one. -/
theorem order_bad_iff
    (houtcome : ∀ early last, (early.map Prod.snd ++ [last]).Perm members → outcome early last = F (size last))
    (hbad : ∀ i ∈ members, F (size i) = bad ↔ ∃ j ∈ members, size i < size j) {early : List (κ × ι)} {last : ι}
    (hperm : (early.map Prod.snd ++ [last]).Perm members) : outcome early last = bad ↔ ∃ j ∈ members, size last < size j := by
  rw [houtcome early last hperm]
  exact hbad last (hperm.mem_iff.mp (List.mem_append_right _ (List.mem_singleton_self _)))

/-- Anybody can come last. -/
theorem exists_order [DecidableEq ι] (k : κ) {i : ι} (hi : i ∈ members) :
    ∃ early : List (κ × ι), (early.map Prod.snd ++ [i]).Perm members := by
  refine ⟨(members.erase i).map fun j => (k, j), ?_⟩
  have hsnd : ((members.erase i).map fun j => (k, j)).map Prod.snd = members.erase i := by simp
  rw [hsnd]
  exact (List.perm_append_comm.trans (List.perm_cons_erase hi).symm)

/-- The outcome is the same in every order exactly when all sizes agree. -/
theorem orders_agree_iff [DecidableEq ι] (k : κ)
    (houtcome : ∀ early last, (early.map Prod.snd ++ [last]).Perm members → outcome early last = F (size last))
    (hbad : ∀ i ∈ members, F (size i) = bad ↔ ∃ j ∈ members, size i < size j) :
    (∀ early last early' last', (early.map Prod.snd ++ [last]).Perm members → (early'.map Prod.snd ++ [last']).Perm members →
        outcome early last = outcome early' last') ↔ ∀ i ∈ members, ∀ j ∈ members, size i = size j := by
  rw [← ends_agree_iff F bad hbad]
  have hmem : ∀ {early : List (κ × ι)} {last : ι}, (early.map Prod.snd ++ [last]).Perm members → last ∈ members :=
    fun hperm => hperm.mem_iff.mp (List.mem_append_right _ (List.mem_singleton_self _))
  constructor
  · intro hsame i hi j hj
    obtain ⟨early, hperm⟩ := exists_order k hi
    obtain ⟨early', hperm'⟩ := exists_order k hj
    rw [← houtcome early i hperm, ← houtcome early' j hperm']
    exact hsame early i early' j hperm hperm'
  · intro hsame early last early' last' hperm hperm'
    rw [houtcome early last hperm, houtcome early' last' hperm']
    exact hsame last (hmem hperm) last' (hmem hperm')

/-- When two sizes differ some orders end badly and some do not. -/
theorem exists_orders [DecidableEq ι] (k : κ)
    (houtcome : ∀ early last, (early.map Prod.snd ++ [last]).Perm members → outcome early last = F (size last))
    (hbad : ∀ i ∈ members, F (size i) = bad ↔ ∃ j ∈ members, size i < size j)
    (hdiffer : ∃ i ∈ members, ∃ j ∈ members, size i ≠ size j) :
    (∃ early last, (early.map Prod.snd ++ [last]).Perm members ∧ outcome early last = bad) ∧
      ∃ early last, (early.map Prod.snd ++ [last]).Perm members ∧ outcome early last ≠ bad := by
  obtain ⟨i, hi, j, hj, hne⟩ := hdiffer
  constructor
  · -- whoever of the two is smaller comes last
    obtain ⟨a, ha, b, hb, hlt⟩ : ∃ a ∈ members, ∃ b ∈ members, size a < size b := by
      rcases lt_or_gt_of_ne hne with hlt | hlt
      · exact ⟨i, hi, j, hj, hlt⟩
      · exact ⟨j, hj, i, hi, hlt⟩
    obtain ⟨early, hperm⟩ := exists_order k ha
    exact ⟨early, a, hperm, (order_bad_iff F bad houtcome hbad hperm).mpr ⟨b, hb, hlt⟩⟩
  · by_contra hall
    push Not at hall
    refine hne ((ends_agree_iff F bad hbad).mp (fun a ha b hb => ?_) i hi j hj)
    obtain ⟨early, hperm⟩ := exists_order k ha
    obtain ⟨early', hperm'⟩ := exists_order k hb
    rw [← houtcome early a hperm, ← houtcome early' b hperm', hall early a hperm, hall early' b hperm']

end Last

end Dcrtxmatcher.Lib
