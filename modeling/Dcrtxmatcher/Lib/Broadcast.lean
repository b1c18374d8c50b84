import Mathlib.Data.List.Nodup
import Mathlib.Data.List.Infix

/-! Broadcast to a group whose members come off one by one.

A broadcast reaches all members and nobody else, and nobody comes in. Then the
members have heard the same messages in the same order (the log), and who has left
a beginning of them (`Heard`). -/
namespace Dcrtxmatcher.Lib
variable {ι α : Type}

/-- What the members of a group, those that have left it and all others know of the log. -/
structure Heard (log : List α) (members left : List ι) (view : ι → List α) : Prop where
  nodup : (members ++ left).Nodup
  all : ∀ i ∈ members, view i = log
  part : ∀ i ∈ left, view i <+: log
  nothing : ∀ i, i ∉ members ++ left → view i = []

namespace Heard
variable {log : List α} {members members' left left' : List ι} {view view' : ι → List α}

theorem start {members : List ι} (hnodup : members.Nodup) : Heard ([] : List α) members [] fun _ => [] where
  nodup := by rwa [List.append_nil]
  all _ _ := rfl
  part _ hi := absurd hi List.not_mem_nil
  nothing _ _ := rfl

theorem view_prefix (h : Heard log members left view) (i : ι) : view i <+: log := by
  by_cases hi : i ∈ members ++ left
  · rcases List.mem_append.mp hi with hi | hi
    · rw [h.all i hi]
    · exact h.part i hi
  · rw [h.nothing i hi]
    exact List.nil_prefix

/-- Nothing is broadcast, and members may leave. -/
theorem silent (h : Heard log members left view) (hmembers : members' ⊆ members)
    (hgroup : (members' ++ left').Perm (members ++ left)) (hview : ∀ i, view' i = view i) :
    Heard log members' left' view' where
  nodup := hgroup.nodup_iff.mpr h.nodup
  all i hi := (hview i).trans (h.all i (hmembers hi))
  part i _ := by
    rw [hview i]
    exact h.view_prefix i
  nothing i hi := (hview i).trans (h.nothing i (mt hgroup.mem_iff.mpr hi))

/-- A broadcast, after which the members are those that have received it. -/
theorem told (h : Heard log members left view) (a : α) (hmembers : members' ⊆ members)
    (hgroup : (members' ++ left').Perm (members ++ left)) (hall : ∀ i ∈ members', view' i = view i ++ [a])
    (hnone : ∀ i, i ∉ members' → view' i = view i) : Heard (log ++ [a]) members' left' view' where
  nodup := hgroup.nodup_iff.mpr h.nodup
  all i hi := by rw [hall i hi, h.all i (hmembers hi)]
  part i hi := by
    have hleft : i ∉ members' := fun hi' => List.disjoint_of_nodup_append (hgroup.nodup_iff.mpr h.nodup) hi' hi
    rw [hnone i hleft]
    exact (h.view_prefix i).trans (List.prefix_append log [a])
  nothing i hi := by
    have hother : i ∉ members' := fun hi' => hi (List.mem_append_left left' hi')
    exact (hnone i hother).trans (h.nothing i (mt hgroup.mem_iff.mpr hi))

end Heard

end Dcrtxmatcher.Lib
