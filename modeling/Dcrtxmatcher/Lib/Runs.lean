import Mathlib.Data.Option.Basic
import Mathlib.Tactic.SplitIfs

/-! Runs of a transition system whose steps each meet a condition.

`step` is partial: an event that cannot happen in a state leads nowhere. What one
step preserves, a run preserves. -/
namespace Dcrtxmatcher.Lib
variable {State Event : Type}

/-- The states reached from `start` by steps that each meet `ok`. -/
inductive RunsTo (step : State → Event → Option State) (ok : State → Event → Prop) (start : State) : State → Prop where
  | start : RunsTo step ok start start
  | step {s s' : State} (hs : RunsTo step ok start s) (ev : Event) (hok : ok s ev) (h : step s ev = some s') :
      RunsTo step ok start s'

/-- Where a list of events leads; the start when it does not go through. -/
def after (step : State → Event → Option State) (start : State) (evs : List Event) : State :=
  (evs.foldlM step start).getD start

theorem foldlM_eq_after {step : State → Event → Option State} {start : State} {evs : List Event}
    (h : (evs.foldlM step start).isSome = true) : evs.foldlM step start = some (after step start evs) := by
  obtain ⟨s, hs⟩ := Option.isSome_iff_exists.mp h
  rw [after, hs, Option.getD_some]

namespace RunsTo
variable {step : State → Event → Option State} {ok : State → Event → Prop} {start s : State}

/-- An invariant of the steps holds all along. -/
theorem invariant {inv : State → Prop} (hs : RunsTo step ok start s) (hstart : inv start)
    (hstep : ∀ s ev s', inv s → ok s ev → step s ev = some s' → inv s') : inv s := by
  induction hs with
  | start => exact hstart
  | step _ _ hok h ih => exact hstep _ _ _ ih hok h

/-- One run after the other. -/
theorem trans {mid : State} (hs : RunsTo step ok start mid) (h : RunsTo step ok mid s) : RunsTo step ok start s := by
  induction h with
  | start => exact hs
  | step _ ev hok hstep ih => exact .step ih ev hok hstep

/-- A list of events that goes through, with a test at every step that implies the condition. -/
theorem of_checked {evs : List Event} (check : State → Event → Bool) (hcheck : ∀ s ev, check s ev = true → ok s ev)
    (h : evs.foldlM (fun s ev => if check s ev then step s ev else none) start = some s) : RunsTo step ok start s := by
  have hrun : ∀ s₀, RunsTo step ok start s₀ →
      evs.foldlM (fun s ev => if check s ev then step s ev else none) s₀ = some s → RunsTo step ok start s := by
    clear h
    induction evs with
    | nil =>
      intro s₀ hs₀ h
      cases h
      exact hs₀
    | cons ev evs ih =>
      intro s₀ hs₀ h
      rw [List.foldlM_cons] at h
      obtain ⟨s₁, hstep, h⟩ := Option.bind_eq_some_iff.mp h
      split_ifs at hstep with hok
      exact ih s₁ (.step hs₀ ev (hcheck _ _ hok) hstep) h
  exact hrun start .start h

theorem of_events (evs : List Event) (h : evs.foldlM step start = some s) : RunsTo step (fun _ _ => True) start s :=
  of_checked (fun _ _ => true) (fun _ _ _ => trivial) h

end RunsTo

end Dcrtxmatcher.Lib
