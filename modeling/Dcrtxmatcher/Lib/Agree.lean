import Mathlib.Data.Option.Basic
import Mathlib.Tactic.SplitIfs

/-! Two computations side by side.

They agree when they stop with the same error, or both return and the results are
related. What is related stays related when the same is done to both. -/
namespace Dcrtxmatcher.Lib

inductive Agree {ε α β : Type} (R : α → β → Prop) : Except ε α → Except ε β → Prop
  | error (e : ε) : Agree R (.error e) (.error e)
  | ok {a : α} {b : β} (h : R a b) : Agree R (.ok a) (.ok b)

namespace Agree
variable {ε α β γ δ : Type} {R : α → β → Prop} {S : γ → δ → Prop} {x : Except ε α} {y : Except ε β}

theorem bind {f : α → Except ε γ} {g : β → Except ε δ} (h : Agree R x y) (hfg : ∀ a b, R a b → Agree S (f a) (g b)) :
    Agree S (x >>= f) (y >>= g) := by
  cases h with
  | error e => exact .error e
  | ok h => exact hfg _ _ h

/-- The first part of both is the same computation. -/
theorem bind_of_eq {x y : Except ε α} {f : α → Except ε γ} {g : α → Except ε δ} (h : x = y)
    (hfg : ∀ a, Agree S (f a) (g a)) : Agree S (x >>= f) (y >>= g) := by
  subst h
  cases x with
  | error e => exact .error e
  | ok a => exact hfg a

theorem ite {c c' : Prop} [Decidable c] [Decidable c'] {x' : Except ε α} {y' : Except ε β} (hc : c ↔ c')
    (h : c → Agree R x y) (h' : ¬c → Agree R x' y') :
    Agree R (if c then x else x') (if c' then y else y') := by
  by_cases hif : c
  · rw [if_pos hif, if_pos (hc.mp hif)]
    exact h hif
  · rw [if_neg hif, if_neg (hif ∘ hc.mpr)]
    exact h' hif

/-- Without the error. -/
theorem toOption (h : Agree R x y) : Option.Rel R x.toOption y.toOption := by
  cases h with
  | error e => exact .none
  | ok h => exact .some h

end Agree

variable {α β γ δ : Type}

theorem optionRel_bind {R : α → β → Prop} {S : γ → δ → Prop} {x : Option α} {y : Option β} {f : α → Option γ}
    {g : β → Option δ} (h : Option.Rel R x y) (hfg : ∀ a b, R a b → Option.Rel S (f a) (g b)) :
    Option.Rel S (x >>= f) (y >>= g) := by
  cases h with
  | none => exact .none
  | some h => exact hfg _ _ h

/-- What is read off related results, when it is the same for both. -/
theorem map_eq_of_rel {R : α → β → Prop} {x : Option α} {y : Option β} {f : α → γ} {g : β → γ} (h : Option.Rel R x y)
    (hfg : ∀ a b, R a b → f a = g b) : x.map f = y.map g := by
  cases h with
  | none => rfl
  | some h => exact congrArg some (hfg _ _ h)

end Dcrtxmatcher.Lib
