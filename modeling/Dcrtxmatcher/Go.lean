import Dcrtxmatcher.Lib.Double
import Mathlib.Data.UInt

/-! What the model uses of Go itself: run-time faults, slices and `int64`.

A computation that can stop the process or block its goroutine for ever returns
an `Except Fault`. -/
namespace Dcrtxmatcher

abbrev Bytes := List UInt8

/-- Ways in which a goroutine does not get past a statement. -/
inductive Fault where
  /-- `Lock` on a mutex the goroutine already holds: it waits for itself. -/
  | selfDeadlock
  /-- `Unlock` of an unlocked mutex, fatal for the process. -/
  | unlockOfUnlocked
  /-- A run-time panic: an index out of range, a nil dereference, `Intn(0)`. -/
  | panic
  deriving DecidableEq, Repr

@[simp] theorem ok_bind {ε α β : Type} (a : α) (f : α → Except ε β) : (Except.ok a >>= f) = f a := rfl

@[simp] theorem error_bind {ε α β : Type} (e : ε) (f : α → Except ε β) :
    ((Except.error e : Except ε α) >>= f) = Except.error e := rfl

@[simp] theorem except_pure {ε α : Type} (a : α) : (pure a : Except ε α) = Except.ok a := rfl

/-- A bind that returns went through its first part. -/
theorem bind_eq_ok {ε α β : Type} {x : Except ε α} {f : α → Except ε β} {b : β} :
    (x >>= f) = .ok b ↔ ∃ a, x = .ok a ∧ f a = .ok b := by
  cases x <;> simp

/-- A bind that does not return stopped in one of its parts. -/
theorem bind_eq_error {ε α β : Type} {x : Except ε α} {f : α → Except ε β} {e : ε} :
    (x >>= f) = .error e ↔ x = .error e ∨ ∃ a, x = .ok a ∧ f a = .error e := by
  cases x <;> simp

/-- A loop that returns went through every turn. -/
theorem mapM_eq_ok {ε α β : Type} {f : α → Except ε β} {l : List α} {r : List β} :
    l.mapM f = .ok r ↔ List.Forall₂ (fun a b => f a = .ok b) l r := by
  induction l generalizing r with
  | nil => cases r <;> simp
  | cons a l ih =>
    rw [List.mapM_cons, bind_eq_ok]
    constructor
    · rintro ⟨b, hb, h⟩
      obtain ⟨bs, hbs, h⟩ := bind_eq_ok.mp h
      cases h
      exact .cons hb (ih.mp hbs)
    · rintro (_ | ⟨hb, hbs⟩)
      exact ⟨_, hb, by rw [ih.mpr hbs]; rfl⟩

/-- A loop whose turns all return returns. -/
theorem exists_mapM {ε α β : Type} {f : α → Except ε β} {l : List α} (h : ∀ a ∈ l, ∃ b, f a = .ok b) :
    ∃ r, l.mapM f = .ok r := by
  induction l with
  | nil => exact ⟨[], rfl⟩
  | cons a l ih =>
    obtain ⟨b, hb⟩ := h a (List.mem_cons_self ..)
    obtain ⟨r, hr⟩ := ih fun a' ha' => h a' (List.mem_cons_of_mem a ha')
    exact ⟨b :: r, mapM_eq_ok.mpr (.cons hb (mapM_eq_ok.mp hr))⟩

theorem mem_right_of_forall₂ {α β : Type} {r : α → β → Prop} {l : List α} {m : List β} (h : List.Forall₂ r l m) {b : β}
    (hb : b ∈ m) : ∃ a ∈ l, r a b := by
  induction h with
  | nil => cases hb
  | cons hr _ ih =>
    rcases List.mem_cons.mp hb with rfl | hb
    · exact ⟨_, List.mem_cons_self .., hr⟩
    · obtain ⟨a, ha, hab⟩ := ih hb
      exact ⟨a, List.mem_cons_of_mem _ ha, hab⟩

/-- Every result comes from a turn of the loop. -/
theorem mem_of_mapM {ε α β : Type} {f : α → Except ε β} {l : List α} {r : List β} (h : l.mapM f = .ok r) {b : β}
    (hb : b ∈ r) : ∃ a ∈ l, f a = .ok b :=
  mem_right_of_forall₂ (mapM_eq_ok.mp h) hb

/-- Every turn of the loop leaves a result. -/
theorem exists_of_mapM {ε α β : Type} {f : α → Except ε β} {l : List α} {r : List β} (h : l.mapM f = .ok r) {a : α}
    (ha : a ∈ l) : ∃ b ∈ r, f a = .ok b :=
  mem_right_of_forall₂ (mapM_eq_ok.mp h).flip ha

/-- A computation that can panic but not get stuck at the mutex. -/
def OnlyPanics {α : Type*} (x : Except Fault α) : Prop := ∀ e, x = .error e → e = .panic

theorem OnlyPanics.ok {α : Type*} (a : α) : OnlyPanics (.ok a) := fun _ h => by cases h

theorem OnlyPanics.panic {α : Type*} : OnlyPanics (.error .panic : Except Fault α) := fun _ h => by
  cases h
  rfl

theorem OnlyPanics.bind {α β : Type} {x : Except Fault α} {f : α → Except Fault β} (hx : OnlyPanics x)
    (hf : ∀ a, x = .ok a → OnlyPanics (f a)) : OnlyPanics (x >>= f) := by
  intro e h
  cases x with
  | error e' =>
    cases h
    exact hx _ rfl
  | ok a => exact hf a rfl e h

theorem OnlyPanics.foldlM {α β : Type} {f : β → α → Except Fault β} (hf : ∀ b a, OnlyPanics (f b a)) (l : List α)
    (b : β) : OnlyPanics (l.foldlM f b) := by
  induction l generalizing b with
  | nil => exact .ok _
  | cons a l ih => exact (hf b a).bind fun b' _ => ih b'

theorem OnlyPanics.mapM {α β : Type} {f : α → Except Fault β} (hf : ∀ a, OnlyPanics (f a)) (l : List α) :
    OnlyPanics (l.mapM f) := by
  induction l with
  | nil => exact .ok _
  | cons a l ih =>
    rw [List.mapM_cons]
    exact (hf a).bind fun b _ => ih.bind fun bs _ => .ok _

/-- `s[i]`. -/
def index {α : Type*} (s : List α) (i : ℕ) : Except Fault α :=
  match s[i]? with
  | some a => .ok a
  | none => .error .panic

theorem index_eq_ok {α : Type*} {s : List α} {i : ℕ} {a : α} : index s i = .ok a ↔ s[i]? = some a := by
  unfold index
  split <;> simp_all

theorem index_onlyPanics {α : Type*} (s : List α) (i : ℕ) : OnlyPanics (index s i) := by
  unfold index
  split
  · exact .ok _
  · exact .panic

theorem index_of_lt {α : Type*} {s : List α} {i : ℕ} (h : i < s.length) : index s i = .ok s[i] :=
  index_eq_ok.mpr (List.getElem?_eq_getElem h)

/-- `s[lo:hi]`, where `s` is the slice up to its capacity. -/
def slice {α : Type*} (s : List α) (lo hi : ℕ) : Except Fault (List α) :=
  if lo ≤ hi ∧ hi ≤ s.length then .ok ((s.take hi).drop lo) else .error .panic

theorem slice_onlyPanics {α : Type*} (s : List α) (lo hi : ℕ) : OnlyPanics (slice s lo hi) := by
  rw [slice]
  split_ifs
  · exact .ok _
  · exact .panic

/-- `int64` arithmetic wraps around. -/
def wrap64 (x : ℤ) : ℤ := Int.bmod x (2 ^ 64)

theorem wrap64_of_range {x : ℤ} (hlo : -(2 ^ 63) ≤ x) (hhi : x < 2 ^ 63) : wrap64 x = x := by
  rw [wrap64, Int.bmod_eq_of_le] <;> norm_num <;> omega

/-- `float64(x) / 100000000`. -/
def dcr (x : ℤ) : ℚ := Lib.double (Lib.double x / 100000000)

theorem dcr_mono {x y : ℤ} (h : x ≤ y) : dcr x ≤ dcr y :=
  Lib.double_mono (div_le_div_of_nonneg_right (Lib.double_mono (Int.cast_le.mpr h)) (by norm_num))

/-- One atom more is more in coins, up to twenty-one million coins. -/
theorem dcr_lt_succ {x : ℤ} (hlo : 0 ≤ x) (hhi : x ≤ 21 * 10 ^ 14) : dcr x < dcr (x + 1) := by
  have hexact : ∀ y : ℤ, 0 ≤ y → y ≤ 21 * 10 ^ 14 + 1 → |dcr y - y / 100000000| ≤ 1 / 2 ^ 29 := by
    intro y hy hy'
    have hq : (0 : ℚ) ≤ y ∧ (y : ℚ) ≤ 21 * 10 ^ 14 + 1 := ⟨by exact_mod_cast hy, by exact_mod_cast hy'⟩
    have hsmall : |(y : ℚ) / 100000000| < 2 ^ (24 + 1) := by
      rw [abs_of_nonneg (by linarith)]
      linarith
    have hulp : Lib.ulp ((y : ℚ) / 100000000) ≤ 1 / 2 ^ 28 := (Lib.ulp_le hsmall).trans_eq (by norm_num)
    rw [dcr, Lib.double_intCast (by rw [abs_of_nonneg hy]; omega)]
    calc |Lib.double ((y : ℚ) / 100000000) - y / 100000000| ≤ Lib.ulp ((y : ℚ) / 100000000) / 2 :=
        Lib.abs_double_sub_le _
      _ ≤ 1 / 2 ^ 29 := by linarith
  have hx := abs_le.mp (hexact x hlo (by omega))
  have hsucc := abs_le.mp (hexact (x + 1) (by omega) (by omega))
  push_cast at hsucc
  linarith

end Dcrtxmatcher
