import Mathlib.Algebra.BigOperators.Group.List.Basic
import Mathlib.Algebra.Group.MinimalAxioms
import Mathlib.Order.Defs.LinearOrder
import Mathlib.Tactic.Abel
import Mathlib.Data.UInt

/-! Pairwise pads that cancel in a sum over all parties.

Each party adds, for every other party, a term that the other party's term
undoes; the sum over all parties is then free of them (`sum_sum_eq_zero`). In an
additive group the terms are one pad with the sign given by the order of the two
parties (`signed`); under bitwise xor every pad undoes itself (`Xored`). -/
namespace Dcrtxmatcher.Lib.Pads

section Group
variable {ι G : Type*} [AddCommGroup G]

/-- Terms that vanish on the diagonal and cancel in pairs sum to nothing. -/
theorem sum_sum_eq_zero (t : ι → ι → G) (l : List ι) (hdiag : ∀ a ∈ l, t a a = 0)
    (hanti : ∀ a ∈ l, ∀ b ∈ l, t a b + t b a = 0) : (l.map fun p => (l.map (t p)).sum).sum = 0 := by
  induction l with
  | nil => rfl
  | cons a l ih =>
    have hrest := ih (fun b hb => hdiag b (List.mem_cons_of_mem a hb))
      (fun b hb c hc => hanti b (List.mem_cons_of_mem a hb) c (List.mem_cons_of_mem a hc))
    have hcross : (l.map (t a)).sum + (l.map fun p => t p a).sum = 0 := by
      rw [← List.sum_map_add]
      refine List.sum_eq_zero fun x hx => ?_
      obtain ⟨b, hb, rfl⟩ := List.mem_map.mp hx
      exact hanti a (List.mem_cons_self ..) b (List.mem_cons_of_mem a hb)
    simp only [List.map_cons, List.sum_cons, hdiag a (List.mem_cons_self ..), zero_add, List.sum_map_add,
      hrest, add_zero]
    exact hcross

variable [LinearOrder ι]

/-- The term party `p` adds for party `q`: the pad for a smaller id, its negation
for a larger one. -/
def signed (pad : ι → ι → G) (p q : ι) : G :=
  if q < p then pad p q else if p < q then -pad p q else 0

@[simp] theorem signed_self (pad : ι → ι → G) (p : ι) : signed pad p p = 0 := by simp [signed]

theorem signed_anti {pad : ι → ι → G} {p q : ι} (h : pad p q = pad q p) :
    signed pad p q + signed pad q p = 0 := by
  rcases lt_trichotomy p q with hlt | rfl | hlt
  · simp [signed, hlt, hlt.not_gt, h]
  · simp
  · simp [signed, hlt, hlt.not_gt, h]

/-- Symmetric pads cancel over any list of parties. -/
theorem sum_signed_eq_zero {pad : ι → ι → G} (l : List ι)
    (hsymm : ∀ a ∈ l, ∀ b ∈ l, pad a b = pad b a) :
    (l.map fun p => (l.map (signed pad p)).sum).sum = 0 :=
  sum_sum_eq_zero _ l (fun a _ => signed_self pad a) fun a ha b hb => signed_anti (hsymm a ha b hb)

end Group

/-! ### Xor -/

/-- Byte strings of one length under xor, as an additive group. -/
def Xored (n : ℕ) : Type := Fin n → UInt8

namespace Xored
variable {n : ℕ}

instance : DecidableEq (Xored n) := inferInstanceAs (DecidableEq (Fin n → UInt8))

instance : Add (Xored n) := ⟨fun a b i => a i ^^^ b i⟩

instance : Zero (Xored n) := ⟨fun _ => 0⟩

instance : Neg (Xored n) := ⟨fun a => a⟩

instance : AddCommGroup (Xored n) where
  toAddGroup := .ofLeftAxioms (fun a b c => funext fun i => UInt8.xor_assoc (a i) (b i) (c i))
    (fun _ => funext fun _ => UInt8.zero_xor) (fun _ => funext fun _ => UInt8.xor_self)
  add_comm a b := funext fun i => UInt8.xor_comm (a i) (b i)

theorem add_self (a : Xored n) : a + a = 0 := funext fun _ => UInt8.xor_self

/-- A byte string, cut or filled up with zeros to length `n`. -/
def ofList (l : List UInt8) : Xored n := fun i => l.getD i 0

theorem ofList_xor {a b : List UInt8} (ha : a.length = n) (hb : b.length = n) :
    (ofList (List.zipWith (· ^^^ ·) a b) : Xored n) = ofList a + ofList b := by
  funext i
  show (List.zipWith (· ^^^ ·) a b).getD i 0 = a.getD i 0 ^^^ b.getD i 0
  have hi := i.isLt
  simp [List.getD_eq_getElem?_getD, ha, hb, hi]

theorem ofList_injective {a b : List UInt8} (ha : a.length = n) (hb : b.length = n)
    (h : (ofList a : Xored n) = ofList b) : a = b := by
  refine List.ext_getElem (ha.trans hb.symm) fun i hi hi' => ?_
  have := congrFun h ⟨i, ha ▸ hi⟩
  simpa [ofList, List.getD_eq_getElem?_getD, hi, hi'] using this

theorem ofList_zeros : (ofList (List.replicate n 0) : Xored n) = 0 := by
  funext i
  show (List.replicate n (0 : UInt8)).getD i 0 = 0
  simp [List.getD_eq_getElem?_getD]

@[simp] theorem ofList_nil : (ofList [] : Xored n) = 0 := rfl

/-- The bytes again. -/
def toList (x : Xored n) : List UInt8 := List.ofFn fun i => x i

@[simp] theorem length_toList (x : Xored n) : x.toList.length = n := List.length_ofFn

@[simp] theorem ofList_toList (x : Xored n) : ofList x.toList = x := by
  funext i
  simp [ofList, toList, List.getD_eq_getElem?_getD]

/-- Symmetric pads cancel under xor, each party using the pads of all others. -/
theorem sum_others_eq_zero {ι : Type*} [DecidableEq ι] {pad : ι → ι → Xored n} (l : List ι)
    (hsymm : ∀ a ∈ l, ∀ b ∈ l, pad a b = pad b a) :
    (l.map fun p => (l.map fun q => if q = p then 0 else pad p q).sum).sum = 0 := by
  refine sum_sum_eq_zero _ l (fun a _ => by simp) fun a ha b hb => ?_
  by_cases hab : a = b
  · simp [hab]
  · rw [if_neg (Ne.symm hab), if_neg hab, hsymm a ha b hb, add_self]

end Xored

end Dcrtxmatcher.Lib.Pads
