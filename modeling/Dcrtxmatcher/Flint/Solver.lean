import Dcrtxmatcher.Flint.Poly
import Dcrtxmatcher.Go
import Dcrtxmatcher.Lib.Hex

/-! The power sum solver (`flint/solverflint.cpp`) and its caller in Go
(`flint/flint.go`).

`solvePoly` builds the monic polynomial whose roots have the given power sums,
factors it and reads the roots off the linear factors. `solve` wraps it between
hexadecimal texts and `getRoots` calls that for a slice of field elements. -/
namespace Dcrtxmatcher.Flint
open Lib.Hex

def retInvalid : ℕ := 1
def retInternalError : ℕ := 100
def retInputError : ℕ := 101

section Coefficients
variable (fl : Library) (p : ℕ) (sums : List ℤ)

/-- The inner loop: `j` runs from `i - 1` down to 0 while `k` runs up from 0.
Nothing is reduced modulo `p` here. -/
def coeffSum (coeff : List ℤ) (i : ℕ) : ℤ :=
  (List.range i).foldl (fun c k => c + coeff.getD k 0 * sums.getD (i - 1 - k) 0) (sums.getD i 0)

/-- `coeff[i]`, from the ones before it. -/
def nextCoeff (coeff : List ℤ) (i : ℕ) : ℤ := coeffSum sums coeff i * fl.invmod (-(i + 1)) p

/-- `coeff[0]`, …, `coeff[i - 1]`. -/
def coeffs : ℕ → List ℤ
  | 0 => []
  | i + 1 =>
    let coeff := coeffs i
    coeff ++ [nextCoeff fl p sums coeff i]

/-- The polynomial after `i` rounds of the loop: leading coefficient 1, then
`set_coeff(n - i - 1, coeff[i])`. -/
def buildPoly : ℕ → Poly p
  | 0 => Poly.setCoeff [] sums.length 1
  | i + 1 => Poly.setCoeff (buildPoly i) (sums.length - i - 1)
      ((nextCoeff fl p sums (coeffs fl p sums i) i : ℤ) : ZMod p)

end Coefficients

/-- The first loop over the factors: the exponents' sum, or nothing at the first
factor that is not monic and linear. -/
def countRoots {p : ℕ} : List (Poly p × ℕ) → Option ℕ
  | [] => some 0
  | g :: factors =>
    if g.1.degree ≠ 1 ∨ g.1.lead ≠ 1 then none else (countRoots factors).map (g.2 + ·)

/-- The second loop: each root as often as its factor's exponent says. -/
def extractRoots {p : ℕ} (factors : List (Poly p × ℕ)) : List ℕ :=
  factors.flatMap fun g => List.replicate g.2 (-g.1.getCoeff 0).val

/-- `solve_poly`: the return code and the contents of `messages`. -/
def solvePoly (fl : Library) (messages : List ℕ) (p : ℕ) (sums : List ℤ) : ℕ × List ℕ :=
  let n := sums.length
  if n < 2 then (retInputError, messages)
  else if 1000 < n then (retInputError, messages)
  else if messages.length ≠ n then (retInputError, messages)
  else if p ≤ n then (retInputError, messages)
  else
    let factors := fl.factorKaltofenShoup p (buildPoly fl p sums n)
    match countRoots factors with
    | none => (retInvalid, messages)
    | some nRoots => if nRoots ≠ n then (retInvalid, messages) else (0, extractRoots factors)

/-- `solve`, with base 16, the only one its caller passes: the return code and
the texts written to `out_messages`. -/
def solve (fl : Library) (prime : List Char) (sums : List (List Char)) : ℕ × List (List Char) :=
  match ofHex prime, sums.mapM ofHex with
  | some p, some s =>
    let (ret, messages) := solvePoly fl (List.replicate sums.length 0) p (s.map Int.ofNat)
    if ret = 0 then
      if messages.any fun m => prime.length < (hexStr m).length then (retInternalError, [])
      else (ret, messages.map hexStr)
    else (ret, [])
  | _, _ => (retInputError, [])

/-- `GetRoots`. A size past the end of `powersums` and a size of zero, where
`&outer[0]` has no element to point to, panic. -/
def getRoots (fl : Library) {q : ℕ} (ps : List Char) (powersums : List (ZMod q)) (size : ℕ) :
    Except Fault (ℕ × List (List Char)) :=
  if powersums.length < size ∨ size = 0 then .error .panic
  else
    let (ret, messages) := solve fl ps ((powersums.take size).map fun x => hexStr x.val)
    .ok (if ret = 0 then (ret, messages) else (ret, []))

end Dcrtxmatcher.Flint
