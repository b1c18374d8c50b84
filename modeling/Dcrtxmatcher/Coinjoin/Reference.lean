import Dcrtxmatcher.Coinjoin.Types
import Dcrtxmatcher.Flint.SolverProofs

/-! An instance of the packages, to run the model on.

It keeps what the session relies on and is otherwise as small as possible: numbers
are 16 bytes, the highest first; keys are multiplied as in a Diffie-Hellman
exchange over the additive group of bytes with generator 1; a random stream
repeats its seed; the hash of a script is the script as a number. -/
namespace Dcrtxmatcher.Coinjoin
open Lib

/-- `field.FromBytes`. -/
def bigEndian (b : Bytes) : ℕ := b.foldl (fun n x => 256 * n + x.toNat) 0

/-- `n` in `k` bytes. -/
def toBigEndian (n : ℕ) : ℕ → Bytes
  | 0 => []
  | k + 1 => toBigEndian (n / 256) k ++ [UInt8.ofNat (n % 256)]

@[simp] theorem length_toBigEndian (n k : ℕ) : (toBigEndian n k).length = k := by
  induction k generalizing n with
  | zero => rfl
  | succ k ih => simp [toBigEndian, ih]

theorem bigEndian_toBigEndian {n k : ℕ} (h : n < 256 ^ k) : bigEndian (toBigEndian n k) = n := by
  induction k generalizing n with
  | zero =>
    rw [pow_zero] at h
    simp [toBigEndian, bigEndian]
    omega
  | succ k ih =>
    have hdiv : n / 256 < 256 ^ k := Nat.div_lt_of_lt_mul (by rwa [pow_succ'] at h)
    have hlast : (UInt8.ofNat (n % 256)).toNat = n % 256 := by
      rw [UInt8.toNat_ofNat']
      exact Nat.mod_mod_of_dvd n (by norm_num)
    rw [toBigEndian, bigEndian, List.foldl_append, List.foldl_cons, List.foldl_nil, hlast]
    have := ih hdiv
    rw [bigEndian] at this
    omega

/-- `util.XorBytes`: an empty operand gives the other one. -/
def xorBytes (a b : Bytes) : Bytes :=
  if a = [] then b
  else if b = [] then a
  else if a.length = b.length then List.zipWith (· ^^^ ·) a b
  else []

/-- The shared secret of two one-byte keys. -/
def multiplyKeys (a b : Bytes) : Option Bytes := some [a.headD 0 * b.headD 0]

theorem multiplyKeys_comm (a b : Bytes) : multiplyKeys a b = multiplyKeys b a := by
  rw [multiplyKeys, multiplyKeys, mul_comm]

/-- The packages, for given polynomial library and transaction encoding. -/
def referencePackages (flint : Flint.Library) (btcEncode : MsgTx → Option Bytes)
    (btcDecode : Bytes → Option MsgTx) : Packages where
  flint := flint
  unmarshal pk := pk ≠ []
  genSharedSecret := multiplyKeys
  genSharedSecret32 := multiplyKeys
  randBytes seed n := some (List.replicate n (seed.headD 0))
  fromBytes := bigEndian
  getBytes n := toBigEndian n 16
  uint128FromString s := (Hex.ofHex s).getD 0
  xorBytes := xorBytes
  sum127 script := toBigEndian (bigEndian script % fieldPrime) 16
  btcEncode := btcEncode
  btcDecode := btcDecode

/-- The packages where no transaction is in play. -/
noncomputable def plainPackages : Packages := referencePackages Flint.referenceLibrary (fun _ => none) fun _ => none

theorem plainPackages_flint : plainPackages.flint.Correct fieldPrime := Flint.referenceLibrary_correct

theorem plainPackages_parse (x : Field) : plainPackages.uint128FromString (Hex.hexStr x.val) = x.val :=
  congrArg (Option.getD · 0) (Hex.ofHex_hexStr x.val)

theorem plainPackages_xor : plainPackages.XorLaws where
  nil _ := rfl
  xor a b h := by
    show xorBytes a b = _
    rw [xorBytes]
    split_ifs with ha hb
    · subst ha
      rw [List.length_nil, eq_comm, List.length_eq_zero_iff] at h
      rw [h]
      rfl
    · subst hb
      rw [List.length_nil, List.length_eq_zero_iff] at h
      exact absurd h ha
    · rfl

theorem plainPackages_bytes (a b : ℕ) (ha : a < fieldPrime) (hb : b < fieldPrime)
    (h : plainPackages.getBytes a = plainPackages.getBytes b) : a = b := by
  have hp : fieldPrime < 256 ^ 16 := by norm_num [fieldPrime]
  rw [← bigEndian_toBigEndian (ha.trans hp), ← bigEndian_toBigEndian (hb.trans hp)]
  exact congrArg bigEndian h

theorem plainPackages_rand (n : ℕ) (sharedKey rng : Bytes) (h : plainPackages.randBytes sharedKey n = some rng) :
    rng.length = n := by
  cases h
  exact List.length_replicate ..

/-- Choices without surprises: maps in the order they hold, the first peer
publishes, nothing fails. -/
def plainChoices (genId : ℕ → ℕ) : Choices where
  order := .listed
  genId := genId
  intn _ := 0
  intn_lt _ h := h
  marshal _ := true
  generateKey _ := ([1], [1])
  publishTx _ := true

end Dcrtxmatcher.Coinjoin
