import Mathlib.Data.Nat.Digits.Defs
import Mathlib.Data.Nat.Digits.Lemmas
import Mathlib.Data.UInt

/-! Numbers as hexadecimal text and text as bytes.

Numbers print without leading zeros and in lower case (`hexStr`), and parse back
(`ofHex_hexStr`). Decoding into bytes takes two digits a byte and stops at the
first pair that is not hexadecimal. -/
namespace Dcrtxmatcher.Lib.Hex

/-- The value of a digit, in either case. -/
def hexVal (c : Char) : Option ℕ :=
  if '0' ≤ c ∧ c ≤ '9' then some (c.toNat - '0'.toNat)
  else if 'a' ≤ c ∧ c ≤ 'f' then some (c.toNat - 'a'.toNat + 10)
  else if 'A' ≤ c ∧ c ≤ 'F' then some (c.toNat - 'A'.toNat + 10)
  else none

theorem hexVal_digitChar {d : ℕ} (h : d < 16) : hexVal (Nat.digitChar d) = some d := by
  revert d
  decide

/-- Lower-case digits, most significant first, `0` for zero. -/
def hexStr (n : ℕ) : List Char :=
  if n = 0 then ['0'] else ((Nat.digits 16 n).map Nat.digitChar).reverse

/-- The number a text denotes; empty text and other characters denote none. -/
def ofHex (s : List Char) : Option ℕ :=
  if s = [] then none else (s.mapM hexVal).map fun ds => Nat.ofDigits 16 ds.reverse

theorem mapM_hexVal {ds : List ℕ} (h : ∀ d ∈ ds, d < 16) :
    (ds.map Nat.digitChar).mapM hexVal = some ds := by
  induction ds with
  | nil => rfl
  | cons d ds ih =>
    rw [List.map_cons, List.mapM_cons, hexVal_digitChar (h d (List.mem_cons_self ..)),
      ih fun e he => h e (List.mem_cons_of_mem d he)]
    rfl

theorem hexStr_ne_nil (n : ℕ) : hexStr n ≠ [] := by
  by_cases h : n = 0
  · simp [hexStr, h]
  · simpa [hexStr, h] using Nat.digits_ne_nil_iff_ne_zero.mpr h

/-- Printed numbers parse back. -/
theorem ofHex_hexStr (n : ℕ) : ofHex (hexStr n) = some n := by
  rw [ofHex, if_neg (hexStr_ne_nil n)]
  by_cases h : n = 0
  · subst h
    rfl
  · rw [hexStr, if_neg h, ← List.map_reverse, mapM_hexVal fun d hd =>
      Nat.digits_lt_base (by norm_num) (List.mem_reverse.mp hd)]
    simp [Nat.ofDigits_digits]

/-- A number below `16 ^ k` prints in at most `k` digits, one at least. -/
theorem length_hexStr_le {n k : ℕ} (hk : 0 < k) (h : n < 16 ^ k) : (hexStr n).length ≤ k := by
  by_cases h0 : n = 0
  · simp [hexStr, h0]
    omega
  · simp only [hexStr, if_neg h0, List.length_reverse, List.length_map]
    exact Nat.digits_length_le_iff (by norm_num) n |>.mpr h

theorem length_hexStr_mono {m n : ℕ} (h : m ≤ n) : (hexStr m).length ≤ (hexStr n).length := by
  have hpos : 0 < (hexStr n).length := List.length_pos_iff.mpr (hexStr_ne_nil n)
  refine length_hexStr_le hpos ?_
  by_cases h0 : n = 0
  · simp [h0] at h
    simp [h]
  · refine lt_of_le_of_lt h ?_
    simpa [hexStr, h0] using Nat.lt_base_pow_length_digits (b := 16) (m := n) (by norm_num)

/-- Every printed character is a digit. -/
theorem hexVal_of_mem_hexStr {n : ℕ} {c : Char} (h : c ∈ hexStr n) : ∃ d < 16, hexVal c = some d := by
  by_cases h0 : n = 0
  · simp only [hexStr, if_pos h0, List.mem_singleton] at h
    exact ⟨0, by norm_num, by rw [h]; decide⟩
  · simp only [hexStr, if_neg h0, List.mem_reverse, List.mem_map] at h
    obtain ⟨d, hd, rfl⟩ := h
    have hlt := Nat.digits_lt_base (by norm_num) hd
    exact ⟨d, hlt, hexVal_digitChar hlt⟩

/-- Bytes from pairs of digits, up to the first pair that is not one. -/
def decodeString : List Char → List UInt8
  | a :: b :: rest =>
    match hexVal a, hexVal b with
    | some x, some y => UInt8.ofNat (16 * x + y) :: decodeString rest
    | _, _ => []
  | _ => []

/-- The bytes of a text of digits are the digits, two at a time. -/
theorem foldl_decodeString {ds : List ℕ} (hlt : ∀ d ∈ ds, d < 16) (heven : Even ds.length) (n : ℕ) :
    (decodeString (ds.map Nat.digitChar)).foldl (fun n x => 256 * n + x.toNat) n = ds.foldl (fun n d => 16 * n + d) n := by
  match ds, heven with
  | [], _ => rfl
  | [_], heven => simp at heven
  | x :: y :: rest, heven =>
    have hx : x < 16 := hlt x (by simp)
    have hy : y < 16 := hlt y (by simp)
    have hbyte : (UInt8.ofNat (16 * x + y)).toNat = 16 * x + y := by
      rw [UInt8.toNat_ofNat']
      exact Nat.mod_eq_of_lt (by omega)
    have hrest : Even rest.length := by simpa [Nat.even_add] using heven
    simp only [List.map_cons, decodeString, hexVal_digitChar hx, hexVal_digitChar hy, List.foldl_cons, hbyte]
    rw [foldl_decodeString (fun d hd => hlt d (by simp [hd])) hrest]
    congr 1
    ring

/-- A printed number with zeros before it still is the number. -/
theorem foldl_padded (n k : ℕ) :
    ∃ ds : List ℕ, List.leftpad k '0' (hexStr n) = ds.map Nat.digitChar ∧ (∀ d ∈ ds, d < 16) ∧
      ds.foldl (fun n d => 16 * n + d) 0 = n := by
  obtain ⟨ds, htext, hlt, hvalue⟩ : ∃ ds : List ℕ, hexStr n = ds.map Nat.digitChar ∧ (∀ d ∈ ds, d < 16) ∧
      ds.foldl (fun n d => 16 * n + d) 0 = n := by
    by_cases h : n = 0
    · subst h
      exact ⟨[0], rfl, by simp, rfl⟩
    · refine ⟨(Nat.digits 16 n).reverse, by simp [hexStr, h], fun d hd => ?_, ?_⟩
      · exact Nat.digits_lt_base (by norm_num) (List.mem_reverse.mp hd)
      · calc (Nat.digits 16 n).reverse.foldl (fun n d => 16 * n + d) 0 =
            (Nat.digits 16 n).foldr (fun d n => d + 16 * n) 0 := by
              rw [List.foldl_reverse]
              simp only [add_comm]
          _ = Nat.ofDigits 16 (Nat.digits 16 n) := (Nat.ofDigits_eq_foldr ..).symm
          _ = n := Nat.ofDigits_digits 16 n
  refine ⟨List.replicate (k - (hexStr n).length) 0 ++ ds, ?_, ?_, ?_⟩
  · rw [List.leftpad, List.map_append, List.map_replicate, ← htext]
    rfl
  · intro d hd
    rcases List.mem_append.mp hd with hd | hd
    · rw [List.eq_of_mem_replicate hd]
      norm_num
    · exact hlt d hd
  · have hzeros : ∀ j, (List.replicate j 0).foldl (fun n d => 16 * n + d) 0 = 0 := by
      intro j
      induction j with
      | zero => rfl
      | succ j ih => rw [List.replicate_succ, List.foldl_cons, mul_zero, ih]
    rw [List.foldl_append, hzeros, hvalue]

/-- `2 * k` digits decode to `k` bytes. -/
theorem length_decodeString {k : ℕ} {s : List Char} (hlen : s.length = 2 * k)
    (hs : ∀ c ∈ s, ∃ d < 16, hexVal c = some d) : (decodeString s).length = k := by
  induction k generalizing s with
  | zero => simp [List.eq_nil_of_length_eq_zero hlen, decodeString]
  | succ k ih =>
    match s, hlen with
    | a :: b :: rest, hlen =>
      obtain ⟨x, _, hx⟩ := hs a (by simp)
      obtain ⟨y, _, hy⟩ := hs b (by simp)
      simp only [decodeString, hx, hy, List.length_cons]
      rw [ih (by simp only [List.length_cons] at hlen; omega) fun c hc => hs c (by simp [hc])]
    | [_], hlen => simp only [List.length_cons, List.length_nil] at hlen; omega
    | [], hlen => simp only [List.length_nil] at hlen; omega

end Dcrtxmatcher.Lib.Hex
