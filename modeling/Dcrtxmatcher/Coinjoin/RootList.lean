import Dcrtxmatcher.Coinjoin.Exponential

/-! The list of roots on the wire.

The solver prints a number with as few digits as it has; the handler pads the text,
reads it as bytes and sends all of them one after the other. A reader that cuts the
payload every 16 bytes gets the numbers back. -/
namespace Dcrtxmatcher.Coinjoin
open Lib

/-! ### One root -/

/-- The text of a number below the prime, padded, is 16 bytes. -/
theorem length_decoded {root : ℕ} (h : root < fieldPrime) :
    (Hex.decodeString (padRoot (Hex.hexStr root))).length = pkScriptHashSize := by
  have hroot : root < 16 ^ 32 := h.trans (by norm_num [fieldPrime])
  have hlen : (padRoot (Hex.hexStr root)).length = 2 * pkScriptHashSize :=
    length_padRoot (Hex.length_hexStr_le (by norm_num) hroot)
  obtain ⟨ds, htext, hlt, -⟩ := Hex.foldl_padded root 32
  refine Hex.length_decodeString hlen fun c hc => ?_
  rw [padRoot, htext] at hc
  obtain ⟨d, hd, rfl⟩ := List.mem_map.mp hc
  exact ⟨d, hlt d hd, Hex.hexVal_digitChar (hlt d hd)⟩

/-- Those bytes, the highest first, are the number. -/
theorem bigEndian_decoded {root : ℕ} (h : root < fieldPrime) :
    bigEndian (Hex.decodeString (padRoot (Hex.hexStr root))) = root := by
  have hroot : root < 16 ^ 32 := h.trans (by norm_num [fieldPrime])
  have hlen : (padRoot (Hex.hexStr root)).length = 32 := length_padRoot (Hex.length_hexStr_le (by norm_num) hroot)
  obtain ⟨ds, htext, hlt, hvalue⟩ := Hex.foldl_padded root 32
  rw [padRoot, htext, List.length_map] at hlen
  have heven : Even ds.length := by
    rw [hlen]
    decide
  rw [padRoot, htext, bigEndian, Hex.foldl_decodeString hlt heven, hvalue]

/-! ### The list -/

/-- What a reader makes of the payload: a number every 16 bytes. -/
def readRoots (payload : Bytes) : List ℕ :=
  (List.range (payload.length / pkScriptHashSize)).map fun i =>
    bigEndian ((payload.drop (i * pkScriptHashSize)).take pkScriptHashSize)

theorem readRoots_nil : readRoots [] = [] := rfl

theorem readRoots_append {b : Bytes} (hb : b.length = pkScriptHashSize) (payload : Bytes) :
    readRoots (b ++ payload) = bigEndian b :: readRoots payload := by
  have hcount : (b ++ payload).length / pkScriptHashSize = payload.length / pkScriptHashSize + 1 := by
    rw [List.length_append, hb, Nat.add_comm]
    exact Nat.add_div_right _ (by decide)
  rw [readRoots, hcount, List.range_succ_eq_map, List.map_cons, List.map_map]
  congr 1
  · rw [Nat.zero_mul, List.drop_zero, ← hb, List.take_left]
  · refine List.map_congr_left fun i _ => ?_
    have hskip : (i + 1) * pkScriptHashSize = b.length + i * pkScriptHashSize := by
      rw [hb, Nat.add_mul, Nat.one_mul, Nat.add_comm]
    show bigEndian (((b ++ payload).drop ((i + 1) * pkScriptHashSize)).take pkScriptHashSize) = _
    rw [hskip, List.drop_length_add_append]

/-- The bytes of the roots, one after the other. -/
def rootPayload (roots : List ℕ) : Bytes := roots.flatMap fun root => Hex.decodeString (padRoot (Hex.hexStr root))

theorem encodeRoots_printed {roots : List ℕ} (h : ∀ root ∈ roots, root < fieldPrime) :
    encodeRoots (roots.map Hex.hexStr) = .ok (rootPayload roots) := by
  have hprinted : ∀ text ∈ roots.map Hex.hexStr, ∃ n < 16 ^ 32, text = Hex.hexStr n := by
    intro text htext
    obtain ⟨n, hn, rfl⟩ := List.mem_map.mp htext
    exact ⟨n, (h n hn).trans (by norm_num [fieldPrime]), rfl⟩
  rw [encodeRoots_eq hprinted, List.flatMap_map]
  rfl

theorem length_rootPayload {roots : List ℕ} (h : ∀ root ∈ roots, root < fieldPrime) :
    (rootPayload roots).length = 16 * roots.length := by
  induction roots with
  | nil => rfl
  | cons root roots ih =>
    have hsize := length_decoded (h root (List.mem_cons_self ..))
    have hrest := ih fun root' hroot' => h root' (List.mem_cons_of_mem root hroot')
    change (_ ++ rootPayload roots).length = _
    rw [List.length_append, hsize, hrest, List.length_cons, pkScriptHashSize]
    omega

theorem readRoots_rootPayload {roots : List ℕ} (h : ∀ root ∈ roots, root < fieldPrime) :
    readRoots (rootPayload roots) = roots := by
  induction roots with
  | nil => exact readRoots_nil
  | cons root roots ih =>
    have hroot := h root (List.mem_cons_self ..)
    change readRoots (_ ++ rootPayload roots) = _
    rw [readRoots_append (length_decoded hroot), bigEndian_decoded hroot,
      ih fun root' hroot' => h root' (List.mem_cons_of_mem root hroot')]

/-! ### What the solver prints -/

/-- With code zero the solver has printed representatives of elements of the field,
whatever the library it calls does. -/
theorem exists_printed {fl : Flint.Library} {ps : List Field} {n : ℕ} {roots : List (List Char)}
    (h : Flint.getRoots fl (Hex.hexStr fieldPrime) ps n = .ok (0, roots)) :
    ∃ messages : List ℕ, roots = messages.map Hex.hexStr ∧ ∀ m ∈ messages, m < fieldPrime := by
  by_cases hsize : ps.length < n ∨ n = 0
  · rw [Flint.getRoots, if_pos hsize] at h
    cases h
  · rw [not_or, not_lt] at hsize
    have hlt := Flint.solvePoly_lt fl (p := fieldPrime) n (Flint.parsed ps n)
    rw [Flint.getRoots_eq fl hsize.1 (Nat.pos_of_ne_zero hsize.2) hlt] at h
    dsimp only at h
    split_ifs at h with hret
    · cases h
      exact ⟨_, rfl, hlt⟩
    · exact absurd (Prod.mk.inj (Except.ok.inj h)).1 hret

/-- So the end of the exponential round never fails on the size of a root. -/
theorem errm_of_solveExponential {pkgs : Packages} {ch : Choices} {n size : ℕ} {js js' : JoinSession} {d : Done}
    (hmu : js.mu = true) (h : solveExponential pkgs ch n js = .ok (d, js')) (herrm : js.errm = none) :
    js'.errm ≠ some (.pkscriptHashSize size) := by
  obtain ⟨sums, -, h⟩ := bind_eq_ok.mp h
  obtain ⟨⟨ret, roots⟩, hroots, h⟩ := bind_eq_ok.mp h
  dsimp only at h
  by_cases hret : ret ≠ 0
  · rw [if_pos hret] at h
    simp only [JoinSession.unlockAnd, JoinSession.unlock, JoinSession.broadcast, hmu] at h
    cases h
    simp [herrm]
  · obtain rfl : ret = 0 := by simpa using hret
    obtain ⟨messages, rfl, hlt⟩ := exists_printed hroots
    rw [if_neg hret, encodeRoots_printed hlt] at h
    dsimp only at h
    split_ifs at h
    · cases h
      simp
    · simp only [JoinSession.unlockAnd, JoinSession.unlock, JoinSession.broadcast, JoinSession.newTimer, hmu] at h
      cases h
      simp [herrm]

/-- **Roots are sent with fixed width and nothing lost.** Whatever numbers below the
prime the solver prints, each becomes 16 bytes, so the error for another size does
not occur, and the payload read back is the list. -/
theorem root_list_round_trip (roots : List ℕ) (h : ∀ root ∈ roots, root < fieldPrime) :
    ∃ allMsgHash, encodeRoots (roots.map Hex.hexStr) = .ok allMsgHash ∧
      allMsgHash.length = 16 * roots.length ∧ readRoots allMsgHash = roots :=
  ⟨rootPayload roots, encodeRoots_printed h, length_rootPayload h, readRoots_rootPayload h⟩

/-- Zero, one digit, and the largest. -/
theorem root_list_round_trip_three : ∃ allMsgHash,
    encodeRoots ([0, 10, fieldPrime - 1].map Hex.hexStr) = .ok allMsgHash ∧ allMsgHash.length = 16 * 3 ∧
      readRoots allMsgHash = [0, 10, fieldPrime - 1] :=
  root_list_round_trip [0, 10, fieldPrime - 1] (by simp [fieldPrime])

end Dcrtxmatcher.Coinjoin
