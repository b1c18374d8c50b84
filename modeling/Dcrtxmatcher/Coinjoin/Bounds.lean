import Dcrtxmatcher.Coinjoin.Handover
import Dcrtxmatcher.Coinjoin.XorRound

/-! The vectors stay in bounds.

`Len` and the bytes of a message are not compared, and a vector is taken whatever the
length of the others is. -/
namespace Dcrtxmatcher.Coinjoin
open Lib

/-! ### What is to hold -/

/-- Entry `i` of the bytes. -/
def entryOf (pkgs : Packages) (buf : Bytes) (i : ℕ) : Field :=
  newFF pkgs ((buf.take ((i + 1) * pkScriptHashSize)).drop (i * pkScriptHashSize))

/-- Entry `i` of the exponential vector. -/
def DcVector.entry (pkgs : Packages) (data : DcVector) (i : ℕ) : Field := entryOf pkgs (data.vector ++ data.spare) i

/-- The entries that are read, which are those up to the first zero, are in the bytes. -/
def DcVector.EntriesFit (pkgs : Packages) (data : DcVector) : Prop :=
  ∀ i < data.len, (∀ j < i, data.entry pkgs j ≠ 0) → (i + 1) * pkScriptHashSize ≤ (data.vector ++ data.spare).length

/-- The other members of the session have sent nothing yet, or `n` entries. -/
def JoinSession.OthersSent {α : Type} (vector : PeerInfo → List α) (peerId n : ℕ) (js : JoinSession) : Prop :=
  ∀ p peer, p ≠ peerId → js.peers.lookup p = some peer → vector peer ≠ [] → (vector peer).length = n

/-- The exponential vector of the message is taken. -/
structure TakesExp (pkgs : Packages) (data : DcVector) (js : JoinSession) (vector : List Field) : Prop where
  free : js.mu = false
  member : data.peerId ∈ js.peers.keys
  size : ¬data.vector.length < pkScriptHashSize * 2
  read : ∃ peer, js.peers.lookup data.peerId = some peer ∧
    readEntries pkgs peer.id (data.vector ++ data.spare) 0 data.len = .ok (vector, none)
  errm : js.errm = none

/-- The xor vector of the message is taken. -/
structure TakesXor (data : DcVector) (js : JoinSession) (dcXor : List Bytes) : Prop where
  free : js.mu = false
  member : data.peerId ∈ js.peers.keys
  size : ¬data.vector.length < pkScriptSize * 2
  read : readMessages (data.vector ++ data.spare) 0 data.len = .ok dcXor

/-- An exponential vector is handled without a panic, and if it is taken it is as long as the
other ones. -/
def ExpInBounds (pkgs : Packages) (ch : Choices) (data : DcVector) (js : JoinSession) : Prop :=
  dcExpVector pkgs ch data js ≠ .error .panic ∧
    ∀ vector, TakesExp pkgs data js vector → js.OthersSent (·.dcExpVector) data.peerId vector.length

/-- So is a xor vector. -/
def XorInBounds (pkgs : Packages) (ch : Choices) (data : DcVector) (js : JoinSession) : Prop :=
  dcXorVector pkgs ch data js ≠ .error .panic ∧
    ∀ dcXor, TakesXor data js dcXor → js.OthersSent (·.dcXorVector) data.peerId dcXor.length

/-- When an exponential vector can be read, and agrees with the others. -/
def ExpFits (pkgs : Packages) (data : DcVector) (js : JoinSession) : Prop :=
  js.mu = false → data.peerId ∈ js.peers.keys → ¬data.vector.length < pkScriptHashSize * 2 →
    data.EntriesFit pkgs ∧
      (js.errm = none → (∀ i < data.len, data.entry pkgs i ≠ 0) → js.OthersSent (·.dcExpVector) data.peerId data.len)

/-- When a xor vector can be, which is read before the member is looked for. -/
def XorFits (data : DcVector) (js : JoinSession) : Prop :=
  js.mu = false → ¬data.vector.length < pkScriptSize * 2 →
    data.len * pkScriptSize ≤ (data.vector ++ data.spare).length ∧
      (data.peerId ∈ js.peers.keys → js.OthersSent (·.dcXorVector) data.peerId data.len)

/-! ### Reading the entries -/

section Entries
variable {pkgs : Packages} {peerId : ℕ} {buf : Bytes}

/-- The bytes of one entry. -/
theorem slice_entry {size i : ℕ} (h : (i + 1) * size ≤ buf.length) :
    slice buf (i * size) ((i + 1) * size) = .ok ((buf.take ((i + 1) * size)).drop (i * size)) := by
  rw [slice, if_pos]
  exact ⟨Nat.mul_le_mul_right _ (Nat.le_succ i), h⟩

theorem slice_entry_panic {size i : ℕ} (h : ¬(i + 1) * size ≤ buf.length) :
    slice buf (i * size) ((i + 1) * size) = .error .panic := by
  rw [slice, if_neg]
  exact fun hbounds => h hbounds.2

theorem length_of_readEntries {i n : ℕ} {vector : List Field}
    (h : readEntries pkgs peerId buf i n = .ok (vector, none)) : vector.length = n := by
  induction n generalizing i vector with
  | zero =>
    cases h
    rfl
  | succ n ih =>
    obtain ⟨b, -, h⟩ := bind_eq_ok.mp h
    dsimp only at h
    split_ifs at h with hff
    · cases h
    · obtain ⟨⟨rest, err⟩, hrest, h⟩ := bind_eq_ok.mp h
      cases h
      rw [List.length_cons, ih hrest]

/-- The first turn of the loop. -/
theorem readEntries_succ (i n : ℕ) : readEntries pkgs peerId buf i (n + 1) =
    if (i + 1) * pkScriptHashSize ≤ buf.length then
      if entryOf pkgs buf i = 0 then .ok ([], some (.invalidPkscriptHash peerId (Hex.hexStr (entryOf pkgs buf i).val)))
      else readEntries pkgs peerId buf (i + 1) n >>= fun r => .ok (entryOf pkgs buf i :: r.1, r.2)
    else .error .panic := by
  by_cases hfirst : (i + 1) * pkScriptHashSize ≤ buf.length
  · rw [if_pos hfirst, readEntries, slice_entry hfirst]
    rfl
  · rw [if_neg hfirst, readEntries, slice_entry_panic hfirst]
    rfl

/-- The loop panics at the first entry that is not in the bytes. -/
theorem readEntries_panic_iff {i n : ℕ} : readEntries pkgs peerId buf i n = .error .panic ↔
    ∃ k < n, (∀ j < k, entryOf pkgs buf (i + j) ≠ 0) ∧ ¬(i + k + 1) * pkScriptHashSize ≤ buf.length := by
  induction n generalizing i with
  | zero => simp [readEntries]
  | succ n ih =>
    rw [readEntries_succ, Nat.exists_lt_succ_left, add_zero]
    split_ifs with hfirst hff
    · apply iff_of_false (by simp)
      intro h
      rcases h with h | ⟨k, -, hnz, -⟩
      · exact h.2 hfirst
      · exact hnz 0 (Nat.succ_pos k) hff
    · have hrest : (readEntries pkgs peerId buf (i + 1) n >>= fun r => .ok (entryOf pkgs buf i :: r.1, r.2)) =
          .error .panic ↔ readEntries pkgs peerId buf (i + 1) n = .error .panic := by
        cases readEntries pkgs peerId buf (i + 1) n <;> simp [ok_bind, error_bind]
      rw [hrest, ih]
      simp only [Nat.forall_lt_succ_left, add_zero, ← add_assoc, add_right_comm i _ 1]
      simp [hfirst, hff]
    · exact iff_of_true rfl (.inl ⟨by simp, hfirst⟩)

/-- A vector without a zero is read as a whole. -/
theorem readEntries_ok_iff {i n : ℕ} : (∃ vector, readEntries pkgs peerId buf i n = .ok (vector, none)) ↔
    ∀ k < n, entryOf pkgs buf (i + k) ≠ 0 ∧ (i + k + 1) * pkScriptHashSize ≤ buf.length := by
  induction n generalizing i with
  | zero => simp [readEntries]
  | succ n ih =>
    rw [readEntries_succ, Nat.forall_lt_succ_left, add_zero]
    split_ifs with hfirst hff
    · exact iff_of_false (by simp) fun h => h.1.1 hff
    · have hrest : (∃ vector, (readEntries pkgs peerId buf (i + 1) n >>= fun r =>
          .ok (entryOf pkgs buf i :: r.1, r.2)) = .ok (vector, none)) ↔
          ∃ vector, readEntries pkgs peerId buf (i + 1) n = .ok (vector, none) := by
        cases readEntries pkgs peerId buf (i + 1) n with
        | error => simp [error_bind]
        | ok r =>
          obtain ⟨vector, err⟩ := r
          simp [ok_bind]
      rw [hrest, ih]
      simp only [← add_assoc, add_right_comm i _ 1]
      simp [hfirst, hff]
    · exact iff_of_false (by simp) fun h => hfirst h.1.2

theorem exists_readMessages_iff {i n : ℕ} : (∃ msgs, readMessages buf i n = .ok msgs) ↔
    ∀ k < n, (i + k + 1) * pkScriptSize ≤ buf.length := by
  induction n generalizing i with
  | zero => simp [readMessages]
  | succ n ih =>
    rw [Nat.forall_lt_succ_left, add_zero, readMessages]
    by_cases hfirst : (i + 1) * pkScriptSize ≤ buf.length
    · rw [slice_entry hfirst, ok_bind]
      have hrest : (∃ msgs, (readMessages buf (i + 1) n >>= fun msgs =>
          .ok ((buf.take ((i + 1) * pkScriptSize)).drop (i * pkScriptSize) :: msgs)) = .ok msgs) ↔
          ∃ msgs, readMessages buf (i + 1) n = .ok msgs := by
        cases readMessages buf (i + 1) n <;> simp [ok_bind, error_bind]
      rw [hrest, ih]
      simp only [← add_assoc, add_right_comm i _ 1]
      simp [hfirst]
    · rw [slice_entry_panic hfirst]
      exact iff_of_false (by simp [error_bind]) fun h => hfirst h.1

/-- All messages are in the bytes when the last one is. -/
theorem exists_readMessages_iff_le {n : ℕ} : (∃ msgs, readMessages buf 0 n = .ok msgs) ↔ n * pkScriptSize ≤ buf.length := by
  rw [exists_readMessages_iff]
  simp only [Nat.zero_add]
  constructor
  · intro h
    cases n with
    | zero => simp
    | succ n => exact h n (Nat.lt_succ_self n)
  · intro h k hk
    exact le_trans (Nat.mul_le_mul_right _ hk) h

end Entries

/-! ### The end of a round -/

section Ends
variable {pkgs : Packages} {ch : Choices} {js : JoinSession}

/-- Leaving a case with the mutex held. -/
theorem unlockAnd_ne_panic {d : Done} (hmu : js.mu = true) : js.unlockAnd d ≠ .error .panic := by
  rw [JoinSession.unlockAnd, JoinSession.unlock_of_held hmu, ok_bind]
  simp

/-- Nothing is handled while the mutex is held. -/
theorem lock_bind_held {β : Type} (hmu : ¬js.mu = false) (f : JoinSession → Except Fault β) :
    (js.lock >>= f) = .error .selfDeadlock := by
  rw [JoinSession.lock, if_pos (Bool.not_eq_false _ ▸ hmu)]
  rfl

theorem solveExponential_in_bounds {n : ℕ} (hn : n ≠ 0) (hmu : js.mu = true)
    (hle : ∀ p peer, js.peers.lookup p = some peer → peer.dcExpVector.length ≤ n) :
    solveExponential pkgs ch n js ≠ .error .panic := by
  have hvectors : ∀ v ∈ (GoMap.values ch.order [423] js.peers).map (·.dcExpVector), v.length ≤ n := by
    intro v hv
    obtain ⟨peer, hpeer, rfl⟩ := List.mem_map.mp hv
    obtain ⟨p, hp⟩ := GoMap.mem_values.mp hpeer
    exact hle p peer hp
  rw [solveExponential, combine_eq hvectors, ok_bind]
  generalize hsums : (List.range n).map _ = sums
  have hlength : sums.length = n := by rw [← hsums, List.length_map, List.length_range]
  obtain ⟨⟨ret, roots⟩, hroots⟩ : ∃ r, Flint.getRoots pkgs.flint (Hex.hexStr fieldPrime) sums n = .ok r := by
    rw [Flint.getRoots, if_neg]
    · exact ⟨_, rfl⟩
    · omega
  rw [hroots, ok_bind]
  dsimp only
  by_cases hret : ret ≠ 0
  · rw [if_pos hret]
    exact unlockAnd_ne_panic hmu
  rw [if_neg hret]
  cases encodeRoots roots with
  | error err => simp [JoinSession.failWith]
  | ok allMsgHash =>
    cases hmarshal : ch.marshal [474] with
    | false => simp [JoinSession.failWith]
    | true => exact unlockAnd_ne_panic hmu

theorem xorSlots_in_bounds {peers : GoMap ℕ PeerInfo} {n : ℕ}
    (hlen : ∀ p peer, peers.lookup p = some peer → peer.dcXorVector.length = n) :
    ∃ allPkScripts, xorSlots pkgs ch peers n = .ok allPkScripts := by
  apply exists_mapM
  intro i hi
  apply exists_xorSlot
  intro v hv
  obtain ⟨peer, hpeer, rfl⟩ := List.mem_map.mp hv
  obtain ⟨p, hp⟩ := GoMap.mem_values.mp hpeer
  rw [hlen p peer hp]
  exact List.mem_range.mp hi

/-- Every member has sent `n` entries, once the sender's are stored and nobody is missing. -/
theorem length_of_allSubmit {α : Type} (vector : PeerInfo → List α) {set : PeerInfo → PeerInfo} {peerId n : ℕ}
    (hset : ∀ peer, (vector (set peer)).length = n) (hothers : js.OthersSent vector peerId n)
    (hall : (js.setPeer peerId set).allSubmit (fun peer => vector peer ≠ []) = true) {p : ℕ} {peer : PeerInfo}
    (hp : (js.setPeer peerId set).peers.lookup p = some peer) : (vector peer).length = n ∧ vector peer ≠ [] := by
  have hne : vector peer ≠ [] := by
    have hmem := List.all_eq_true.mp hall (p, peer) (GoMap.mem_toList.mpr hp)
    simpa using hmem
  refine ⟨?_, hne⟩
  change (GoMap.modify peerId set js.peers).lookup p = some peer at hp
  by_cases hself : p = peerId
  · subst hself
    rw [GoMap.lookup_modify_self] at hp
    obtain ⟨old, -, rfl⟩ := Option.map_eq_some_iff.mp hp
    exact hset old
  · rw [GoMap.lookup_modify_ne hself] at hp
    exact hothers p peer hself hp hne

theorem dcExpVector_held (hmu : ¬js.mu = false) (data : DcVector) :
    dcExpVector pkgs ch data js = .error .selfDeadlock :=
  lock_bind_held hmu _

theorem dcXorVector_held (hmu : ¬js.mu = false) (data : DcVector) :
    dcXorVector pkgs ch data js = .error .selfDeadlock :=
  lock_bind_held hmu _

/-- The last vector of the round. -/
theorem dcExpVector_ended (hmu : js.mu = false) {data : DcVector} {peer : PeerInfo}
    (hp : js.peers.lookup data.peerId = some peer) (hsize : ¬data.vector.length < pkScriptHashSize * 2)
    {vector : List Field} (hread : readEntries pkgs peer.id (data.vector ++ data.spare) 0 data.len = .ok (vector, none))
    (herrm : js.errm = none)
    (hall : (storeExp data vector js).allSubmit (fun peer => peer.dcExpVector ≠ []) = true) :
    dcExpVector pkgs ch data js = solveExponential pkgs ch vector.length ((storeExp data vector js).withMu true) := by
  rw [dcExpVector, js.lock_eq hmu, ok_bind, JoinSession.peers_withMu, hp]
  dsimp only
  rw [if_neg hsize, hread, ok_bind]
  have hnone : ¬js.errm.isSome = true := by simp [herrm]
  exact (if_neg hnone).trans (if_pos hall)

/-- An exponential vector that can be read and agrees with the others does no harm. -/
theorem dcExpVector_in_bounds {data : DcVector} (hfits : ExpFits pkgs data js) :
    dcExpVector pkgs ch data js ≠ .error .panic := by
  by_cases hmu : js.mu = false
  swap
  · rw [dcExpVector_held hmu]
    simp
  have houtcome := dcExpVector_outcome pkgs ch data hmu
  generalize hr : dcExpVector pkgs ch data js = r at houtcome
  cases houtcome with
  | stranger => simp
  | short => simp
  | @panic peer hp hsize hread =>
    obtain ⟨i, hi, hnz, hout⟩ := readEntries_panic_iff.mp hread
    simp only [Nat.zero_add] at hnz hout
    exact absurd ((hfits hmu (GoMap.mem_keys_of_lookup hp) hsize).1 i hi hnz) hout
  | rejected => simp
  | waiting => simp
  | @ended peer vector hp hsize hread herrm hall _ _ =>
    have hnz := readEntries_ok_iff.mp ⟨vector, hread⟩
    simp only [Nat.zero_add] at hnz
    have hlen := length_of_readEntries hread
    have hothers := (hfits hmu (GoMap.mem_keys_of_lookup hp) hsize).2 herrm fun i hi => (hnz i hi).1
    have hsubmitted : ∀ p peer, (storeExp data vector js).peers.lookup p = some peer →
        peer.dcExpVector.length = data.len ∧ peer.dcExpVector ≠ [] := fun p peer =>
      length_of_allSubmit (·.dcExpVector) (fun _ => hlen) hothers hall
    rw [← hr, dcExpVector_ended hmu hp hsize hread herrm hall, hlen]
    refine solveExponential_in_bounds ?_ rfl fun p peer hpeer => (hsubmitted p peer hpeer).1.le
    have hself : (storeExp data vector js).peers.lookup data.peerId = some { peer with dcExpVector := vector } := by
      change (GoMap.modify data.peerId _ js.peers).lookup data.peerId = _
      rw [GoMap.lookup_modify_self, hp]
      rfl
    have hne := hsubmitted _ _ hself
    intro hzero
    rw [hzero] at hne
    exact hne.2 (List.length_eq_zero_iff.mp hne.1)

/-- The exponential round. -/
theorem exp_in_bounds_iff (data : DcVector) : ExpInBounds pkgs ch data js ↔ ExpFits pkgs data js := by
  constructor
  · intro h hmu hmember hsize
    obtain ⟨peer, hp⟩ := GoMap.lookup_of_mem_keys hmember
    have hfit : data.EntriesFit pkgs := by
      intro i hi hnz
      by_contra hout
      apply h.1
      have hread : readEntries pkgs peer.id (data.vector ++ data.spare) 0 data.len = .error .panic := by
        rw [readEntries_panic_iff]
        refine ⟨i, hi, fun j hj => ?_, by rwa [Nat.zero_add]⟩
        rw [Nat.zero_add]
        exact hnz j hj
      rw [dcExpVector, js.lock_eq hmu, ok_bind, JoinSession.peers_withMu, hp]
      dsimp only
      rw [if_neg hsize, hread]
      rfl
    refine ⟨hfit, fun herrm hnz => ?_⟩
    have hentries : ∀ k < data.len, entryOf pkgs (data.vector ++ data.spare) (0 + k) ≠ 0 ∧
        (0 + k + 1) * pkScriptHashSize ≤ (data.vector ++ data.spare).length := by
      intro k hk
      rw [Nat.zero_add]
      exact ⟨hnz k hk, hfit k hk fun j hj => hnz j (hj.trans hk)⟩
    obtain ⟨vector, hread⟩ := (@readEntries_ok_iff pkgs peer.id _ 0 data.len).mpr hentries
    rw [← length_of_readEntries hread]
    exact h.2 vector ⟨hmu, hmember, hsize, ⟨peer, hp, hread⟩, herrm⟩
  · intro hfits
    refine ⟨dcExpVector_in_bounds hfits, fun vector htakes => ?_⟩
    obtain ⟨peer, -, hread⟩ := htakes.read
    have hnz := readEntries_ok_iff.mp ⟨vector, hread⟩
    simp only [Nat.zero_add] at hnz
    rw [length_of_readEntries hread]
    exact (hfits htakes.free htakes.member htakes.size).2 htakes.errm fun i hi => (hnz i hi).1

theorem length_of_readMessages_ok {buf : Bytes} {i n : ℕ} {msgs : List Bytes} (h : readMessages buf i n = .ok msgs) :
    msgs.length = n := by
  induction n generalizing i msgs with
  | zero =>
    cases h
    rfl
  | succ n ih =>
    obtain ⟨msg, -, h⟩ := bind_eq_ok.mp h
    obtain ⟨rest, hrest, h⟩ := bind_eq_ok.mp h
    cases h
    rw [List.length_cons, ih hrest]

/-- A xor vector that can be read and agrees with the others does no harm. -/
theorem dcXorVector_in_bounds {data : DcVector} (hfits : XorFits data js) : dcXorVector pkgs ch data js ≠ .error .panic := by
  by_cases hmu : js.mu = false
  swap
  · rw [dcXorVector_held hmu]
    simp
  by_cases hshort : data.vector.length < pkScriptSize * 2
  · rw [dcXorVector, js.lock_eq hmu, ok_bind, if_pos hshort, JoinSession.unlockAnd, js.unlock_withMu hmu, ok_bind]
    simp
  obtain ⟨dcXor, hread⟩ := exists_readMessages_iff_le.mpr (hfits hmu hshort).1
  rw [dcXorVector, js.lock_eq hmu, ok_bind, if_neg hshort, hread, ok_bind, JoinSession.peers_withMu]
  cases hp : js.peers.lookup data.peerId with
  | none => exact unlockAnd_ne_panic rfl
  | some peer =>
    have hlen := length_of_readMessages_ok hread
    change (if (storeXor data dcXor js).allSubmit (fun peer => peer.dcXorVector ≠ []) then do
        let allPkScripts ← xorSlots pkgs ch (storeXor data dcXor js).peers dcXor.length
        if !ch.marshal [551] then failed .marshal { storeXor data dcXor js with allPkScripts := allPkScripts }
        else ((scriptList ch { storeXor data dcXor js with allPkScripts := allPkScripts }).withMu true).unlockAnd .next
      else (JoinSession.withMu { storeXor data dcXor js with allPkScripts := List.replicate dcXor.length [] } true).unlockAnd
        .next) ≠ .error .panic
    by_cases hall : (storeXor data dcXor js).allSubmit (fun peer => peer.dcXorVector ≠ []) = true
    swap
    · rw [if_neg hall]
      exact unlockAnd_ne_panic rfl
    have hothers := (hfits hmu hshort).2 (GoMap.mem_keys_of_lookup hp)
    rw [← hlen] at hothers
    obtain ⟨allPkScripts, hslots⟩ : ∃ allPkScripts, xorSlots pkgs ch (storeXor data dcXor js).peers dcXor.length =
        .ok allPkScripts := by
      apply xorSlots_in_bounds
      intro p peer hpeer
      have hall' : (js.setPeer data.peerId fun peer => { peer with dcXorVector := dcXor }).allSubmit
          (fun peer => peer.dcXorVector ≠ []) = true := hall
      exact (length_of_allSubmit (·.dcXorVector) (n := dcXor.length) (fun _ => rfl) hothers hall' hpeer).1
    rw [if_pos hall, hslots, ok_bind]
    split_ifs
    · simp [failed]
    · exact unlockAnd_ne_panic rfl

/-- The xor round. -/
theorem xor_in_bounds_iff (data : DcVector) : XorInBounds pkgs ch data js ↔ XorFits data js := by
  constructor
  · intro h hmu hsize
    have hfit : data.len * pkScriptSize ≤ (data.vector ++ data.spare).length := by
      by_contra hout
      apply h.1
      cases hread : readMessages (data.vector ++ data.spare) 0 data.len with
      | ok dcXor => exact absurd (exists_readMessages_iff_le.mp ⟨dcXor, hread⟩) hout
      | error fault =>
        obtain rfl := readMessages_onlyPanics _ _ _ fault hread
        rw [dcXorVector, js.lock_eq hmu, ok_bind, if_neg hsize, hread]
        rfl
    refine ⟨hfit, fun hmember => ?_⟩
    obtain ⟨dcXor, hread⟩ := exists_readMessages_iff_le.mpr hfit
    rw [← length_of_readMessages_ok hread]
    exact h.2 dcXor ⟨hmu, hmember, hsize, hread⟩
  · intro hfits
    refine ⟨dcXorVector_in_bounds hfits, fun dcXor htakes => ?_⟩
    rw [length_of_readMessages_ok htakes.read]
    exact (hfits htakes.free htakes.size).2 htakes.member

end Ends

/-- **The vectors stay in bounds exactly when** the entries that are read are in the bytes
and as many as those of every other member that has sent; in each round on its own. -/
theorem vectors_in_bounds (pkgs : Packages) (ch : Choices) (js : JoinSession) :
    (∀ data, ExpInBounds pkgs ch data js ↔ ExpFits pkgs data js) ∧
      ∀ data, XorInBounds pkgs ch data js ↔ XorFits data js :=
  ⟨fun data => exp_in_bounds_iff data, fun data => xor_in_bounds_iff data⟩

/-- Whether a handler stops the process. -/
def panics : Handled → Bool
  | .error .panic => true
  | _ => false

theorem panics_iff {r : Handled} : panics r = true ↔ r = .error .panic := by
  unfold panics
  split <;> simp_all

/-- **Vectors of two lengths stop the process**: after the first of two wallets has sent
three entries, the second one's two make a sum that is too short for them. -/
theorem longer_vector_panics : ∃ s, Reachable walletPackages s ∧ s.session.mu = false ∧
    ¬ExpInBounds walletPackages (plainChoices id) { smallVector [4, 16] with peerId := 2 } s.session := by
  have hstart : Reachable walletPackages (System.start (newJoinSession 7 60 false (queuePeers [(1, 1), (2, 2)]))) :=
    .start 7 60 false [(1, 1), (2, 2)] (by decide) (by decide)
  obtain ⟨s, hs, hpanics⟩ := hstart.of_any
    (l := turn 1 (.keyExchange ⟨0, [5], 1⟩) ++ turn 2 (.keyExchange ⟨0, [6], 1⟩) ++
      turn 1 (.dcExpVector (smallVector [4, 16, 64])))
    (p := fun s => !s.session.mu &&
      panics (dcExpVector walletPackages (plainChoices id) { smallVector [4, 16] with peerId := 2 } s.session))
    (by decide +kernel)
  rw [Bool.and_eq_true, Bool.not_eq_true', panics_iff] at hpanics
  exact ⟨s, hs, hpanics.1, fun h => h.1 hpanics.2⟩

end Dcrtxmatcher.Coinjoin
