import Dcrtxmatcher.Coinjoin.RootList
import Dcrtxmatcher.Coinjoin.XorRound
import Dcrtxmatcher.Coinjoin.Integrity

/-! Peers that follow the protocol.

A wallet answers every message of the session once: to its admission with its key, to
the list of keys with the power sums of its hashes, to the roots with its scripts in
the slots of its hashes, to the scripts with its inputs, and to the joined transaction
with its signatures. What it answers depends on what it was sent, and on nothing that
the other wallets keep to themselves but the pads shared with each of them. -/
namespace Dcrtxmatcher.Coinjoin
open Lib Lib.Pads

/-! ### What a wallet sends -/

/-- The element of the field that the hash of a script stands for. -/
def scriptHash (pkgs : Packages) (script : Bytes) : Field := newFF pkgs (pkgs.sum127 script)

/-- The roots in a payload. -/
def fieldRoots (msgs : Bytes) : List Field := (readRoots msgs).map Nat.cast

/-- What the wallets bring along, by the id of the peer. -/
structure Wallets where
  pk : ℕ → Bytes
  scripts : ℕ → List Bytes
  /-- The pad two peers share in the exponential round. -/
  pad : ℕ → ℕ → Field
  /-- The pad two peers share in the xor round. -/
  xorPad : ℕ → ℕ → Xored pkScriptSize
  /-- The inputs, and the outputs that take the change. -/
  tx : ℕ → MsgTx
  ticketPrice : ℤ

namespace Wallets
variable (pkgs : Packages) (w : Wallets)

def hashes (p : ℕ) : List Field := (w.scripts p).map (scriptHash pkgs)

/-- The entry of a peer in the list of keys. -/
def info (p : ℕ) : PeerMsgInfo := ⟨p, w.pk p, (w.scripts p).length⟩

/-- How many messages the peers have. -/
def total (ids : List ℕ) : ℕ := (ids.map fun p => (w.scripts p).length).sum

/-- What a peer puts into the slot of a root: the script it belongs to, or zero bytes. -/
def slotContent (p : ℕ) (root : Field) : Bytes :=
  ((w.scripts p).find? fun script => scriptHash pkgs script = root).getD (List.replicate pkScriptSize 0)

/-- The vector of a peer among the peers `ids`, an entry for each root. -/
def xorVector (ids : List ℕ) (roots : List Field) (p : ℕ) : List Bytes :=
  roots.map fun root =>
    (Xored.ofList (w.slotContent pkgs p root) + (ids.map fun q => if q = p then 0 else w.xorPad p q).sum).toList

/-- The transaction with the peer's inputs signed, and nothing changed but scripts. -/
structure Signs (p : ℕ) (unsigned tx : MsgTx) : Prop where
  same : tx.stripped = unsigned.stripped
  own : ∀ txin ∈ tx.txIn, (∃ mine ∈ (w.tx p).txIn, mine.previousOutPoint = txin.previousOutPoint) →
    txin.signatureScript ≠ []

/-- The answers of peer `p` to what it has been sent so far. -/
def Answers (p : ℕ) (asked : List ServerMessage) : ClientMessage → Prop
  | .keyExchange req => asked = [] ∧ req.pk = w.pk p ∧ req.numMsg = (w.scripts p).length
  | .dcExpVector data => ∃ peers, asked = [.keyExchange peers] ∧
    Carries pkgs data (honestVector (peers.map (·.peerId)) w.pad (w.hashes pkgs p) p (peers.map (·.numMsg)).sum)
  | .dcXorVector data => ∃ peers len msgs, asked = [.keyExchange peers, .dcExpVector len msgs] ∧
    CarriesMessages data (w.xorVector pkgs (peers.map (·.peerId)) (fieldRoots msgs) p)
  | .txInputs txins => ∃ first second msgs, asked = [first, second, .dcXorVector msgs] ∧
    txins.ticketPrice = w.ticketPrice ∧ pkgs.btcDecode txins.txins = some (w.tx p)
  | .txSigned signedTx => ∃ first second third bytes unsigned tx, asked = [first, second, third, .joinedTx bytes] ∧
    pkgs.btcDecode bytes = some unsigned ∧ pkgs.btcDecode signedTx.tx = some tx ∧ w.Signs p unsigned tx
  | _ => False

/-- The joined transaction of peers visited in this order, with these scripts. -/
def joined (order : List ℕ) (scripts : List Bytes) : MsgTx :=
  { w.tx (order.headD 0) with
    txIn := order.flatMap fun p => (w.tx p).txIn
    txOut := (order.flatMap fun p => (w.tx p).txOut) ++ scripts.map (newTxOut w.ticketPrice) }

/-- The peers `ids` can go through the rounds together. -/
structure Match (ids : List ℕ) : Prop where
  keys : ∀ p ∈ ids, pkgs.unmarshal (w.pk p) = true
  scripts : ∀ p ∈ ids, w.scripts p ≠ []
  size : ∀ p ∈ ids, ∀ script ∈ w.scripts p, script.length = pkScriptSize
  total : w.total ids ≤ 1000
  distinct : ((ids.flatMap w.scripts).map (scriptHash pkgs)).Nodup
  pad : ∀ p ∈ ids, ∀ q ∈ ids, w.pad p q = w.pad q p
  xorPad : ∀ p ∈ ids, ∀ q ∈ ids, w.xorPad p q = w.xorPad q p
  nonzero : ∀ p ∈ ids, 0 ∉ honestVector ids w.pad (w.hashes pkgs p) p (w.total ids)
  price : 0 < w.ticketPrice
  unsigned : ∀ p ∈ ids, ∀ txin ∈ (w.tx p).txIn, txin.signatureScript = []
  covered : ∀ p ∈ ids, ∃ change outs, (w.tx p).txOut = change :: outs ∧
    -(2 ^ 63) ≤ change.value + (w.scripts p).length * w.ticketPrice ∧
    change.value + (w.scripts p).length * w.ticketPrice ≤ ((w.tx p).txIn.map (·.valueIn)).sum ∧
    ((w.tx p).txIn.map (·.valueIn)).sum < 2 ^ 63

/-- The transactions the session builds can be encoded, and the unsigned ones decoded. -/
structure Encodable (ids : List ℕ) : Prop where
  unsigned : ∀ order scripts, order.Perm ids → scripts.Perm (ids.flatMap w.scripts) →
    ∃ bytes, pkgs.btcEncode (w.joined order scripts) = some bytes ∧ pkgs.btcDecode bytes = some (w.joined order scripts)
  signed : ∀ order scripts tx, order.Perm ids → scripts.Perm (ids.flatMap w.scripts) →
    tx.stripped = (w.joined order scripts).stripped → (pkgs.btcEncode tx).isSome = true

end Wallets

/-! ### What the answers come to -/

section Sums
variable {pkgs : Packages} {w : Wallets} {ids order : List ℕ}

theorem honestVector_perm (h : order.Perm ids) (pad : ℕ → ℕ → Field) (hashes : List Field) (p n : ℕ) :
    honestVector order pad hashes p n = honestVector ids pad hashes p n := by
  refine List.map_congr_left fun i _ => ?_
  rw [honestEntry, honestEntry, (h.map _).sum_eq]

theorem Wallets.xorVector_perm (h : order.Perm ids) (roots : List Field) (p : ℕ) :
    w.xorVector pkgs order roots p = w.xorVector pkgs ids roots p := by
  refine List.map_congr_left fun root _ => ?_
  rw [(h.map _).sum_eq]

theorem Wallets.map_peerId_info (order : List ℕ) : (order.map w.info).map (·.peerId) = order := by
  rw [List.map_map]
  exact List.map_id order

theorem Wallets.sum_numMsg_info (h : order.Perm ids) : ((order.map w.info).map (·.numMsg)).sum = w.total ids := by
  rw [List.map_map]
  exact (h.map _).sum_eq

theorem Wallets.allHashes_eq : allHashes ids (w.hashes pkgs) = ((ids.flatMap w.scripts).map (scriptHash pkgs) : List Field) := by
  rw [allHashes, List.map_flatMap]
  rfl

/-- Two peers have a script in each, so there are two messages at least. -/
theorem Wallets.two_le_total (hscripts : ∀ p ∈ ids, w.scripts p ≠ []) (h2 : 2 ≤ ids.length) : 2 ≤ w.total ids := by
  have hone : ∀ n ∈ ids.map fun p => (w.scripts p).length, 1 ≤ n := by
    intro n hn
    obtain ⟨p, hp, rfl⟩ := List.mem_map.mp hn
    exact List.length_pos_iff.mpr (hscripts p hp)
  calc 2 ≤ ids.length := h2
    _ = (ids.map fun p => (w.scripts p).length).length * 1 := by rw [List.length_map, mul_one]
    _ ≤ w.total ids := List.card_nsmul_le_sum _ 1 hone

/-- Every root has one owner, and the owners' vectors are those of the xor round. -/
theorem Wallets.exists_slots (hnodup : ((ids.flatMap w.scripts).map (scriptHash pkgs)).Nodup)
    (hsize : ∀ p ∈ ids, ∀ script ∈ w.scripts p, script.length = pkScriptSize) {roots : List Field}
    (hroots : roots.Perm ((ids.flatMap w.scripts).map (scriptHash pkgs))) :
    ∃ (owner : ℕ → ℕ) (script : ℕ → Bytes), (∀ i < roots.length, owner i ∈ ids) ∧
      (∀ i < roots.length, (script i).length = pkScriptSize) ∧
      (∀ p ∈ ids, w.xorVector pkgs ids roots p = Coinjoin.xorVector ids w.xorPad owner script roots.length p) ∧
      ((List.range roots.length).map script).Perm (ids.flatMap w.scripts) := by
  have hsend : ∀ i, ∃ p script, i < roots.length → p ∈ ids ∧ script ∈ w.scripts p ∧ roots[i]? = some (scriptHash pkgs script) := by
    intro i
    by_cases hi : i < roots.length
    · obtain ⟨script, hscript, hhash⟩ := List.mem_map.mp (hroots.mem_iff.mp (List.getElem_mem hi))
      obtain ⟨p, hp, hmem⟩ := List.mem_flatMap.mp hscript
      exact ⟨p, script, fun _ => ⟨hp, hmem, by rw [List.getElem?_eq_getElem hi, hhash]⟩⟩
    · exact ⟨0, [], fun h => absurd h hi⟩
  choose owner script hslot using hsend
  -- scripts are told apart by their hashes
  have hinj : ∀ s ∈ ids.flatMap w.scripts, ∀ s' ∈ ids.flatMap w.scripts, scriptHash pkgs s = scriptHash pkgs s' → s = s' :=
    fun s hs s' hs' => List.inj_on_of_nodup_map hnodup hs hs'
  refine ⟨owner, script, fun i hi => (hslot i hi).1, fun i hi => hsize _ (hslot i hi).1 _ (hslot i hi).2.1, fun p hp => ?_, ?_⟩
  · refine List.ext_getElem (by simp [xorVector]) fun i hi _ => ?_
    have hi : i < roots.length := by simpa [xorVector] using hi
    obtain ⟨howner, hscript, hhash⟩ := hslot i hi
    have hall : script i ∈ ids.flatMap w.scripts := List.mem_flatMap.mpr ⟨_, howner, hscript⟩
    rw [List.getElem?_eq_getElem hi, Option.some_inj] at hhash
    have hcontent : w.slotContent pkgs p roots[i] = slotScript owner script p i := by
      rw [slotContent, slotScript, hhash]
      cases hfind : (w.scripts p).find? fun s => scriptHash pkgs s = scriptHash pkgs (script i) with
      | none =>
        rw [List.find?_eq_none] at hfind
        rw [if_neg, Option.getD_none]
        intro heq
        subst heq
        simpa using hfind _ hscript
      | some s =>
        have hs : s ∈ w.scripts p := List.mem_of_find?_eq_some hfind
        have hsame : s = script i :=
          hinj s (List.mem_flatMap.mpr ⟨p, hp, hs⟩) _ hall (by simpa using List.find?_some hfind)
        subst hsame
        rw [if_pos (eq_of_mem_flatMap (List.Nodup.of_map _ hnodup) howner hp hscript hs), Option.getD_some]
    simp only [Wallets.xorVector, Coinjoin.xorVector, List.getElem_map, List.getElem_range, xorEntry, hcontent]
  · -- as many scripts, and no two with one hash
    have hmap : ((List.range roots.length).map script).map (scriptHash pkgs) = roots := by
      refine List.ext_getElem (by simp) fun i _ hi => ?_
      have hhash := (hslot i hi).2.2
      rw [List.getElem?_eq_getElem hi, Option.some_inj] at hhash
      simp [hhash]
    have hsub : ((List.range roots.length).map script) ⊆ ids.flatMap w.scripts := by
      intro s hs
      obtain ⟨i, hi, rfl⟩ := List.mem_map.mp hs
      obtain ⟨howner, hscript, -⟩ := hslot i (List.mem_range.mp hi)
      exact List.mem_flatMap.mpr ⟨_, howner, hscript⟩
    have hscripts : ((List.range roots.length).map script).Nodup := by
      refine List.Nodup.of_map (scriptHash pkgs) ?_
      rw [hmap]
      exact hroots.nodup_iff.mpr hnodup
    refine (List.subperm_of_subset hscripts hsub).perm_of_length_le ?_
    have hlength := hroots.length_eq
    rw [List.length_map] at hlength
    rw [List.length_map, List.length_range, hlength]

end Sums

/-! ### The inputs cover what is bought -/

theorem wrap64_wrap64_add (x y : ℤ) : wrap64 (wrap64 x + y) = wrap64 (x + y) := Int.bmod_add_bmod

theorem wrap64_add_wrap64 (x y : ℤ) : wrap64 (x + wrap64 y) = wrap64 (x + y) := Int.add_bmod_bmod

theorem sumInputs_unsigned {l : List TxIn} (h : ∀ txin ∈ l, txin.signatureScript = []) (x : ℤ) :
    sumInputs (wrap64 x) l = (wrap64 (x + (l.map (·.valueIn)).sum), false) := by
  induction l generalizing x with
  | nil => simp [sumInputs]
  | cons txin rest ih =>
    have hempty : ¬txin.signatureScript ≠ [] := not_not.mpr (h txin (List.mem_cons_self ..))
    rw [sumInputs, if_neg hempty, wrap64_wrap64_add, ih fun txin' hmem => h txin' (List.mem_cons_of_mem txin hmem),
      List.map_cons, List.sum_cons, add_assoc]

/-- The handler finds the inputs unsigned and large enough. -/
theorem Wallets.Match.spends {pkgs : Packages} {w : Wallets} {ids : List ℕ} (h : w.Match pkgs ids) {p : ℕ} (hp : p ∈ ids) :
    (sumInputs 0 (w.tx p).txIn).2 = false ∧ ∃ change outs, (w.tx p).txOut = change :: outs ∧
      ¬dcr (sumInputs 0 (w.tx p).txIn).1 < dcr (wrap64 (change.value + wrap64 ((w.scripts p).length * w.ticketPrice))) := by
  have hsum := sumInputs_unsigned (h.unsigned p hp) 0
  have hzero : wrap64 0 = 0 := rfl
  rw [hzero, zero_add] at hsum
  obtain ⟨change, outs, hout, hlo, hcover, hhi⟩ := h.covered p hp
  refine ⟨by rw [hsum], change, outs, hout, not_lt.mpr ?_⟩
  rw [hsum, wrap64_add_wrap64, wrap64_of_range hlo (hcover.trans_lt hhi), wrap64_of_range (hlo.trans hcover) hhi]
  exact dcr_mono hcover

/-! ### The run -/

/-- What a connection has been sent. -/
def JoinSession.received (conn : ℕ) (js : JoinSession) : List ServerMessage :=
  js.out.filterMap fun
    | .send conn' msg => if conn' = conn then some msg else none
    | _ => none

/-- A message of the rounds: it neither tells of malicious peers nor closes a connection. -/
def Output.ofRound : Output → Bool
  | .send _ (.maliciousPeers ..) => false
  | .send _ _ => true
  | _ => false

/-- A session with what each connection has said, the states it has been in and the
number of steps. -/
structure Attended where
  system : System
  sent : ℕ → List ClientMessage
  visited : List SessionState
  steps : ℕ

namespace Attended

def start (js : JoinSession) : Attended where
  system := .start js
  sent _ := []
  visited := [js.state]
  steps := 0

/-- What the connections have said after an event. -/
def said (t : Attended) : Event → ℕ → List ClientMessage
  | .read conn (.message msg) => Function.update t.sent conn (t.sent conn ++ [msg])
  | _ => t.sent

def step (pkgs : Packages) (t : Attended) (e : Choices × Event) : Option Attended :=
  (t.system.step pkgs e.1 e.2).map fun s' =>
    { system := s'
      sent := t.said e.2
      visited := if s'.session.state = t.system.session.state then t.visited else t.visited ++ [s'.session.state]
      steps := t.steps + 1 }

/-- A connection has been sent something it has not answered, or has just been admitted.
There are five answers. -/
def Owes (t : Attended) (conn : ℕ) : Prop :=
  (t.sent conn).length = (t.system.session.received conn).length ∧ (t.sent conn).length < 5

/-- Nothing goes wrong with the server or a connection, and the peers answer once what
they are sent. -/
def Dutiful (pkgs : Packages) (w : Wallets) (t : Attended) (e : Choices × Event) : Prop :=
  (∀ site, e.1.marshal site = true) ∧
    match e.2 with
    | .deliver _ | .rest => True
    | .read conn (.message msg) => t.Owes conn ∧ ∃ peer, t.system.session.peerOf conn = some peer ∧
        w.Answers pkgs peer.id (t.system.session.received conn) msg
    | _ => False

end Attended

end Dcrtxmatcher.Coinjoin
