import Dcrtxmatcher.Coinjoin.Reference
import Dcrtxmatcher.Coinjoin.Steps
import Dcrtxmatcher.Lib.Layout

/-! The joined transaction.

The transactions of the members are laid one after the other in the order the loop
visits the members, and every member is given the places of its inputs. -/
namespace Dcrtxmatcher.Coinjoin
open Lib Lib.Layout

/-! ### What the loop computes -/

/-- The inputs by sender. -/
def inputBlocks (visited : List (ℕ × MsgTx)) : List (ℕ × List TxIn) := visited.map fun e => (e.1, e.2.txIn)

/-- A transaction with the others behind it. -/
def appendTxs (tx : MsgTx) (rest : List (ℕ × MsgTx)) : MsgTx :=
  { tx with
    txIn := tx.txIn ++ rest.flatMap (·.2.txIn)
    txOut := tx.txOut ++ rest.flatMap (·.2.txOut) }

/-- A member with the places of its inputs. -/
def giveIndices (n : ℕ) (visited : List (ℕ × MsgTx)) (p : ℕ) (peer : PeerInfo) : PeerInfo :=
  { peer with inputIndex := peer.inputIndex ++ positions n (inputBlocks visited) p }

/-- The indices of the first one, and then the others. -/
theorem mapVal_giveIndices (n p : ℕ) (tx : MsgTx) (rest : List (ℕ × MsgTx)) (peers : GoMap ℕ PeerInfo) :
    GoMap.mapVal (giveIndices (n + tx.txIn.length) rest) (appendIndex p n tx peers) =
      GoMap.mapVal (giveIndices n ((p, tx) :: rest)) peers := by
  rw [appendIndex, GoMap.modify, GoMap.mapVal_mapVal]
  congr 1
  funext q peer
  simp only [giveIndices, inputBlocks, List.map_cons, positions]
  by_cases hq : q = p
  · subst hq
    simp
  · simp [hq, Ne.symm hq]

theorem joinTxs_some (visited : List (ℕ × MsgTx)) (tx : MsgTx) (peers : GoMap ℕ PeerInfo) :
    joinTxs visited (some tx) peers =
      (some (appendTxs tx visited), GoMap.mapVal (giveIndices tx.txIn.length visited) peers) := by
  induction visited generalizing tx peers with
  | nil => simp [joinTxs, appendTxs, giveIndices, inputBlocks, positions, GoMap.mapVal]
  | cons e rest ih =>
    obtain ⟨p, next⟩ := e
    rw [joinTxs, ih, List.length_append, mapVal_giveIndices]
    simp [appendTxs]

theorem joinTxs_none (p : ℕ) (tx : MsgTx) (rest : List (ℕ × MsgTx)) (peers : GoMap ℕ PeerInfo) :
    joinTxs ((p, tx) :: rest) none peers =
      (some (appendTxs tx rest), GoMap.mapVal (giveIndices 0 ((p, tx) :: rest)) peers) := by
  rw [joinTxs, joinTxs_some, ← mapVal_giveIndices, Nat.zero_add]

/-- The member visited first holds the joined transaction for its own. -/
def holdJoined (first : ℕ) (joinedtx : MsgTx) (p : ℕ) (peer : PeerInfo) : PeerInfo :=
  if p = first then { peer with txIns := some joinedtx } else peer

/-- What becomes of a member. -/
def joinedPeer (first : ℕ) (joinedtx : MsgTx) (visited : List (ℕ × MsgTx)) (p : ℕ) (peer : PeerInfo) : PeerInfo :=
  holdJoined first joinedtx p (giveIndices 0 visited p peer)

/-- The joined transaction and the session with it. -/
theorem buildJoinedTx_eq_ok {ch : Choices} {ticketPrice : ℤ} {js js' : JoinSession} {joinedtx : MsgTx}
    (h : buildJoinedTx ch ticketPrice js = .ok (joinedtx, js')) :
    ∃ first tx rest, submittedTxs ch js.peers = (first, tx) :: rest ∧
      joinedtx = addScripts ticketPrice js.allPkScripts (appendTxs tx rest) ∧
      js' = { js with peers := GoMap.mapVal (joinedPeer first joinedtx ((first, tx) :: rest)) js.peers } := by
  rw [buildJoinedTx] at h
  rcases hvisited : submittedTxs ch js.peers with _ | ⟨⟨first, tx⟩, rest⟩
  · rw [hvisited] at h
    cases h
  · rw [hvisited, joinTxs_none] at h
    cases h
    refine ⟨first, tx, rest, rfl, rfl, ?_⟩
    rw [GoMap.modify, GoMap.mapVal_mapVal]
    rfl

/-! ### Whose input is where -/

/-- The members in the order the map holds them. -/
def JoinSession.members (js : JoinSession) : List PeerInfo := (GoMap.toList js.peers).map Prod.snd

theorem JoinSession.mem_members {js : JoinSession} {peer : PeerInfo} :
    peer ∈ js.members ↔ ∃ p, js.peers.lookup p = some peer := by
  simp [members, GoMap.mem_toList]

/-- The peers' indices are all the places of the inputs, each once, and a peer finds
there what it has submitted. -/
structure Owning (roster : List PeerInfo) (joinedtx : MsgTx) : Prop where
  partition : (roster.flatMap (·.inputIndex)).Perm (List.range joinedtx.txIn.length)
  own : ∀ peer ∈ roster, ∀ i idx : ℕ, peer.inputIndex[i]? = some idx → peer.ownInputs[i]? = joinedtx.txIn[idx]?

/-- Every member has submitted when the transactions are joined. -/
theorem keys_submittedTxs (ch : Choices) {peers : GoMap ℕ PeerInfo}
    (hall : ∀ p peer, peers.lookup p = some peer → peer.txIns.isSome = true) :
    ((submittedTxs ch peers).map Prod.fst).Perm peers.keys := by
  have hkeys : (submittedTxs ch peers).map Prod.fst = (GoMap.range ch.order [647] peers).map Prod.fst := by
    rw [submittedTxs, List.map_filterMap, ← List.filterMap_eq_map]
    refine List.filterMap_congr fun e he => ?_
    obtain ⟨tx, htx⟩ := Option.isSome_iff_exists.mp (hall e.1 e.2 (GoMap.mem_range.mp he))
    simp [htx]
  rw [hkeys, GoMap.keys_eq]
  exact (GoMap.range_perm ch.order [647] peers).map Prod.fst

theorem mem_submittedTxs {ch : Choices} {peers : GoMap ℕ PeerInfo} {p : ℕ} {tx : MsgTx} :
    (p, tx) ∈ submittedTxs ch peers ↔ ∃ peer, peers.lookup p = some peer ∧ peer.txIns = some tx := by
  rw [submittedTxs, List.mem_filterMap]
  constructor
  · rintro ⟨⟨q, peer⟩, hmem, h⟩
    obtain ⟨_, htx, heq⟩ := Option.map_eq_some_iff.mp h
    cases heq
    exact ⟨peer, GoMap.mem_range.mp hmem, htx⟩
  · rintro ⟨peer, hp, htx⟩
    exact ⟨(p, peer), GoMap.mem_range.mpr hp, by simp [htx]⟩

/-- Members without indices get the places of their inputs. -/
theorem inputIndex_joinedPeer {first p : ℕ} {joinedtx : MsgTx} {visited : List (ℕ × MsgTx)} {peer : PeerInfo}
    (hfresh : peer.inputIndex = []) :
    (joinedPeer first joinedtx visited p peer).inputIndex = positions 0 (inputBlocks visited) p := by
  rw [joinedPeer, holdJoined]
  split_ifs <;> simp [giveIndices, hfresh]

theorem nodup_inputBlocks (ch : Choices) {peers : GoMap ℕ PeerInfo}
    (hall : ∀ p peer, peers.lookup p = some peer → peer.txIns.isSome = true) :
    ((inputBlocks (submittedTxs ch peers)).map Prod.fst).Nodup := by
  rw [inputBlocks, List.map_map]
  exact (keys_submittedTxs ch hall).nodup_iff.mpr peers.keys_nodup

/-- Members without indices own the joined transaction once it is built. -/
theorem owning_of_buildJoinedTx {ch : Choices} {ticketPrice : ℤ} {js js' : JoinSession} {joinedtx : MsgTx}
    (h : buildJoinedTx ch ticketPrice js = .ok (joinedtx, js'))
    (hall : ∀ p peer, js.peers.lookup p = some peer → peer.txIns.isSome = true)
    (hfresh : ∀ p peer, js.peers.lookup p = some peer → peer.inputIndex = []) : Owning js'.members joinedtx := by
  obtain ⟨first, tx, rest, hvisited, hjoined, rfl⟩ := buildJoinedTx_eq_ok h
  have hkeys := keys_submittedTxs ch hall
  rw [hvisited] at hkeys
  have hnodup := nodup_inputBlocks ch hall
  rw [hvisited] at hnodup
  have hinputs : joinedtx.txIn = (inputBlocks ((first, tx) :: rest)).flatMap Prod.snd := by
    rw [hjoined, inputBlocks, List.flatMap_map]
    rfl
  have hindex : ∀ p peer, js.peers.lookup p = some peer →
      (joinedPeer first joinedtx ((first, tx) :: rest) p peer).inputIndex =
        positions 0 (inputBlocks ((first, tx) :: rest)) p := fun p peer hp => inputIndex_joinedPeer (hfresh p peer hp)
  constructor
  · -- the members are the keys visited
    have hmembers : (JoinSession.members { js with
          peers := GoMap.mapVal (joinedPeer first joinedtx ((first, tx) :: rest)) js.peers }).flatMap (·.inputIndex) =
        js.peers.keys.flatMap (positions 0 (inputBlocks ((first, tx) :: rest))) := by
      rw [JoinSession.members, GoMap.toList_mapVal, List.map_map, List.flatMap_map, GoMap.keys_eq, List.flatMap_map]
      exact List.flatMap_congr fun e he => hindex e.1 e.2 (GoMap.mem_toList.mp he)
    rw [hmembers, hinputs, List.range_eq_range', ← flatMap_positions hnodup 0, inputBlocks, List.flatMap_map]
    have hflat := hkeys.symm.flatMap_right (positions 0 (inputBlocks ((first, tx) :: rest)))
    rwa [List.flatMap_map] at hflat
  · intro peer' hmem i idx hi
    obtain ⟨p, hp⟩ := JoinSession.mem_members.mp hmem
    rw [GoMap.lookup_mapVal, Option.map_eq_some_iff] at hp
    obtain ⟨peer, hp, rfl⟩ := hp
    rw [hindex p peer hp] at hi
    by_cases hfirst : p = first
    · -- the first places are its own, and it holds the whole transaction
      subst hfirst
      have hown : (joinedPeer p joinedtx ((p, tx) :: rest) p peer).ownInputs = joinedtx.txIn := by
        simp [joinedPeer, holdJoined, PeerInfo.ownInputs]
      rw [inputBlocks, List.map_cons, List.map_cons, List.nodup_cons] at hnodup
      rw [inputBlocks, List.map_cons, positions_head hnodup.1, List.getElem?_map, Option.map_eq_some_iff] at hi
      obtain ⟨j, hj, rfl⟩ := hi
      obtain ⟨_, rfl⟩ := List.getElem?_eq_some_iff.mp hj
      rw [hown, List.getElem_range, Nat.add_zero]
    · obtain ⟨own, htx⟩ := Option.isSome_iff_exists.mp (hall p peer hp)
      have hown : (joinedPeer first joinedtx ((first, tx) :: rest) p peer).ownInputs = own.txIn := by
        simp [joinedPeer, holdJoined, hfirst, giveIndices, PeerInfo.ownInputs, htx]
      have hblock : (p, own.txIn) ∈ inputBlocks ((first, tx) :: rest) := by
        rw [← hvisited]
        exact List.mem_map.mpr ⟨(p, own), mem_submittedTxs.mpr ⟨peer, hp, htx⟩, rfl⟩
      rw [hown, hinputs]
      exact (getElem?_positions hnodup hblock [] hi).symm

/-! ### The joined transaction as a whole -/

/-- The outputs a peer has submitted. -/
def PeerInfo.ownOutputs (peer : PeerInfo) : List TxOut := (peer.txIns.map (·.txOut)).getD []

/-- What the visited members have submitted is what their transactions hold. -/
theorem flatMap_submitted {α : Type} (f : MsgTx → List α) (l : List (ℕ × PeerInfo)) :
    (l.filterMap fun e => e.2.txIns.map (e.1, ·)).flatMap (fun e => f e.2) =
      (l.map Prod.snd).flatMap fun peer => (peer.txIns.map f).getD [] := by
  induction l with
  | nil => rfl
  | cons e l ih =>
    rw [List.map_cons, List.flatMap_cons, ← ih]
    cases htx : e.2.txIns with
    | none => rw [List.filterMap_cons_none (by rw [htx]; rfl), Option.map_none, Option.getD_none, List.nil_append]
    | some tx => rw [List.filterMap_cons_some (by rw [htx]; rfl), List.flatMap_cons, Option.map_some, Option.getD_some]

/-- **The joined transaction**: the inputs and the outputs of the members in the order
they are visited, then an output for each script; the places of the inputs are dealt
out, each to one member, and every member finds its inputs at its places in order. -/
theorem joinedTx_laid_out (ch : Choices) (ticketPrice : ℤ) (js : JoinSession) (hlen : GoMap.len js.peers ≠ 0)
    (hall : ∀ p peer, js.peers.lookup p = some peer → peer.txIns.isSome = true)
    (hfresh : ∀ p peer, js.peers.lookup p = some peer → peer.inputIndex = []) :
    ∃ joinedtx js', buildJoinedTx ch ticketPrice js = .ok (joinedtx, js') ∧
      joinedtx.txIn = (GoMap.values ch.order [647] js.peers).flatMap (·.ownInputs) ∧
      joinedtx.txOut = (GoMap.values ch.order [647] js.peers).flatMap (·.ownOutputs) ++
        js.allPkScripts.map (newTxOut ticketPrice) ∧
      js'.peers.keys = js.peers.keys ∧
      (js'.members.flatMap (·.inputIndex)).Perm (List.range joinedtx.txIn.length) ∧
      ∀ p peer, js.peers.lookup p = some peer → ∃ peer', js'.peers.lookup p = some peer' ∧
        peer'.inputIndex.length = peer.ownInputs.length ∧
        ∀ i idx : ℕ, peer'.inputIndex[i]? = some idx → joinedtx.txIn[idx]? = peer.ownInputs[i]? := by
  obtain ⟨first, tx, rest, hvisited⟩ : ∃ first tx rest, submittedTxs ch js.peers = (first, tx) :: rest := by
    rcases hvisited : submittedTxs ch js.peers with _ | ⟨⟨first, tx⟩, rest⟩
    · have hkeys := (keys_submittedTxs ch hall).length_eq
      rw [hvisited, GoMap.length_keys] at hkeys
      exact absurd hkeys.symm hlen
    · exact ⟨first, tx, rest, rfl⟩
  obtain ⟨joinedtx, js', hbuild⟩ : ∃ joinedtx js', buildJoinedTx ch ticketPrice js = .ok (joinedtx, js') := by
    rw [buildJoinedTx, hvisited, joinTxs_none]
    exact ⟨_, _, rfl⟩
  obtain ⟨first', tx', rest', hsame, hjoined, hjs'⟩ := buildJoinedTx_eq_ok hbuild
  rw [hvisited] at hsame
  cases hsame
  have hinputs : joinedtx.txIn = (submittedTxs ch js.peers).flatMap (·.2.txIn) := by
    rw [hjoined, hvisited]
    rfl
  have houtputs : joinedtx.txOut =
      (submittedTxs ch js.peers).flatMap (·.2.txOut) ++ js.allPkScripts.map (newTxOut ticketPrice) := by
    rw [hjoined, hvisited]
    rfl
  have hnodup := nodup_inputBlocks ch hall
  refine ⟨joinedtx, js', hbuild, hinputs.trans (flatMap_submitted MsgTx.txIn _), ?_, ?_, ?_, fun p peer hp => ?_⟩
  · rw [houtputs]
    exact congrArg (· ++ _) (flatMap_submitted MsgTx.txOut _)
  · rw [hjs']
    exact GoMap.keys_mapVal ..
  · exact (owning_of_buildJoinedTx hbuild hall hfresh).partition
  · obtain ⟨own, htx⟩ := Option.isSome_iff_exists.mp (hall p peer hp)
    have hown : peer.ownInputs = own.txIn := by rw [PeerInfo.ownInputs, htx, Option.map_some, Option.getD_some]
    have hblock : (p, own.txIn) ∈ inputBlocks (submittedTxs ch js.peers) :=
      List.mem_map.mpr ⟨(p, own), mem_submittedTxs.mpr ⟨peer, hp, htx⟩, rfl⟩
    have hlookup : js'.peers.lookup p = some (joinedPeer first joinedtx (submittedTxs ch js.peers) p peer) := by
      rw [hjs', GoMap.lookup_mapVal, hp, hvisited]
      rfl
    refine ⟨_, hlookup, ?_, fun i idx hi => ?_⟩
    · rw [inputIndex_joinedPeer (hfresh p peer hp), length_positions hnodup hblock, hown]
    · rw [inputIndex_joinedPeer (hfresh p peer hp)] at hi
      have hplace := getElem?_positions hnodup hblock [] hi
      rw [List.nil_append, inputBlocks, List.flatMap_map] at hplace
      rw [hinputs, hown]
      exact hplace

/-- An input and an output of the wallet `n`. -/
def walletTx (n : ℕ) : MsgTx := ⟨0, 1, [⟨⟨[], n, 0⟩, 0, 10, 0, 0, []⟩], [newTxOut 3 [1]], 0, 0⟩

/-- Two members with one input each, and two scripts. -/
def twoWallets : JoinSession :=
  { newJoinSession 7 60 false (GoMap.ofList [(1, { newPeer 1 1 with txIns := some (walletTx 1) }),
      (2, { newPeer 2 2 with txIns := some (walletTx 2) })]) with allPkScripts := [[8], [9]] }

theorem joinedTx_laid_out_two : ∃ joinedtx js', buildJoinedTx (plainChoices id) 5 twoWallets = .ok (joinedtx, js') ∧
    joinedtx.txOut.length = 4 ∧ (js'.members.flatMap (·.inputIndex)).Perm (List.range joinedtx.txIn.length) := by
  have hmembers : ∀ e ∈ GoMap.toList twoWallets.peers, e.2.txIns.isSome = true ∧ e.2.inputIndex = [] := by decide
  obtain ⟨joinedtx, js', hbuild, -, houtputs, -, hindices, -⟩ := joinedTx_laid_out (plainChoices id) 5 twoWallets
    (by decide) (fun p peer hp => (hmembers (p, peer) (GoMap.mem_toList.mpr hp)).1)
    fun p peer hp => (hmembers (p, peer) (GoMap.mem_toList.mpr hp)).2
  exact ⟨joinedtx, js', hbuild, by rw [houtputs]; decide, hindices⟩

end Dcrtxmatcher.Coinjoin
