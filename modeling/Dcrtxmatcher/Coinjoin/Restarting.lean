import Dcrtxmatcher.Coinjoin.Culprit
import Dcrtxmatcher.Coinjoin.Pending

/-! What a restart leaves behind.

`pushMaliciousInfo` has one message object for all survivors. It gives it each
survivor's new id in turn, keeps the marshalled text with the peer, and sends the
texts in a second loop (`renewLoop`, `restart_eq_renewLoop`). Every survivor is then
a member under its own new id and has been told that id, once. -/
namespace Dcrtxmatcher.Coinjoin
open Lib

/-! ### The two loops -/

/-- The loop over the survivors, each with its `TmpData`; `n` is the number of calls
of `GenId` before it. -/
def renewLoop (ch : Choices) (missedPeers : List ℕ) :
    List PeerInfo → ℕ → GoMap ℕ (PeerInfo × ServerMessage) → GoMap ℕ (PeerInfo × ServerMessage)
  | [], _, newPeers => newPeers
  | peer :: rest, n, newPeers =>
    let peerId := ch.genId n
    let peer := peer.resetData peerId (ch.genId 0)
    let tmpData := .maliciousPeers missedPeers (ch.genId 0) peerId
    renewLoop ch missedPeers rest (n + 1) (newPeers.insert peer.id (peer, tmpData))

/-- A renewed peer and the text that waits with it. -/
def withTmpData (ch : Choices) (missedPeers : List ℕ) (peer : PeerInfo) : PeerInfo × ServerMessage :=
  (peer, .maliciousPeers missedPeers (ch.genId 0) peer.id)

theorem renewLoop_beside (ch : Choices) (missedPeers : List ℕ) (l : List PeerInfo) (n : ℕ) (m : GoMap ℕ PeerInfo)
    (m' : GoMap ℕ (PeerInfo × ServerMessage)) (hkeys : m'.keys = m.keys)
    (hlookup : ∀ p, m'.lookup p = (m.lookup p).map (withTmpData ch missedPeers)) :
    let renewed := (l.zipIdx n).map fun (peer, i) => peer.resetData (ch.genId i) (ch.genId 0)
    let newPeers := (renewed.map fun peer => (peer.id, peer)).foldl (fun m e => m.insert e.1 e.2) m
    (renewLoop ch missedPeers l n m').keys = newPeers.keys ∧
      ∀ p, (renewLoop ch missedPeers l n m').lookup p = (newPeers.lookup p).map (withTmpData ch missedPeers) := by
  induction l generalizing n m m' with
  | nil => exact ⟨hkeys, hlookup⟩
  | cons peer rest ih =>
    have hnext := GoMap.beside_insert hkeys hlookup (ch.genId n) (peer.resetData (ch.genId n) (ch.genId 0))
    exact ih (n + 1) _ _ hnext.1 hnext.2

/-- The map and the messages of a restart are those of the two loops. -/
theorem restart_eq_renewLoop (ch : Choices) (missedPeers : List ℕ) (js : JoinSession) :
    let newPeers := renewLoop ch missedPeers (GoMap.values ch.order [128] js.peers) 1 ∅
    (∀ p, (js.restart ch missedPeers).peers.lookup p = (newPeers.lookup p).map Prod.fst) ∧
      (js.restart ch missedPeers).out =
        js.out ++ (GoMap.values ch.order [146] newPeers).map fun e => .send e.1.conn e.2 := by
  have hloop := renewLoop_beside ch missedPeers (GoMap.values ch.order [128] js.peers) 1 ∅ ∅ rfl fun _ => rfl
  have hrenewed : js.renewed ch = ((GoMap.values ch.order [128] js.peers).zipIdx 1).map fun (peer, i) =>
      peer.resetData (ch.genId i) (ch.genId 0) := by
    rw [JoinSession.renewed, List.zipIdx_succ, List.map_map]
    rfl
  dsimp only at hloop
  rw [← hrenewed] at hloop
  obtain ⟨hkeys, hlookup⟩ := hloop
  constructor
  · intro p
    rw [hlookup, Option.map_map]
    exact Option.map_id'.symm
  · show js.out ++ _ = js.out ++ _
    rw [GoMap.values, GoMap.values, GoMap.range_beside hkeys hlookup, List.map_map, List.map_map, List.map_map]
    rfl

/-! ### The new ids -/

/-- The id a survivor gets: the map is visited in some order and every visit draws one. -/
def JoinSession.newId (ch : Choices) (js : JoinSession) (p : ℕ) : ℕ :=
  ch.genId (((GoMap.range ch.order [128] js.peers).map Prod.fst).idxOf p + 1)

theorem renewed_eq (ch : Choices) (js : JoinSession) :
    js.renewed ch = (GoMap.range ch.order [128] js.peers).map fun e => e.2.resetData (js.newId ch e.1) (ch.genId 0) := by
  have hnodup := GoMap.nodup_range ch.order [128] js.peers
  refine List.ext_getElem ?_ fun i hi hi' => ?_
  · simp [JoinSession.renewed, GoMap.values]
  · have hi'' : i < ((GoMap.range ch.order [128] js.peers).map Prod.fst).length := by simpa using hi'
    have hplace := hnodup.idxOf_getElem i hi''
    rw [List.getElem_map] at hplace
    simp [JoinSession.renewed, GoMap.values, JoinSession.newId, hplace]

/-- Distinct draws give distinct survivors distinct ids. -/
theorem newId_injOn {ch : Choices} {js : JoinSession} (hfresh : FreshIds ch (GoMap.len js.peers)) {p q : ℕ}
    (hp : p ∈ js.peers.keys) (hq : q ∈ js.peers.keys) (heq : js.newId ch p = js.newId ch q) : p = q := by
  have hvisited : ∀ k ∈ js.peers.keys, k ∈ (GoMap.range ch.order [128] js.peers).map Prod.fst := by
    intro k hk
    obtain ⟨peer, hpeer⟩ := GoMap.lookup_of_mem_keys hk
    exact List.mem_map_of_mem (GoMap.mem_range.mpr hpeer)
  have hlt : ∀ k ∈ js.peers.keys, ((GoMap.range ch.order [128] js.peers).map Prod.fst).idxOf k < GoMap.len js.peers := by
    intro k hk
    have := List.idxOf_lt_length_of_mem (hvisited k hk)
    rwa [List.length_map, GoMap.length_range] at this
  have hidx := List.inj_on_of_nodup_map hfresh (List.mem_range.mpr (hlt p hp)) (List.mem_range.mpr (hlt q hq)) heq
  exact (List.idxOf_inj (hvisited p hp)).mp hidx

/-- The entries of the restarted session's map, when the new ids are distinct. -/
theorem toList_restart {ch : Choices} (missedPeers : List ℕ) {js : JoinSession}
    (hfresh : FreshIds ch (GoMap.len js.peers)) :
    (GoMap.toList (js.restart ch missedPeers).peers).Perm
      ((GoMap.toList js.peers).map fun e => (js.newId ch e.1, e.2.resetData (js.newId ch e.1) (ch.genId 0))) := by
  have hids : ((js.renewed ch).map fun peer => (peer.id, peer)).map Prod.fst =
      (List.range (GoMap.len js.peers)).map fun i => ch.genId (i + 1) := by
    rw [List.map_map, ← ids_renewed]
    rfl
  have hnodup : (((js.renewed ch).map fun peer => (peer.id, peer)).map Prod.fst).Nodup := hids ▸ hfresh
  refine (GoMap.toList_ofList hnodup).trans ?_
  rw [renewed_eq, List.map_map]
  exact (GoMap.range_perm ..).map _

/-! ### After the restart -/

/-- Nothing of a former round is left with a peer. -/
structure PeerInfo.Cleared (peer : PeerInfo) : Prop where
  pk : peer.pk = []
  vk : peer.vk = []
  numMsg : peer.numMsg = 0
  inputIndex : peer.inputIndex = []
  dcExpVector : peer.dcExpVector = []
  dcXorVector : peer.dcXorVector = []
  txIns : peer.txIns = none
  signedTx : peer.signedTx = none

theorem PeerInfo.cleared_resetData (peer : PeerInfo) (id sessionId : ℕ) : (peer.resetData id sessionId).Cleared :=
  ⟨rfl, rfl, rfl, rfl, rfl, rfl, rfl, rfl⟩

/-- The session `js'` is `js` without `missedPeers` and started over, the others going
by the ids `newId`. -/
structure Restarted (missedPeers : List ℕ) (js js' : JoinSession) (newId : ℕ → ℕ) : Prop where
  /-- The members are the old ones that stay, each under its own new id. -/
  members : ∀ q peer', js'.peers.lookup q = some peer' ↔
    ∃ p peer, js.peers.lookup p = some peer ∧ p ∉ missedPeers ∧ q = newId p ∧ peer' = peer.resetData (newId p) js'.id
  /-- No two of them share an id. -/
  distinct : ∀ p ∈ js.peers.keys, p ∉ missedPeers → ∀ q ∈ js.peers.keys, q ∉ missedPeers → newId p = newId q → p = q
  cleared : ∀ q peer', js'.peers.lookup q = some peer' → peer'.id = q ∧ peer'.sessionId = js'.id ∧ peer'.Cleared
  joinedTx : js'.joinedTx = none
  peersMsgInfo : js'.peersMsgInfo = []
  totalMsg : js'.totalMsg = 0
  state : js'.state = .keyExchange
  /-- Connections are closed, and then every survivor is sent its message, once. -/
  informed : ∃ (closed : List ℕ) (sent : List Output), js'.out = js.out ++ closed.map .close ++ sent ∧
    sent.Perm (((GoMap.toList js.peers).filter fun e => e.1 ∉ missedPeers).map fun e =>
      .send e.2.conn (.maliciousPeers missedPeers js'.id (newId e.1)))

theorem out_removePeers (ps : List ℕ) (js : JoinSession) : ∃ closed : List ℕ, (js.removePeers ps).out = js.out ++ closed.map .close := by
  unfold JoinSession.removePeers
  induction ps generalizing js with
  | nil => exact ⟨[], by simp⟩
  | cons p ps ih =>
    obtain ⟨closed, hclosed⟩ := ih (js.removePeer p)
    rw [List.foldl_cons, hclosed, JoinSession.removePeer]
    cases js.peers.lookup p with
    | none => exact ⟨closed, rfl⟩
    | some peer => exact ⟨peer.conn :: closed, by simp⟩

theorem restarted_restart {ch : Choices} {missedPeers : List ℕ} {js : JoinSession}
    (hfresh : FreshIds ch (GoMap.len (js.removePeers missedPeers).peers)) :
    Restarted missedPeers js ((js.removePeers missedPeers).restart ch missedPeers)
      ((js.removePeers missedPeers).newId ch) := by
  have hentries := toList_restart missedPeers hfresh
  have hstay : ∀ p peer, (js.removePeers missedPeers).peers.lookup p = some peer ↔
      js.peers.lookup p = some peer ∧ p ∉ missedPeers := by
    intro p peer
    rw [lookup_removePeers]
    split_ifs with hp
    · simp [hp]
    · simp [hp]
  have hmembers : ∀ q peer', ((js.removePeers missedPeers).restart ch missedPeers).peers.lookup q = some peer' ↔
      ∃ p peer, js.peers.lookup p = some peer ∧ p ∉ missedPeers ∧ q = (js.removePeers missedPeers).newId ch p ∧
        peer' = peer.resetData ((js.removePeers missedPeers).newId ch p) (ch.genId 0) := by
    intro q peer'
    rw [← GoMap.mem_toList, hentries.mem_iff, List.mem_map]
    constructor
    · rintro ⟨⟨p, peer⟩, hmem, heq⟩
      obtain ⟨hp, hstays⟩ := (hstay p peer).mp (GoMap.mem_toList.mp hmem)
      cases heq
      exact ⟨p, peer, hp, hstays, rfl, rfl⟩
    · rintro ⟨p, peer, hp, hstays, rfl, rfl⟩
      exact ⟨(p, peer), GoMap.mem_toList.mpr ((hstay p peer).mpr ⟨hp, hstays⟩), rfl⟩
  refine ⟨hmembers, ?_, ?_, rfl, rfl, rfl, rfl, ?_⟩
  · intro p hp hstays q hq hstays' heq
    obtain ⟨peer, hpeer⟩ := GoMap.lookup_of_mem_keys hp
    obtain ⟨peer', hpeer'⟩ := GoMap.lookup_of_mem_keys hq
    exact newId_injOn hfresh (GoMap.mem_keys_of_lookup ((hstay p peer).mpr ⟨hpeer, hstays⟩))
      (GoMap.mem_keys_of_lookup ((hstay q peer').mpr ⟨hpeer', hstays'⟩)) heq
  · intro q peer' hpeer'
    obtain ⟨p, peer, -, -, rfl, rfl⟩ := (hmembers q peer').mp hpeer'
    exact ⟨rfl, rfl, peer.cleared_resetData ..⟩
  · obtain ⟨closed, hclosed⟩ := out_removePeers missedPeers js
    refine ⟨closed, (GoMap.values ch.order [146] ((js.removePeers missedPeers).restart ch missedPeers).peers).map
      fun peer => .send peer.conn (.maliciousPeers missedPeers (ch.genId 0) peer.id), ?_, ?_⟩
    · rw [← hclosed]
      rfl
    · refine ((GoMap.values_perm ..).map _).trans ?_
      rw [List.map_map]
      refine (hentries.map _).trans ?_
      rw [List.map_map]
      exact (toList_removePeers missedPeers js).map _

/-- **A restart loses, doubles and mixes up nobody.** With the mutex free, somebody left
and distinct ids from `GenId`, `pushMaliciousInfo` leaves exactly the survivors, each cleared and
under its own new id, and each has been sent that id, the new session's and the whole
list of the ejected. `js'` is the session when it returns, which it does once the writer of
every survivor has received; the members are the new ones before the first of the sends. -/
theorem pushMaliciousInfo_restarts (ch : Choices) (missedPeers : List ℕ) (js : JoinSession) (hmu : js.mu = false)
    (hsurvivor : ∃ p ∈ js.peers.keys, p ∉ missedPeers)
    (hfresh : ((List.range (GoMap.len (js.removePeers missedPeers).peers + 1)).map ch.genId).Nodup) :
    ∃ js' newId, js.pushMaliciousInfo ch missedPeers = .ok js' ∧ js'.id = ch.genId 0 ∧
      Restarted missedPeers js js' newId := by
  obtain ⟨p, hp, hstays⟩ := hsurvivor
  obtain ⟨peer, hpeer⟩ := GoMap.lookup_of_mem_keys hp
  have hlen : GoMap.len (js.removePeers missedPeers).peers ≠ 0 :=
    GoMap.len_ne_zero_iff.mpr ⟨p, peer, by rw [lookup_removePeers, if_neg hstays, hpeer]⟩
  have hids : FreshIds ch (GoMap.len (js.removePeers missedPeers).peers) := by
    rw [List.range_succ_eq_map, List.map_cons, List.nodup_cons, List.map_map] at hfresh
    exact hfresh.2
  refine ⟨(js.removePeers missedPeers).restart ch missedPeers, _, ?_, rfl, restarted_restart hids⟩
  rw [JoinSession.pushMaliciousInfo_eq ch missedPeers hmu, JoinSession.expelled, if_neg hlen]

/-- Two of three stay; the one to go is named twice, with a stranger. -/
theorem pushMaliciousInfo_restarts_two : ∃ js' newId,
    (newJoinSession 7 60 false (queuePeers [(0, 1), (1, 2), (2, 3)])).pushMaliciousInfo (plainChoices (· + 10)) [2, 2, 9] =
      .ok js' ∧ js'.id = 10 ∧
      Restarted [2, 2, 9] (newJoinSession 7 60 false (queuePeers [(0, 1), (1, 2), (2, 3)])) js' newId :=
  pushMaliciousInfo_restarts (plainChoices (· + 10)) [2, 2, 9] _ rfl ⟨1, by decide, by decide⟩ (by decide)

end Dcrtxmatcher.Coinjoin
