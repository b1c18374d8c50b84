import Dcrtxmatcher.Coinjoin.Reference
import Dcrtxmatcher.Coinjoin.Sending

/-! The list that ends the key exchange.

It is sent when it is as long as the map of the members, and nothing else ties the
two together. As long as it is shorter than the map and fits the members
(`Listed`), a member that announces its key once more or leaves after it has
announced one breaks that for good; while nobody does, the list fits when it is
sent. -/
namespace Dcrtxmatcher.Coinjoin
open Lib

/-- The list that fits the members: an entry for each, with its key and its number
of messages. -/
def keyEntries (peers : GoMap ℕ PeerInfo) : List PeerMsgInfo :=
  (GoMap.toList peers).map fun e => ⟨e.1, e.2.pk, e.2.numMsg⟩

theorem mem_keyEntries {peers : GoMap ℕ PeerInfo} {info : PeerMsgInfo} :
    info ∈ keyEntries peers ↔
      ∃ peer, peers.lookup info.peerId = some peer ∧ peer.pk = info.pk ∧ peer.numMsg = info.numMsg := by
  constructor
  · intro h
    obtain ⟨⟨p, peer⟩, hmem, rfl⟩ := List.mem_map.mp h
    exact ⟨peer, GoMap.mem_toList.mp hmem, rfl, rfl⟩
  · rintro ⟨peer, hp, hpk, hnum⟩
    refine List.mem_map.mpr ⟨(info.peerId, peer), GoMap.mem_toList.mpr hp, ?_⟩
    rw [hpk, hnum]

/-- A list of distinct fitting entries as long as the map is the one that fits. -/
theorem perm_keyEntries {peers : GoMap ℕ PeerInfo} {list : List PeerMsgInfo} (hnodup : (list.map (·.peerId)).Nodup)
    (hmem : ∀ info ∈ list, info ∈ keyEntries peers) (hlen : GoMap.len peers = list.length) :
    list.Perm (keyEntries peers) := by
  refine (List.subperm_of_subset hnodup.of_map hmem).perm_of_length_le ?_
  rw [keyEntries, List.length_map, GoMap.length_toList, hlen]

/-- The ids that have an entry. -/
def JoinSession.listed (js : JoinSession) : List ℕ := js.peersMsgInfo.map (·.peerId)

/-- The peers that an event lets announce their key. -/
def System.announcing (s : System) : Event → List ℕ
  | .deliver conn =>
    match s.readers conn with
    | .sending _ _ (.keyExchange req) => [req.peerId]
    | _ => []
  | _ => []

/-- While the list is shorter than the map no member with an entry announces its key
again or leaves, unless the session restarts. -/
def Orderly (ch : Choices) (s : System) (ev : Event) : Prop :=
  s.session.peersMsgInfo.length < GoMap.len s.session.peers →
    ∀ p ∈ s.announcing ev ++ s.leaving ch ev, p ∈ s.session.peers.keys → p ∉ s.session.listed

instance (ch : Choices) (s : System) (ev : Event) : Decidable (Orderly ch s ev) := by
  unfold Orderly
  infer_instance

/-- The entries are of distinct members and have what these announced. -/
structure Listed (js : JoinSession) : Prop where
  nodup : js.listed.Nodup
  fits : ∀ info ∈ js.peersMsgInfo, info ∈ keyEntries js.peers

/-- The list fits, or it is long enough never to be sent. -/
def KeyListInv (js : JoinSession) : Prop := Listed js ∨ GoMap.len js.peers ≤ js.peersMsgInfo.length

/-- Members without an entry may leave. -/
theorem Listed.kept {ps : List ℕ} {js js' : JoinSession} (hlisted : Listed js) (h : Kept ps js js')
    (hps : ∀ p ∈ ps, p ∈ js.peers.keys → p ∉ js.listed) : Listed js' where
  nodup := by
    rw [JoinSession.listed, h.peersMsgInfo]
    exact hlisted.nodup
  fits info hinfo := by
    rw [h.peersMsgInfo] at hinfo
    obtain ⟨peer, hp, hpk, hnum⟩ := mem_keyEntries.mp (hlisted.fits info hinfo)
    have hstay : info.peerId ∉ ps := fun hmem =>
      hps _ hmem (GoMap.mem_keys_of_lookup hp) (List.mem_map_of_mem hinfo)
    obtain ⟨peer', hp', hsame⟩ := h.kept hp hstay
    exact mem_keyEntries.mpr ⟨peer', hp', hsame.pk.trans hpk, hsame.numMsg.trans hnum⟩

theorem lookup_announce {req : KeyExchangeReq} {js : JoinSession} {peer : PeerInfo} (p : ℕ) :
    (announce req peer js).peers.lookup p = (js.peers.lookup p).map fun old =>
      if p = req.peerId then { old with pk := req.pk, numMsg := req.numMsg } else old := by
  rw [announce, JoinSession.setPeer, GoMap.modify, GoMap.lookup_mapVal]

/-- A member without an entry may announce its key. -/
theorem Listed.announce {js : JoinSession} (hlisted : Listed js) {req : KeyExchangeReq} {peer : PeerInfo}
    (hp : js.peers.lookup req.peerId = some peer) (hid : peer.id = req.peerId) (hnew : req.peerId ∉ js.listed) :
    Listed (announce req peer js) where
  nodup := by
    rw [JoinSession.listed, peersMsgInfo_announce, List.map_append, List.map_singleton, hid]
    refine List.nodup_append.mpr ⟨hlisted.nodup, List.nodup_singleton _, fun p hmem q hq heq => hnew ?_⟩
    rwa [← show p = req.peerId from heq.trans (List.mem_singleton.mp hq)]
  fits info hinfo := by
    rw [peersMsgInfo_announce, List.mem_append, List.mem_singleton] at hinfo
    rw [mem_keyEntries, lookup_announce]
    rcases hinfo with hinfo | rfl
    · obtain ⟨old, hold, hpk, hnum⟩ := mem_keyEntries.mp (hlisted.fits info hinfo)
      have hne : info.peerId ≠ req.peerId := fun heq => hnew (heq ▸ List.mem_map_of_mem hinfo)
      exact ⟨old, by rw [hold, Option.map_some, if_neg hne], hpk, hnum⟩
    · exact ⟨_, by rw [hid, hp, Option.map_some, if_pos rfl], rfl, rfl⟩

theorem KeyListInv.kept {ps : List ℕ} {js js' : JoinSession} (hinv : KeyListInv js) (h : Kept ps js js')
    (hps : js.peersMsgInfo.length < GoMap.len js.peers → ∀ p ∈ ps, p ∈ js.peers.keys → p ∉ js.listed) :
    KeyListInv js' := by
  have hlen := h.len_le
  rcases Nat.lt_or_ge js.peersMsgInfo.length (GoMap.len js.peers) with hshort | hlong
  · rcases hinv with hlisted | hlong
    · exact .inl (hlisted.kept h (hps hshort))
    · omega
  · refine .inr ?_
    rw [h.peersMsgInfo]
    omega

theorem KeyListInv.expelled (ch : Choices) (ps : List ℕ) (js : JoinSession) : KeyListInv (js.expelled ch ps) := by
  rw [JoinSession.expelled]
  split
  · rename_i hempty
    exact .inr (hempty ▸ Nat.zero_le _)
  · exact .inl ⟨List.nodup_nil, fun _ h => by cases h⟩

/-- What a key exchange message does to the list. -/
theorem KeyListInv.keyExchange {pkgs : Packages} {ch : Choices} {req : KeyExchangeReq} {js js' : JoinSession} {d : Done}
    (hkeyed : JoinSession.WellKeyed js.peers) (hinv : KeyListInv js)
    (hnew : js.peersMsgInfo.length < GoMap.len js.peers → req.peerId ∈ js.peers.keys → req.peerId ∉ js.listed)
    (h : KeyExchangeOutcome pkgs ch req js (.ok (d, js'))) : KeyListInv js' := by
  have hremove : Kept [req.peerId] js (js.removePeer req.peerId) := (Kept.refl js).removePeer _
  cases h with
  | stranger => exact hinv
  | invalid => exact hinv.kept hremove (by simpa using hnew)
  | @waiting peer hp =>
    rcases hinv with hlisted | hlong
    · rcases Nat.lt_or_ge js.peersMsgInfo.length (GoMap.len js.peers) with hshort | hlong
      · exact .inl (hlisted.announce hp (hkeyed _ _ hp) (hnew hshort (GoMap.mem_keys_of_lookup hp)))
      · exact .inr (by simpa using hlong.trans (Nat.le_succ _))
    · exact .inr (by simpa using hlong.trans (Nat.le_succ _))
  | @unmarshalled peer hp _ hlen =>
    -- the list keeps the entry of the one that has to go
    have hkept : Kept [req.peerId] (announce req peer js) ((announce req peer js).removePeer req.peerId) :=
      (Kept.refl _).removePeer _
    refine .inr (hkept.len_le.trans ?_)
    rw [hkept.peersMsgInfo]
    simpa using hlen.le
  | complete hp _ hlen => exact .inr (by simpa [keyList, JoinSession.broadcast, JoinSession.newTimer] using hlen.le)

/-- Only the end of the round sends the list. -/
theorem keyList_of_sent {pkgs : Packages} {ch : Choices} {req : KeyExchangeReq} {js js' : JoinSession} {d : Done}
    (h : KeyExchangeOutcome pkgs ch req js (.ok (d, js'))) {conn : ℕ} {list : List PeerMsgInfo}
    (hsent : .send conn (.keyExchange list) ∈ js'.out.drop js.out.length) :
    ∃ peer, js.peers.lookup req.peerId = some peer ∧ GoMap.len js.peers = js.peersMsgInfo.length + 1 ∧
      js' = keyList ch (announce req peer js) ∧ list = (announce req peer js).peersMsgInfo := by
  have hclose : ∀ js : JoinSession, .send conn (.keyExchange list) ∉ (js.removePeer req.peerId).out.drop js.out.length := by
    intro js hsent
    have hP := (Sends.removePeer (.refl js) (P := fun o => o matches .close _) (fun _ => rfl) req.peerId).mem hsent
    cases hP
  cases h with
  | stranger => simp at hsent
  | invalid => exact absurd hsent (hclose js)
  | waiting => simp [announce, JoinSession.setPeer] at hsent
  | @unmarshalled peer => exact absurd hsent (hclose (announce req peer js))
  | @complete peer hp _ hlen =>
    rw [keyList, JoinSession.newTimer, JoinSession.broadcast,
      show (announce req peer js).out = js.out from rfl, List.drop_left] at hsent
    obtain ⟨_, -, heq⟩ := List.mem_map.mp hsent
    cases heq
    exact ⟨peer, hp, hlen, rfl, rfl⟩

section Runs
variable {pkgs : Packages} {ch : Choices} {s s' : System} {ev : Event}

theorem KeyListInv.step (hwf : WellFormed s.session) (hinv : KeyListInv s.session) (horderly : Orderly ch s ev)
    (h : Stepped pkgs ch s ev s') : KeyListInv s'.session := by
  have heffect := effect_of_stepped h
  generalize s'.session = js' at heffect
  cases heffect with
  | removed h =>
    obtain ⟨ps, hps, hkept⟩ := h
    exact hinv.kept hkept fun hshort p hp hmem =>
      horderly hshort p (List.mem_append_right _ (hps p hp hmem)) hmem
  | expelled h => exact h ▸ .expelled ch _ _
  | keyExchange hev hreader h =>
    refine hinv.keyExchange hwf.keyed (fun hshort hmem => horderly hshort _ (List.mem_append_left _ ?_) hmem) h
    simp [System.announcing, hev, hreader]

theorem ReachableBy.keyListInv (hs : ReachableBy pkgs Orderly s) : KeyListInv s.session := by
  induction hs with
  | start => exact .inl ⟨List.nodup_nil, fun _ h => by cases h⟩
  | step hs horderly h ih => exact ih.step hs.reachable.wellFormed horderly (stepped_of_step h)

end Runs

/-- A step that sends the key list opens the exponential round, and the list has
exactly one entry for each member, with its key and its number of messages. -/
def KeyListExact (s s' : System) : Prop :=
  ∀ conn list, .send conn (.keyExchange list) ∈ s'.session.out.drop s.session.out.length →
    s'.session.state = .dcExponential ∧ list.Perm (keyEntries s'.session.peers)

/-- **The key list is exact** as long as no member with an entry announces its key
again or leaves while others are still missing. -/
theorem keyList_exact {pkgs : Packages} {s s' : System} (hs : ReachableBy pkgs Orderly s) {ch : Choices} {ev : Event}
    (horderly : Orderly ch s ev) (h : s.step pkgs ch ev = some s') : KeyListExact s s' := by
  intro conn list hsent
  have hstepped := stepped_of_step h
  rcases sends_of_stepped hstepped with ⟨conn', sessionId, state, msg, rfl, hreader, hsends⟩ | hsends
  swap
  · have hP := hsends.mem hsent
    cases hP
  have hkind : msg.kind = .keyExchange := by simpa [Output.answers] using hsends.mem hsent
  cases hstepped with
  | deliver _ hreader' h =>
    cases hreader.symm.trans hreader'
    cases msg with
    | keyExchange req =>
      have houtcome := handle_outcome pkgs ch (.keyExchange req) (mu_of_handle h)
      rw [h] at houtcome
      obtain ⟨peer, hp, hlen, rfl, rfl⟩ := keyList_of_sent houtcome hsent
      have hwf := hs.reachable.wellFormed
      have hmem := GoMap.mem_keys_of_lookup hp
      have hnew : req.peerId ∉ s.session.listed :=
        horderly (by omega) _ (List.mem_append_left _ (by simp [System.announcing, hreader])) hmem
      rcases hs.keyListInv with hlisted | hlong
      · have hannounced := hlisted.announce hp (hwf.keyed _ _ hp) hnew
        have hlen' : GoMap.len (announce req peer s.session).peers = (announce req peer s.session).peersMsgInfo.length := by
          simpa using hlen
        exact ⟨rfl, perm_keyEntries hannounced.nodup hannounced.fits hlen'⟩
      · omega
    | _ => cases hkind

/-- Peers 1 and 2; peer 1 announces its key a first time. -/
def firstKey : List (Choices × Event) :=
  [(plainChoices id, .read 1 (.message (.keyExchange ⟨0, [5], 1⟩))), (plainChoices id, .deliver 1), (plainChoices id, .rest),
    (plainChoices id, .read 1 (.message (.keyExchange ⟨0, [5], 1⟩)))]

/-- **The same key twice ends the round**: the list has two entries for peer 1 and
none for peer 2. -/
theorem secondKey_unlisted : ∃ s s', Reachable plainPackages s ∧
    s.step plainPackages (plainChoices id) (.deliver 1) = some s' ∧ ¬KeyListExact s s' := by
  refine ⟨_, _, (Reachable.start 7 60 false [(1, 1), (2, 2)] (by decide) (by decide)).run (l := firstKey) rfl, rfl, ?_⟩
  intro hexact
  exact absurd (hexact 1 [⟨1, [5], 1⟩, ⟨1, [5], 1⟩] (by decide)).2 (by decide)

/-- Each of two peers announces its key once. -/
theorem keyList_exact_two : ∃ s s', s.step plainPackages (plainChoices id) (.deliver 2) = some s' ∧ KeyListExact s s' ∧
    .send 1 (.keyExchange [⟨1, [5], 1⟩, ⟨2, [6], 2⟩]) ∈ s'.session.out := by
  have hs : ReachableBy plainPackages Orderly _ :=
    (ReachableBy.start 7 60 false [(1, 1), (2, 2)] (by decide) (by decide)).run
      (l := [(plainChoices id, .read 1 (.message (.keyExchange ⟨0, [5], 1⟩))), (plainChoices id, .deliver 1),
        (plainChoices id, .rest), (plainChoices id, .read 2 (.message (.keyExchange ⟨0, [6], 2⟩)))]) rfl
  exact ⟨_, _, rfl, keyList_exact hs (show Orderly (plainChoices id) _ (.deliver 2) by decide) rfl, by decide⟩

end Dcrtxmatcher.Coinjoin
