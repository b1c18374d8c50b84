import Dcrtxmatcher.Coinjoin.Joining
import Dcrtxmatcher.Coinjoin.Laggards
import Dcrtxmatcher.Coinjoin.Writers

/-! The publisher that fails, and the next one.

The change of publisher stands in the timeout, in the reader and in the writer. The
timeout makes it while it goes through the members, so that the next publisher is
taken out too when it is visited later; the writer does not ask whether anybody is
left. -/
namespace Dcrtxmatcher.Coinjoin
open Lib

/-! ### What is to happen -/

/-- The publisher leaves, and one of the others, if there are any, is the next one and
the only one that is sent the transaction. -/
inductive HandedOver (pkgs : Packages) (js : JoinSession) : JoinSession → Prop
  | emptied (hempty : GoMap.len (js.removePeer js.publisher).peers = 0) : HandedOver pkgs js (js.removePeer js.publisher)
  | passed {joinedTx : MsgTx} {tx : Bytes} {pubId : ℕ} {publisher : PeerInfo} (hjoined : js.joinedTx = some joinedTx)
      (hencode : pkgs.btcEncode joinedTx = some tx)
      (hp : (js.removePeer js.publisher).peers.lookup pubId = some publisher) :
      HandedOver pkgs js ((js.removePeer js.publisher).delegated pubId publisher tx js.roundTimeOut)

/-- The session with the publisher that the random number names. -/
def JoinSession.passedOn (pkgs : Packages) (ch : Choices) (js : JoinSession) : JoinSession :=
  let js := js.removePeer js.publisher
  match js.joinedTx.bind pkgs.btcEncode, js.randomPublisher ch with
  | some tx, .ok pubId =>
    match js.peers.lookup pubId with
    | some publisher => js.delegated pubId publisher tx js.roundTimeOut
    | none => js
  | _, _ => js

/-- How the failure of the publisher is noticed. -/
inductive Failure where
  | timeout
  | readError
  | writeError
  deriving DecidableEq, Repr

/-- What is done about it, if nobody who is sent a message keeps the sender waiting. -/
def Failure.handler (pkgs : Packages) (ch : Choices) (peer : PeerInfo) (js : JoinSession) : Failure → Except Fault JoinSession
  | .timeout => (Coinjoin.timeout pkgs ch js).map Prod.snd
  | .readError => Coinjoin.readError pkgs ch peer js
  | .writeError => Coinjoin.writeError pkgs ch peer js

/-- What comes of it. A message for a writer that has returned, or that waits for the
mutex, is sent for ever with the mutex held. -/
def Failure.handled (pkgs : Packages) (ch : Choices) (w : Wired) (peer : PeerInfo) (failure : Failure) : Option JoinSession :=
  (failure.handler pkgs ch peer w.system.session).toOption.filter fun js' =>
    (sentTo w.system.session js').all fun conn => w.writers conn = .serving

/-- The joined transaction can be encoded and its message marshalled. -/
def JoinSession.Encodes (pkgs : Packages) (ch : Choices) (site : List ℕ) (js : JoinSession) : Prop :=
  (js.joinedTx.bind pkgs.btcEncode).isSome = true ∧ ch.marshal site = true

/-- The publisher and those the timeout visits after it. -/
def JoinSession.visitedFrom (ch : Choices) (js : JoinSession) : List ℕ :=
  ((GoMap.range ch.order [229] js.peers).map Prod.fst).dropWhile fun p => p ≠ js.publisher

/-- The writer of the one whom the random number names, of those left, can receive. -/
def Wired.NextServes (ch : Choices) (w : Wired) : Prop :=
  ∀ pubId publisher, (w.system.session.removePeer w.system.session.publisher).randomPublisher ch = .ok pubId →
    (w.system.session.removePeer w.system.session.publisher).peers.lookup pubId = some publisher →
      w.writers publisher.conn = .serving

/-- When the failure is handled as it is to be, if the next publisher can be told. -/
def Failure.Passes (pkgs : Packages) (ch : Choices) (js : JoinSession) : Failure → Prop
  | .timeout =>
    js.mu = false ∧ (GoMap.len (js.removePeer js.publisher).peers = 0 ∨
      js.Encodes pkgs ch [284, js.publisher] ∧ js.missedPeers = [] ∧
        ∀ pubId, (js.removePeer js.publisher).randomPublisher ch = .ok pubId → pubId ∉ js.visitedFrom ch)
  | .readError => js.mu = false ∧ (GoMap.len (js.removePeer js.publisher).peers = 0 ∨ js.Encodes pkgs ch [448])
  | .writeError => js.mu = false ∧ GoMap.len (js.removePeer js.publisher).peers ≠ 0 ∧ js.Encodes pkgs ch [354]

/-! ### One change of publisher -/

section Change
variable {pkgs : Packages} {ch : Choices} {js js' : JoinSession} {site : List ℕ}

theorem randomPublisher_member (hkeyed : JoinSession.WellKeyed js.peers) (hlen : GoMap.len js.peers ≠ 0) :
    ∃ pubId publisher, js.randomPublisher ch = .ok pubId ∧ js.peers.lookup pubId = some publisher := by
  have hlength : (GoMap.values ch.order [1249] js.peers).length = GoMap.len js.peers := by
    rw [(GoMap.values_perm ..).length_eq, List.length_map, GoMap.length_toList]
  have hlt : ch.intn (GoMap.len js.peers) < (GoMap.values ch.order [1249] js.peers).length := by
    rw [hlength]
    exact ch.intn_lt _ (Nat.pos_of_ne_zero hlen)
  obtain ⟨p, hp⟩ := GoMap.mem_values.mp (List.getElem_mem hlt)
  refine ⟨_, _, ?_, (hkeyed p _ hp).symm ▸ hp⟩
  rw [JoinSession.randomPublisher, if_neg hlen, index_of_lt hlt]
  rfl

theorem randomPublisher_empty (hlen : GoMap.len js.peers = 0) : js.randomPublisher ch = .error .panic := by
  rw [JoinSession.randomPublisher, if_pos hlen]

theorem changePublisher_encodes (henc : js.Encodes pkgs ch site) :
    ∃ tx, js.joinedTx.bind pkgs.btcEncode = some tx ∧
      js.changePublisher pkgs ch site = (js.selectPublisher ch tx js.roundTimeOut).map (true, ·) := by
  obtain ⟨tx, htx⟩ := Option.isSome_iff_exists.mp henc.1
  obtain ⟨joinedTx, hjoined, hencode⟩ := Option.bind_eq_some_iff.mp htx
  refine ⟨tx, htx, ?_⟩
  rw [JoinSession.changePublisher, JoinSession.encodeJoinedTx, hjoined]
  dsimp only
  rw [hencode, ok_bind]
  dsimp only
  rw [if_pos henc.2]
  cases js.selectPublisher ch tx js.roundTimeOut <;> rfl

/-- A change that can be made is made. -/
theorem changePublisher_eq (hkeyed : JoinSession.WellKeyed js.peers) (hlen : GoMap.len js.peers ≠ 0)
    (henc : js.Encodes pkgs ch site) :
    ∃ tx pubId publisher, js.joinedTx.bind pkgs.btcEncode = some tx ∧ js.randomPublisher ch = .ok pubId ∧
      js.peers.lookup pubId = some publisher ∧
      js.changePublisher pkgs ch site = .ok (true, js.delegated pubId publisher tx js.roundTimeOut) := by
  obtain ⟨tx, htx, hchange⟩ := changePublisher_encodes henc
  obtain ⟨pubId, publisher, hrandom, hp⟩ := @randomPublisher_member ch js hkeyed hlen
  refine ⟨tx, pubId, publisher, htx, hrandom, hp, ?_⟩
  rw [hchange, JoinSession.selectPublisher, hrandom, ok_bind]
  dsimp only
  rw [hp]
  rfl

/-- A change with nobody left panics. -/
theorem changePublisher_empty (hlen : GoMap.len js.peers = 0) (henc : js.Encodes pkgs ch site) :
    js.changePublisher pkgs ch site = .error .panic := by
  obtain ⟨tx, -, hchange⟩ := changePublisher_encodes henc
  rw [hchange, JoinSession.selectPublisher, randomPublisher_empty hlen]
  rfl

/-- One that cannot be made ends the session, or the process. -/
theorem changePublisher_failed (henc : ¬js.Encodes pkgs ch site) :
    js.changePublisher pkgs ch site = .error .panic ∨ js.changePublisher pkgs ch site = .ok (false, js.terminate ch) := by
  cases hjoined : js.joinedTx with
  | none =>
    left
    rw [JoinSession.changePublisher, JoinSession.encodeJoinedTx, hjoined]
    rfl
  | some joinedTx =>
    right
    rw [JoinSession.changePublisher, JoinSession.encodeJoinedTx, hjoined]
    dsimp only
    cases hencode : pkgs.btcEncode joinedTx with
    | none => rfl
    | some tx =>
      rw [ok_bind]
      dsimp only
      rw [if_neg]
      intro hmarshal
      exact henc ⟨by rw [hjoined, Option.bind_some, hencode]; rfl, hmarshal⟩

/-- What is sent when a session ends is no message. -/
theorem not_handedOver_terminate (b : Bool) (hlen : GoMap.len (js.removePeer js.publisher).peers ≠ 0) :
    ¬HandedOver pkgs js (((js.removePeer js.publisher).terminate ch).withMu b) := by
  intro hhanded
  generalize hjs' : ((js.removePeer js.publisher).terminate ch).withMu b = js' at hhanded
  have hout := congrArg JoinSession.out hjs'
  cases hhanded with
  | emptied hempty => exact hlen hempty
  | @passed joinedTx tx pubId publisher =>
    have hsent := List.append_cancel_left hout
    have hmem : Output.send publisher.conn (.txSign tx) ∈
        (GoMap.values ch.order [156] (js.removePeer js.publisher).peers).map fun peer => Output.close peer.conn := by
      rw [hsent]
      exact List.mem_singleton_self _
    obtain ⟨_, -, hclose⟩ := List.mem_map.mp hmem
    cases hclose

/-- A session with another publisher is one that is passed on. -/
theorem passedOn_eq {tx : Bytes} {pubId : ℕ} {publisher : PeerInfo} (htx : js.joinedTx.bind pkgs.btcEncode = some tx)
    (hrandom : (js.removePeer js.publisher).randomPublisher ch = .ok pubId)
    (hp : (js.removePeer js.publisher).peers.lookup pubId = some publisher) :
    js.passedOn pkgs ch = (js.removePeer js.publisher).delegated pubId publisher tx js.roundTimeOut := by
  have hjoined : (js.removePeer js.publisher).joinedTx = js.joinedTx := JoinSession.joinedTx_removePeer ..
  have htimeOut : (js.removePeer js.publisher).roundTimeOut = js.roundTimeOut := JoinSession.roundTimeOut_removePeer ..
  rw [JoinSession.passedOn, hjoined, htx, hrandom]
  dsimp only
  rw [hp, htimeOut]

theorem passedOn_empty (hlen : GoMap.len (js.removePeer js.publisher).peers = 0) :
    js.passedOn pkgs ch = js.removePeer js.publisher := by
  rw [JoinSession.passedOn, randomPublisher_empty hlen]
  cases (js.removePeer js.publisher).joinedTx.bind pkgs.btcEncode <;> rfl

/-- The turn passes, or nothing more than the removal happens. -/
theorem passedOn_cases (pkgs : Packages) (ch : Choices) (js : JoinSession) :
    js.passedOn pkgs ch = js.removePeer js.publisher ∨ ∃ tx pubId publisher,
      js.passedOn pkgs ch = (js.removePeer js.publisher).delegated pubId publisher tx js.roundTimeOut := by
  have htimeOut : (js.removePeer js.publisher).roundTimeOut = js.roundTimeOut := JoinSession.roundTimeOut_removePeer ..
  unfold JoinSession.passedOn
  dsimp only
  split
  · split
    · exact .inr ⟨_, _, _, by rw [htimeOut]⟩
    · exact .inl rfl
  · exact .inl rfl

@[simp] theorem mu_passedOn : (js.passedOn pkgs ch).mu = js.mu := by
  rcases passedOn_cases pkgs ch js with h | ⟨_, _, _, h⟩ <;> rw [h]
  · exact js.mu_removePeer _
  · exact js.mu_removePeer _

@[simp] theorem missedPeers_passedOn : (js.passedOn pkgs ch).missedPeers = js.missedPeers := by
  rcases passedOn_cases pkgs ch js with h | ⟨_, _, _, h⟩ <;> rw [h]
  · exact js.missedPeers_removePeer _
  · exact js.missedPeers_removePeer _

@[simp] theorem state_passedOn : (js.passedOn pkgs ch).state = js.state := by
  rcases passedOn_cases pkgs ch js with h | ⟨_, _, _, h⟩ <;> rw [h]
  · exact js.state_removePeer _
  · exact js.state_removePeer _

theorem handedOver_passedOn {tx : Bytes} {pubId : ℕ} {publisher : PeerInfo}
    (htx : js.joinedTx.bind pkgs.btcEncode = some tx)
    (hp : (js.removePeer js.publisher).peers.lookup pubId = some publisher) :
    HandedOver pkgs js ((js.removePeer js.publisher).delegated pubId publisher tx js.roundTimeOut) := by
  obtain ⟨joinedTx, hjoined, hencode⟩ := Option.bind_eq_some_iff.mp htx
  exact .passed hjoined hencode hp

end Change

/-! ### The loop of the timeout -/

section Loop
variable {pkgs : Packages} {ch : Choices} {js js' : JoinSession}

/-- The loop passes by who is not the publisher. -/
theorem changePublishers_append {before after : List (ℕ × PeerInfo)} (h : ∀ e ∈ before, e.2.id ≠ js.publisher) :
    changePublishers pkgs ch (before ++ after) js = changePublishers pkgs ch after js := by
  induction before with
  | nil => rfl
  | cons e before ih =>
    obtain ⟨p, peer⟩ := e
    rw [List.cons_append, changePublishers, if_neg (Ne.symm (h (p, peer) (List.mem_cons_self ..)))]
    exact ih fun e he => h e (List.mem_cons_of_mem _ he)

theorem changePublishers_strangers {visited : List (ℕ × PeerInfo)} (h : ∀ e ∈ visited, e.2.id ≠ js.publisher) :
    changePublishers pkgs ch visited js = .ok (true, js) := by
  rw [← List.append_nil visited, changePublishers_append h]
  rfl

/-- The publisher that is visited does not stay. -/
theorem changePublishers_removes {visited : List (ℕ × PeerInfo)} (hmem : ∃ e ∈ visited, e.2.id = js.publisher) {b : Bool}
    (h : changePublishers pkgs ch visited js = .ok (b, js')) : js'.peers.lookup js.publisher = none := by
  obtain ⟨e, he, hid⟩ := hmem
  induction visited with
  | nil => cases he
  | cons e' visited ih =>
    obtain ⟨p, peer⟩ := e'
    rw [changePublishers] at h
    by_cases hpub : js.publisher = peer.id
    · rw [if_pos hpub] at h
      dsimp only at h
      split_ifs at h with hempty
      · cases h
        rw [lookup_removePeer, if_pos hpub]
      obtain ⟨⟨changed, js₁⟩, hchange, h⟩ := bind_eq_ok.mp h
      have houtcome := JoinSession.changePublisher_outcome pkgs ch [284, peer.id] (js.removePeer peer.id)
      rw [hchange] at houtcome
      have hkept := houtcome.kept (Kept.refl _)
      have hgone : ∀ js', (∃ qs, Kept qs (js.removePeer peer.id) js') → js'.peers.lookup js.publisher = none := by
        intro js' hkept'
        obtain ⟨qs, hkept'⟩ := hkept'
        refine Option.eq_none_iff_forall_ne_some.mpr fun other hother => ?_
        obtain ⟨_, hbefore, -⟩ := hkept'.member hother
        rw [lookup_removePeer, if_pos hpub] at hbefore
        cases hbefore
      cases changed with
      | false =>
        cases h
        exact hgone _ ⟨_, hkept⟩
      | true =>
        rcases changePublishers_outcome pkgs ch visited js₁ with hpanic | ⟨b', js₂, hrun, hrep⟩
        · rw [if_pos rfl, hpanic] at h
          cases h
        · rw [if_pos rfl, hrun] at h
          cases h
          exact hgone _ (hrep.kept hkept)
    · rw [if_neg hpub] at h
      rcases List.mem_cons.mp he with rfl | hrest
      · exact absurd hid.symm hpub
      · exact ih h hrest

end Loop

/-! ### The three ways -/

section Ways
variable {pkgs : Packages} {ch : Choices} {js js' : JoinSession} {peer : PeerInfo}

theorem encodes_locked {site : List ℕ} :
    ((js.removePeer js.publisher).withMu true).Encodes pkgs ch site ↔ js.Encodes pkgs ch site := by
  have hjoined : ((js.removePeer js.publisher).withMu true).joinedTx = js.joinedTx := JoinSession.joinedTx_removePeer ..
  rw [JoinSession.Encodes, JoinSession.Encodes, hjoined]

/-- The publisher leaves and the turn passes, with the mutex held. -/
theorem changePublisher_locked (hwf : WellFormed js) {site : List ℕ}
    (hlen : GoMap.len (js.removePeer js.publisher).peers ≠ 0) (henc : js.Encodes pkgs ch site) :
    ∃ pubId, (js.removePeer js.publisher).randomPublisher ch = .ok pubId ∧ (js.passedOn pkgs ch).publisher = pubId ∧
      pubId ≠ js.publisher ∧ HandedOver pkgs js (js.passedOn pkgs ch) ∧
      ((js.removePeer js.publisher).withMu true).changePublisher pkgs ch site =
        .ok (true, (js.passedOn pkgs ch).withMu true) := by
  have hkeyed : JoinSession.WellKeyed ((js.removePeer js.publisher).withMu true).peers :=
    (hwf.kept ((Kept.refl js).removePeer js.publisher)).keyed
  have hlen' : GoMap.len ((js.removePeer js.publisher).withMu true).peers ≠ 0 := hlen
  obtain ⟨tx, pubId, publisher, htx, hrandom, hp, hchange⟩ := changePublisher_eq hkeyed hlen' (encodes_locked.mpr henc)
  have htx' : js.joinedTx.bind pkgs.btcEncode = some tx := by rwa [← js.joinedTx_removePeer js.publisher]
  have hpassed := passedOn_eq htx' hrandom hp
  have hne : pubId ≠ js.publisher := by
    rintro rfl
    rw [JoinSession.peers_withMu, lookup_removePeer, if_pos rfl] at hp
    cases hp
  refine ⟨pubId, hrandom, by rw [hpassed]; rfl, hne, ?_, ?_⟩
  · rw [hpassed]
    exact handedOver_passedOn htx' hp
  · rw [hchange, hpassed, ← js.roundTimeOut_removePeer js.publisher]
    rfl

theorem changePublisher_locked_failed (ch : Choices) {site : List ℕ} (henc : ¬js.Encodes pkgs ch site) :
    ((js.removePeer js.publisher).withMu true).changePublisher pkgs ch site = .error .panic ∨
      ((js.removePeer js.publisher).withMu true).changePublisher pkgs ch site =
        .ok (false, ((js.removePeer js.publisher).terminate ch).withMu true) :=
  changePublisher_failed (mt encodes_locked.mp henc)

theorem readError_txPublish (hmu : js.mu = false) (hstate : js.state = .txPublish)
    (hp : js.peers.lookup js.publisher = some peer) (hid : peer.id = js.publisher) :
    readError pkgs ch peer js =
      if GoMap.len (js.removePeer js.publisher).peers = 0 then .ok (js.removePeer js.publisher)
      else ((js.removePeer js.publisher).withMu true).changePublisher pkgs ch [448] >>= fun r => r.2.unlock := by
  have hpub : peer.id ∈ js.peers.keys ∧ js.publisher = peer.id := ⟨hid ▸ GoMap.mem_keys_of_lookup hp, hid.symm⟩
  rw [readError, js.lock_eq hmu, ok_bind, JoinSession.state_withMu, hstate]
  change (if peer.id ∈ js.peers.keys ∧ js.publisher = peer.id then
      if GoMap.len ((js.withMu true).removePeer peer.id).peers = 0 then ((js.withMu true).removePeer peer.id).unlock
      else ((js.withMu true).removePeer peer.id).changePublisher pkgs ch [448] >>= fun r => r.2.unlock
    else (js.withMu true).unlock) = _
  rw [if_pos hpub, JoinSession.removePeer_withMu, hid,
    JoinSession.unlock_withMu _ ((js.mu_removePeer js.publisher).trans hmu)]
  rfl

theorem writeError_txPublish (hmu : js.mu = false) (hstate : js.state = .txPublish) (hid : peer.id = js.publisher) :
    writeError pkgs ch peer js = ((js.removePeer js.publisher).withMu true).changePublisher pkgs ch [354] >>=
      fun r => if r.1 then r.2.unlock else .ok r.2 := by
  rw [writeError, js.lock_eq hmu, ok_bind, JoinSession.state_withMu, hstate]
  change (if js.publisher = peer.id then ((js.withMu true).removePeer peer.id).changePublisher pkgs ch [354] >>=
      fun r => if r.1 then r.2.unlock else .ok r.2
    else (js.withMu true).unlock) = _
  rw [if_pos hid.symm, JoinSession.removePeer_withMu, hid]

theorem timeout_txPublish (hmu : js.mu = false) (hstate : js.state = .txPublish) :
    timeout pkgs ch js = changePublishers pkgs ch (GoMap.range ch.order [229] js.peers) (js.withMu true) >>=
      fun r => if r.1 then informMissed ch r.2 else r.2.unlockAnd ⟨none, .ret⟩ := by
  have hsame : js.timedOut ch = js := timedOut_eq_self fun _ _ _ => by rw [hstate]; rfl
  rw [timeout, js.lock_eq hmu, ok_bind]
  change (if js.state = .txPublish then
      changePublishers pkgs ch (GoMap.range ch.order [229] js.peers) ((js.timedOut ch).withMu true) >>= fun r =>
        if r.1 then informMissed ch r.2 else r.2.unlockAnd ⟨none, .ret⟩
    else informMissed ch ((js.timedOut ch).withMu true)) = _
  rw [if_pos hstate, hsame]

/-- The timeout comes to the publisher, and goes on to the members after it. -/
theorem timeout_visits (hmu : js.mu = false) (hstate : js.state = .txPublish) (hkeyed : JoinSession.WellKeyed js.peers)
    {before after : List (ℕ × PeerInfo)}
    (hvisited : GoMap.range ch.order [229] js.peers = before ++ (js.publisher, peer) :: after) :
    timeout pkgs ch js =
      if GoMap.len (js.removePeer js.publisher).peers = 0 then .ok (⟨none, .ret⟩, js.removePeer js.publisher)
      else ((js.removePeer js.publisher).withMu true).changePublisher pkgs ch [284, js.publisher] >>= fun r =>
        (if r.1 then changePublishers pkgs ch after r.2 else .ok (false, r.2)) >>= fun r =>
          if r.1 then informMissed ch r.2 else r.2.unlockAnd ⟨none, .ret⟩ := by
  have hid : ∀ e ∈ GoMap.range ch.order [229] js.peers, e.2.id = e.1 := fun e he =>
    hkeyed e.1 e.2 (GoMap.mem_range.mp he)
  have hnodup := GoMap.nodup_range ch.order [229] js.peers
  rw [hvisited, List.map_append, List.map_cons] at hnodup
  have hbefore : ∀ e ∈ before, e.2.id ≠ (js.withMu true).publisher := by
    intro e he heq
    rw [hid e (by rw [hvisited]; exact List.mem_append_left _ he)] at heq
    exact (List.nodup_append.mp hnodup).2.2 e.1 (List.mem_map_of_mem he) _ (List.mem_cons_self ..) heq
  have hpeer : peer.id = js.publisher :=
    hid (js.publisher, peer) (by rw [hvisited]; exact List.mem_append_right _ (List.mem_cons_self ..))
  rw [timeout_txPublish hmu hstate, hvisited, changePublishers_append hbefore, changePublishers]
  have hpub : (js.withMu true).publisher = peer.id := hpeer.symm
  rw [if_pos hpub, hpeer, JoinSession.removePeer_withMu]
  dsimp only
  rw [JoinSession.peers_withMu]
  split_ifs with hempty
  · rw [ok_bind]
    change ((js.removePeer js.publisher).withMu true).unlockAnd _ = _
    rw [JoinSession.unlockAnd, JoinSession.unlock_withMu _ ((js.mu_removePeer js.publisher).trans hmu)]
    rfl
  · rw [bind_assoc]

theorem visitedFrom_eq {before after : List (ℕ × PeerInfo)}
    (hvisited : GoMap.range ch.order [229] js.peers = before ++ (js.publisher, peer) :: after) :
    js.visitedFrom ch = js.publisher :: after.map Prod.fst := by
  have hnodup := GoMap.nodup_range ch.order [229] js.peers
  rw [hvisited, List.map_append, List.map_cons] at hnodup
  rw [JoinSession.visitedFrom, hvisited, List.map_append, List.map_cons, List.dropWhile_append_of_pos]
  · simp
  · intro p hp
    have hne := (List.nodup_append.mp hnodup).2.2 p hp js.publisher (List.mem_cons_self ..)
    simpa using hne

/-- Nobody else leaves. -/
theorem HandedOver.peers_eq (hlen : GoMap.len (js.removePeer js.publisher).peers ≠ 0) (h : HandedOver pkgs js js') :
    js'.peers = (js.removePeer js.publisher).peers := by
  cases h with
  | emptied hempty => exact absurd hempty hlen
  | passed => rfl

/-- What is left to do after the loop when the turn has passed once. -/
theorem informMissed_passedOn (hmu : js.mu = false) (hstate : js.state = .txPublish) :
    informMissed ch ((js.passedOn pkgs ch).withMu true) =
      if js.missedPeers = [] then .ok (.next, js.passedOn pkgs ch) else .error .selfDeadlock := by
  have hmu' : (js.passedOn pkgs ch).mu = false := mu_passedOn.trans hmu
  have hinform := informMissed_outcome ch (js.passedOn pkgs ch) hmu'
  generalize informMissed ch ((js.passedOn pkgs ch).withMu true) = r at hinform ⊢
  cases hinform with
  | nobody hmissed =>
    rw [missedPeers_passedOn] at hmissed
    rw [if_pos hmissed]
  | dropped _ hkey =>
    rw [state_passedOn, hstate] at hkey
    cases hkey
  | deadlock hmissed _ =>
    rw [missedPeers_passedOn] at hmissed
    rw [if_neg hmissed]

/-- Nobody comes back at the end of the timeout. -/
theorem lookup_informMissed (hmu : js.mu = false) {d : Done} (h : informMissed ch (js.withMu true) = .ok (d, js')) {p : ℕ}
    (hp : js.peers.lookup p = none) : js'.peers.lookup p = none := by
  have hinform := informMissed_outcome ch js hmu
  rw [h] at hinform
  cases hinform with
  | nobody => exact hp
  | dropped => rw [lookup_removePeers, hp, ite_self]

/-- The timeout after a change of publisher that can be made. -/
theorem timeout_passes_on (hwf : WellFormed js) (hmu : js.mu = false) (hstate : js.state = .txPublish)
    {before after : List (ℕ × PeerInfo)}
    (hvisited : GoMap.range ch.order [229] js.peers = before ++ (js.publisher, peer) :: after)
    (hlen : GoMap.len (js.removePeer js.publisher).peers ≠ 0) (henc : js.Encodes pkgs ch [284, js.publisher]) :
    timeout pkgs ch js = changePublishers pkgs ch after ((js.passedOn pkgs ch).withMu true) >>= fun r =>
      if r.1 then informMissed ch r.2 else r.2.unlockAnd ⟨none, .ret⟩ := by
  obtain ⟨pubId, -, -, -, -, hchange⟩ := changePublisher_locked hwf hlen henc
  rw [timeout_visits hmu hstate hwf.keyed hvisited, if_neg hlen, hchange, ok_bind]
  rfl

/-- The next publisher is one of those left. -/
theorem HandedOver.member (hlen : GoMap.len (js.removePeer js.publisher).peers ≠ 0) (h : HandedOver pkgs js js') :
    ∃ publisher, js'.peers.lookup js'.publisher = some publisher := by
  cases h with
  | emptied hempty => exact absurd hempty hlen
  | @passed _ _ _ publisher _ _ hp => exact ⟨publisher, hp⟩

theorem HandedOver.mu_eq (h : HandedOver pkgs js js') : js'.mu = js.mu := by
  cases h with
  | emptied => exact js.mu_removePeer _
  | passed => exact js.mu_removePeer _

/-- The next publisher is not visited any more. -/
theorem timeout_passes_once (hwf : WellFormed js) (hmu : js.mu = false) (hstate : js.state = .txPublish)
    {before after : List (ℕ × PeerInfo)}
    (hvisited : GoMap.range ch.order [229] js.peers = before ++ (js.publisher, peer) :: after)
    (hlen : GoMap.len (js.removePeer js.publisher).peers ≠ 0) (henc : js.Encodes pkgs ch [284, js.publisher])
    (hpub : (js.passedOn pkgs ch).publisher ∉ after.map Prod.fst) :
    timeout pkgs ch js = if js.missedPeers = [] then .ok (.next, js.passedOn pkgs ch) else .error .selfDeadlock := by
  have hstrangers : ∀ e ∈ after, e.2.id ≠ ((js.passedOn pkgs ch).withMu true).publisher := by
    intro e he heq
    have hlookup := GoMap.mem_range.mp (hvisited ▸ List.mem_append_right _ (List.mem_cons_of_mem _ he))
    rw [hwf.keyed e.1 e.2 hlookup] at heq
    apply hpub
    exact heq ▸ List.mem_map_of_mem he
  rw [timeout_passes_on hwf hmu hstate hvisited hlen henc, changePublishers_strangers hstrangers, ok_bind]
  exact informMissed_passedOn hmu hstate

/-- The next publisher is visited after the one that failed, and leaves as well. -/
theorem timeout_passes_twice (hwf : WellFormed js) (hmu : js.mu = false) (hstate : js.state = .txPublish)
    {before after : List (ℕ × PeerInfo)}
    (hvisited : GoMap.range ch.order [229] js.peers = before ++ (js.publisher, peer) :: after)
    (hlen : GoMap.len (js.removePeer js.publisher).peers ≠ 0) (henc : js.Encodes pkgs ch [284, js.publisher])
    (hpub : (js.passedOn pkgs ch).publisher ∈ after.map Prod.fst) {d : Done} (h : timeout pkgs ch js = .ok (d, js')) :
    js'.peers.lookup (js.passedOn pkgs ch).publisher = none := by
  obtain ⟨e, he, hfst⟩ := List.mem_map.mp hpub
  have hlookup := GoMap.mem_range.mp (hvisited ▸ List.mem_append_right _ (List.mem_cons_of_mem _ he))
  have hid : e.2.id = ((js.passedOn pkgs ch).withMu true).publisher := (hwf.keyed e.1 e.2 hlookup).trans hfst
  rw [timeout_passes_on hwf hmu hstate hvisited hlen henc] at h
  obtain ⟨⟨completed, js₁⟩, hloop, h⟩ := bind_eq_ok.mp h
  have hgone := changePublishers_removes ⟨e, he, hid⟩ hloop
  obtain ⟨js₂, hmu₂, rfl⟩ : ∃ js₂ : JoinSession, js₂.mu = false ∧ js₁ = js₂.withMu true := by
    rcases changePublishers_outcome pkgs ch after ((js.passedOn pkgs ch).withMu true) with hpanic | ⟨b, js₂, hrun, hrep⟩
    · rw [hpanic] at hloop
      cases hloop
    · rw [hrun] at hloop
      cases hloop
      exact ⟨js₁.withMu false, rfl, (js₁.withMu_self _ hrep.mu).symm⟩
  cases completed with
  | false =>
    cases h
    exact hgone
  | true => exact lookup_informMissed hmu₂ h hgone

/-- A failure that is not handled as it is to be. -/
theorem not_passed {P : JoinSession → Prop} {Q R : Prop} {r : Except Fault JoinSession} (hr : ∀ js', r = .ok js' → ¬P js')
    (hQ : ¬Q) : ((∃ js', r = .ok js' ∧ P js') ↔ Q) ∧ (Q → R) := by
  refine ⟨iff_of_false ?_ hQ, fun h => absurd h hQ⟩
  intro h
  obtain ⟨js', hres, hP⟩ := h
  exact hr js' hres hP

/-- The timeout, with the publisher at its place in the order of the visit. -/
theorem timeout_hands_over (hwf : WellFormed js) (hstate : js.state = .txPublish)
    (hp : js.peers.lookup js.publisher = some peer) :
    ((∃ js', Failure.timeout.handler pkgs ch peer js = .ok js' ∧ HandedOver pkgs js js') ↔
        Failure.timeout.Passes pkgs ch js) ∧
      (Failure.timeout.Passes pkgs ch js → Failure.timeout.handler pkgs ch peer js = .ok (js.passedOn pkgs ch)) := by
  by_cases hmu : js.mu = false
  swap
  · apply not_passed _ fun hpasses => hmu hpasses.1
    intro js' hres
    rw [Failure.handler, timeout, JoinSession.lock, if_pos (Bool.not_eq_false _ ▸ hmu)] at hres
    cases hres
  obtain ⟨before, after, hvisited⟩ := List.append_of_mem (@GoMap.mem_range _ _ _ ch.order [229] _ _ _ |>.mpr hp)
  rw [Failure.handler, Failure.Passes, visitedFrom_eq hvisited]
  by_cases hlen : GoMap.len (js.removePeer js.publisher).peers = 0
  · rw [timeout_visits hmu hstate hwf.keyed hvisited, if_pos hlen, passedOn_empty hlen]
    exact ⟨iff_of_true ⟨_, rfl, .emptied hlen⟩ ⟨hmu, .inl hlen⟩, fun _ => rfl⟩
  by_cases henc : js.Encodes pkgs ch [284, js.publisher]
  swap
  · apply not_passed _ fun hpasses => henc (hpasses.2.resolve_left hlen).1
    intro js' hres hhanded
    rw [timeout_visits hmu hstate hwf.keyed hvisited, if_neg hlen] at hres
    rcases changePublisher_locked_failed ch henc with hchange | hchange
    · rw [hchange] at hres
      cases hres
    · rw [hchange] at hres
      cases hres
      exact not_handedOver_terminate false hlen hhanded
  obtain ⟨pubId, hrandom, hpubId, hne, hhanded, -⟩ := changePublisher_locked hwf hlen henc
  by_cases hpub : pubId ∈ after.map Prod.fst
  · apply not_passed _ fun hpasses => (hpasses.2.resolve_left hlen).2.2 pubId hrandom (List.mem_cons_of_mem _ hpub)
    intro js' hres hhanded'
    cases htimeout : timeout pkgs ch js with
    | error fault =>
      rw [htimeout] at hres
      cases hres
    | ok r =>
      rw [htimeout] at hres
      cases hres
      have hgone := timeout_passes_twice hwf hmu hstate hvisited hlen henc (hpubId ▸ hpub) htimeout
      obtain ⟨publisher, hmember⟩ := hhanded.member hlen
      rw [hhanded'.peers_eq hlen, ← hhanded.peers_eq hlen, hmember] at hgone
      cases hgone
  rw [timeout_passes_once hwf hmu hstate hvisited hlen henc (hpubId ▸ hpub)]
  by_cases hmissed : js.missedPeers = []
  · rw [if_pos hmissed]
    refine ⟨iff_of_true ⟨_, rfl, hhanded⟩ ⟨hmu, .inr ⟨henc, hmissed, fun pubId' hrandom' => ?_⟩⟩, fun _ => rfl⟩
    cases hrandom.symm.trans hrandom'
    simpa using ⟨hne, by simpa using hpub⟩
  · rw [if_neg hmissed]
    apply not_passed _ fun hpasses => hmissed (hpasses.2.resolve_left hlen).2.1
    intro js' hres
    cases hres

/-- The reader, which asks whether anybody is left. -/
theorem readError_hands_over (hwf : WellFormed js) (hstate : js.state = .txPublish)
    (hp : js.peers.lookup js.publisher = some peer) :
    ((∃ js', Failure.readError.handler pkgs ch peer js = .ok js' ∧ HandedOver pkgs js js') ↔
        Failure.readError.Passes pkgs ch js) ∧
      (Failure.readError.Passes pkgs ch js → Failure.readError.handler pkgs ch peer js = .ok (js.passedOn pkgs ch)) := by
  by_cases hmu : js.mu = false
  swap
  · apply not_passed _ fun hpasses => hmu hpasses.1
    intro js' hres
    rw [Failure.handler, readError, JoinSession.lock, if_pos (Bool.not_eq_false _ ▸ hmu)] at hres
    cases hres
  rw [Failure.handler, Failure.Passes, readError_txPublish hmu hstate hp (hwf.keyed _ _ hp)]
  by_cases hlen : GoMap.len (js.removePeer js.publisher).peers = 0
  · rw [if_pos hlen, passedOn_empty hlen]
    exact ⟨iff_of_true ⟨_, rfl, .emptied hlen⟩ ⟨hmu, .inl hlen⟩, fun _ => rfl⟩
  rw [if_neg hlen]
  by_cases henc : js.Encodes pkgs ch [448]
  · obtain ⟨pubId, -, -, -, hhanded, hchange⟩ := changePublisher_locked hwf hlen henc
    rw [hchange, ok_bind, JoinSession.unlock_withMu _ (mu_passedOn.trans hmu)]
    exact ⟨iff_of_true ⟨_, rfl, hhanded⟩ ⟨hmu, .inr henc⟩, fun _ => rfl⟩
  apply not_passed _ fun hpasses => henc (hpasses.2.resolve_left hlen)
  intro js' hres hhanded
  rcases changePublisher_locked_failed ch henc with hchange | hchange
  · rw [hchange] at hres
    cases hres
  · rw [hchange] at hres
    cases hres
    exact not_handedOver_terminate false hlen hhanded

/-- The writer, which does not. -/
theorem writeError_hands_over (hwf : WellFormed js) (hstate : js.state = .txPublish)
    (hp : js.peers.lookup js.publisher = some peer) :
    ((∃ js', Failure.writeError.handler pkgs ch peer js = .ok js' ∧ HandedOver pkgs js js') ↔
        Failure.writeError.Passes pkgs ch js) ∧
      (Failure.writeError.Passes pkgs ch js → Failure.writeError.handler pkgs ch peer js = .ok (js.passedOn pkgs ch)) := by
  by_cases hmu : js.mu = false
  swap
  · apply not_passed _ fun hpasses => hmu hpasses.1
    intro js' hres
    rw [Failure.handler, writeError, JoinSession.lock, if_pos (Bool.not_eq_false _ ▸ hmu)] at hres
    cases hres
  rw [Failure.handler, Failure.Passes, writeError_txPublish hmu hstate (hwf.keyed _ _ hp)]
  by_cases henc : js.Encodes pkgs ch [354]
  swap
  · apply not_passed _ fun hpasses => henc hpasses.2.2
    intro js' hres hhanded
    rcases changePublisher_locked_failed ch henc with hchange | hchange
    · rw [hchange] at hres
      cases hres
    · rw [hchange] at hres
      cases hres
      -- The mutex is still held.
      exact absurd (hhanded.mu_eq.trans hmu) Bool.true_eq_false.mp
  by_cases hlen : GoMap.len (js.removePeer js.publisher).peers = 0
  · have hempty : GoMap.len ((js.removePeer js.publisher).withMu true).peers = 0 := hlen
    rw [changePublisher_empty hempty (encodes_locked.mpr henc)]
    apply not_passed _ fun hpasses => hpasses.2.1 hlen
    intro js' hres
    cases hres
  obtain ⟨pubId, -, -, -, hhanded, hchange⟩ := changePublisher_locked hwf hlen henc
  rw [hchange, ok_bind]
  dsimp only
  rw [if_pos rfl, JoinSession.unlock_withMu _ (mu_passedOn.trans hmu)]
  exact ⟨iff_of_true ⟨_, rfl, hhanded⟩ ⟨hmu, hlen, henc⟩, fun _ => rfl⟩

end Ways

/-! ### The hand-over -/

section Told
variable {pkgs : Packages} {ch : Choices} {js : JoinSession}

/-- A failure that passes leaves nobody, or the transaction can be encoded. -/
theorem Failure.Passes.encodes {failure : Failure} (h : failure.Passes pkgs ch js) :
    GoMap.len (js.removePeer js.publisher).peers = 0 ∨ (js.joinedTx.bind pkgs.btcEncode).isSome = true := by
  cases failure with
  | timeout => exact h.2.imp id fun hpasses => hpasses.1.1
  | readError => exact h.2.imp id fun hpasses => hpasses.1
  | writeError => exact .inr h.2.2.1

/-- When the turn has passed, only the next publisher is sent something. -/
theorem sentTo_passedOn (hwf : WellFormed js) (hlen : GoMap.len (js.removePeer js.publisher).peers ≠ 0)
    (hencodes : (js.joinedTx.bind pkgs.btcEncode).isSome = true) :
    ∃ pubId publisher, (js.removePeer js.publisher).randomPublisher ch = .ok pubId ∧
      (js.removePeer js.publisher).peers.lookup pubId = some publisher ∧
      sentTo js (js.passedOn pkgs ch) = [publisher.conn] := by
  obtain ⟨tx, htx⟩ := Option.isSome_iff_exists.mp hencodes
  have hkeyed := (hwf.kept ((Kept.refl js).removePeer js.publisher)).keyed
  obtain ⟨pubId, publisher, hrandom, hp⟩ := @randomPublisher_member ch _ hkeyed hlen
  refine ⟨pubId, publisher, hrandom, hp, ?_⟩
  rw [passedOn_eq htx hrandom hp]
  exact ((SendsTo.of_mute (((Sends.refl js).removePeer (fun _ => rfl) _))).trans
    (sendsTo_delegated _ (List.Subperm.refl _) hp tx _).1).sentTo_eq

/-- Everybody who is sent something when the turn passes can receive it just when the
next publisher can. -/
theorem serves_passedOn_iff {w : Wired} (hwf : WellFormed w.system.session) {failure : Failure}
    (hpasses : failure.Passes pkgs ch w.system.session) :
    ((sentTo w.system.session (w.system.session.passedOn pkgs ch)).all fun conn => w.writers conn = .serving) = true ↔
      w.NextServes ch := by
  by_cases hlen : GoMap.len (w.system.session.removePeer w.system.session.publisher).peers = 0
  · refine iff_of_true ?_ ?_
    · rw [passedOn_empty hlen, (SendsTo.of_mute ((Sends.refl _).removePeer (fun _ => rfl) _)).sentTo_eq]
      rfl
    · intro pubId publisher hrandom
      rw [randomPublisher_empty hlen] at hrandom
      cases hrandom
  · obtain ⟨pubId, publisher, hrandom, hp, hsent⟩ := sentTo_passedOn hwf hlen (hpasses.encodes.resolve_left hlen)
    rw [hsent]
    constructor
    · intro hserves pubId' publisher' hrandom' hp'
      cases hrandom.symm.trans hrandom'
      cases hp.symm.trans hp'
      simpa using hserves
    · intro hnext
      simpa using hnext pubId publisher hrandom hp

theorem Failure.handled_eq_some {w : Wired} {peer : PeerInfo} {failure : Failure} {js' : JoinSession} :
    failure.handled pkgs ch w peer = some js' ↔ failure.handler pkgs ch peer w.system.session = .ok js' ∧
      ((sentTo w.system.session js').all fun conn => w.writers conn = .serving) = true := by
  rw [Failure.handled, Option.filter_eq_some_iff]
  cases failure.handler pkgs ch peer w.system.session with
  | error fault => exact iff_of_false (fun h => by cases h.1) fun h => by cases h.1
  | ok js => simp [Except.toOption]

end Told

/-- **The publisher is handed over exactly when** its failure is noticed in one of the
`Passes` and the next one's writer serves; the three ways then lead to one state. -/
theorem publisher_handed_over {pkgs : Packages} (ch : Choices) {w : Wired}
    (hw : Wired.ReachableBy pkgs (fun _ _ _ => True) w) (hstate : w.system.session.state = .txPublish) {peer : PeerInfo}
    (hp : w.system.session.peers.lookup w.system.session.publisher = some peer) (failure : Failure) :
    ((∃ js', failure.handled pkgs ch w peer = some js' ∧ HandedOver pkgs w.system.session js') ↔
        failure.Passes pkgs ch w.system.session ∧ w.NextServes ch) ∧
      (failure.Passes pkgs ch w.system.session ∧ w.NextServes ch →
        failure.handled pkgs ch w peer = some (w.system.session.passedOn pkgs ch)) := by
  have hwf := hw.reachable.wellFormed
  obtain ⟨hiff, hpassedOn⟩ :
      ((∃ js', failure.handler pkgs ch peer w.system.session = .ok js' ∧ HandedOver pkgs w.system.session js') ↔
          failure.Passes pkgs ch w.system.session) ∧
        (failure.Passes pkgs ch w.system.session →
          failure.handler pkgs ch peer w.system.session = .ok (w.system.session.passedOn pkgs ch)) := by
    cases failure with
    | timeout => exact timeout_hands_over hwf hstate hp
    | readError => exact readError_hands_over hwf hstate hp
    | writeError => exact writeError_hands_over hwf hstate hp
  have hhandled : failure.Passes pkgs ch w.system.session ∧ w.NextServes ch →
      failure.handled pkgs ch w peer = some (w.system.session.passedOn pkgs ch) := by
    rintro ⟨hpasses, hnext⟩
    exact Failure.handled_eq_some.mpr ⟨hpassedOn hpasses, (serves_passedOn_iff hwf hpasses).mpr hnext⟩
  refine ⟨⟨?_, ?_⟩, hhandled⟩
  · rintro ⟨js', hres, hhanded⟩
    obtain ⟨hok, hserves⟩ := Failure.handled_eq_some.mp hres
    have hpasses := hiff.mp ⟨js', hok, hhanded⟩
    obtain rfl := Except.ok.inj (hok.symm.trans (hpassedOn hpasses))
    exact ⟨hpasses, (serves_passedOn_iff hwf hpasses).mp hserves⟩
  · rintro ⟨hpasses, hnext⟩
    obtain ⟨js', hok, hhanded⟩ := hiff.mpr hpasses
    obtain rfl := Except.ok.inj (hok.symm.trans (hpassedOn hpasses))
    exact ⟨_, hhandled ⟨hpasses, hnext⟩, hhanded⟩

/-! A session of two wallets that comes to `TxPublish`. -/

def signedWallets : MsgTx :=
  ⟨0, 1, [⟨⟨[], 2, 0⟩, 0, 10, 0, 0, [7]⟩, ⟨⟨[], 1, 0⟩, 0, 10, 0, 0, [7]⟩], [newTxOut 3 [1]], 0, 0⟩

def walletPackages : Packages :=
  referencePackages twoRoots (fun _ => some [9]) fun bytes =>
    if bytes = [1] then some (walletTx 1) else if bytes = [2] then some (walletTx 2) else some signedWallets

def smallScripts (entries : Bytes) : DcVector :=
  ⟨0, entries.length, entries.flatMap fun entry => List.replicate 24 0 ++ [entry], []⟩

/-- One message, from the connection to the end of the case. -/
def turn (conn : ℕ) (msg : ClientMessage) : List (Choices × Event) :=
  [(plainChoices id, .read conn (.message msg)), (plainChoices id, .deliver conn), (plainChoices id, .rest)]

def walletRun : List (Choices × Event) :=
  turn 1 (.keyExchange ⟨0, [5], 1⟩) ++ turn 2 (.keyExchange ⟨0, [6], 1⟩) ++
    turn 1 (.dcExpVector (smallVector [10, 100])) ++ turn 2 (.dcExpVector (smallVector [4, 16])) ++
    turn 1 (.dcXorVector (smallScripts [8, 0])) ++ turn 2 (.dcXorVector (smallScripts [0, 9])) ++
    turn 1 (.txInputs ⟨0, [1], 5⟩) ++ turn 2 (.txInputs ⟨0, [2], 5⟩) ++
    turn 1 (.txSigned ⟨0, [3]⟩) ++ turn 2 (.txSigned ⟨0, [3]⟩)

/-- Where the session of the wallets is after the run. -/
def publishes (w : Wired) : Bool :=
  w.system.session.state = .txPublish ∧ w.system.session.publisher = 2 ∧ w.system.session.mu = false ∧
    w.system.session.peers.keys = [2, 1] ∧ w.system.session.joinedTx = some signedWallets ∧
    (GoMap.toList w.system.session.peers).all fun e => w.writers e.2.conn = .serving

theorem wiredStart (pkgs : Packages) : Wired.ReachableBy pkgs (fun _ _ _ => True)
    (.start (newJoinSession 7 60 false (queuePeers [(1, 1), (2, 2)])) fun _ => false) :=
  .start 7 60 false [(1, 1), (2, 2)] (by decide) (by decide) fun _ => false

/-- The reader of the publisher fails, and the other wallet becomes publisher. -/
theorem publisher_handed_over_read : ∃ w, Wired.ReachableBy walletPackages (fun _ _ _ => True) w ∧ ∃ peer,
    w.system.session.peers.lookup w.system.session.publisher = some peer ∧ ∃ js',
      Failure.readError.handled walletPackages (plainChoices id) w peer = some js' ∧
        HandedOver walletPackages w.system.session js' := by
  obtain ⟨w, hw, hpublishes⟩ := (wiredStart walletPackages).of_any
    (l := walletRun.map fun e => (e.1, .event e.2)) (p := publishes) (by decide +kernel)
  simp only [publishes, Bool.decide_and, Bool.and_eq_true, decide_eq_true_eq] at hpublishes
  obtain ⟨hstate, hpub, hmu, hkeys, hjoined, hserving⟩ := hpublishes
  obtain ⟨peer, hp⟩ : ∃ peer, w.system.session.peers.lookup w.system.session.publisher = some peer := by
    apply GoMap.lookup_of_mem_keys
    rw [hkeys, hpub]
    decide
  have hnext : w.NextServes (plainChoices id) := by
    intro pubId publisher _ hlookup
    rw [lookup_removePeer] at hlookup
    split_ifs at hlookup
    simpa using List.all_eq_true.mp hserving (pubId, publisher) (GoMap.mem_toList.mpr hlookup)
  refine ⟨w, hw, peer, hp, (publisher_handed_over (plainChoices id) hw hstate hp .readError).1.mpr
    ⟨⟨hmu, .inr ⟨?_, rfl⟩⟩, hnext⟩⟩
  rw [hjoined]
  rfl

/-- Nobody is left after the timeout, with one wallet left after the publisher's removal. -/
def losesBoth (w : Wired) : Bool :=
  w.system.session.state = .txPublish ∧ (w.system.session.peers.lookup w.system.session.publisher).isSome = true ∧
    GoMap.len (w.system.session.removePeer w.system.session.publisher).peers = 1 ∧
    (Failure.timeout.handled walletPackages (plainChoices id) w (newPeer 0 0)).all fun js' => GoMap.len js'.peers = 0

/-- **The next publisher leaves too**: the timeout takes out the publisher, chooses the
other wallet, comes to it and finds nobody left. -/
theorem timeout_hands_over_twice : ∃ w, Wired.ReachableBy walletPackages (fun _ _ _ => True) w ∧
    w.system.session.state = .txPublish ∧ ∃ peer,
      w.system.session.peers.lookup w.system.session.publisher = some peer ∧
        ¬∃ js', Failure.timeout.handled walletPackages (plainChoices id) w peer = some js' ∧
          HandedOver walletPackages w.system.session js' := by
  obtain ⟨w, hw, hloses⟩ := (wiredStart walletPackages).of_any
    (l := walletRun.map fun e => (e.1, .event e.2)) (p := losesBoth) (by decide +kernel)
  simp only [losesBoth, Bool.decide_and, Bool.and_eq_true, decide_eq_true_eq] at hloses
  obtain ⟨hstate, hmember, hone, hnobody⟩ := hloses
  obtain ⟨peer, hp⟩ := Option.isSome_iff_exists.mp hmember
  refine ⟨w, hw, hstate, peer, hp, fun h => ?_⟩
  obtain ⟨js', hres, hhanded⟩ := h
  have hleft : GoMap.len js'.peers = 0 := by
    rw [show Failure.timeout.handled walletPackages (plainChoices id) w (newPeer 0 0) = some js' from hres] at hnobody
    simpa using hnobody
  rw [hhanded.peers_eq (by omega), hone] at hleft
  cases hleft

end Dcrtxmatcher.Coinjoin
