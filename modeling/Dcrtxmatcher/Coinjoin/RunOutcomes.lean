import Dcrtxmatcher.Coinjoin.TxOutcomes

/-! What the other steps of a session can do: restarts, the timeout, the readers and
the writers. -/
namespace Dcrtxmatcher.Coinjoin
open Lib

/-! ### Restarts -/

namespace JoinSession

/-- The session without the peers and, unless nobody is left, restarted. -/
def expelled (ch : Choices) (missedPeers : List ℕ) (js : JoinSession) : JoinSession :=
  if GoMap.len (js.removePeers missedPeers).peers = 0 then js.removePeers missedPeers
  else (js.removePeers missedPeers).restart ch missedPeers

@[simp] theorem mu_expelled (ch : Choices) (missedPeers : List ℕ) (js : JoinSession) :
    (js.expelled ch missedPeers).mu = js.mu := by
  rw [expelled]
  split
  · exact mu_removePeers ..
  · exact mu_removePeers ..

theorem pushMaliciousInfo_eq (ch : Choices) (missedPeers : List ℕ) {js : JoinSession} (hmu : js.mu = false) :
    js.pushMaliciousInfo ch missedPeers = .ok (js.expelled ch missedPeers) := by
  have hfree := (mu_expelled ch missedPeers js).trans hmu
  rw [pushMaliciousInfo, js.lock_eq hmu, ok_bind, removePeers_withMu]
  change (if GoMap.len (js.removePeers missedPeers).peers = 0 then ((js.removePeers missedPeers).withMu true).unlock
    else (((js.removePeers missedPeers).restart ch missedPeers).withMu true).unlock) = _
  rw [expelled] at hfree ⊢
  split_ifs at hfree ⊢
  · exact congrArg Except.ok (withMu_self _ _ hfree)
  · exact congrArg Except.ok (withMu_self _ _ hfree)

/-- `pushMaliciousInfo` with the mutex held waits for itself. -/
theorem pushMaliciousInfo_held (ch : Choices) (missedPeers : List ℕ) {js : JoinSession} (hmu : js.mu = true) :
    js.pushMaliciousInfo ch missedPeers = .error .selfDeadlock := by
  rw [pushMaliciousInfo, lock, if_pos hmu]
  rfl

end JoinSession

/-! ### The timeout -/

/-- The loop over the peers in `TxPublish`. -/
inductive Republishing (pkgs : Packages) (ch : Choices) : JoinSession → Bool → JoinSession → Prop
  | done (js : JoinSession) : Republishing pkgs ch js true js
  | emptied {js : JoinSession} (hempty : GoMap.len (js.removePeer js.publisher).peers = 0) :
      Republishing pkgs ch js false (js.removePeer js.publisher)
  | failed {js : JoinSession} : Republishing pkgs ch js false ((js.removePeer js.publisher).terminate ch)
  | changed {js js' : JoinSession} {b : Bool} {joinedTx : MsgTx} {tx : Bytes} {pubId : ℕ} {publisher : PeerInfo}
      (hjoined : (js.removePeer js.publisher).joinedTx = some joinedTx) (hencode : pkgs.btcEncode joinedTx = some tx)
      (hp : (js.removePeer js.publisher).peers.lookup pubId = some publisher)
      (h : Republishing pkgs ch
        ((js.removePeer js.publisher).delegated pubId publisher tx (js.removePeer js.publisher).roundTimeOut) b js') :
      Republishing pkgs ch js b js'

theorem changePublishers_outcome (pkgs : Packages) (ch : Choices) (visited : List (ℕ × PeerInfo)) (js : JoinSession) :
    changePublishers pkgs ch visited js = .error .panic ∨
      ∃ b js', changePublishers pkgs ch visited js = .ok (b, js') ∧ Republishing pkgs ch js b js' := by
  induction visited generalizing js with
  | nil => exact .inr ⟨true, js, rfl, .done js⟩
  | cons e visited ih =>
    obtain ⟨pid, peer⟩ := e
    rw [changePublishers]
    by_cases hpub : js.publisher = peer.id
    swap
    · rw [if_neg hpub]
      exact ih js
    rw [if_pos hpub, ← hpub]
    dsimp only
    by_cases hempty : GoMap.len (js.removePeer js.publisher).peers = 0
    · rw [if_pos hempty]
      exact .inr ⟨false, _, rfl, .emptied hempty⟩
    · rw [if_neg hempty]
      have hchange := JoinSession.changePublisher_outcome pkgs ch [284, js.publisher] (js.removePeer js.publisher)
      generalize JoinSession.changePublisher pkgs ch [284, js.publisher] _ = r at hchange ⊢
      cases hchange with
      | panic _ => exact .inl rfl
      | failed _ _ => exact .inr ⟨false, _, rfl, .failed⟩
      | changed hjoined hencode _ hp =>
        rcases ih ((js.removePeer js.publisher).delegated _ _ _ _) with hpanic | ⟨b, js', hrest, hrep⟩
        · exact .inl hpanic
        · exact .inr ⟨b, js', hrest, .changed hjoined hencode hp hrep⟩

namespace Republishing
variable {pkgs : Packages} {ch : Choices} {js js' : JoinSession} {b : Bool}

theorem mu (h : Republishing pkgs ch js b js') : js'.mu = js.mu := by
  induction h with
  | done => rfl
  | emptied => exact JoinSession.mu_removePeer ..
  | failed => exact JoinSession.mu_removePeer ..
  | changed _ _ _ _ ih => exact ih.trans (JoinSession.mu_removePeer ..)

theorem state (h : Republishing pkgs ch js b js') : js'.state = js.state := by
  induction h with
  | done => rfl
  | emptied => exact JoinSession.state_removePeer ..
  | failed => exact JoinSession.state_removePeer ..
  | changed _ _ _ _ ih => exact ih.trans (JoinSession.state_removePeer ..)

theorem missedPeers (h : Republishing pkgs ch js b js') : js'.missedPeers = js.missedPeers := by
  induction h with
  | done => rfl
  | emptied => exact JoinSession.missedPeers_removePeer ..
  | failed => exact JoinSession.missedPeers_removePeer ..
  | changed _ _ _ _ ih => exact ih.trans (JoinSession.missedPeers_removePeer ..)

end Republishing

/-- The session with the peers that are late added to the list. -/
def JoinSession.timedOut (ch : Choices) (js : JoinSession) : JoinSession :=
  { js with
    missedPeers := js.missedPeers ++
      ((GoMap.range ch.order [229] js.peers).filter fun e => missing js.state e.2).map fun e => e.2.id }

/-- The end of the timeout, with the list at hand. -/
inductive InformOutcome (js : JoinSession) : Handled → Prop
  | nobody (hmissed : js.missedPeers = []) : InformOutcome js (.ok (.next, js))
  | dropped (hmissed : js.missedPeers ≠ []) (hstate : js.state = .keyExchange) :
      InformOutcome js (.ok (.next, js.removePeers js.missedPeers))
  | deadlock (hmissed : js.missedPeers ≠ []) (hstate : js.state ≠ .keyExchange) :
      InformOutcome js (.error .selfDeadlock)

theorem informMissed_outcome (ch : Choices) (js : JoinSession) (hmu : js.mu = false) :
    InformOutcome js (informMissed ch (js.withMu true)) := by
  rw [informMissed]
  change InformOutcome js (if js.missedPeers = [] then (js.withMu true).unlockAnd .next
    else if js.state = .keyExchange then ((js.withMu true).removePeers js.missedPeers).unlockAnd .next
    else do
      let js ← (js.withMu true).pushMaliciousInfo ch js.missedPeers
      JoinSession.unlockAnd .next { js with state := .keyExchange })
  split_ifs with hmissed hstate
  · exact JoinSession.of_unlockAnd _ hmu (.nobody hmissed)
  · rw [JoinSession.removePeers_withMu]
    exact JoinSession.of_unlockAnd _ (by simpa) (.dropped hmissed hstate)
  · rw [JoinSession.pushMaliciousInfo_held ch _ (JoinSession.mu_withMu js true)]
    exact .deadlock hmissed hstate

inductive TimeoutOutcome (pkgs : Packages) (ch : Choices) (js : JoinSession) : Handled → Prop
  | panic (hstate : js.state = .txPublish)
      (hchange : changePublishers pkgs ch (GoMap.range ch.order [229] js.peers) ((js.timedOut ch).withMu true) =
        .error .panic) : TimeoutOutcome pkgs ch js (.error .panic)
  | returned {js' : JoinSession} (hstate : js.state = .txPublish)
      (hchange : changePublishers pkgs ch (GoMap.range ch.order [229] js.peers) ((js.timedOut ch).withMu true) =
        .ok (false, js'))
      (h : Republishing pkgs ch ((js.timedOut ch).withMu true) false js') :
      TimeoutOutcome pkgs ch js (.ok (⟨none, .ret⟩, js'.withMu false))
  | republished {js' : JoinSession} (hstate : js.state = .txPublish)
      (hchange : changePublishers pkgs ch (GoMap.range ch.order [229] js.peers) ((js.timedOut ch).withMu true) =
        .ok (true, js'))
      (h : Republishing pkgs ch ((js.timedOut ch).withMu true) true js') {r : Handled}
      (hr : InformOutcome (js'.withMu false) r) : TimeoutOutcome pkgs ch js r
  | informed (hstate : js.state ≠ .txPublish) {r : Handled} (hr : InformOutcome (js.timedOut ch) r) :
      TimeoutOutcome pkgs ch js r

theorem timeout_outcome (pkgs : Packages) (ch : Choices) {js : JoinSession} (hmu : js.mu = false) :
    TimeoutOutcome pkgs ch js (timeout pkgs ch js) := by
  rw [timeout, js.lock_eq hmu, ok_bind]
  change TimeoutOutcome pkgs ch js (if js.state = .txPublish then
      changePublishers pkgs ch (GoMap.range ch.order [229] js.peers) ((js.timedOut ch).withMu true) >>= fun r =>
        if r.1 then informMissed ch r.2 else r.2.unlockAnd ⟨none, .ret⟩
    else informMissed ch ((js.timedOut ch).withMu true))
  by_cases hstate : js.state = .txPublish
  · rw [if_pos hstate]
    rcases changePublishers_outcome pkgs ch (GoMap.range ch.order [229] js.peers) ((js.timedOut ch).withMu true) with
      hpanic | ⟨b, js', hchange, hrep⟩
    · rw [hpanic]
      exact .panic hstate hpanic
    have hheld : js'.withMu true = js' := js'.withMu_self _ hrep.mu
    rw [hchange, ok_bind]
    cases b with
    | false =>
      refine (congrArg (TimeoutOutcome pkgs ch js) (congrArg (JoinSession.unlockAnd _) hheld)).mp ?_
      exact JoinSession.of_unlockAnd (js'.withMu false) rfl (.returned hstate hchange hrep)
    | true =>
      have hinform := informMissed_outcome ch (js'.withMu false) rfl
      rw [JoinSession.withMu_withMu, hheld] at hinform
      exact .republished hstate hchange hrep hinform
  · rw [if_neg hstate]
    exact .informed hstate (informMissed_outcome ch _ hmu)

/-! ### The select -/

/-- The ends of the cases with a message. -/
def HandleOutcome (pkgs : Packages) (ch : Choices) (js : JoinSession) : ClientMessage → Handled → Prop
  | .keyExchange req => KeyExchangeOutcome pkgs ch req js
  | .dcExpVector data => DcExpOutcome pkgs ch data js
  | .dcXorVector data => DcXorOutcome pkgs ch data js
  | .txInputs txins => TxInputsOutcome pkgs ch txins js
  | .txSigned signedTx => TxSignedOutcome pkgs ch signedTx js
  | .txPublishResult pubResult => (· = .ok (⟨none, .breakLoop⟩, resultSent ch pubResult.tx js))
  | .revealSecret rvSecret => RevealOutcome pkgs ch rvSecret js
  | .msgNotFound data => MsgNotFoundOutcome ch data js

theorem handle_outcome (pkgs : Packages) (ch : Choices) (msg : ClientMessage) {js : JoinSession} (hmu : js.mu = false) :
    HandleOutcome pkgs ch js msg (handle pkgs ch js msg) := by
  cases msg with
  | keyExchange req => exact keyExchange_outcome pkgs ch req hmu
  | dcExpVector data => exact dcExpVector_outcome pkgs ch data hmu
  | dcXorVector data => exact dcXorVector_outcome pkgs ch data hmu
  | txInputs txins => exact txInputs_outcome pkgs ch txins hmu
  | txSigned signedTx => exact txSigned_outcome pkgs ch signedTx hmu
  | txPublishResult pubResult => exact txPublishResult_eq ch pubResult hmu
  | revealSecret rvSecret => exact revealSecret_outcome pkgs ch rvSecret hmu
  | msgNotFound data => exact msgNotFound_outcome ch data hmu

/-- The id the sender of a message has. -/
def ClientMessage.peerId : ClientMessage → ℕ
  | .keyExchange req => req.peerId
  | .dcExpVector data => data.peerId
  | .dcXorVector data => data.peerId
  | .txInputs txins => txins.peerId
  | .txSigned signedTx => signedTx.peerId
  | .txPublishResult pubResult => pubResult.peerId
  | .revealSecret rvSecret => rvSecret.peerId
  | .msgNotFound data => data.peerId

/-! ### Readers and writers -/

/-- Rounds in which a lost connection restarts the session. -/
def SessionState.restarts : SessionState → Bool
  | .dcExponential | .dcXor | .txInput | .txSign => true
  | _ => false

/-- The ends of a reader. -/
inductive ReadErrorOutcome (pkgs : Packages) (ch : Choices) (peer : PeerInfo) (js : JoinSession) :
    Except Fault JoinSession → Prop
  | left (hstate : js.state = .keyExchange) : ReadErrorOutcome pkgs ch peer js (.ok (js.removePeer peer.id))
  | deadlock (hstate : js.state.restarts = true) (hp : peer.id ∈ js.peers.keys) :
      ReadErrorOutcome pkgs ch peer js (.error .selfDeadlock)
  | kept (hstate : js.state ≠ .keyExchange) (hstranger : js.state.restarts = true → peer.id ∉ js.peers.keys) :
      ReadErrorOutcome pkgs ch peer js (.ok js)
  | emptied (hstate : js.state = .txPublish) (hpub : peer.id ∈ js.peers.keys ∧ js.publisher = peer.id)
      (hempty : GoMap.len (js.removePeer peer.id).peers = 0) : ReadErrorOutcome pkgs ch peer js (.ok (js.removePeer peer.id))
  | panic (hstate : js.state = .txPublish) : ReadErrorOutcome pkgs ch peer js (.error .panic)
  | changed (hstate : js.state = .txPublish) (hpub : peer.id ∈ js.peers.keys ∧ js.publisher = peer.id) {b : Bool}
      {js' : JoinSession}
      (h : JoinSession.ChangeOutcome pkgs ch [448] ((js.removePeer peer.id).withMu true) (.ok (b, js'))) :
      ReadErrorOutcome pkgs ch peer js (.ok (js'.withMu false))

theorem JoinSession.ChangeOutcome.mu {pkgs : Packages} {ch : Choices} {site : List ℕ} {js js' : JoinSession} {b : Bool}
    (h : JoinSession.ChangeOutcome pkgs ch site js (.ok (b, js'))) : js'.mu = js.mu := by
  cases h <;> rfl

/-- Unlocking a session on which something has been done since it was locked. -/
theorem JoinSession.unlock_withMu (js : JoinSession) (hmu : js.mu = false) : (js.withMu true).unlock = .ok js :=
  congrArg Except.ok (js.withMu_self _ hmu)

theorem readError_outcome (pkgs : Packages) (ch : Choices) (peer : PeerInfo) {js : JoinSession} (hmu : js.mu = false) :
    ReadErrorOutcome pkgs ch peer js (readError pkgs ch peer js) := by
  have hleft : ((js.removePeer peer.id).withMu true).unlock = .ok (js.removePeer peer.id) :=
    JoinSession.unlock_withMu _ ((js.mu_removePeer _).trans hmu)
  have hround : js.state.restarts = true → ReadErrorOutcome pkgs ch peer js
      (if peer.id ∈ js.peers.keys then (js.withMu true).pushMaliciousInfo ch [peer.id] >>= fun js =>
        JoinSession.unlock { js with state := .keyExchange } else (js.withMu true).unlock) := by
    intro hstate
    split_ifs with hp
    · rw [JoinSession.pushMaliciousInfo_held ch _ (js.mu_withMu true)]
      exact .deadlock hstate hp
    · rw [JoinSession.unlock_withMu _ hmu]
      exact .kept (fun h => by rw [h] at hstate; cases hstate) fun _ => hp
  rw [readError, js.lock_eq hmu, ok_bind, JoinSession.state_withMu]
  cases hstate : js.state with
  | keyExchange =>
    dsimp only
    rw [JoinSession.removePeer_withMu, hleft]
    exact .left hstate
  | dcExponential => exact hround (by rw [hstate]; rfl)
  | dcXor => exact hround (by rw [hstate]; rfl)
  | txInput => exact hround (by rw [hstate]; rfl)
  | txSign => exact hround (by rw [hstate]; rfl)
  | completed =>
    dsimp only
    rw [JoinSession.unlock_withMu _ hmu]
    exact .kept (by rw [hstate]; decide) (by rw [hstate]; exact fun h => by cases h)
  | revealSecret =>
    dsimp only
    rw [JoinSession.unlock_withMu _ hmu]
    exact .kept (by rw [hstate]; decide) (by rw [hstate]; exact fun h => by cases h)
  | txPublish =>
    change ReadErrorOutcome pkgs ch peer js (if peer.id ∈ js.peers.keys ∧ js.publisher = peer.id then
      if GoMap.len ((js.withMu true).removePeer peer.id).peers = 0 then ((js.withMu true).removePeer peer.id).unlock
      else ((js.withMu true).removePeer peer.id).changePublisher pkgs ch [448] >>= fun r => r.2.unlock
    else (js.withMu true).unlock)
    rw [JoinSession.removePeer_withMu, hleft, JoinSession.unlock_withMu _ hmu]
    split_ifs with hpub hempty
    · exact .emptied hstate hpub hempty
    · have hchange := JoinSession.changePublisher_outcome pkgs ch [448] ((js.removePeer peer.id).withMu true)
      rcases hr : JoinSession.changePublisher pkgs ch [448] ((js.removePeer peer.id).withMu true) with e | ⟨b, js'⟩
      · rw [hr] at hchange
        cases hchange
        exact .panic hstate
      · rw [hr] at hchange
        have hheld : js'.unlock = .ok (js'.withMu false) := JoinSession.unlock_of_held hchange.mu
        rw [ok_bind]
        refine (congrArg (ReadErrorOutcome pkgs ch peer js) hheld).mpr (.changed hstate hpub hchange)
    · exact .kept (by rw [hstate]; decide) (by rw [hstate]; exact fun h => by cases h)

/-- The ends of a writer; one keeps the mutex. -/
inductive WriteErrorOutcome (pkgs : Packages) (ch : Choices) (peer : PeerInfo) (js : JoinSession) :
    Except Fault JoinSession → Prop
  | left (hstate : js.state = .keyExchange) : WriteErrorOutcome pkgs ch peer js (.ok (js.removePeer peer.id))
  | deadlock (hstate : js.state.restarts = true) : WriteErrorOutcome pkgs ch peer js (.error .selfDeadlock)
  | kept (hstate : js.state ≠ .keyExchange) (hround : js.state.restarts = false)
      (hpub : js.state = .txPublish → js.publisher ≠ peer.id) : WriteErrorOutcome pkgs ch peer js (.ok js)
  | panic (hstate : js.state = .txPublish)
      (h : JoinSession.ChangeOutcome pkgs ch [354] ((js.removePeer peer.id).withMu true) (.error .panic)) :
      WriteErrorOutcome pkgs ch peer js (.error .panic)
  | changed (hstate : js.state = .txPublish) (hpub : js.publisher = peer.id) {js' : JoinSession}
      (h : JoinSession.ChangeOutcome pkgs ch [354] ((js.removePeer peer.id).withMu true) (.ok (true, js'))) :
      WriteErrorOutcome pkgs ch peer js (.ok (js'.withMu false))
  | locked (hstate : js.state = .txPublish) (hpub : js.publisher = peer.id) {js' : JoinSession}
      (h : JoinSession.ChangeOutcome pkgs ch [354] ((js.removePeer peer.id).withMu true) (.ok (false, js'))) :
      WriteErrorOutcome pkgs ch peer js (.ok js')

theorem writeError_outcome (pkgs : Packages) (ch : Choices) (peer : PeerInfo) {js : JoinSession} (hmu : js.mu = false) :
    WriteErrorOutcome pkgs ch peer js (writeError pkgs ch peer js) := by
  have hround : js.state.restarts = true → WriteErrorOutcome pkgs ch peer js
      ((js.withMu true).pushMaliciousInfo ch [peer.id] >>= fun js => JoinSession.unlock { js with state := .keyExchange }) := by
    intro hstate
    rw [JoinSession.pushMaliciousInfo_held ch _ (js.mu_withMu true)]
    exact .deadlock hstate
  rw [writeError, js.lock_eq hmu, ok_bind, JoinSession.state_withMu]
  cases hstate : js.state with
  | keyExchange =>
    dsimp only
    rw [JoinSession.removePeer_withMu, JoinSession.unlock_withMu _ ((js.mu_removePeer _).trans hmu)]
    exact .left hstate
  | dcExponential => exact hround (by rw [hstate]; rfl)
  | dcXor => exact hround (by rw [hstate]; rfl)
  | txInput => exact hround (by rw [hstate]; rfl)
  | txSign => exact hround (by rw [hstate]; rfl)
  | completed =>
    dsimp only
    rw [JoinSession.unlock_withMu _ hmu]
    exact .kept (by rw [hstate]; decide) (by rw [hstate]; rfl) (by rw [hstate]; exact fun h => by cases h)
  | revealSecret =>
    dsimp only
    rw [JoinSession.unlock_withMu _ hmu]
    exact .kept (by rw [hstate]; decide) (by rw [hstate]; rfl) (by rw [hstate]; exact fun h => by cases h)
  | txPublish =>
    change WriteErrorOutcome pkgs ch peer js (if js.publisher = peer.id then
      ((js.withMu true).removePeer peer.id).changePublisher pkgs ch [354] >>= fun r => if r.1 then r.2.unlock else .ok r.2
    else (js.withMu true).unlock)
    rw [JoinSession.removePeer_withMu, JoinSession.unlock_withMu _ hmu]
    by_cases hpub : js.publisher = peer.id
    · rw [if_pos hpub]
      have hchange := JoinSession.changePublisher_outcome pkgs ch [354] ((js.removePeer peer.id).withMu true)
      rcases hr : JoinSession.changePublisher pkgs ch [354] ((js.removePeer peer.id).withMu true) with e | ⟨b, js'⟩
      · rw [hr] at hchange
        have hpanic := hchange
        cases hchange
        exact .panic hstate hpanic
      · rw [hr] at hchange
        have hheld : js'.unlock = .ok (js'.withMu false) := JoinSession.unlock_of_held hchange.mu
        rw [ok_bind]
        cases b with
        | true => exact (congrArg (WriteErrorOutcome pkgs ch peer js) hheld).mpr (.changed hstate hpub hchange)
        | false => exact .locked hstate hpub hchange
    · rw [if_neg hpub]
      exact .kept (by rw [hstate]; decide) (by rw [hstate]; rfl) fun _ => hpub

/-- The type of a message, when the reader has a case for it. -/
def RawMessage.kind : RawMessage → Option Kind
  | .malformed kind => some kind
  | .message msg => some msg.kind
  | .ignored | .unknown => none

/-- The turns of a reader; two keep the mutex. -/
inductive ReadOutcome (peer : PeerInfo) (js : JoinSession) : RawMessage → Except Fault (ReaderPc × JoinSession) → Prop
  | ignored : ReadOutcome peer js .ignored (.ok (.reading, js))
  | unknown : ReadOutcome peer js .unknown (.ok (.reading, js.withMu true))
  | refused {raw : RawMessage} {kind : Kind} (hraw : raw.kind = some kind) (h : admission kind peer.id js = .refused) :
      ReadOutcome peer js raw (.ok (.reading, js))
  | locked {raw : RawMessage} (hraw : raw.kind = some .msgNotFound)
      (h : admission .msgNotFound peer.id js = .refusedLocked) : ReadOutcome peer js raw (.ok (.reading, js.withMu true))
  | malformed {kind : Kind} (h : admission kind peer.id js = .accepted) : ReadOutcome peer js (.malformed kind)
      (.ok (if kind = .keyExchange then .removing peer.id else .pushing peer.id, js))
  | admitted {msg : ClientMessage} (h : admission msg.kind peer.id js = .accepted) : ReadOutcome peer js (.message msg)
      (.ok (.sending js.id js.state (msg.withPeerId peer.id),
        if msg.kind = .msgNotFound then { js with maliciousFinding := true } else js))

/-- Only a message that was not found can be refused with the mutex held. -/
theorem kind_of_refusedLocked {kind : Kind} {peerId : ℕ} {js : JoinSession}
    (h : admission kind peerId js = .refusedLocked) : kind = .msgNotFound := by
  rw [admission] at h
  split_ifs at h with _ _ hkind
  exact hkind.1

theorem readMessage_outcome (peer : PeerInfo) (raw : RawMessage) {js : JoinSession} (hmu : js.mu = false) :
    ReadOutcome peer js raw (readMessage peer raw js) := by
  have hadmission : ∀ kind, admission kind peer.id (js.withMu true) = admission kind peer.id js := fun _ => rfl
  cases raw with
  | ignored => exact .ignored
  | unknown =>
    rw [readMessage, js.lock_eq hmu]
    exact .unknown
  | malformed kind =>
    rw [readMessage, js.lock_eq hmu, ok_bind, hadmission]
    cases h : admission kind peer.id js with
    | refusedLocked =>
      obtain rfl := kind_of_refusedLocked h
      exact .locked rfl h
    | refused =>
      dsimp only
      rw [JoinSession.unlock_withMu _ hmu]
      exact .refused rfl h
    | accepted =>
      dsimp only
      rw [JoinSession.unlock_withMu _ hmu]
      exact .malformed h
  | message msg =>
    rw [readMessage, js.lock_eq hmu, ok_bind, hadmission]
    cases h : admission msg.kind peer.id js with
    | refusedLocked =>
      have hkind := kind_of_refusedLocked h
      exact .locked (congrArg some hkind) (hkind ▸ h)
    | refused =>
      dsimp only
      rw [JoinSession.unlock_withMu _ hmu]
      exact .refused rfl h
    | accepted =>
      have hresult := ReadOutcome.admitted h
      dsimp only
      split_ifs at hresult ⊢
      · change ReadOutcome peer js _ ((JoinSession.withMu { js with maliciousFinding := true } true).unlock >>= _)
        rw [JoinSession.unlock_withMu { js with maliciousFinding := true } hmu]
        exact hresult
      · rw [JoinSession.unlock_withMu _ hmu]
        exact hresult

end Dcrtxmatcher.Coinjoin
