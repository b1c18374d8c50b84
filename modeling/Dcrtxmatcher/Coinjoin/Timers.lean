import Dcrtxmatcher.Coinjoin.Pending

/-! The timer a round is watched with.

A timer fires once. The handlers that go on to a new round make a new one; a
restart, a request for secrets after a failed solution, and a timeout do not, and a
reader or writer that changes the publisher makes one the loop does not look at
while it waits for the old one. Everywhere else (`Punctual`) the loop waits for the
session's timer, which was made for the round and has not fired. -/
namespace Dcrtxmatcher.Coinjoin
open Lib

/-! ### When a round starts -/

/-- Whether the output opens a round or a publisher's turn: all that the server sends
does, but the result. -/
def Output.opens : Output → Bool
  | .send _ (.txPublishResult _) => false
  | .send _ _ => true
  | .close _ | .post _ => false

/-- The least number of a timer made no earlier than the round, or the turn of the
publisher, started: a step that opens one has made its last timer for it, or none. -/
def roundStart (since : ℕ) (js js' : JoinSession) : ℕ :=
  if (js'.out.drop js.out.length).any Output.opens then max (js.roundTimeout.seq + 1) js'.roundTimeout.seq else since

/-- The states a session can get to when every step meets a condition, with the start
of the round they are in. -/
inductive ReachableSince (pkgs : Packages) (meets : Choices → System → Event → Prop) : ℕ → System → Prop
  | start (sessionId roundTimeOut : ℕ) (serverPublish : Bool) (queue : List (ℕ × ℕ))
      (hconn : (queue.map Prod.fst).Nodup) (hid : (queue.map Prod.snd).Nodup) :
      ReachableSince pkgs meets 0 (.start (newJoinSession sessionId roundTimeOut serverPublish (queuePeers queue)))
  | step {since : ℕ} {s s' : System} {ch : Choices} {ev : Event} (hs : ReachableSince pkgs meets since s)
      (hmeets : meets ch s ev) (h : s.step pkgs ch ev = some s') :
      ReachableSince pkgs meets (roundStart since s.session s'.session) s'

/-- The next step of a run that is given event by event. -/
theorem ReachableSince.onward {pkgs : Packages} {meets : Choices → System → Event → Prop} {since : ℕ} {s s' : System}
    (hs : ReachableSince pkgs meets since s) (ch : Choices) (ev : Event) (hmeets : meets ch s ev)
    (h : s.step pkgs ch ev = some s') : ReachableSince pkgs meets (roundStart since s.session s'.session) s' :=
  hs.step hmeets h

theorem ReachableSince.reachable {pkgs : Packages} {meets : Choices → System → Event → Prop} {since : ℕ} {s : System}
    (hs : ReachableSince pkgs meets since s) : Reachable pkgs s := by
  induction hs with
  | start sessionId roundTimeOut serverPublish queue hconn hid =>
    exact .start sessionId roundTimeOut serverPublish queue hconn hid
  | step _ _ h ih => exact .step ih h

/-- The timer the loop waits for is of the round, and has not fired. -/
def TimerPending (since : ℕ) (s : System) : Prop :=
  ∀ timer, s.loop = .select timer → GoMap.len s.session.peers ≠ 0 → s.session.state ≠ .completed →
    since ≤ timer.seq ∧ timer.seq ∉ s.fired

/-! ### What leaves a round without a timer -/

/-- The publisher is taken out and another one can be asked. -/
def PassesTurn (pkgs : Packages) (ch : Choices) (site : List ℕ) (peer : PeerInfo) (js : JoinSession) : Prop :=
  js.state = .txPublish ∧ js.publisher = peer.id ∧ GoMap.len (js.removePeer peer.id).peers ≠ 0 ∧
    ∃ joinedTx tx, js.joinedTx = some joinedTx ∧ pkgs.btcEncode joinedTx = some tx ∧ ch.marshal site = true

/-- All members are among the peers. -/
def Clears (ps : List ℕ) (js : JoinSession) : Prop := ∀ p ∈ js.peers.keys, p ∈ ps

/-- A timeout finds the publisher it waited for, or nobody stays; the polynomial can
be solved; who is pushed out while the loop waits or is to wait is all there is; and
no reader or writer changes the publisher while the loop is at the select. -/
def Punctual (pkgs : Packages) (ch : Choices) (s : System) : Event → Prop
  | .timeout =>
    s.session.state = .txPublish ∧ s.session.publisher ∈ s.session.peers.keys ∨
      Clears (s.session.timedOut ch).missedPeers s.session
  | .deliver conn => ∀ data, s.handed (.deliver conn) = some (.dcExpVector data) → ¬Unsolved pkgs ch data s.session
  | .rest => ∀ ps, s.loop = .rest ⟨some ps, .next⟩ → Clears ps s.session
  | .push conn => ∀ peerId, s.readers conn = .pushing peerId → s.loop.waits = true → Clears [peerId] s.session
  | .readError conn => ∀ timer peer, s.loop = .select timer → s.session.peerOf conn = some peer →
      peer.id ∈ s.session.peers.keys → ¬PassesTurn pkgs ch [448] peer s.session
  | .writeError conn => ∀ timer peer, s.loop = .select timer → s.session.peerOf conn = some peer →
      ¬PassesTurn pkgs ch [354] peer s.session
  | .read _ _ | .remove _ => True

/-! ### What a step does to the timer -/

/-- The timer stays and nothing opens, or there is a later timer. -/
inductive Timing (js js' : JoinSession) : Prop
  | kept (htimer : js'.roundTimeout = js.roundTimeout) (hsends : Sends (fun o => !o.opens) js js')
  | renewed (hlt : js.roundTimeout.seq < js'.roundTimeout.seq)

namespace Timing
variable {js js' js'' : JoinSession}

theorem refl (js : JoinSession) : Timing js js := .kept rfl (.refl js)

/-- Nothing else of a session is about its timer. -/
theorem congr (h : Timing js js') (htimer : js''.roundTimeout = js'.roundTimeout) (hout : js''.out = js'.out) :
    Timing js js'' := by
  cases h with
  | kept heq hsends => exact .kept (htimer.trans heq) (hsends.congr hout)
  | renewed hlt => exact .renewed (by rw [htimer]; exact hlt)

theorem le (h : Timing js js') : js.roundTimeout.seq ≤ js'.roundTimeout.seq := by
  cases h with
  | kept htimer => rw [htimer]
  | renewed hlt => exact hlt.le

theorem trans (h : Timing js js') (h' : Timing js' js'') : Timing js js'' := by
  cases h with
  | renewed hlt => exact .renewed (hlt.trans_le h'.le)
  | kept htimer hsends =>
    cases h' with
    | renewed hlt => exact .renewed (by rwa [← htimer])
    | kept htimer' hsends' => exact .kept (htimer'.trans htimer) (hsends.trans hsends')

/-- The round's timer is still pending afterwards. -/
theorem pending (h : Timing js js') {since : ℕ} {fired : List ℕ} (hfired : ∀ n ∈ fired, n ≤ js.roundTimeout.seq)
    (hpending : since ≤ js.roundTimeout.seq ∧ js.roundTimeout.seq ∉ fired) :
    roundStart since js js' ≤ js'.roundTimeout.seq ∧ js'.roundTimeout.seq ∉ fired := by
  cases h with
  | kept htimer hsends =>
    have hquiet : (js'.out.drop js.out.length).any Output.opens = false := by
      rw [List.any_eq_false]
      intro o ho
      simpa using hsends.mem ho
    rw [roundStart, hquiet, htimer]
    exact hpending
  | renewed hlt =>
    refine ⟨?_, fun hmem => absurd (hfired _ hmem) (by omega)⟩
    rw [roundStart]
    split_ifs
    · exact max_le hlt le_rfl
    · omega

end Timing

theorem roundTimeout_removePeer (p : ℕ) (js : JoinSession) : (js.removePeer p).roundTimeout = js.roundTimeout := by
  rw [JoinSession.removePeer_eq]

theorem roundTimeout_removePeers (ps : List ℕ) (js : JoinSession) :
    (js.removePeers ps).roundTimeout = js.roundTimeout := by
  induction ps generalizing js with
  | nil => rfl
  | cons p ps ih => exact (ih _).trans (roundTimeout_removePeer ..)

theorem roundTimeout_expelled (ch : Choices) (ps : List ℕ) (js : JoinSession) :
    (js.expelled ch ps).roundTimeout = js.roundTimeout := by
  unfold JoinSession.expelled
  split
  · exact roundTimeout_removePeers ..
  · exact roundTimeout_removePeers ..

theorem Timing.removePeer {js js' : JoinSession} (h : Timing js js') (p : ℕ) : Timing js (js'.removePeer p) := by
  cases h with
  | kept htimer hsends => exact .kept ((roundTimeout_removePeer ..).trans htimer) (hsends.removePeer (fun _ => rfl) p)
  | renewed hlt => exact .renewed (by rw [roundTimeout_removePeer]; exact hlt)

theorem roundTimeout_storeInputs (txins : TxInputs) (tx : MsgTx) (js : JoinSession) :
    (storeInputs txins tx js).roundTimeout = js.roundTimeout := by
  simp only [storeInputs]
  split <;> rfl

theorem roundTimeout_buildJoinedTx {ch : Choices} {ticketPrice : ℤ} {joinedtx : MsgTx} {js js' : JoinSession}
    (h : buildJoinedTx ch ticketPrice js = .ok (joinedtx, js')) : js'.roundTimeout = js.roundTimeout := by
  obtain ⟨_, _, _, -, -, rfl⟩ := buildJoinedTx_eq_ok h
  rfl

section Handlers
variable {pkgs : Packages} {ch : Choices} {js js' : JoinSession} {d : Done}

theorem timing_keyExchange {req : KeyExchangeReq} (h : KeyExchangeOutcome pkgs ch req js (.ok (d, js'))) : Timing js js' := by
  cases h with
  | stranger => exact .refl js
  | invalid => exact (Timing.refl js).removePeer _
  | waiting => exact (Timing.refl js).congr rfl rfl
  | @unmarshalled peer =>
    have hannounced : Timing js (announce req peer js) := (Timing.refl js).congr rfl rfl
    exact hannounced.removePeer _
  | complete => exact .renewed (Nat.lt_succ_self _)

theorem timing_dcExpVector {data : DcVector} (hsolved : ¬Unsolved pkgs ch data js)
    (h : DcExpOutcome pkgs ch data js (.ok (d, js'))) : Timing js js' := by
  cases h with
  | stranger => exact .refl js
  | short => exact .refl js
  | rejected => exact (Timing.refl js).congr rfl rfl
  | waiting => exact (Timing.refl js).congr rfl rfl
  | ended hp hsize hread herrm hall hsolve =>
    cases hsolve with
    | unsolved hcombine hroots hret =>
      exact absurd ⟨_, _, _, _, _, hp, hsize, hread, herrm, hall, hcombine, hroots, hret⟩ hsolved
    | failed => exact (Timing.refl js).congr rfl rfl
    | solved => exact .renewed (Nat.lt_succ_self _)

theorem timing_dcXorVector {data : DcVector} (h : DcXorOutcome pkgs ch data js (.ok (d, js'))) : Timing js js' := by
  cases h with
  | short => exact .refl js
  | stranger => exact .refl js
  | waiting => exact (Timing.refl js).congr rfl rfl
  | failed => exact (Timing.refl js).congr rfl rfl
  | complete => exact .renewed (Nat.lt_succ_self _)

theorem timing_txInputs {txins : TxInputs} (h : TxInputsOutcome pkgs ch txins js (.ok (d, js'))) : Timing js js' := by
  have hstored : ∀ tx, Timing js (storeInputs txins tx js) := fun tx =>
    (Timing.refl js).congr (roundTimeout_storeInputs txins tx js) (out_storeInputs txins tx js)
  cases h with
  | stranger => exact .refl js
  | unpriced => exact (Timing.refl js).congr rfl rfl
  | undecodable => exact (Timing.refl js).congr rfl rfl
  | overspent => exact (hstored _).congr rfl rfl
  | waiting => exact hstored _
  | @joined peer tx _ _ _ _ _ _ _ _ _ hjoined =>
    cases hjoined with
    | @failed joinedtx built hbuild =>
      have hbuilt : Timing js built := (hstored tx).congr (roundTimeout_buildJoinedTx hbuild) (out_buildJoinedTx hbuild)
      exact hbuilt.congr rfl rfl
    | @sent joinedtx built bytes hbuild =>
      have hseq : built.roundTimeout = js.roundTimeout :=
        (roundTimeout_buildJoinedTx hbuild).trans (roundTimeout_storeInputs txins tx js)
      refine .renewed ?_
      rw [← hseq]
      exact Nat.lt_succ_self _

theorem timing_txSigned {signedTx : JoinTx} (h : TxSignedOutcome pkgs ch signedTx js (.ok (d, js'))) : Timing js js' := by
  cases h with
  | stranger => exact .refl js
  | undecodable => exact (Timing.refl js).congr rfl rfl
  | again => exact .refl js
  | invalid => exact (Timing.refl js).congr rfl rfl
  | waiting _ _ _ _ hmerge =>
    obtain ⟨_, rfl⟩ := mergeSigned_eq_ok hmerge
    exact (Timing.refl js).congr rfl rfl
  | ended _ _ _ _ hmerge _ hpublish =>
    obtain ⟨_, rfl⟩ := mergeSigned_eq_ok hmerge
    have hposts : ∀ (merged : JoinSession) (tx : Bytes), ∀ o ∈ (serverPosts ch merged tx).1, (!o.opens) = true := by
      intro merged tx o ho
      rw [post_of_mem_serverPosts ho]
      rfl
    cases hpublish with
    | unencodable => exact (Timing.refl js).congr rfl rfl
    | published =>
      refine .kept rfl (Sends.broadcast (Sends.append (.refl js) rfl (hposts _ _)) rfl fun _ => rfl)
    | unmarshalled => exact .kept rfl (Sends.append (.refl js) rfl (hposts _ _))
    | delegated => exact .renewed (Nat.lt_succ_self _)

/-- A handler keeps the timer and opens nothing, or makes a new one, unless the
polynomial cannot be solved. -/
theorem timing_handle {msg : ClientMessage} (hsolved : ∀ data, msg = .dcExpVector data → ¬Unsolved pkgs ch data js)
    (h : handle pkgs ch js msg = .ok (d, js')) : Timing js js' := by
  have houtcome := handle_outcome pkgs ch msg (mu_of_handle h)
  rw [h] at houtcome
  cases msg with
  | keyExchange req => exact timing_keyExchange houtcome
  | dcExpVector data => exact timing_dcExpVector (hsolved data rfl) houtcome
  | dcXorVector data => exact timing_dcXorVector houtcome
  | txInputs txins => exact timing_txInputs houtcome
  | txSigned signedTx => exact timing_txSigned houtcome
  | txPublishResult pubResult =>
    cases houtcome
    exact .kept rfl ((Sends.refl js).broadcast rfl fun _ => rfl)
  | revealSecret rvSecret =>
    change RevealOutcome pkgs ch rvSecret js (.ok (d, js')) at houtcome
    cases houtcome with
    | stranger => exact .refl js
    | failed => exact (Timing.refl js).congr rfl rfl
    | found => exact (Timing.refl js).congr rfl rfl
    | waiting => exact (Timing.refl js).congr rfl rfl
  | msgNotFound data =>
    change MsgNotFoundOutcome ch data js (.ok (d, js')) at houtcome
    cases houtcome with
    | stranger => exact .refl js
    | asked => exact .renewed (Nat.lt_succ_self _)

end Handlers

/-! ### The other goroutines -/

section Goroutines
variable {pkgs : Packages} {ch : Choices} {js js' : JoinSession} {d : Done}

/-- The change of publisher, with the timer it makes when it goes through. -/
theorem timing_changePublisher {site : List ℕ} {b : Bool} (h : JoinSession.ChangeOutcome pkgs ch site js (.ok (b, js'))) :
    Timing js js' ∧ (b = true → js.roundTimeout.seq < js'.roundTimeout.seq) := by
  cases h with
  | failed =>
    refine ⟨.kept rfl ((Sends.refl js).terminate (fun _ => rfl) ch), fun h => by cases h⟩
  | changed => exact ⟨.renewed (Nat.lt_succ_self _), fun _ => Nat.lt_succ_self _⟩

theorem Republishing.seq_le {b : Bool} (h : Republishing pkgs ch js b js') : js.roundTimeout.seq ≤ js'.roundTimeout.seq := by
  induction h with
  | done => exact le_rfl
  | emptied => rw [roundTimeout_removePeer]
  | @failed js => exact (congrArg Timer.seq (roundTimeout_removePeer js.publisher js)).ge
  | @changed js _ _ _ _ _ _ _ _ _ _ ih =>
    refine le_trans ?_ ih
    have hseq := congrArg Timer.seq (roundTimeout_removePeer js.publisher js)
    exact hseq.ge.trans (Nat.le_succ _)

/-- The loop that meets the publisher makes a timer, if it gets to its end. -/
theorem lt_seq_of_changePublishers {visited : List (ℕ × PeerInfo)} (hpub : ∃ e ∈ visited, e.2.id = js.publisher)
    (h : changePublishers pkgs ch visited js = .ok (true, js')) : js.roundTimeout.seq < js'.roundTimeout.seq := by
  induction visited generalizing js with
  | nil =>
    obtain ⟨_, hmem, -⟩ := hpub
    cases hmem
  | cons e visited ih =>
    obtain ⟨pid, peer⟩ := e
    rw [changePublishers] at h
    by_cases hpeer : js.publisher = peer.id
    · rw [if_pos hpeer] at h
      dsimp only at h
      by_cases hempty : GoMap.len (js.removePeer peer.id).peers = 0
      · rw [if_pos hempty] at h
        cases h
      rw [if_neg hempty] at h
      obtain ⟨⟨b, changed⟩, hchange, h⟩ := bind_eq_ok.mp h
      have houtcome := JoinSession.changePublisher_outcome pkgs ch [284, peer.id] (js.removePeer peer.id)
      rw [hchange] at houtcome
      obtain ⟨-, hlt⟩ := timing_changePublisher houtcome
      cases b with
      | false => cases h
      | true =>
        rcases changePublishers_outcome pkgs ch visited changed with hpanic | ⟨b, js'', hrest, hrep⟩
        · rw [if_pos rfl, hpanic] at h
          cases h
        · rw [if_pos rfl, hrest] at h
          cases h
          have hseq := congrArg Timer.seq (roundTimeout_removePeer peer.id js)
          exact hseq.ge.trans_lt ((hlt rfl).trans_le hrep.seq_le)
    · rw [if_neg hpeer] at h
      refine ih ?_ h
      obtain ⟨e, hmem, hid⟩ := hpub
      rcases List.mem_cons.mp hmem with rfl | hmem
      · exact absurd hid.symm hpeer
      · exact ⟨e, hmem, hid⟩

/-- A reader or a writer that changes the publisher passes the turn on. -/
theorem timing_passed {site : List ℕ} {peer : PeerInfo} {b : Bool} (hstate : js.state = .txPublish)
    (hpub : js.publisher = peer.id)
    (h : JoinSession.ChangeOutcome pkgs ch site ((js.removePeer peer.id).withMu true) (.ok (b, js'))) :
    Timing js js' ∧ (js'.roundTimeout ≠ js.roundTimeout → PassesTurn pkgs ch site peer js) := by
  have hlocked : Timing js ((js.removePeer peer.id).withMu true) := ((Timing.refl js).removePeer peer.id).congr rfl rfl
  refine ⟨hlocked.trans (timing_changePublisher h).1, fun hne => ?_⟩
  cases h with
  | failed => exact absurd (roundTimeout_removePeer peer.id js) hne
  | changed hjoined hencode hmarshal hp =>
    refine ⟨hstate, hpub, GoMap.len_ne_zero_iff.mpr ⟨_, _, hp⟩, _, _, ?_, hencode, hmarshal⟩
    rwa [← js.joinedTx_removePeer peer.id]

theorem timing_readError {peer : PeerInfo} (h : readError pkgs ch peer js = .ok js') :
    Timing js js' ∧ (js'.roundTimeout ≠ js.roundTimeout → peer.id ∈ js.peers.keys ∧ PassesTurn pkgs ch [448] peer js) := by
  have hremoved := (Timing.refl js).removePeer peer.id
  have houtcome := readError_outcome pkgs ch peer (mu_of_readError h)
  rw [h] at houtcome
  cases houtcome with
  | left => exact ⟨hremoved, fun hne => absurd (roundTimeout_removePeer ..) hne⟩
  | kept => exact ⟨.refl js, fun hne => absurd rfl hne⟩
  | emptied => exact ⟨hremoved, fun hne => absurd (roundTimeout_removePeer ..) hne⟩
  | changed hstate hpub hchange =>
    obtain ⟨htiming, hpasses⟩ := timing_passed hstate hpub.2 hchange
    exact ⟨htiming.congr rfl rfl, fun hne => ⟨hpub.1, hpasses hne⟩⟩

theorem timing_writeError {peer : PeerInfo} (h : writeError pkgs ch peer js = .ok js') :
    Timing js js' ∧ (js'.roundTimeout ≠ js.roundTimeout → PassesTurn pkgs ch [354] peer js) := by
  have houtcome := writeError_outcome pkgs ch peer (mu_of_writeError h)
  rw [h] at houtcome
  cases houtcome with
  | left => exact ⟨(Timing.refl js).removePeer peer.id, fun hne => absurd (roundTimeout_removePeer ..) hne⟩
  | kept => exact ⟨.refl js, fun hne => absurd rfl hne⟩
  | changed hstate hpub hchange =>
    obtain ⟨htiming, hpasses⟩ := timing_passed hstate hpub hchange
    exact ⟨htiming.congr rfl rfl, hpasses⟩
  | locked hstate hpub hchange => exact timing_passed hstate hpub hchange

theorem timing_readMessage {peer : PeerInfo} {raw : RawMessage} {pc : ReaderPc} (h : readMessage peer raw js = .ok (pc, js')) :
    Timing js js' ∧ js'.roundTimeout = js.roundTimeout := by
  rcases mu_of_readMessage h with hmu | ⟨-, hsame⟩
  · have houtcome := readMessage_outcome peer raw hmu
    rw [h] at houtcome
    cases houtcome with
    | ignored => exact ⟨.refl js, rfl⟩
    | unknown => exact ⟨(Timing.refl js).congr rfl rfl, rfl⟩
    | refused => exact ⟨.refl js, rfl⟩
    | locked => exact ⟨(Timing.refl js).congr rfl rfl, rfl⟩
    | malformed => exact ⟨.refl js, rfl⟩
    | admitted =>
      split_ifs
      · exact ⟨(Timing.refl js).congr rfl rfl, rfl⟩
      · exact ⟨.refl js, rfl⟩
  · cases hsame
    exact ⟨.refl js, rfl⟩

/-- When all members are taken out nobody is left. -/
theorem len_removePeers_of_clears {ps : List ℕ} (h : Clears ps js) : GoMap.len (js.removePeers ps).peers = 0 := by
  by_contra hlen
  obtain ⟨p, peer, hp⟩ := GoMap.len_ne_zero_iff.mp hlen
  rw [lookup_removePeers] at hp
  split_ifs at hp with hmem
  exact hmem (h p (GoMap.mem_keys_of_lookup hp))

theorem len_expelled_of_clears {ps : List ℕ} (h : Clears ps js) : GoMap.len (js.expelled ch ps).peers = 0 := by
  have hempty := len_removePeers_of_clears h
  rw [JoinSession.expelled, if_pos hempty]
  exact hempty

theorem not_clears_nil (hlen : GoMap.len js.peers ≠ 0) : ¬Clears [] js := by
  intro h
  obtain ⟨p, peer, hp⟩ := GoMap.len_ne_zero_iff.mp hlen
  cases h p (GoMap.mem_keys_of_lookup hp)

end Goroutines

/-! ### Runs -/

/-- The loop waits for the session's timer; while it waits, or is about to, that timer
is of the round and has not fired. -/
structure TimerInv (since : ℕ) (s : System) : Prop where
  fired : ∀ n ∈ s.fired, n ≤ s.session.roundTimeout.seq
  current : ∀ timer, s.loop = .select timer → timer = s.session.roundTimeout
  pending : s.loop.waits = true → GoMap.len s.session.peers ≠ 0 →
    since ≤ s.session.roundTimeout.seq ∧ s.session.roundTimeout.seq ∉ s.fired

section Runs
variable {pkgs : Packages} {ch : Choices} {since : ℕ} {s s' : System} {ev : Event}

/-- A timeout makes a timer, or nobody stays, when the loop is to wait again. -/
theorem timing_timeout {d : Done} {js' : JoinSession} (hwf : WellFormed s.session)
    (hpunctual : Punctual pkgs ch s .timeout) (h : timeout pkgs ch s.session = .ok (d, js')) :
    s.session.roundTimeout.seq ≤ js'.roundTimeout.seq ∧
      (d = .next → GoMap.len js'.peers ≠ 0 → s.session.roundTimeout.seq < js'.roundTimeout.seq) := by
  have houtcome := timeout_outcome pkgs ch (mu_of_timeout h)
  rw [h] at houtcome
  cases houtcome with
  | returned _ _ hrep => exact ⟨hrep.seq_le, fun hd => by cases hd⟩
  | @republished js'' hstate hchange hrep _ hinform =>
    cases hinform with
    | nobody hnone =>
      refine ⟨hrep.seq_le, fun _ hlen => ?_⟩
      rcases hpunctual with ⟨-, hpub⟩ | hclears
      · obtain ⟨peer, hpeer⟩ := GoMap.lookup_of_mem_keys hpub
        have hvisited : ∃ e ∈ GoMap.range ch.order [229] s.session.peers, e.2.id = s.session.publisher :=
          ⟨(s.session.publisher, peer), GoMap.mem_range.mpr hpeer, hwf.keyed _ _ hpeer⟩
        have hlt : ((s.session.timedOut ch).withMu true).roundTimeout.seq < js''.roundTimeout.seq :=
          lt_seq_of_changePublishers hvisited hchange
        exact hlt
      · have hmissed : (s.session.timedOut ch).missedPeers = [] := hrep.missedPeers.symm.trans hnone
        rw [hmissed] at hclears
        obtain ⟨qs, hkept⟩ := hrep.kept ((Kept.refl s.session).congr rfl rfl rfl)
        obtain ⟨p, peer, hp⟩ := GoMap.len_ne_zero_iff.mp hlen
        obtain ⟨_, hbefore, -⟩ := hkept.member hp
        cases hclears p (GoMap.mem_keys_of_lookup hbefore)
    | dropped _ hkey =>
      have hsame : (JoinSession.withMu _ false).state = .txPublish := hrep.state.trans hstate
      rw [hsame] at hkey
      cases hkey
  | informed hstate hinform =>
    have hclears : Clears (s.session.timedOut ch).missedPeers s.session :=
      hpunctual.resolve_left fun hpublish => hstate hpublish.1
    cases hinform with
    | nobody hnone =>
      rw [hnone] at hclears
      exact ⟨le_rfl, fun _ hlen => absurd hclears (not_clears_nil hlen)⟩
    | dropped =>
      have hempty : GoMap.len ((s.session.timedOut ch).removePeers (s.session.timedOut ch).missedPeers).peers = 0 :=
        len_removePeers_of_clears hclears
      have htimer := roundTimeout_removePeers (s.session.timedOut ch).missedPeers (s.session.timedOut ch)
      exact ⟨(congrArg Timer.seq htimer).ge, fun _ hlen => absurd hempty hlen⟩

/-- The loop that goes back to the select has pushed nobody out. -/
theorem eq_of_finish {d : Done} {running : Bool} {js js' : JoinSession} (hclears : ∀ ps, d = ⟨some ps, .next⟩ → Clears ps js)
    (h : finish ch d js = .ok (running, js')) :
    js'.roundTimeout = js.roundTimeout ∧ (running = true → d = .next ∧ js' = js) := by
  obtain ⟨push, exit⟩ := d
  cases hmu : js.mu with
  | true =>
    rw [finish_held ch _ hmu] at h
    split_ifs at h with hpush
    · cases h
      exact ⟨rfl, fun hrunning => by cases hrunning⟩
    · cases h
      refine ⟨rfl, fun hrunning => ⟨?_, rfl⟩⟩
      obtain ⟨hexit, -⟩ := of_decide_eq_true hrunning
      obtain rfl : push = none := by simpa using hpush
      rw [Done.next, ← hexit]
  | false =>
    rw [finish_free ch _ hmu] at h
    split_ifs at h
    cases h
    cases push with
    | none =>
      refine ⟨rfl, fun hrunning => ⟨?_, rfl⟩⟩
      obtain ⟨hexit, -⟩ := of_decide_eq_true hrunning
      rw [Done.next, ← hexit]
    | some ps =>
      refine ⟨roundTimeout_expelled ch ps js, fun hrunning => ?_⟩
      obtain ⟨hexit, hlen⟩ := of_decide_eq_true hrunning
      exact absurd (len_expelled_of_clears (hclears ps (congrArg _ hexit))) hlen

/-- A step of a goroutine that is not the loop. -/
theorem TimerInv.of_timing (hinv : TimerInv since s) {js' : JoinSession} (htiming : Timing s.session js')
    (hsession : s'.session = js') (hloop : s'.loop = s.loop) (hfired : s'.fired = s.fired)
    (hselect : ∀ timer, s.loop = .select timer → js'.roundTimeout = s.session.roundTimeout)
    (hlen : GoMap.len js'.peers ≠ 0 → GoMap.len s.session.peers ≠ 0) :
    TimerInv (roundStart since s.session s'.session) s' where
  fired n hn := by
    rw [hfired] at hn
    rw [hsession]
    exact (hinv.fired n hn).trans htiming.le
  current timer htimer := by
    rw [hloop] at htimer
    rw [hsession, hselect timer htimer]
    exact hinv.current timer htimer
  pending hwaits hsome := by
    rw [hloop] at hwaits
    rw [hsession] at hsome ⊢
    rw [hfired]
    exact htiming.pending hinv.fired (hinv.pending hwaits (hlen hsome))

/-- A step brings no members to a session without any. -/
theorem len_ne_zero_of_effect {js' : JoinSession} (h : Effect pkgs ch s ev js') (hlen : GoMap.len js'.peers ≠ 0) :
    GoMap.len s.session.peers ≠ 0 := by
  obtain ⟨p, peer, hp⟩ := GoMap.len_ne_zero_iff.mp hlen
  cases h with
  | removed h =>
    obtain ⟨_, -, hkept⟩ := h
    obtain ⟨before, hbefore, -⟩ := hkept.member hp
    exact GoMap.len_ne_zero_iff.mpr ⟨p, before, hbefore⟩
  | keyExchange _ _ h =>
    obtain ⟨before, hbefore⟩ := GoMap.lookup_of_mem_keys (keys_keyExchange h (GoMap.mem_keys_of_lookup hp))
    exact GoMap.len_ne_zero_iff.mpr ⟨p, before, hbefore⟩
  | @expelled ps h =>
    intro hempty
    have hclears : Clears ps s.session := by
      intro q hq
      obtain ⟨member, hmember⟩ := GoMap.lookup_of_mem_keys hq
      exact absurd hempty (GoMap.len_ne_zero_iff.mpr ⟨q, member, hmember⟩)
    rw [h] at hlen
    exact hlen (len_expelled_of_clears hclears)

theorem TimerInv.step (hwf : WellFormed s.session) (hinv : TimerInv since s) (hpunctual : Punctual pkgs ch s ev)
    (h : Stepped pkgs ch s ev s') : TimerInv (roundStart since s.session s'.session) s' := by
  have hmembers := len_ne_zero_of_effect (effect_of_stepped h)
  cases h with
  | @timeout timer d js hloop hfired h =>
    obtain ⟨hle, hlt⟩ := timing_timeout hwf hpunctual h
    have htimer := hinv.current timer hloop
    have hbound : ∀ n ∈ timer.seq :: s.fired, n ≤ s.session.roundTimeout.seq := by
      intro n hn
      rcases List.mem_cons.mp hn with rfl | hn
      · rw [htimer]
      · exact hinv.fired n hn
    refine ⟨fun n hn => (hbound n hn).trans hle, fun timer h => (by cases h), fun hwaits hlen => ?_⟩
    have hlater := hlt (of_decide_eq_true hwaits) hlen
    have hpending := hinv.pending (by rw [hloop]; rfl) (hmembers hlen)
    refine ⟨((Timing.renewed hlater).pending hinv.fired hpending).1, fun hmem => ?_⟩
    exact absurd (hbound _ hmem) (Nat.not_le.mpr hlater)
  | @deliver conn sessionId state msg timer d js hloop hreader h =>
    have htiming : Timing s.session js := by
      refine timing_handle (fun data hdata => hpunctual data ?_) h
      rw [System.handed, hreader, hdata]
    refine ⟨fun n hn => (hinv.fired n hn).trans htiming.le, fun timer h => (by cases h), fun _ hlen => ?_⟩
    exact htiming.pending hinv.fired (hinv.pending (by rw [hloop]; rfl) (hmembers hlen))
  | @rest d running js hloop h =>
    obtain ⟨htimer, hnext⟩ := eq_of_finish (fun ps hd => hpunctual ps (by rw [hloop, hd])) h
    cases running with
    | false =>
      refine ⟨fun n hn => (hinv.fired n hn).trans (congrArg Timer.seq htimer).ge, fun timer h => (by cases h), fun h => ?_⟩
      cases h
    | true =>
      obtain ⟨rfl, rfl⟩ := hnext rfl
      refine ⟨hinv.fired, fun timer h => (by cases h; rfl), fun _ hlen => ?_⟩
      exact (Timing.refl s.session).pending hinv.fired (hinv.pending (by rw [hloop]; rfl) hlen)
  | read _ _ h =>
    obtain ⟨htiming, htimer⟩ := timing_readMessage h
    exact hinv.of_timing htiming rfl rfl rfl (fun _ _ => htimer) hmembers
  | @push conn peerId js hreader h =>
    rw [JoinSession.pushMaliciousInfo_eq ch _ (mu_of_pushMaliciousInfo h)] at h
    cases h
    have htimer := roundTimeout_expelled ch [peerId] s.session
    refine ⟨fun n hn => (hinv.fired n hn).trans (congrArg Timer.seq htimer).ge, fun timer hloop => ?_, fun hwaits hlen => ?_⟩
    · exact (hinv.current timer hloop).trans htimer.symm
    · exact absurd (len_expelled_of_clears (hpunctual peerId hreader hwaits)) hlen
  | remove hreader =>
    exact hinv.of_timing ((Timing.refl _).removePeer _) rfl rfl rfl (fun _ _ => roundTimeout_removePeer ..) hmembers
  | @readError conn peer js _ hpeer h =>
    obtain ⟨htiming, hpasses⟩ := timing_readError h
    refine hinv.of_timing htiming rfl rfl rfl (fun timer hloop => ?_) hmembers
    by_contra hne
    obtain ⟨hmem, hpass⟩ := hpasses hne
    exact hpunctual timer peer hloop hpeer hmem hpass
  | @writeError conn peer js _ hpeer h =>
    obtain ⟨htiming, hpasses⟩ := timing_writeError h
    refine hinv.of_timing htiming rfl rfl rfl (fun timer hloop => ?_) hmembers
    by_contra hne
    exact hpunctual timer peer hloop hpeer (hpasses hne)

theorem ReachableSince.timerInv (hs : ReachableSince pkgs (Punctual pkgs) since s) : TimerInv since s := by
  induction hs with
  | start =>
    refine ⟨fun n hn => (by cases hn), fun timer h => ?_, fun _ _ => ⟨Nat.zero_le _, List.not_mem_nil⟩⟩
    unfold System.start System.loopTo at h
    split at h
    · cases h
      rfl
    · cases h
  | step hs hpunctual h ih => exact ih.step hs.reachable.wellFormed hpunctual (stepped_of_step h)

end Runs

/-- **A round timer is always pending** in the runs whose steps are punctual. -/
theorem timer_pending {pkgs : Packages} {since : ℕ} {s : System} (hs : ReachableSince pkgs (Punctual pkgs) since s) :
    TimerPending since s := by
  intro timer hloop hlen _
  have hinv := hs.timerInv
  rw [hinv.current timer hloop]
  exact hinv.pending (by rw [hloop]; rfl) hlen

/-- Two peers have announced their keys, and the loop waits for a new timer. -/
theorem timer_pending_two : ∃ since s timer, s.loop = .select timer ∧ s.session.state = .dcExponential ∧ since = 1 ∧
    timer.seq = 1 ∧ TimerPending since s := by
  have hstart : ReachableSince plainPackages (Punctual plainPackages) 0 _ :=
    .start 7 60 false [(1, 1), (2, 2)] (by decide) (by decide)
  have hread₁ := hstart.onward (plainChoices id) (.read 1 (.message (.keyExchange ⟨0, [5], 1⟩))) trivial rfl
  have hdeliver₁ := hread₁.onward (plainChoices id) (.deliver 1) (fun _ h => by cases h) rfl
  have hrest₁ := hdeliver₁.onward (plainChoices id) .rest (fun _ h => by cases h) rfl
  have hread₂ := hrest₁.onward (plainChoices id) (.read 2 (.message (.keyExchange ⟨0, [6], 1⟩))) trivial rfl
  have hdeliver₂ := hread₂.onward (plainChoices id) (.deliver 2) (fun _ h => by cases h) rfl
  have hrest₂ := hdeliver₂.onward (plainChoices id) .rest (fun _ h => by cases h) rfl
  exact ⟨_, _, _, rfl, rfl, rfl, rfl, timer_pending hrest₂⟩

/-- **The timeout that takes out a peer is the last one**: the first of two peers has
announced its key, and once the other one is out the loop waits for the timer that has
fired. -/
theorem timeout_without_timer : ∃ since s, ReachableSince plainPackages (fun _ _ _ => True) since s ∧ ¬TimerPending since s := by
  have hstart : ReachableSince plainPackages (fun _ _ _ => True) 0 _ :=
    .start 7 60 false [(1, 1), (2, 2)] (by decide) (by decide)
  have hread := hstart.onward (plainChoices id) (.read 1 (.message (.keyExchange ⟨0, [5], 1⟩))) trivial rfl
  have hdeliver := hread.onward (plainChoices id) (.deliver 1) trivial rfl
  have hrest := hdeliver.onward (plainChoices id) .rest trivial rfl
  have htimeout := hrest.onward (plainChoices id) .timeout trivial rfl
  have hback := htimeout.onward (plainChoices id) .rest trivial rfl
  refine ⟨_, _, hback, fun hpending => ?_⟩
  exact (hpending _ rfl (by decide) (by decide)).2 (by decide)

end Dcrtxmatcher.Coinjoin
