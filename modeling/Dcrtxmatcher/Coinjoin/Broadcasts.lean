import Dcrtxmatcher.Lib.Broadcast
import Dcrtxmatcher.Coinjoin.Departed
import Dcrtxmatcher.Coinjoin.Handover
import Dcrtxmatcher.Coinjoin.Isolation
import Dcrtxmatcher.Coinjoin.Queue

/-! What the peers of a session hear.

The server says the same to all members, except that the publisher alone is sent the
transaction, and that at a restart every peer is told its own id. A step says one thing
to all members, or nothing (`Tells`). As long as no message waits for a writer that is
gone (`Attended`), whoever handles what in which order: the members' writers have been
handed the same messages, and those of former members the beginning of them. From what
it has heard a member can then tell the round that the server is in. -/
namespace Dcrtxmatcher.Coinjoin
open Lib

/-- What a message has in common with those to the other peers. -/
def ServerMessage.common : ServerMessage → Option ServerMessage
  | .maliciousPeers peerIds sessionId _ => some (.maliciousPeers peerIds sessionId 0)
  | .txSign _ => none
  | msg => some msg

/-- What of an output the peer of a connection hears. -/
def Output.heardBy (conn : ℕ) : Output → Option ServerMessage
  | .send receiver msg => if receiver = conn then msg.common else none
  | .close _ | .post _ => none

/-- Everything that the peer of a connection has been sent so far; its writer has taken
it when no message of the run waits. -/
def JoinSession.heard (js : JoinSession) (conn : ℕ) : List ServerMessage := js.out.filterMap (Output.heardBy conn)

/-- Outputs that no peer has in common with others. -/
def Output.isPrivate : Output → Bool
  | .close _ | .post _ | .send _ (.txSign _) => true
  | _ => false

/-- The round that follows a message. -/
def ServerMessage.opens : ServerMessage → SessionState → SessionState
  | .maliciousPeers .., _ => .keyExchange
  | .keyExchange _, _ => .dcExponential
  | .dcExpVector .., _ => .dcXor
  | .dcXorVector _, _ => .txInput
  | .joinedTx _, _ => .txSign
  | .txPublishResult _, _ => .completed
  | .txSign _, _ => .txPublish
  | .revealSecret, state => state

/-- The state after a message to all: when secrets are asked for, it depends on why. -/
def Opens (msg : ServerMessage) (state state' : SessionState) : Prop :=
  state' = msg.opens state ∨ msg = .revealSecret ∧ state' = .revealSecret

/-- A step says nothing that peers have in common, or one message to all the members
that are left. -/
inductive Tells (js js' : JoinSession) : Prop
  | silent (h : Sends Output.isPrivate js js') (hstate : js'.state = js.state ∨ js'.state = .txPublish)
  | told {mid : JoinSession} {msg : ServerMessage} {peers : List PeerInfo} (own : PeerInfo → ServerMessage)
      (h : Sends Output.isPrivate js mid) (hout : js'.out = mid.out ++ peers.map fun peer => .send peer.conn (own peer))
      (hown : ∀ peer, (own peer).common = some msg) (hall : (peers.map (·.conn)).Perm js'.conns)
      (hstate : Opens msg js.state js'.state)

namespace Tells
variable {pkgs : Packages} {ch : Choices} {js js' mid : JoinSession} {d : Done}

theorem refl (js : JoinSession) : Tells js js := .silent (.refl js) (.inl rfl)

/-- A session whose state and outputs are as before. -/
theorem of_same (hout : js'.out = js.out) (hstate : js'.state = js.state) : Tells js js' :=
  .silent ((Sends.refl js).congr hout) (.inl hstate)

theorem broadcast {site : ℕ} {msg : ServerMessage} (h : Sends Output.isPrivate js mid)
    (hout : js'.out = (mid.broadcast ch site msg).out) (hpeers : js'.peers = mid.peers) (hcommon : msg.common = some msg)
    (hstate : Opens msg js.state js'.state) : Tells js js' := by
  have hconns : js'.conns = mid.conns := by rw [JoinSession.conns, JoinSession.conns, hpeers]
  exact .told (fun _ => msg) h hout (fun _ => hcommon) (hconns ▸ perm_conns_values ch site mid) hstate

/-! ### Handlers -/

theorem of_keyExchange {req : KeyExchangeReq} (h : KeyExchangeOutcome pkgs ch req js (.ok (d, js'))) : Tells js js' := by
  have hannounced : ∀ peer, Sends Output.isPrivate js (announce req peer js) := fun _ => (Sends.refl js).congr rfl
  cases h with
  | stranger => exact refl js
  | invalid => exact .silent ((Sends.refl js).removePeer (fun _ => rfl) _) (.inl (js.state_removePeer _))
  | waiting => exact .silent (hannounced _) (.inl rfl)
  | unmarshalled =>
    exact .silent ((hannounced _).removePeer (fun _ => rfl) _) (.inl (JoinSession.state_removePeer ..))
  | @complete peer => exact broadcast (hannounced peer) rfl rfl rfl (.inl rfl)

theorem of_dcExpVector {data : DcVector} (h : DcExpOutcome pkgs ch data js (.ok (d, js'))) : Tells js js' := by
  cases h with
  | stranger => exact refl js
  | short => exact refl js
  | rejected => exact of_same rfl rfl
  | waiting => exact of_same rfl rfl
  | @ended _ vector _ _ _ _ _ _ hsolve =>
    have hstored : Sends Output.isPrivate js (storeExp data vector js) := (Sends.refl js).congr rfl
    cases hsolve with
    | unsolved => exact broadcast hstored rfl rfl rfl (.inl rfl)
    | failed => exact of_same rfl rfl
    | solved => exact broadcast hstored rfl rfl rfl (.inl rfl)

theorem of_dcXorVector {data : DcVector} (h : DcXorOutcome pkgs ch data js (.ok (d, js'))) : Tells js js' := by
  cases h with
  | short => exact refl js
  | stranger => exact refl js
  | waiting => exact of_same rfl rfl
  | failed => exact of_same rfl rfl
  | @complete _ dcXor allPkScripts =>
    have hstored : Sends Output.isPrivate js { storeXor data dcXor js with allPkScripts := allPkScripts } :=
      (Sends.refl js).congr rfl
    exact broadcast hstored rfl rfl rfl (.inl rfl)

theorem of_txInputs {txins : TxInputs} (h : TxInputsOutcome pkgs ch txins js (.ok (d, js'))) : Tells js js' := by
  cases h with
  | stranger => exact refl js
  | unpriced => exact of_same rfl rfl
  | undecodable => exact of_same rfl rfl
  | overspent => exact of_same (out_storeInputs ..) (state_storeInputs ..)
  | waiting => exact of_same (out_storeInputs ..) (state_storeInputs ..)
  | joined _ _ _ _ _ _ hjoined =>
    cases hjoined with
    | failed hbuild =>
      exact of_same ((out_buildJoinedTx hbuild).trans (out_storeInputs ..))
        ((state_buildJoinedTx hbuild).trans (state_storeInputs ..))
    | sent hbuild =>
      have hout := (out_buildJoinedTx hbuild).trans (out_storeInputs ..)
      exact broadcast ((Sends.refl js).congr hout) rfl rfl rfl (.inl rfl)

theorem of_txSigned {signedTx : JoinTx} (h : TxSignedOutcome pkgs ch signedTx js (.ok (d, js'))) : Tells js js' := by
  cases h with
  | stranger => exact refl js
  | undecodable => exact of_same rfl rfl
  | again => exact refl js
  | invalid => exact of_same rfl rfl
  | waiting _ _ _ _ hmerge =>
    obtain ⟨_, rfl⟩ := mergeSigned_eq_ok hmerge
    exact of_same rfl rfl
  | @ended _ tx merged _ _ _ _ hmerge _ _ hpublish =>
    have hmerged : Sends Output.isPrivate js merged := (Sends.refl js).congr ((out_mergeSigned hmerge).trans rfl)
    have hstate : merged.state = js.state := by
      obtain ⟨_, rfl⟩ := mergeSigned_eq_ok hmerge
      rfl
    have hposts : ∀ tx, Sends Output.isPrivate js { merged with out := merged.out ++ (serverPosts ch merged tx).1 } :=
      fun tx => hmerged.append rfl fun o ho => by rw [post_of_mem_serverPosts ho]; rfl
    cases hpublish with
    | unencodable => exact .silent (hmerged.congr rfl) (.inl hstate)
    | published => exact broadcast (hposts _) rfl rfl rfl (.inl rfl)
    | unmarshalled => exact .silent ((hposts _).congr rfl) (.inl hstate)
    | delegated => exact .silent ((hposts _).append rfl (by simp [Output.isPrivate])) (.inr rfl)

theorem of_handle {msg : ClientMessage} (h : HandleOutcome pkgs ch js msg (.ok (d, js'))) : Tells js js' := by
  cases msg with
  | keyExchange req => exact of_keyExchange h
  | dcExpVector data => exact of_dcExpVector h
  | dcXorVector data => exact of_dcXorVector h
  | txInputs txins => exact of_txInputs h
  | txSigned signedTx => exact of_txSigned h
  | txPublishResult pubResult =>
    cases h
    exact broadcast (.refl js) rfl rfl rfl (.inl rfl)
  | revealSecret rvSecret =>
    change RevealOutcome pkgs ch rvSecret js _ at h
    cases h <;> exact of_same rfl rfl
  | msgNotFound data =>
    change MsgNotFoundOutcome ch data js _ at h
    cases h with
    | stranger => exact refl js
    | asked => exact broadcast (.refl js) rfl rfl rfl (.inr ⟨rfl, rfl⟩)

/-! ### The other steps -/

theorem expelled (ch : Choices) (ps : List ℕ) (js : JoinSession) : Tells js (js.expelled ch ps) := by
  have hremove : Sends Output.isPrivate js (js.removePeers ps) := (Sends.refl js).removePeers (fun _ => rfl) ps
  unfold JoinSession.expelled
  split_ifs
  · exact .silent hremove (.inl (state_removePeers ps js))
  · exact .told (fun peer => .maliciousPeers ps (ch.genId 0) peer.id) hremove rfl (fun _ => rfl)
      (perm_conns_values ch 146 ((js.removePeers ps).restart ch ps)) (.inl rfl)

theorem of_finish {running : Bool} (h : finish ch d js = .ok (running, js')) : Tells js js' := by
  cases hmu : js.mu with
  | true =>
    rw [finish_held ch d hmu] at h
    split_ifs at h
    · cases h
      exact .silent (((Sends.refl js).congr rfl).terminate (fun _ => rfl) ch) (.inl rfl)
    · cases h
      exact refl js
  | false =>
    rw [finish_free ch d hmu] at h
    split_ifs at h
    cases h
    unfold Done.pushed
    cases d.push with
    | none => exact refl js
    | some ps => exact expelled ch ps js

theorem of_readMessage {peer : PeerInfo} {raw : RawMessage} {pc : ReaderPc} (h : readMessage peer raw js = .ok (pc, js')) :
    Tells js js' := by
  apply of_same (out_readMessage h)
  rcases mu_of_readMessage h with hmu | ⟨-, hsame⟩
  · have houtcome := readMessage_outcome peer raw hmu
    rw [h] at houtcome
    cases houtcome with
    | admitted => split_ifs <;> rfl
    | _ => rfl
  · cases hsame
    rfl

theorem of_stepped {s s' : System} {ev : Event} (h : Stepped pkgs ch s ev s') : Tells s.session s'.session := by
  have hpass : s.session.state = .txPublish → s.session.Passes Output.isPrivate pkgs := fun _ _ _ _ _ _ => rfl
  cases h with
  | timeout _ _ h => exact .silent (sends_timeout (fun _ => rfl) hpass h) (.inl (state_timeout h))
  | deliver _ _ h => exact of_handle (h ▸ handle_outcome pkgs ch _ (mu_of_handle h))
  | rest _ h => exact of_finish h
  | read _ _ h => exact of_readMessage h
  | push _ h =>
    rw [JoinSession.pushMaliciousInfo_eq ch _ (mu_of_pushMaliciousInfo h)] at h
    cases h
    exact expelled ch _ _
  | remove =>
    exact .silent ((Sends.refl _).removePeer (fun _ => rfl) _) (.inl (JoinSession.state_removePeer ..))
  | readError _ _ h => exact .silent (sends_readError (fun _ => rfl) hpass h) (.inl (state_readError h))
  | writeError _ _ h => exact .silent (sends_writeError (fun _ => rfl) hpass h) (.inl (state_writeError h))

end Tells

/-! ### What is heard -/

section Views
variable {js js' : JoinSession}

theorem heard_append {sent : List Output} (hout : js'.out = js.out ++ sent) (conn : ℕ) :
    js'.heard conn = js.heard conn ++ sent.filterMap (Output.heardBy conn) := by
  rw [JoinSession.heard, hout, List.filterMap_append, JoinSession.heard]

theorem heard_of_private (h : Sends Output.isPrivate js js') (conn : ℕ) : js'.heard conn = js.heard conn := by
  obtain ⟨sent, hsent, hprivate⟩ := h
  have hnothing : sent.filterMap (Output.heardBy conn) = [] := by
    rw [List.filterMap_eq_nil_iff]
    intro o ho
    have hown := hprivate o ho
    cases o with
    | send receiver msg => cases msg <;> simp_all [Output.heardBy, Output.isPrivate, ServerMessage.common]
    | close _ => rfl
    | post _ => rfl
  rw [heard_append hsent, hnothing, List.append_nil]

/-- One message to each of the peers is heard once by those. -/
theorem filterMap_told {msg : ServerMessage} {own : PeerInfo → ServerMessage} (hown : ∀ peer, (own peer).common = some msg)
    (conn : ℕ) {peers : List PeerInfo} (hnodup : (peers.map (·.conn)).Nodup) :
    (peers.map fun peer => Output.send peer.conn (own peer)).filterMap (Output.heardBy conn) =
      if conn ∈ peers.map (·.conn) then [msg] else [] := by
  induction peers with
  | nil => rfl
  | cons peer peers ih =>
    obtain ⟨hnotin, hnodup⟩ := List.nodup_cons.mp hnodup
    rw [List.map_cons, List.filterMap_cons, ih hnodup]
    by_cases hconn : peer.conn = conn
    · subst hconn
      have hrest : ¬peer.conn ∈ peers.map (·.conn) := hnotin
      simp [Output.heardBy, hown, hrest]
    · simp [Output.heardBy, hconn, Ne.symm hconn]

end Views

/-- What a log says about the round: secrets may be asked for inside of a round. -/
def announced (log : List ServerMessage) : SessionState := log.foldl (fun state msg => msg.opens state) .keyExchange

theorem announced_append (log : List ServerMessage) (msg : ServerMessage) :
    announced (log ++ [msg]) = msg.opens (announced log) := by
  rw [announced, List.foldl_append]
  rfl

/-- The server is in the round that has been announced, or it waits for a publisher
(which it tells nobody else), or for the secrets it has asked for last. -/
def RoundTold (log : List ServerMessage) (state : SessionState) : Prop :=
  state = announced log ∨ state = .txPublish ∨ state = .revealSecret ∧ log.getLast? = some .revealSecret

/-- A message to all tells the round, whatever was the case before. -/
theorem RoundTold.told {log : List ServerMessage} {msg : ServerMessage} {state state' : SessionState}
    (h : RoundTold log state) (hopens : Opens msg state state') : RoundTold (log ++ [msg]) state' := by
  rcases hopens with rfl | ⟨rfl, rfl⟩
  swap
  · exact .inr (.inr ⟨rfl, List.getLast?_concat⟩)
  rw [RoundTold, announced_append, List.getLast?_concat]
  rcases h with rfl | rfl | ⟨rfl, -⟩
  · exact .inl rfl
  · cases msg <;> simp [ServerMessage.opens]
  · cases msg <;> simp [ServerMessage.opens]

theorem RoundTold.silent {log : List ServerMessage} {state state' : SessionState} (h : RoundTold log state)
    (hstate : state' = state ∨ state' = .txPublish) : RoundTold log state' := by
  rcases hstate with rfl | rfl
  · exact h
  · exact .inr (.inl rfl)

/-- The log of a session. -/
structure Logged (log : List ServerMessage) (js : JoinSession) : Prop where
  heard : Heard log js.conns (js.former.map (·.conn)) js.heard
  round : RoundTold log js.state

theorem Logged.step {log : List ServerMessage} {pkgs : Packages} {ch : Choices} {s s' : System} {ev : Event}
    (hlog : Logged log s.session) (h : Stepped pkgs ch s ev s') :
    ∃ log', log <+: log' ∧ Logged log' s'.session ∧
      ∀ conn ∈ s.session.former.map (·.conn), s'.session.heard conn = s.session.heard conn := by
  have hmembers := (conns_subperm_of_effect (effect_of_stepped h)).subset
  have hgroup : Conserves s.session s'.session := .of_stepped h
  cases Tells.of_stepped h with
  | silent hsends hstate =>
    exact ⟨log, List.prefix_rfl, ⟨hlog.heard.silent hmembers hgroup (heard_of_private hsends), hlog.round.silent hstate⟩,
      fun conn _ => heard_of_private hsends conn⟩
  | @told mid msg peers own hsends hout hown hall hstate =>
    have hnodup : s'.session.conns.Nodup := List.Nodup.of_append_left (hgroup.nodup_iff.mpr hlog.heard.nodup)
    have hview : ∀ conn, s'.session.heard conn =
        s.session.heard conn ++ if conn ∈ s'.session.conns then [msg] else [] := by
      intro conn
      rw [heard_append hout, filterMap_told hown conn (hall.nodup_iff.mpr hnodup), heard_of_private hsends]
      simp only [hall.mem_iff]
    have hothers : ∀ conn, conn ∉ s'.session.conns → s'.session.heard conn = s.session.heard conn := by
      intro conn hconn
      rw [hview, if_neg hconn, List.append_nil]
    have hmine : ∀ conn ∈ s'.session.conns, s'.session.heard conn = s.session.heard conn ++ [msg] := by
      intro conn hconn
      rw [hview, if_pos hconn]
    refine ⟨log ++ [msg], List.prefix_append _ _, ⟨hlog.heard.told msg hmembers hgroup hmine hothers,
      hlog.round.told hstate⟩, fun conn hconn => hothers conn fun hmember => ?_⟩
    exact List.disjoint_of_nodup_append hlog.heard.nodup (hmembers hmember) hconn

theorem Reachable.logged {pkgs : Packages} {s : System} (hs : Reachable pkgs s) : ∃ log, Logged log s.session := by
  induction hs with
  | start sessionId roundTimeOut serverPublish queue hconn hid =>
    have hnodup := (@Reachable.start pkgs sessionId roundTimeOut serverPublish queue hconn hid).nodup_everyone
    exact ⟨[], .start (List.Nodup.of_append_left hnodup), .inl rfl⟩
  | step hs h ih =>
    obtain ⟨log, hlog⟩ := ih
    obtain ⟨log', -, hlog', -⟩ := hlog.step (stepped_of_step h)
    exact ⟨log', hlog'⟩

/-- A former member stays one. -/
theorem former_of_stepped {pkgs : Packages} {ch : Choices} {s s' : System} {ev : Event} (hnodup : s.session.everyone.Nodup)
    (h : Stepped pkgs ch s ev s') : s.session.former.map (·.conn) ⊆ s'.session.former.map (·.conn) := by
  intro conn hconn
  have hsome : conn ∈ s'.session.everyone := (Conserves.of_stepped h).mem_iff.mpr (List.mem_append_right _ hconn)
  apply (List.mem_append.mp hsome).resolve_left
  intro hmember
  exact List.disjoint_of_nodup_append hnodup ((conns_subperm_of_effect (effect_of_stepped h)).subset hmember) hconn

/-- What a step of the goroutines adds to the log. -/
theorem Logged.moved {log : List ServerMessage} {pkgs : Packages} {ch : Choices} {w w' : Wired} {a : Action}
    (hlog : Logged log w.system.session) (hnodup : w.system.session.everyone.Nodup) (h : w.Moved pkgs ch a w') :
    ∃ log', log <+: log' ∧ Logged log' w'.system.session ∧ ∀ conn ∈ w.system.session.former.map (·.conn),
      conn ∈ w'.system.session.former.map (·.conn) ∧ w'.system.session.heard conn = w.system.session.heard conn := by
  have hsystem : ∀ {ev s'}, w.system.step pkgs ch ev = some s' → ∃ log', log <+: log' ∧ Logged log' s'.session ∧
      ∀ conn ∈ w.system.session.former.map (·.conn),
        conn ∈ s'.session.former.map (·.conn) ∧ s'.session.heard conn = w.system.session.heard conn := by
    intro ev s' hstep
    obtain ⟨log', hprefix, hlog', hleft⟩ := hlog.step (stepped_of_step hstep)
    exact ⟨log', hprefix, hlog', fun conn hconn =>
      ⟨former_of_stepped hnodup (stepped_of_step hstep) hconn, hleft conn hconn⟩⟩
  have hsame : ∃ log', log <+: log' ∧ Logged log' w.system.session ∧ ∀ conn ∈ w.system.session.former.map (·.conn),
      conn ∈ w.system.session.former.map (·.conn) ∧ w.system.session.heard conn = w.system.session.heard conn :=
    ⟨log, List.prefix_rfl, hlog, fun _ hconn => ⟨hconn, rfl⟩⟩
  cases h with
  | event _ _ hstep => exact hsystem hstep
  | writeError _ hstep => exact hsystem hstep
  | writeFails => exact hsame
  | closed => exact hsame

/-- **All members hear the same in one order** in a run in which nobody's departure goes
unattended, whatever the goroutines do in which order; a former member has heard the
beginning of it and hears nothing more, nobody else hears anything, and what is sent is
received. -/
theorem broadcasts_in_order {pkgs : Packages} {w w' : Wired} (hw : Wired.ReachableBy pkgs Wired.Attended w)
    (hrun : RunsTo (Wired.move pkgs) Wired.Heeds w w') :
    (∃ log log', log <+: log' ∧
      Heard log w.system.session.conns (w.system.session.former.map (·.conn)) w.system.session.heard ∧
      Heard log' w'.system.session.conns (w'.system.session.former.map (·.conn)) w'.system.session.heard ∧
      ∀ conn ∈ w.system.session.former.map (·.conn), w'.system.session.heard conn = w.system.session.heard conn) ∧
    ∀ ch a w'', w'.Attended ch a → w'.step pkgs ch a = some w'' → w'.Received w'' := by
  obtain ⟨log, hlog⟩ := hw.reachable.logged
  refine ⟨?_, fun ch a w'' hmeets hstep => (hw.runsTo hrun).received hmeets hstep⟩
  suffices h : ∃ log', log <+: log' ∧ Logged log' w'.system.session ∧ ∀ conn ∈ w.system.session.former.map (·.conn),
      conn ∈ w'.system.session.former.map (·.conn) ∧ w'.system.session.heard conn = w.system.session.heard conn by
    obtain ⟨log', hprefix, hlog', hleft⟩ := h
    exact ⟨log, log', hprefix, hlog.heard, hlog'.heard, fun conn hconn => (hleft conn hconn).2⟩
  induction hrun with
  | start => exact ⟨log, List.prefix_rfl, hlog, fun _ hconn => ⟨hconn, rfl⟩⟩
  | step hs e hmeets hstep ih =>
    obtain ⟨log₁, hprefix, hlog₁, hleft⟩ := ih
    obtain ⟨log', hprefix', hlog', hleft'⟩ :=
      hlog₁.moved (hw.runsTo hs).reachable.nodup_everyone (Wired.moved_of_step hstep)
    refine ⟨log', hprefix.trans hprefix', hlog', fun conn hconn => ?_⟩
    obtain ⟨hformer, hheard⟩ := hleft conn hconn
    obtain ⟨hformer', hheard'⟩ := hleft' conn hformer
    exact ⟨hformer', hheard'.trans hheard⟩

/-- **A member can tell the round from what it has heard**, as long as no message waits
for a writer that is gone: the server is never in another one, but for the wait for a
publisher and for secrets. -/
theorem round_told {pkgs : Packages} {w : Wired} (hw : Wired.ReachableBy pkgs Wired.Attended w) {conn : ℕ}
    (hconn : conn ∈ w.system.session.conns) : RoundTold (w.system.session.heard conn) w.system.session.state := by
  obtain ⟨log, hlog⟩ := hw.reachable.logged
  rw [hlog.heard.all conn hconn]
  exact hlog.round

/-! The session of two wallets. -/

def walletStart : Wired := .start (newJoinSession 7 60 false (queuePeers [(1, 1), (2, 2)])) fun _ => false

theorem walletStart_reachable : Wired.ReachableBy walletPackages Wired.Attended walletStart :=
  .start 7 60 false [(1, 1), (2, 2)] (by decide) (by decide) fun _ => false

def walletActions : List (Choices × Action) := walletRun.map fun e => (e.1, .event e.2)

/-- The wallets wait for the publisher. -/
def walletEnd : Wired :=
  after (fun w e => if w.quiet e then w.move walletPackages e else none) walletStart walletActions

theorem walletRun_heeded : RunsTo (Wired.move walletPackages) Wired.Heeds walletStart walletEnd :=
  .of_checked Wired.quiet (fun _ _ => Wired.attended_of_quiet) (foldlM_eq_after (by decide +kernel))

theorem broadcasts_in_order_wallets :
    ((∃ log log', log <+: log' ∧
      Heard log walletStart.system.session.conns (walletStart.system.session.former.map (·.conn))
        walletStart.system.session.heard ∧
      Heard log' walletEnd.system.session.conns (walletEnd.system.session.former.map (·.conn))
        walletEnd.system.session.heard ∧
      ∀ conn ∈ walletStart.system.session.former.map (·.conn),
        walletEnd.system.session.heard conn = walletStart.system.session.heard conn) ∧
    ∀ ch a w'', walletEnd.Attended ch a → walletEnd.step walletPackages ch a = some w'' → walletEnd.Received w'') ∧
    walletEnd.system.session.state = .txPublish :=
  ⟨broadcasts_in_order walletStart_reachable walletRun_heeded, by decide +kernel⟩

theorem round_told_wallet : 1 ∈ walletEnd.system.session.conns ∧ walletEnd.system.session.state = .txPublish ∧
    RoundTold (walletEnd.system.session.heard 1) walletEnd.system.session.state :=
  ⟨by decide +kernel, by decide +kernel,
    round_told (walletStart_reachable.runsTo walletRun_heeded) (by decide +kernel)⟩

end Dcrtxmatcher.Coinjoin
