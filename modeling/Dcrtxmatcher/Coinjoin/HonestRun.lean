import Dcrtxmatcher.Coinjoin.Barriers

/-! Runs of peers that follow the protocol.

The last message to all tells the round, and everybody answers it once: an answer waits
at the reader or has been taken. So a session goes from round to round, whatever the
order of the answers, and ends with the transaction that everybody has signed. -/
namespace Dcrtxmatcher.Coinjoin
open Lib

/-! ### What comes of a run -/

/-- The states of a session that nothing comes in between of. -/
def rounds : List SessionState := [.keyExchange, .dcExponential, .dcXor, .txInput, .txSign, .txPublish]

/-- What peer `p` of the queue has said. -/
def Attended.Said (queue : List (ℕ × ℕ)) (t : Attended) (p : ℕ) (msg : ClientMessage) : Prop :=
  ∃ conn, (conn, p) ∈ queue ∧ msg ∈ t.sent conn

/-- What holds along a run of the peers of a queue. -/
structure Attended.Completes (pkgs : Packages) (w : Wallets) (queue : List (ℕ × ℕ)) (t : Attended) : Prop where
  /-- The states come in their order. -/
  visited : t.visited <+: rounds ∧ t.visited.getLast? = some t.system.session.state
  /-- Nobody is ejected. -/
  members : t.system.session.peers.keys.Perm (queue.map Prod.snd) ∧ ∀ o ∈ t.system.session.out, o.ofRound = true
  /-- The run is bounded. -/
  bounded : t.steps ≤ 15 * queue.length
  /-- Answers are read. -/
  read : ∀ e msg conn, e.2 = .read conn (.message msg) → t.Dutiful pkgs w e → (t.step pkgs e).isSome = true
  /-- Before the end the server has something to do, or a peer to answer. -/
  goesOn : t.system.session.state ≠ .txPublish → (∃ e ∈ queue, t.Owes e.1) ∨
    ∃ ev, (ev = .rest ∨ ∃ conn, ev = .deliver conn) ∧
      ∀ ch : Choices, (∀ site, ch.marshal site = true) → (t.step pkgs (ch, ev)).isSome = true
  /-- At the end the transaction is complete. -/
  joined : t.system.session.state = .txPublish → t.visited = rounds ∧ ∃ joinedTx,
    t.system.session.joinedTx = some joinedTx ∧ w.SignedByAll pkgs (queue.map Prod.snd) (t.Said queue) joinedTx

/-! ### Where a run stands -/

section Standing
variable (pkgs : Packages) (w : Wallets) (queue : List (ℕ × ℕ)) (ids : List ℕ)

/-- The answer of a connection to the last of the messages: it has been taken or is still
to come, or it waits at the reader. -/
inductive Answering (t : Attended) (asked : List ServerMessage) (done : List ℕ) (conn : ℕ) : Prop
  | reading (hreader : t.system.readers conn = .reading)
      (hsent : ∀ p, (conn, p) ∈ queue → (t.sent conn).length = asked.length + if p ∈ done then 1 else 0)
  | held {p sessionId : ℕ} {state : SessionState} {msg : ClientMessage} (hmem : (conn, p) ∈ queue) (hnew : p ∉ done)
      (hreader : t.system.readers conn = .sending sessionId state (msg.withPeerId p))
      (hanswers : w.Answers pkgs p asked msg) (hsaid : msg ∈ t.sent conn) (hsent : (t.sent conn).length = asked.length + 1)

/-- Between the last message to all and the last answer. -/
structure Asking (t : Attended) (asked : List ServerMessage) (done : List ℕ) : Prop where
  gathered : Gathered queue ids t.system.session
  barrier : Barrier pkgs w ids done (t.Said queue) t.system.session asked
  late : ∃ q ∈ ids, q ∉ done
  sub : ∀ q ∈ done, q ∈ ids
  nodup : done.Nodup
  loop : (∃ timer, t.system.loop = .select timer) ∨ t.system.loop = .rest .next
  received : ∀ e ∈ queue, t.system.session.received e.1 = asked
  answering : ∀ conn, Answering pkgs w queue t asked done conn
  visited : t.visited = rounds.take (asked.length + 1)
  ofRound : ∀ o ∈ t.system.session.out, o.ofRound = true

/-- A peer has been asked to publish. -/
structure Published (t : Attended) : Prop where
  gathered : Gathered queue ids t.system.session
  state : t.system.session.state = .txPublish
  loop : (∃ timer, t.system.loop = .select timer) ∨ t.system.loop = .rest .next
  readers : ∀ conn, t.system.readers conn = .reading
  sent : ∀ e ∈ queue, (t.sent e.1).length = 5
  visited : t.visited = rounds
  ofRound : ∀ o ∈ t.system.session.out, o.ofRound = true
  joined : ∃ joinedTx, t.system.session.joinedTx = some joinedTx ∧ w.SignedByAll pkgs ids (t.Said queue) joinedTx

inductive Going (t : Attended) : Prop
  | asking {asked : List ServerMessage} {done : List ℕ} (h : Asking pkgs w queue ids t asked done)
  | published (h : Published pkgs w queue ids t)

end Standing

/-! ### How much is left -/

/-- What the loop has to do before it waits again. -/
def LoopPc.resting : LoopPc → ℕ
  | .rest _ => 1
  | _ => 0

/-- What a reader holds. -/
def ReaderPc.holding : ReaderPc → ℕ
  | .sending .. => 1
  | _ => 0

/-- A message is read, taken and dealt with. -/
def Attended.left (t : Attended) (conn : ℕ) : ℕ :=
  3 * (5 - (t.sent conn).length) + 2 * (t.system.readers conn).holding

def Attended.pending (queue : List (ℕ × ℕ)) (t : Attended) : ℕ :=
  ((queue.map Prod.fst).map t.left).sum + t.system.loop.resting

/-- A sum in which one term is another. -/
theorem sum_map_of_others {l : List ℕ} (hnodup : l.Nodup) {c : ℕ} (hc : c ∈ l) {f g : ℕ → ℕ} (h : ∀ a ≠ c, f a = g a) :
    (l.map f).sum + g c = (l.map g).sum + f c := by
  have hrest : (l.erase c).map f = (l.erase c).map g :=
    List.map_congr_left fun a ha => h a ((hnodup.mem_erase_iff.mp ha).1)
  rw [← List.sum_map_erase f hc, ← List.sum_map_erase g hc, hrest]
  omega

/-! ### Messages to all -/

section Received
variable {queue : List (ℕ × ℕ)} {ids : List ℕ} {js js' : JoinSession}

theorem filterMap_sends (l : List PeerInfo) (conn : ℕ) (msg : ServerMessage) :
    (l.filterMap fun peer => if peer.conn = conn then some msg else none) =
      List.replicate ((l.map (·.conn)).count conn) msg := by
  induction l with
  | nil => rfl
  | cons peer l ih =>
    rw [List.filterMap_cons, List.map_cons, List.count_cons, ih]
    by_cases hconn : peer.conn = conn
    · simp [hconn, List.replicate_succ]
    · simp [hconn]

/-- The members are the peers of the queue, each with its connection. -/
theorem Gathered.conns_perm (h : Gathered queue ids js) (hids : ids.Perm (queue.map Prod.snd)) (ch : Choices) (site : List ℕ) :
    ((GoMap.values ch.order site js.peers).map (·.conn)).Perm (queue.map Prod.fst) := by
  have hentries : ((GoMap.toList js.peers).map fun e => (e.2.conn, e.1)).Perm queue := by
    have hkeys : ((GoMap.toList js.peers).map fun e => (e.2.conn, e.1)).map Prod.snd = ids := by
      rw [List.map_map, ← h.keys, GoMap.keys_eq]
      rfl
    refine (List.subperm_of_subset (List.Nodup.of_map Prod.snd ?_) fun e he => ?_).perm_of_length_le ?_
    · rw [hkeys, ← h.keys]
      exact js.peers.keys_nodup
    · obtain ⟨e', he', rfl⟩ := List.mem_map.mp he
      exact (h.member e'.1 e'.2 (GoMap.mem_toList.mp he')).2
    · have hlength := congrArg List.length hkeys
      rw [List.length_map] at hlength
      rw [hlength, hids.length_eq, List.length_map]
  refine ((GoMap.values_perm ch.order site js.peers).map _).trans ((List.Perm.of_eq ?_).trans (hentries.map Prod.fst))
  rw [List.map_map, List.map_map]
  rfl

/-- A message to all is one more for each. -/
theorem received_broadcast (h : Gathered queue ids js') (hids : ids.Perm (queue.map Prod.snd))
    (hconn : (queue.map Prod.fst).Nodup) (ch : Choices) (site : List ℕ) (msg : ServerMessage)
    (hout : js'.out = js.out ++ (GoMap.values ch.order site js'.peers).map fun peer => .send peer.conn msg) {e : ℕ × ℕ}
    (he : e ∈ queue) : js'.received e.1 = js.received e.1 ++ [msg] := by
  have hperm := h.conns_perm hids ch site
  have hcount : ((GoMap.values ch.order site js'.peers).map (·.conn)).count e.1 = 1 :=
    List.count_eq_one_of_mem (hperm.nodup_iff.mpr hconn) (hperm.mem_iff.mpr (List.mem_map_of_mem he))
  have hsends := filterMap_sends (GoMap.values ch.order site js'.peers) e.1 msg
  rw [hcount] at hsends
  rw [JoinSession.received, hout, List.filterMap_append, List.filterMap_map]
  exact congrArg (js.received e.1 ++ ·) hsends

/-- A goroutine of a connection finds its peer, which is a member. -/
theorem Gathered.peerOf (h : Gathered queue ids js) {conn : ℕ} {peer : PeerInfo} (hpeer : js.peerOf conn = some peer) :
    (conn, peer.id) ∈ queue ∧ js.peers.lookup peer.id = some peer := by
  rw [JoinSession.peerOf, h.former, List.append_nil] at hpeer
  have hconn : peer.conn = conn := by simpa using List.find?_some hpeer
  obtain ⟨p, hp⟩ := JoinSession.mem_members.mp (List.mem_of_find?_eq_some hpeer)
  obtain ⟨hid, hmem⟩ := h.member p peer hp
  rw [← hconn, hid]
  exact ⟨hmem, hp⟩

end Received

/-! ### Where the rounds are -/

section Round
variable {pkgs : Packages} {w : Wallets} {ids done : List ℕ} {asked : List ServerMessage} {js : JoinSession}
  {said said' : ℕ → ClientMessage → Prop}

/-- The last message to all tells the state. -/
theorem Barrier.state (h : Barrier pkgs w ids done said js asked) :
    asked.length ≤ 4 ∧ rounds[asked.length]? = some js.state := by
  cases h with
  | keys hstate => exact ⟨by decide, hstate ▸ rfl⟩
  | exponential hstate => exact ⟨by simp, hstate ▸ rfl⟩
  | xor hstate => exact ⟨by simp, hstate ▸ rfl⟩
  | inputs hstate => exact ⟨by simp, hstate ▸ rfl⟩
  | signing hstate => exact ⟨by simp, hstate ▸ rfl⟩

theorem Barrier.mono (h : Barrier pkgs w ids done said js asked) (hsaid : ∀ p msg, said p msg → said' p msg) :
    Barrier pkgs w ids done said' js asked := by
  cases h with
  | keys hstate hrows hjoined hinfos => exact .keys hstate hrows hjoined hinfos
  | exponential hstate hrows hjoined horder => exact .exponential hstate hrows hjoined horder
  | xor hstate hrows hjoined horder hroots => exact .xor hstate hrows hjoined horder hroots
  | inputs hstate hrows hjoined hscripts => exact .inputs hstate hrows hjoined hscripts
  | signing hstate hrows horder hscripts placed hdecode hnone patched hsigned =>
    refine .signing hstate hrows horder hscripts placed hdecode hnone patched fun p hp => ?_
    obtain ⟨signedTx, hsay, htx⟩ := hsigned p hp
    exact ⟨signedTx, hsaid p _ hsay, htx⟩

/-- A reader admits what answers the last message to all. -/
theorem Wallets.Answers.accepted {p : ℕ} {msg : ClientMessage} (h : w.Answers pkgs p asked msg)
    (hstate : rounds[asked.length]? = some js.state) :
    admission msg.kind p js = .accepted ∧ msg.kind ≠ .msgNotFound := by
  have hvalid : msg.kind.validIn js.state = true ∧ msg.kind ≠ .txPublishResult ∧ msg.kind ≠ .msgNotFound := by
    generalize js.state = state at hstate ⊢
    cases msg with
    | keyExchange req =>
      obtain ⟨rfl, -⟩ := h
      cases hstate
      exact ⟨rfl, Kind.noConfusion, Kind.noConfusion⟩
    | dcExpVector data =>
      obtain ⟨peers, rfl, -⟩ := h
      cases hstate
      exact ⟨rfl, Kind.noConfusion, Kind.noConfusion⟩
    | dcXorVector data =>
      obtain ⟨peers, len, msgs, rfl, -⟩ := h
      cases hstate
      exact ⟨rfl, Kind.noConfusion, Kind.noConfusion⟩
    | txInputs txins =>
      obtain ⟨first, second, msgs, rfl, -⟩ := h
      cases hstate
      exact ⟨rfl, Kind.noConfusion, Kind.noConfusion⟩
    | txSigned signedTx =>
      obtain ⟨first, second, third, bytes, unsigned, tx, rfl, -⟩ := h
      cases hstate
      exact ⟨rfl, Kind.noConfusion, Kind.noConfusion⟩
    | _ => exact h.elim
  obtain ⟨hvalid, hpublish, hfound⟩ := hvalid
  simp [admission, hvalid, hpublish, hfound]

/-- Reading an answer leaves the session alone. -/
theorem readMessage_of_answers {peer : PeerInfo} {msg : ClientMessage} (h : w.Answers pkgs peer.id asked msg)
    (hstate : rounds[asked.length]? = some js.state) (hmu : js.mu = false) :
    readMessage peer (.message msg) js = .ok (.sending js.id js.state (msg.withPeerId peer.id), js) := by
  obtain ⟨haccepted, hfound⟩ := h.accepted hstate
  have houtcome := readMessage_outcome peer (.message msg) hmu
  generalize readMessage peer (.message msg) js = r at houtcome ⊢
  cases houtcome with
  | refused hraw hrefused =>
    cases hraw
    exact Admission.noConfusion (haccepted.symm.trans hrefused)
  | locked hraw => exact absurd (Option.some_inj.mp hraw) hfound
  | admitted => rw [if_neg hfound]

end Round

/-! ### One step -/

/-- What a run of these peers relies on. -/
structure Meeting (pkgs : Packages) (w : Wallets) (queue : List (ℕ × ℕ)) (ids : List ℕ) : Prop where
  wallets : w.Match pkgs ids
  codec : w.Encodable pkgs ids
  flint : pkgs.flint.Correct fieldPrime
  laws : pkgs.XorLaws
  two : 2 ≤ ids.length
  perm : ids.Perm (queue.map Prod.snd)
  conns : (queue.map Prod.fst).Nodup
  peers : (queue.map Prod.snd).Nodup

section Step
variable {pkgs : Packages} {w : Wallets} {queue : List (ℕ × ℕ)} {ids done : List ℕ} {asked : List ServerMessage}
  {t t' : Attended}

namespace Meeting

theorem peer_eq (hm : Meeting pkgs w queue ids) {conn p q : ℕ} (hp : (conn, p) ∈ queue) (hq : (conn, q) ∈ queue) : p = q :=
  congrArg Prod.snd (List.inj_on_of_nodup_map hm.conns hp hq rfl)

theorem conn_eq (hm : Meeting pkgs w queue ids) {conn conn' p : ℕ} (hp : (conn, p) ∈ queue) (hq : (conn', p) ∈ queue) :
    conn = conn' :=
  congrArg Prod.fst (List.inj_on_of_nodup_map hm.peers hp hq rfl)

theorem mem_ids (hm : Meeting pkgs w queue ids) {conn p : ℕ} (hp : (conn, p) ∈ queue) : p ∈ ids :=
  hm.perm.mem_iff.mpr (List.mem_map_of_mem hp)

theorem exists_mem (hm : Meeting pkgs w queue ids) : ∃ p, p ∈ ids :=
  List.exists_mem_of_length_pos (Nat.lt_of_lt_of_le Nat.two_pos hm.two)

/-- With members left the loop goes on. -/
theorem finish_next (hm : Meeting pkgs w queue ids) {js : JoinSession} (h : Gathered queue ids js) (ch : Choices) :
    finish ch .next js = .ok (true, js) := by
  have hlen : GoMap.len js.peers ≠ 0 := by
    rw [← GoMap.length_keys, h.keys]
    exact (Nat.lt_of_lt_of_le Nat.two_pos hm.two).ne'
  rw [finish_free ch _ h.mu, if_neg fun hexit => Exit.noConfusion hexit.1]
  exact congrArg Except.ok (Prod.ext (decide_eq_true ⟨rfl, hlen⟩) rfl)

end Meeting

/-- A step of one connection, in which there is less left to do. -/
theorem Attended.pending_step (hconns : (queue.map Prod.fst).Nodup) {conn p : ℕ} (hmem : (conn, p) ∈ queue)
    (hsent : ∀ a ≠ conn, t'.sent a = t.sent a) (hreaders : ∀ a ≠ conn, t'.system.readers a = t.system.readers a)
    (hless : t'.left conn + t'.system.loop.resting + 1 = t.left conn + t.system.loop.resting) :
    t'.pending queue + 1 = t.pending queue := by
  have hothers : ∀ a ≠ conn, t'.left a = t.left a := by
    intro a ha
    rw [left, left, hsent a ha, hreaders a ha]
  have hconn : conn ∈ queue.map Prod.fst := List.mem_map_of_mem (f := Prod.fst) hmem
  have hsum := sum_map_of_others hconns hconn hothers
  rw [pending, pending]
  omega

/-- The loop is back at the select. -/
theorem Going.rest (hm : Meeting pkgs w queue ids) (h : Going pkgs w queue ids t) {ch : Choices} {d : Done} {running : Bool}
    {js : JoinSession} (hloop : t.system.loop = .rest d) (hfinish : finish ch d t.system.session = .ok (running, js)) :
    Going pkgs w queue ids { t with
      system := { t.system with session := js, loop := System.loopTo js running }
      steps := t.steps + 1 } ∧ js = t.system.session ∧ running = true := by
  cases h with
  | asking h =>
    rcases h.loop with ⟨timer, hselect⟩ | hrest
    · exact LoopPc.noConfusion (hselect.symm.trans hloop)
    · cases hrest.symm.trans hloop
      rw [hm.finish_next h.gathered] at hfinish
      cases hfinish
      refine ⟨.asking { h with loop := .inl ⟨_, rfl⟩, answering := fun conn => ?_ }, rfl, rfl⟩
      cases h.answering conn with
      | reading hreader hsent => exact .reading hreader hsent
      | held hmem hnew hreader hanswers hsaid hsent => exact .held hmem hnew hreader hanswers hsaid hsent
  | published h =>
    rcases h.loop with ⟨timer, hselect⟩ | hrest
    · exact LoopPc.noConfusion (hselect.symm.trans hloop)
    · cases hrest.symm.trans hloop
      rw [hm.finish_next h.gathered] at hfinish
      cases hfinish
      exact ⟨.published { h with loop := .inl ⟨_, rfl⟩ }, rfl, rfl⟩

/-- Who owes an answer is asked, and its reader waits for it. -/
theorem Asking.owes (h : Asking pkgs w queue ids t asked done) {conn p : ℕ} (hmem : (conn, p) ∈ queue) :
    t.Owes conn ↔ t.system.readers conn = .reading ∧ p ∉ done := by
  have hround := h.barrier.state.1
  rw [Attended.Owes, h.received _ hmem]
  cases h.answering conn with
  | reading hreader hsent =>
    rw [hsent p hmem]
    by_cases hp : p ∈ done
    · simp [hp]
    · simp [hp, hreader, Nat.lt_succ_of_le hround]
  | held _ _ hreader _ _ hsent => simp [hsent, hreader]

/-- In the end nobody owes an answer. -/
theorem Published.not_owes (h : Published pkgs w queue ids t) {conn p : ℕ} (hmem : (conn, p) ∈ queue) : ¬t.Owes conn := by
  intro howes
  have hsent := howes.2
  rw [h.sent _ hmem] at hsent
  exact Nat.lt_irrefl _ hsent

/-- The reader of `conn` holds a message of peer `p`. -/
def Attended.admitted (t : Attended) (conn p : ℕ) (msg : ClientMessage) : Attended where
  system := { t.system with
    readers := t.system.setReader conn (.sending t.system.session.id t.system.session.state (msg.withPeerId p)) }
  sent := Function.update t.sent conn (t.sent conn ++ [msg])
  visited := t.visited
  steps := t.steps + 1

/-- An answer is read. -/
theorem Asking.read (h : Asking pkgs w queue ids t asked done) {conn : ℕ} {peer : PeerInfo}
    {msg : ClientMessage} (howes : t.Owes conn) (hpeer : t.system.session.peerOf conn = some peer)
    (hanswers : w.Answers pkgs peer.id (t.system.session.received conn) msg) :
    (conn, peer.id) ∈ queue ∧ t.system.readers conn = .reading ∧
      readMessage peer (.message msg) t.system.session =
        .ok (.sending t.system.session.id t.system.session.state (msg.withPeerId peer.id), t.system.session) ∧
      Asking pkgs w queue ids (t.admitted conn peer.id msg) asked done := by
  obtain ⟨hmem, -⟩ := h.gathered.peerOf hpeer
  rw [h.received _ hmem] at hanswers
  obtain ⟨hreader, hnew⟩ := (h.owes hmem).mp howes
  have hround := h.barrier.state
  refine ⟨hmem, hreader, readMessage_of_answers hanswers hround.2 h.gathered.mu, ?_⟩
  have hsaid : ∀ p msg', t.Said queue p msg' → ∃ conn', (conn', p) ∈ queue ∧
      msg' ∈ Function.update t.sent conn (t.sent conn ++ [msg]) conn' := by
    intro p msg' hsay
    obtain ⟨conn', hmem', hmsg⟩ := hsay
    refine ⟨conn', hmem', ?_⟩
    by_cases hconn : conn' = conn
    · subst hconn
      rw [Function.update_self]
      exact List.mem_append_left _ hmsg
    · rwa [Function.update_of_ne hconn]
  refine { h with barrier := h.barrier.mono hsaid, answering := fun conn' => ?_ }
  by_cases hconn : conn' = conn
  · subst hconn
    have hsent := howes.1
    rw [h.received _ hmem] at hsent
    refine .held hmem hnew (Function.update_self ..) hanswers ?_ ?_ <;> dsimp only [Attended.admitted] <;>
      rw [Function.update_self]
    · exact List.mem_append_right _ (List.mem_singleton_self msg)
    · rw [List.length_append, hsent, List.length_singleton]
  · cases h.answering conn' with
    | reading hreader' hsent' =>
      refine .reading ((Function.update_of_ne hconn ..).trans hreader') ?_
      dsimp only [Attended.admitted]
      rwa [Function.update_of_ne hconn]
    | held hmem' hnew' hreader' hanswers' hsaid' hsent' =>
      refine .held hmem' hnew' ((Function.update_of_ne hconn ..).trans hreader') hanswers' ?_ ?_ <;>
        dsimp only [Attended.admitted] <;> rwa [Function.update_of_ne hconn]

/-- The session can take what a reader holds. -/
theorem Asking.passes (hm : Meeting pkgs w queue ids) (h : Asking pkgs w queue ids t asked done) {conn sessionId : ℕ}
    {state : SessionState} {msg : ClientMessage} (hreader : t.system.readers conn = .sending sessionId state msg)
    {ch : Choices} (hmarshal : ∀ site, ch.marshal site = true) :
    ∃ p js', (conn, p) ∈ queue ∧ p ∉ done ∧ (t.sent conn).length = asked.length + 1 ∧
      handle pkgs ch t.system.session msg = .ok (.next, js') ∧
      Passed pkgs w ids done queue (t.Said queue) ch p t.system.session asked js' := by
  cases h.answering conn with
  | reading hreading => exact ReaderPc.noConfusion (hreading.symm.trans hreader)
  | held hmem hnew hheld hanswers hsaid hsent =>
    cases hheld.symm.trans hreader
    obtain ⟨js', hhandle, hpassed⟩ := Coinjoin.passes ⟨h.gathered, hm.mem_ids hmem, hnew, h.sub, h.nodup⟩ hm.wallets hm.flint
      hm.laws hm.codec hm.two hmarshal h.barrier hanswers ⟨conn, hmem, hsaid⟩
    exact ⟨_, js', hmem, hnew, hsent, hhandle, hpassed⟩

/-- The session has taken what the reader of `conn` held. -/
def Attended.taken (t : Attended) (conn : ℕ) (js : JoinSession) : Attended where
  system := { t.system with session := js, loop := .rest .next, readers := t.system.setReader conn .reading }
  sent := t.sent
  visited := if js.state = t.system.session.state then t.visited else t.visited ++ [js.state]
  steps := t.steps + 1

/-- One peer more is done. -/
theorem Asking.answering_next (hm : Meeting pkgs w queue ids) (h : Asking pkgs w queue ids t asked done) {conn p : ℕ}
    (hmem : (conn, p) ∈ queue) (hsent : (t.sent conn).length = asked.length + 1) (js : JoinSession) (conn' : ℕ) :
    Answering pkgs w queue (t.taken conn js) asked (done ++ [p]) conn' := by
  by_cases hconn : conn' = conn
  · subst hconn
    refine .reading (Function.update_self ..) fun q hq => ?_
    rw [hm.peer_eq hq hmem, if_pos mem_next_self]
    exact hsent
  · have hother : ∀ q, (conn', q) ∈ queue → q ≠ p := by
      intro q hq heq
      subst heq
      exact hconn (hm.conn_eq hq hmem)
    cases h.answering conn' with
    | reading hreader hsent' =>
      refine .reading ((Function.update_of_ne hconn ..).trans hreader) fun q hq => ?_
      rw [ite_mem_next (hother q hq)]
      exact hsent' q hq
    | held hmem' hnew hreader hanswers hsaid hsent' =>
      exact .held hmem' (mt (mem_next_iff (hother _ hmem')).mp hnew) ((Function.update_of_ne hconn ..).trans hreader)
        hanswers hsaid hsent'

/-- Once all are done every reader waits. -/
theorem reading_of_all (hm : Meeting pkgs w queue ids) (hall : ∀ q ∈ ids, q ∈ done) {conn : ℕ}
    (h : Answering pkgs w queue t asked done conn) :
    t.system.readers conn = .reading ∧ ∀ p, (conn, p) ∈ queue → (t.sent conn).length = asked.length + 1 := by
  cases h with
  | reading hreader hsent =>
    refine ⟨hreader, fun p hp => ?_⟩
    rw [hsent p hp, if_pos (hall p (hm.mem_ids hp))]
  | held hmem hnew => exact absurd (hall _ (hm.mem_ids hmem)) hnew

/-- The next round is another state. -/
theorem visited_next {n : ℕ} {state state' : SessionState} (hstate : rounds[n]? = some state)
    (hnext : rounds[n + 1]? = some state') :
    (if state' = state then rounds.take (n + 1) else rounds.take (n + 1) ++ [state']) = rounds.take (n + 1 + 1) := by
  have hne : state' ≠ state := by
    intro heq
    rw [heq, ← hstate] at hnext
    have hn := (List.getElem?_inj (List.getElem?_eq_some_iff.mp (hnext.trans hstate)).1 (by decide)).mp hnext
    omega
  rw [if_neg hne, List.take_add_one (i := n + 1), hnext]
  rfl

/-- An answer is taken. -/
theorem Asking.deliver (hm : Meeting pkgs w queue ids) (h : Asking pkgs w queue ids t asked done) {ch : Choices} {conn p : ℕ}
    {js' : JoinSession} (hmem : (conn, p) ∈ queue) (hnew : p ∉ done) (hsent : (t.sent conn).length = asked.length + 1)
    (hpassed : Passed pkgs w ids done queue (t.Said queue) ch p t.system.session asked js') :
    Going pkgs w queue ids (t.taken conn js') := by
  have hnext : Next queue ids done p t.system.session := ⟨h.gathered, hm.mem_ids hmem, hnew, h.sub, h.nodup⟩
  have hround := h.barrier.state
  have hanswering := h.answering_next hm hmem hsent js'
  cases hpassed with
  | waits hgathered hlate hbarrier hout =>
    have hstate : js'.state = t.system.session.state := Option.some_inj.mp (hbarrier.state.2.symm.trans hround.2)
    refine .asking ⟨hgathered, hbarrier, hlate, hnext.sub_next, hnext.nodup_next, .inr rfl, fun e he => ?_, hanswering,
      (if_pos hstate).trans h.visited, fun o ho => h.ofRound o (hout ▸ ho)⟩
    rw [← h.received e he]
    exact congrArg (List.filterMap _) hout
  | @opens msg site hout hmsg hgathered hall hbarrier =>
    have hstate := hbarrier.state.2
    rw [List.length_append, List.length_singleton] at hstate
    refine .asking ⟨hgathered, hbarrier, ?_, fun q hq => absurd hq List.not_mem_nil, List.nodup_nil, .inr rfl,
      fun e he => ?_, fun conn' => ?_, ?_, fun o ho => ?_⟩
    · obtain ⟨q, hq⟩ := hm.exists_mem
      exact ⟨q, hq, List.not_mem_nil⟩
    · rw [← h.received e he]
      exact received_broadcast hgathered hm.perm hm.conns ch [site] msg hout he
    · obtain ⟨hreader, hlength⟩ := reading_of_all hm hall (hanswering conn')
      refine .reading hreader fun q hq => ?_
      rw [hlength q hq, if_neg List.not_mem_nil, List.length_append, List.length_singleton]
    · rw [List.length_append, List.length_singleton, ← visited_next hround.2 hstate, ← h.visited]
      rfl
    · rcases List.mem_append.mp (hout ▸ ho) with ho | ho
      · exact h.ofRound o ho
      · obtain ⟨peer, -, rfl⟩ := List.mem_map.mp ho
        exact hmsg peer.conn
  | ends hout hgathered hall hasked hstate hpublisher hjoined hsigned =>
    refine .published ⟨hgathered, hstate, .inr rfl, fun conn' => (reading_of_all hm hall (hanswering conn')).1,
      fun e he => ?_, ?_, fun o ho => ?_, _, hjoined, hsigned⟩
    · rw [(reading_of_all hm hall (hanswering e.1)).2 e.2 he, hasked]
    · have hvisited := visited_next hround.2 (show rounds[asked.length + 1]? = some js'.state by rw [hasked, hstate]; rfl)
      rw [hasked] at hvisited
      change (if js'.state = t.system.session.state then t.visited else t.visited ++ [js'.state]) = _
      rw [h.visited, hasked, hvisited]
      rfl
    · rcases List.mem_append.mp (hout ▸ ho) with ho | ho
      · exact h.ofRound o ho
      · rw [List.mem_singleton.mp ho]
        rfl

/-- Every step is one of a bounded number. -/
theorem Going.step (hm : Meeting pkgs w queue ids) (h : Going pkgs w queue ids t) {e : Choices × Event}
    (hok : t.Dutiful pkgs w e) (hstep : t.step pkgs e = some t') :
    Going pkgs w queue ids t' ∧ t'.steps = t.steps + 1 ∧ t'.pending queue + 1 = t.pending queue := by
  obtain ⟨s', hsystem, rfl⟩ := Option.map_eq_some_iff.mp hstep
  obtain ⟨ch, ev⟩ := e
  obtain ⟨hmarshal, hev⟩ := hok
  cases stepped_of_step hsystem with
  | rest hloop hfinish =>
    obtain ⟨hgoing, rfl, rfl⟩ := h.rest hm hloop hfinish
    refine ⟨?_, rfl, ?_⟩
    · rw [if_pos rfl]
      exact hgoing
    · rw [Attended.pending, Attended.pending, hloop]
      rfl
  | @deliver conn _ _ msg _ d js hloop hreader hhandle =>
    cases h with
    | asking h =>
      obtain ⟨p, js', hmem, hnew, hsent, hpasses, hpassed⟩ := h.passes hm hreader hmarshal
      cases hpasses.symm.trans hhandle
      refine ⟨h.deliver hm hmem hnew hsent hpassed, rfl, ?_⟩
      change (t.taken conn js).pending queue + 1 = _
      refine Attended.pending_step hm.conns hmem (fun _ _ => rfl) (fun a ha => Function.update_of_ne ha ..) ?_
      have hreading : (t.taken conn js).system.readers conn = .reading := Function.update_self ..
      rw [Attended.left, Attended.left, hreading, hreader, hloop]
      change 3 * (5 - (t.sent conn).length) + 2 * 0 + 1 + 1 = 3 * (5 - (t.sent conn).length) + 2 * 1 + 0
      omega
    | published h => exact ReaderPc.noConfusion ((h.readers conn).symm.trans hreader)
  | @read conn raw peer pc js hreader hpeer hread =>
    cases raw with
    | message msg =>
      obtain ⟨howes, peer', hpeer', hanswers⟩ := hev
      cases hpeer.symm.trans hpeer'
      cases h with
      | asking h =>
        obtain ⟨hmem, hreading, hheld, hasking⟩ := h.read howes hpeer hanswers
        cases hheld.symm.trans hread
        rw [if_pos rfl]
        refine ⟨.asking hasking, rfl, ?_⟩
        change (t.admitted conn peer.id msg).pending queue + 1 = _
        refine Attended.pending_step hm.conns hmem (fun a ha => Function.update_of_ne ha ..)
          (fun a ha => Function.update_of_ne ha ..) ?_
        have hholds : (t.admitted conn peer.id msg).system.readers conn =
          .sending t.system.session.id t.system.session.state (msg.withPeerId peer.id) := Function.update_self ..
        have hsent : (t.admitted conn peer.id msg).sent conn = t.sent conn ++ [msg] := Function.update_self ..
        have hfew := howes.2
        rw [Attended.left, Attended.left, hholds, hreading, hsent, List.length_append, List.length_singleton]
        change 3 * (5 - ((t.sent conn).length + 1)) + 2 * 1 + t.system.loop.resting + 1 =
          3 * (5 - (t.sent conn).length) + 2 * 0 + t.system.loop.resting
        omega
      | published h => exact absurd howes (h.not_owes (h.gathered.peerOf hpeer).1)
    | _ => exact hev.elim
  | _ => exact hev.elim

/-- The reader can go on with an answer. -/
theorem Going.read (h : Going pkgs w queue ids t) {ch : Choices} {conn : ℕ} {msg : ClientMessage}
    (hok : t.Dutiful pkgs w (ch, .read conn (.message msg))) :
    (t.step pkgs (ch, .read conn (.message msg))).isSome = true := by
  obtain ⟨-, howes, peer, hpeer, hanswers⟩ := hok
  cases h with
  | asking h =>
    obtain ⟨-, hreading, hheld, -⟩ := h.read howes hpeer hanswers
    rw [Attended.step, Option.isSome_map]
    simp only [System.step, hreading, hpeer, hheld]
    rfl
  | published h => exact absurd howes (h.not_owes (h.gathered.peerOf hpeer).1)

/-- The server waits for a peer, or has an answer to deal with. -/
theorem Asking.goesOn (hm : Meeting pkgs w queue ids) (h : Asking pkgs w queue ids t asked done) :
    (∃ e ∈ queue, t.Owes e.1) ∨ ∃ ev, (ev = .rest ∨ ∃ conn, ev = .deliver conn) ∧
      ∀ ch : Choices, (∀ site, ch.marshal site = true) → (t.step pkgs (ch, ev)).isSome = true := by
  rcases h.loop with ⟨timer, hselect⟩ | hrest
  · obtain ⟨q, hq, hlate⟩ := h.late
    obtain ⟨⟨conn, q'⟩, hmem, rfl⟩ := List.mem_map.mp (hm.perm.mem_iff.mp hq)
    cases hanswering : t.system.readers conn with
    | reading => exact .inl ⟨_, hmem, (h.owes hmem).mpr ⟨hanswering, hlate⟩⟩
    | sending sessionId state msg =>
      refine .inr ⟨.deliver conn, .inr ⟨conn, rfl⟩, fun ch hmarshal => ?_⟩
      obtain ⟨p, js', -, -, -, hhandle, -⟩ := h.passes hm hanswering hmarshal
      rw [Attended.step, Option.isSome_map]
      simp only [System.step, hselect, hanswering, hhandle]
      rfl
    | _ =>
      cases h.answering conn with
      | reading hreader => exact ReaderPc.noConfusion (hreader.symm.trans hanswering)
      | held _ _ hreader => exact ReaderPc.noConfusion (hreader.symm.trans hanswering)
  · refine .inr ⟨.rest, .inl rfl, fun ch _ => ?_⟩
    rw [Attended.step, Option.isSome_map]
    simp only [System.step, hrest, hm.finish_next h.gathered]
    rfl

/-- What is known of the run is what is to come of it. -/
theorem Going.visited (h : Going pkgs w queue ids t) :
    ∃ n, t.visited = rounds.take (n + 1) ∧ rounds[n]? = some t.system.session.state := by
  cases h with
  | asking h => exact ⟨_, h.visited, h.barrier.state.2⟩
  | published h => exact ⟨5, h.visited, h.state ▸ rfl⟩

theorem Going.gathered (h : Going pkgs w queue ids t) : Gathered queue ids t.system.session := by
  cases h with
  | asking h => exact h.gathered
  | published h => exact h.gathered

theorem Going.ofRound (h : Going pkgs w queue ids t) : ∀ o ∈ t.system.session.out, o.ofRound = true := by
  cases h with
  | asking h => exact h.ofRound
  | published h => exact h.ofRound

/-- While answers are missing nobody publishes. -/
theorem Asking.state_ne (h : Asking pkgs w queue ids t asked done) : t.system.session.state ≠ .txPublish := by
  intro hstate
  obtain ⟨hfew, hround⟩ := h.barrier.state
  rw [hstate] at hround
  have hlast := (List.getElem?_inj (i := asked.length) (j := 5) (Nat.lt_of_le_of_lt hfew (by decide)) (by decide)).mp hround
  omega

end Step

/-! ### The whole run -/

section Perm
variable {pkgs : Packages} {w : Wallets} {ids ids' : List ℕ}

theorem Wallets.Match.perm (h : w.Match pkgs ids') (hperm : ids.Perm ids') : w.Match pkgs ids where
  keys p hp := h.keys p (hperm.mem_iff.mp hp)
  scripts p hp := h.scripts p (hperm.mem_iff.mp hp)
  size p hp := h.size p (hperm.mem_iff.mp hp)
  total := (hperm.map _).sum_eq.trans_le h.total
  distinct := ((hperm.flatMap_right w.scripts).map _).nodup_iff.mpr h.distinct
  pad p hp q hq := h.pad p (hperm.mem_iff.mp hp) q (hperm.mem_iff.mp hq)
  xorPad p hp q hq := h.xorPad p (hperm.mem_iff.mp hp) q (hperm.mem_iff.mp hq)
  nonzero p hp := by
    rw [honestVector_perm hperm, show w.total ids = w.total ids' from (hperm.map _).sum_eq]
    exact h.nonzero p (hperm.mem_iff.mp hp)
  price := h.price
  unsigned p hp := h.unsigned p (hperm.mem_iff.mp hp)
  covered p hp := h.covered p (hperm.mem_iff.mp hp)

theorem Wallets.Encodable.perm (h : w.Encodable pkgs ids') (hperm : ids.Perm ids') : w.Encodable pkgs ids where
  unsigned order scripts horder hscripts :=
    h.unsigned order scripts (horder.trans hperm) (hscripts.trans (hperm.flatMap_right w.scripts))
  signed order scripts tx horder hscripts :=
    h.signed order scripts tx (horder.trans hperm) (hscripts.trans (hperm.flatMap_right w.scripts))

theorem Wallets.SignedByAll.perm {said : ℕ → ClientMessage → Prop} {joinedTx : MsgTx} (h : w.SignedByAll pkgs ids said joinedTx)
    (hperm : ids.Perm ids') : w.SignedByAll pkgs ids' said joinedTx := by
  obtain ⟨order, scripts, place, horder, hscripts, hplaced, hsame, hsigned⟩ := h
  exact ⟨order, scripts, place, horder.trans hperm, hscripts.trans (hperm.flatMap_right w.scripts), hplaced, hsame,
    fun p hp => hsigned p (hperm.mem_iff.mpr hp)⟩

end Perm

section Whole
variable {pkgs : Packages} {w : Wallets} {queue : List (ℕ × ℕ)}

theorem newJoinSession_keys_perm (sessionId roundTimeOut : ℕ) (serverPublish : Bool) (hid : (queue.map Prod.snd).Nodup) :
    (newJoinSession sessionId roundTimeOut serverPublish (queuePeers queue)).peers.keys.Perm (queue.map Prod.snd) := by
  have hentries : (queue.map fun e => (e.2, newPeer e.1 e.2)).map Prod.fst = queue.map Prod.snd := by
    rw [List.map_map]
    rfl
  rw [newJoinSession, GoMap.keys_mapVal, GoMap.keys_eq, ← hentries]
  exact (GoMap.toList_ofList (hentries ▸ hid)).map Prod.fst

/-- At the start nobody has answered. -/
theorem Asking.start {ids : List ℕ} (sessionId roundTimeOut : ℕ)
    (hkeys : (newJoinSession sessionId roundTimeOut false (queuePeers queue)).peers.keys = ids) (h2 : 2 ≤ ids.length) :
    Asking pkgs w queue ids (.start (newJoinSession sessionId roundTimeOut false (queuePeers queue))) [] [] where
  gathered := ⟨rfl, rfl, rfl, rfl, hkeys, fun p peer hp => by
    obtain ⟨conn, hmem, rfl⟩ := lookup_newJoinSession _ _ _ hp
    exact ⟨rfl, hmem⟩⟩
  barrier := .keys rfl (fun p peer hp => by
    obtain ⟨conn, -, rfl⟩ := lookup_newJoinSession _ _ _ hp
    exact ⟨fun h => absurd h List.not_mem_nil, rfl, rfl, rfl, rfl, rfl⟩) rfl rfl
  late := by
    obtain ⟨q, hq⟩ := List.exists_mem_of_length_pos (Nat.lt_of_lt_of_le Nat.two_pos h2)
    exact ⟨q, hq, List.not_mem_nil⟩
  sub q hq := absurd hq List.not_mem_nil
  nodup := List.nodup_nil
  loop := by
    refine .inl ⟨_, if_pos (decide_eq_true ?_)⟩
    rw [← GoMap.length_keys, hkeys]
    exact (Nat.lt_of_lt_of_le Nat.two_pos h2).ne'
  received e _ := rfl
  answering conn := .reading rfl fun p _ => rfl
  visited := rfl
  ofRound o ho := absurd ho List.not_mem_nil

/-- How far a run has come, and how much of it is left. -/
structure OnCourse (pkgs : Packages) (w : Wallets) (queue : List (ℕ × ℕ)) (ids : List ℕ) (t : Attended) : Prop where
  going : Going pkgs w queue ids t
  budget : t.steps + t.pending queue = 15 * queue.length

theorem onCourse_start {ids : List ℕ} (sessionId roundTimeOut : ℕ)
    (hkeys : (newJoinSession sessionId roundTimeOut false (queuePeers queue)).peers.keys = ids) (h2 : 2 ≤ ids.length) :
    OnCourse pkgs w queue ids (.start (newJoinSession sessionId roundTimeOut false (queuePeers queue))) where
  going := .asking (.start sessionId roundTimeOut hkeys h2)
  budget := by
    generalize newJoinSession sessionId roundTimeOut false (queuePeers queue) = js
    have hresting : (Attended.start js).system.loop.resting = 0 := by
      change (System.loopTo js _).resting = 0
      rw [System.loopTo]
      split_ifs <;> rfl
    have hleft : ((queue.map Prod.fst).map (Attended.start js).left).sum = queue.length * 15 := by
      change ((queue.map Prod.fst).map fun _ => 15).sum = _
      rw [List.map_const', List.sum_replicate, List.length_map, smul_eq_mul]
    rw [Attended.pending, hresting, hleft]
    exact (Nat.zero_add _).trans (Nat.mul_comm ..)

theorem onCourse_step {ids : List ℕ} {t t' : Attended} {e : Choices × Event} (hm : Meeting pkgs w queue ids)
    (h : OnCourse pkgs w queue ids t) (hok : t.Dutiful pkgs w e) (hstep : t.step pkgs e = some t') :
    OnCourse pkgs w queue ids t' := by
  obtain ⟨hgoing, hsteps, hpending⟩ := h.going.step hm hok hstep
  refine ⟨hgoing, ?_⟩
  have hbudget := h.budget
  omega

/-- The members meet, and the run is on course from the start. -/
theorem exists_meeting (hflint : pkgs.flint.Correct fieldPrime) (hlaws : pkgs.XorLaws) (hconn : (queue.map Prod.fst).Nodup)
    (hid : (queue.map Prod.snd).Nodup) (h2 : 2 ≤ queue.length) (hw : w.Match pkgs (queue.map Prod.snd))
    (hcodec : w.Encodable pkgs (queue.map Prod.snd)) (sessionId roundTimeOut : ℕ) :
    ∃ ids, Meeting pkgs w queue ids ∧
      OnCourse pkgs w queue ids (.start (newJoinSession sessionId roundTimeOut false (queuePeers queue))) := by
  have hperm := newJoinSession_keys_perm sessionId roundTimeOut false hid
  obtain ⟨ids, hkeys⟩ : ∃ ids, (newJoinSession sessionId roundTimeOut false (queuePeers queue)).peers.keys = ids := ⟨_, rfl⟩
  rw [hkeys] at hperm
  have htwo : 2 ≤ ids.length := by rwa [hperm.length_eq, List.length_map]
  exact ⟨ids, ⟨hw.perm hperm, hcodec.perm hperm, hflint, hlaws, htwo, hperm, hconn, hid⟩,
    onCourse_start sessionId roundTimeOut hkeys htwo⟩

/-- **Honest run**: peers that follow the protocol go through the rounds together, and get
the transaction that all of them have signed. -/
theorem honest_run (hflint : pkgs.flint.Correct fieldPrime) (hlaws : pkgs.XorLaws) (hconn : (queue.map Prod.fst).Nodup)
    (hid : (queue.map Prod.snd).Nodup) (h2 : 2 ≤ queue.length) (hw : w.Match pkgs (queue.map Prod.snd))
    (hcodec : w.Encodable pkgs (queue.map Prod.snd)) {sessionId roundTimeOut : ℕ} {t : Attended}
    (hrun : RunsTo (Attended.step pkgs) (Attended.Dutiful pkgs w)
      (.start (newJoinSession sessionId roundTimeOut false (queuePeers queue))) t) : t.Completes pkgs w queue := by
  obtain ⟨ids, hm, hstart⟩ := exists_meeting hflint hlaws hconn hid h2 hw hcodec sessionId roundTimeOut
  have hperm := hm.perm
  have hinv : OnCourse pkgs w queue ids t := hrun.invariant hstart fun _ _ _ => onCourse_step hm
  have hgoing := hinv.going
  have hbudget := hinv.budget
  obtain ⟨n, hvisited, hstate⟩ := hgoing.visited
  refine ⟨⟨?_, ?_⟩, ⟨?_, hgoing.ofRound⟩, by omega, fun e msg conn he hok => ?_, fun hne => ?_, fun hpublish => ?_⟩
  · rw [hvisited]
    exact List.take_prefix ..
  · rw [hvisited, List.take_add_one, hstate]
    exact List.getLast?_concat
  · rw [hgoing.gathered.keys]
    exact hperm
  · obtain ⟨ch, ev⟩ := e
    cases he
    exact hgoing.read hok
  · cases hgoing with
    | asking h => exact h.goesOn hm
    | published h => exact absurd h.state hne
  · cases hgoing with
    | asking h => exact absurd hpublish h.state_ne
    | published h =>
      obtain ⟨joinedTx, hjoined, hsigned⟩ := h.joined
      exact ⟨h.visited, joinedTx, hjoined, hsigned.perm hperm⟩

end Whole

end Dcrtxmatcher.Coinjoin
