import Dcrtxmatcher.Coinjoin.Handover

/-! The queue that sessions are started from.

`DiceMix.Run` is one goroutine. It adds peers to the queue, arms a timer when there
are two, and when the timer fires makes a session of the whole queue if there are
enough. Readers take their peers out of the queue at any time, and the sessions that
were started run beside. -/
namespace Dcrtxmatcher.Coinjoin
open Lib

/-- `Config`, as far as `Run` reads it. -/
structure Config where
  minParticipants : ℤ
  roundTimeOut : ℕ
  serverPublish : Bool

/-- `pb.CoinJoinRes`. -/
structure CoinJoinRes where
  peerId : ℕ
  sessionId : ℕ
  deriving DecidableEq, Repr

/-- Where `Run` is: in the select, or behind `AddNewPeer`. -/
inductive RunPc where
  | select
  | added
  deriving DecidableEq

/-- The queue's peers, what `Run` keeps, the sessions it has started, oldest first, and
what it has sent to each connection. `TimerChan` matters for whether a timer is
still to be received from it. -/
structure DiceMix where
  pc : RunPc
  peers : GoMap ℕ PeerInfo
  willStart : Bool
  timerChan : Bool
  started : List System
  told : List (ℕ × CoinJoinRes)

inductive QueueEvent where
  /-- A peer from `NewPeerChan`, up to the end of `AddNewPeer`. -/
  | newPeer (conn id : ℕ)
  /-- The rest of that case. -/
  | arm
  /-- `RemovePeer`, by a reader. -/
  | leave (id : ℕ)
  | timer
  /-- A step of the session that was started as number `i`. -/
  | session (i : ℕ) (ev : Event)

namespace DiceMix

def new : DiceMix := ⟨.select, ∅, false, false, [], []⟩

def addNewPeer (peer : PeerInfo) (d : DiceMix) : DiceMix := { d with peers := d.peers.insert peer.id peer }

def removePeer (id : ℕ) (d : DiceMix) : DiceMix := { d with peers := d.peers.erase id }

/-- The loop over the queue: the session's peers and what they are told. A message that
cannot be marshalled ends it. -/
def admitPeers (ch : Choices) (sessionId : ℕ) :
    List (ℕ × PeerInfo) → GoMap ℕ PeerInfo → List (ℕ × CoinJoinRes) → GoMap ℕ PeerInfo × List (ℕ × CoinJoinRes)
  | [], peers, told => (peers, told)
  | (id, peer) :: rest, peers, told =>
    let peer := { peer with sessionId := sessionId }
    let peers := peers.insert id peer
    if ch.marshal [184, id] then admitPeers ch sessionId rest peers (told ++ [(peer.conn, ⟨peer.id, peer.sessionId⟩)])
    else (peers, told)

/-- A session of the queue's peers, and an empty queue. -/
def startSession (cfg : Config) (ch : Choices) (d : DiceMix) : DiceMix :=
  let sessionId := ch.genId 0
  let (peers, told) := admitPeers ch sessionId (GoMap.range ch.order [173] d.peers) ∅ d.told
  { d with
    peers := ∅
    willStart := false
    started := d.started ++ [.start (newJoinSession sessionId cfg.roundTimeOut cfg.serverPublish peers)]
    told := told }

/-- One step, nothing when the event cannot happen. -/
def step (pkgs : Packages) (cfg : Config) (ch : Choices) (d : DiceMix) : QueueEvent → Option DiceMix
  | .newPeer conn id =>
    match d.pc with
    | .select => some { d.addNewPeer (newPeer conn id) with pc := .added }
    | .added => none
  | .arm =>
    match d.pc with
    | .select => none
    | .added =>
      if 2 ≤ GoMap.len d.peers ∧ d.willStart = false then
        some { d with pc := .select, willStart := true, timerChan := true }
      else some { d with pc := .select }
  | .leave id => some (d.removePeer id)
  | .timer =>
    if d.pc = .select ∧ d.timerChan = true then
      let d := { d with timerChan := false }
      if (GoMap.len d.peers : ℤ) < cfg.minParticipants then some { d with willStart := false }
      else some (d.startSession cfg ch)
    else none
  | .session i ev =>
    match d.started[i]? with
    | some s => (s.step pkgs ch ev).map fun s' => { d with started := d.started.set i s' }
    | none => none

/-- What the queue and the sessions come to when every peer has a connection and an id
of its own and the message to a peer always marshals; the arrivals so far come along. -/
inductive Reachable (pkgs : Packages) (cfg : Config) : List (ℕ × ℕ) → DiceMix → Prop
  | start : Reachable pkgs cfg [] .new
  | arrive {arrived : List (ℕ × ℕ)} {d d' : DiceMix} {ch : Choices} {conn id : ℕ} (hd : Reachable pkgs cfg arrived d)
      (hconn : conn ∉ arrived.map Prod.fst) (hid : id ∉ arrived.map Prod.snd)
      (h : d.step pkgs cfg ch (.newPeer conn id) = some d') : Reachable pkgs cfg ((conn, id) :: arrived) d'
  | step {arrived : List (ℕ × ℕ)} {d d' : DiceMix} {ch : Choices} {ev : QueueEvent} (hd : Reachable pkgs cfg arrived d)
      (hev : ∀ conn id, ev ≠ .newPeer conn id) (hmarshal : ∀ id, ch.marshal [184, id] = true)
      (h : d.step pkgs cfg ch ev = some d') : Reachable pkgs cfg arrived d'

/-- The connections in the queue and in the sessions. -/
def conns (d : DiceMix) : List ℕ :=
  ((GoMap.toList d.peers).map fun e => e.2.conn) ++ d.started.flatMap (·.session.conns)

/-- A session of everybody in the queue and of nobody else: each is a member under its
own id and is told that id and the session's, and the queue is left empty. -/
structure Starts (d d' : DiceMix) : Prop where
  queue : GoMap.len d'.peers = 0
  session : ∃ s, d'.started = d.started ++ [s] ∧
    (∀ p peer', s.session.peers.lookup p = some peer' ↔
      ∃ peer, d.peers.lookup p = some peer ∧ peer.id = p ∧ peer' = { peer with sessionId := s.session.id }) ∧
    ∃ sent, d'.told = d.told ++ sent ∧
      sent.Perm ((GoMap.toList d.peers).map fun e => (e.2.conn, ⟨e.1, s.session.id⟩))

/-- Nobody joins a session or is told anything. -/
structure Waits (d d' : DiceMix) : Prop where
  count : d'.started.length = d.started.length
  conns : ∀ (i : ℕ) (s' : System), d'.started[i]? = some s' →
    ∃ s : System, d.started[i]? = some s ∧ s'.session.conns.Subperm s.session.conns
  told : d'.told = d.told

/-! ### What a step does -/

/-- The steps, one constructor a way that an event can go. -/
inductive Stepped (pkgs : Packages) (cfg : Config) (ch : Choices) (d : DiceMix) : QueueEvent → DiceMix → Prop
  | newPeer {conn id : ℕ} : Stepped pkgs cfg ch d (.newPeer conn id)
      { d.addNewPeer (Coinjoin.newPeer conn id) with pc := .added }
  | armed : Stepped pkgs cfg ch d .arm { d with pc := .select, willStart := true, timerChan := true }
  | unarmed (hidle : ¬(2 ≤ GoMap.len d.peers ∧ d.willStart = false)) :
      Stepped pkgs cfg ch d .arm { d with pc := .select }
  | leave {id : ℕ} : Stepped pkgs cfg ch d (.leave id) (d.removePeer id)
  | few (hfew : (GoMap.len d.peers : ℤ) < cfg.minParticipants) :
      Stepped pkgs cfg ch d .timer { d with timerChan := false, willStart := false }
  | starts (henough : cfg.minParticipants ≤ (GoMap.len d.peers : ℤ)) :
      Stepped pkgs cfg ch d .timer (startSession cfg ch { d with timerChan := false })
  | session {i : ℕ} {ev : Event} {s s' : System} (hi : d.started[i]? = some s) (h : s.step pkgs ch ev = some s') :
      Stepped pkgs cfg ch d (.session i ev) { d with started := d.started.set i s' }

theorem stepped_of_step {pkgs : Packages} {cfg : Config} {ch : Choices} {d d' : DiceMix} {ev : QueueEvent}
    (h : d.step pkgs cfg ch ev = some d') : Stepped pkgs cfg ch d ev d' := by
  cases ev with
  | newPeer conn id =>
    rw [step] at h
    split at h
    · cases h
      exact .newPeer
    · cases h
  | arm =>
    rw [step] at h
    split at h
    · cases h
    · split_ifs at h with harm
      · cases h
        exact .armed
      · cases h
        exact .unarmed harm
  | leave id =>
    cases h
    exact .leave
  | timer =>
    rw [step] at h
    split_ifs at h
    dsimp only at h
    split_ifs at h with hfew
    · cases h
      exact .few hfew
    · cases h
      exact .starts (not_lt.mp hfew)
  | session i ev =>
    rw [step] at h
    split at h
    · rename_i s hi
      obtain ⟨s', hstep, rfl⟩ := Option.map_eq_some_iff.mp h
      exact .session hi hstep
    · cases h

/-! ### The peers of a session -/

section Admission
variable {ch : Choices} {sessionId : ℕ}

/-- All are admitted when every message marshals. -/
theorem admitPeers_eq (hmarshal : ∀ id, ch.marshal [184, id] = true) (l : List (ℕ × PeerInfo)) (peers : GoMap ℕ PeerInfo)
    (told : List (ℕ × CoinJoinRes)) :
    admitPeers ch sessionId l peers told =
      (l.foldl (fun m e => m.insert e.1 { e.2 with sessionId := sessionId }) peers,
        told ++ l.map fun e => (e.2.conn, ⟨e.2.id, sessionId⟩)) := by
  induction l generalizing peers told with
  | nil => simp [admitPeers]
  | cons e rest ih =>
    obtain ⟨id, peer⟩ := e
    rw [admitPeers]
    dsimp only
    rw [if_pos (hmarshal id), ih]
    simp

/-- The session's peers, and what they are told. -/
theorem admitPeers_range (hmarshal : ∀ id, ch.marshal [184, id] = true) (m : GoMap ℕ PeerInfo)
    (told : List (ℕ × CoinJoinRes)) :
    admitPeers ch sessionId (GoMap.range ch.order [173] m) ∅ told =
      (GoMap.mapVal (fun _ peer => { peer with sessionId := sessionId }) (GoMap.ofList (GoMap.range ch.order [173] m)),
        told ++ (GoMap.range ch.order [173] m).map fun e => (e.2.conn, ⟨e.2.id, sessionId⟩)) := by
  rw [admitPeers_eq hmarshal, GoMap.mapVal_ofList, GoMap.ofList, List.foldl_map]

end Admission

/-! ### What holds of the queue -/

/-- The queue's peers are new ones under their own ids, nobody is in two places, and a
timer is under way when there are enough peers and `Run` waits. -/
structure Inv (cfg : Config) (arrived : List (ℕ × ℕ)) (d : DiceMix) : Prop where
  fresh : ∀ p peer, d.peers.lookup p = some peer → ∃ conn, (conn, p) ∈ arrived ∧ peer = newPeer conn p
  nodup : d.conns.Nodup
  known : d.conns ⊆ arrived.map Prod.fst
  armed : d.willStart = d.timerChan
  pending : d.pc = .select → max 2 cfg.minParticipants ≤ GoMap.len d.peers → d.willStart = true

section Steps
variable {pkgs : Packages} {cfg : Config} {ch : Choices} {arrived : List (ℕ × ℕ)} {d d' : DiceMix}

theorem conns_newJoinSession (hmarshal : ∀ id, ch.marshal [184, id] = true) (sessionId roundTimeOut : ℕ)
    (serverPublish : Bool) (m : GoMap ℕ PeerInfo) (told : List (ℕ × CoinJoinRes)) :
    (newJoinSession sessionId roundTimeOut serverPublish
      (admitPeers ch sessionId (GoMap.range ch.order [173] m) ∅ told).1).conns.Perm
        ((GoMap.toList m).map fun e => e.2.conn) := by
  have hlist : (GoMap.toList (GoMap.ofList (GoMap.range ch.order [173] m))).Perm (GoMap.toList m) :=
    (GoMap.toList_ofList (GoMap.nodup_range ..)).trans (GoMap.range_perm ..)
  rw [admitPeers_range hmarshal, JoinSession.conns, newJoinSession, GoMap.mapVal_mapVal, GoMap.toList_mapVal, List.map_map]
  exact hlist.map _

/-- A session of the queue is one that a queue of peers makes. -/
theorem newJoinSession_admitted (hmarshal : ∀ id, ch.marshal [184, id] = true) (sessionId roundTimeOut : ℕ)
    (serverPublish : Bool) {m : GoMap ℕ PeerInfo} (told : List (ℕ × CoinJoinRes))
    (hnew : ∀ p peer, m.lookup p = some peer → ∃ conn, peer = newPeer conn p) :
    newJoinSession sessionId roundTimeOut serverPublish (admitPeers ch sessionId (GoMap.range ch.order [173] m) ∅ told).1 =
      newJoinSession sessionId roundTimeOut serverPublish
        (queuePeers ((GoMap.range ch.order [173] m).map fun e => (e.2.conn, e.1))) := by
  have hqueue : queuePeers ((GoMap.range ch.order [173] m).map fun e => (e.2.conn, e.1)) =
      GoMap.ofList (GoMap.range ch.order [173] m) := by
    rw [queuePeers, List.map_map]
    congr 1
    nth_rewrite 2 [← List.map_id (GoMap.range ch.order [173] m)]
    apply List.map_congr_left
    intro e he
    obtain ⟨conn, hpeer⟩ := hnew e.1 e.2 (GoMap.mem_range.mp he)
    rw [Function.comp_apply, id_eq]
    rw [Prod.ext_iff]
    exact ⟨rfl, by rw [hpeer]; rfl⟩
  rw [hqueue, admitPeers_range hmarshal]
  simp only [newJoinSession, GoMap.mapVal_mapVal]

/-- What the timer does. -/
theorem startSession_eq (hmarshal : ∀ id, ch.marshal [184, id] = true) (d : DiceMix) :
    ∃ s, s = System.start (newJoinSession (ch.genId 0) cfg.roundTimeOut cfg.serverPublish
          (admitPeers ch (ch.genId 0) (GoMap.range ch.order [173] d.peers) ∅ d.told).1) ∧
      d.startSession cfg ch =
        { d with
          peers := ∅
          willStart := false
          started := d.started ++ [s]
          told := d.told ++ (GoMap.range ch.order [173] d.peers).map fun e => (e.2.conn, ⟨e.2.id, ch.genId 0⟩) } := by
  refine ⟨_, rfl, ?_⟩
  rw [startSession, admitPeers_range hmarshal]

theorem flatMap_set_subperm {α β : Type} (f : α → List β) {l : List α} {i : ℕ} {a b : α} (h : l[i]? = some a)
    (hsub : (f b).Subperm (f a)) : ((l.set i b).flatMap f).Subperm (l.flatMap f) := by
  induction l generalizing i with
  | nil => cases h
  | cons x l ih =>
    cases i with
    | zero =>
      cases h
      exact hsub.append (List.Subperm.refl _)
    | succ i => exact (List.Subperm.refl _).append (ih h)

/-- Fewer connections in the sessions and in the queue. -/
theorem Inv.shrink (hinv : Inv cfg arrived d) (hpc : d'.pc = d.pc) (hwill : d'.willStart = d.willStart)
    (htimer : d'.timerChan = d.timerChan) (hpeers : ∀ p peer, d'.peers.lookup p = some peer → d.peers.lookup p = some peer)
    (hconns : d'.conns.Subperm d.conns) : Inv cfg arrived d' where
  fresh p peer hp := hinv.fresh p peer (hpeers p peer hp)
  nodup := by
    obtain ⟨l, hperm, hsub⟩ := hconns
    exact hperm.nodup_iff.mp (hinv.nodup.sublist hsub)
  known := List.Subset.trans hconns.subset hinv.known
  armed := by rw [hwill, htimer, hinv.armed]
  pending hselect hlen := by
    rw [hwill]
    rw [hpc] at hselect
    apply hinv.pending hselect (hlen.trans _)
    have hkeys : d'.peers.keys.Subperm d.peers.keys := by
      apply List.subperm_of_subset d'.peers.keys_nodup
      intro p hp
      obtain ⟨peer, hpeer⟩ := GoMap.lookup_of_mem_keys hp
      exact GoMap.mem_keys_of_lookup (hpeers p peer hpeer)
    have hle := hkeys.length_le
    rw [GoMap.length_keys, GoMap.length_keys] at hle
    exact_mod_cast hle

theorem Inv.newPeer (hinv : Inv cfg arrived d) {conn id : ℕ} (hconn : conn ∉ arrived.map Prod.fst)
    (hid : id ∉ arrived.map Prod.snd) :
    Inv cfg ((conn, id) :: arrived) { d.addNewPeer (Coinjoin.newPeer conn id) with pc := .added } := by
  have hnew : id ∉ d.peers.keys := by
    intro hmem
    obtain ⟨peer, hp⟩ := GoMap.lookup_of_mem_keys hmem
    obtain ⟨conn', harrived, -⟩ := hinv.fresh id peer hp
    exact hid (List.mem_map_of_mem harrived)
  have hqueue : DiceMix.conns { d.addNewPeer (Coinjoin.newPeer conn id) with pc := .added } =
      ((GoMap.toList (d.peers.insert id (Coinjoin.newPeer conn id))).map fun e => e.2.conn) ++
        d.started.flatMap (·.session.conns) := rfl
  have hconns : (DiceMix.conns { d.addNewPeer (Coinjoin.newPeer conn id) with pc := .added }).Perm (conn :: d.conns) := by
    rw [hqueue]
    exact ((GoMap.toList_insert hnew _).map _).append_right _
  constructor
  · intro p peer hp
    change (d.peers.insert id (Coinjoin.newPeer conn id)).lookup p = some peer at hp
    rw [GoMap.lookup_insert_eq] at hp
    split_ifs at hp with heq
    · cases hp
      exact ⟨conn, heq ▸ List.mem_cons_self .., by rw [heq]⟩
    · obtain ⟨conn', harrived, hpeer⟩ := hinv.fresh p peer hp
      exact ⟨conn', List.mem_cons_of_mem _ harrived, hpeer⟩
  · rw [hconns.nodup_iff, List.nodup_cons]
    exact ⟨fun hmem => hconn (hinv.known hmem), hinv.nodup⟩
  · intro c hc
    rcases List.mem_cons.mp (hconns.mem_iff.mp hc) with rfl | hmem
    · exact List.mem_cons_self ..
    · exact List.mem_cons_of_mem _ (hinv.known hmem)
  · exact hinv.armed
  · intro hselect
    cases hselect

theorem Inv.unarmed (hinv : Inv cfg arrived d) (hidle : ¬(2 ≤ GoMap.len d.peers ∧ d.willStart = false)) :
    Inv cfg arrived { d with pc := .select } := by
  refine ⟨hinv.fresh, hinv.nodup, hinv.known, hinv.armed, fun _ hlen => ?_⟩
  change max 2 cfg.minParticipants ≤ (GoMap.len d.peers : ℤ) at hlen
  have htwo : 2 ≤ GoMap.len d.peers := by
    have := (le_max_left 2 cfg.minParticipants).trans hlen
    omega
  by_contra hwill
  exact hidle ⟨htwo, Bool.eq_false_iff.mpr hwill⟩

theorem lookup_of_lookup_erase {m : GoMap ℕ PeerInfo} {id p : ℕ} {peer : PeerInfo} (h : (m.erase id).lookup p = some peer) :
    m.lookup p = some peer := by
  rw [GoMap.lookup_erase_eq] at h
  split_ifs at h
  exact h

theorem Inv.leave (hinv : Inv cfg arrived d) (id : ℕ) : Inv cfg arrived (d.removePeer id) := by
  have hsub : (GoMap.toList (d.peers.erase id)).Subperm (GoMap.toList d.peers) := by
    apply List.subperm_of_subset (GoMap.nodup_toList _).of_map
    intro e he
    exact GoMap.mem_toList.mpr (lookup_of_lookup_erase (GoMap.mem_toList.mp he))
  refine hinv.shrink ?_ ?_ ?_ (fun p peer hp => lookup_of_lookup_erase hp) ?_
  · rfl
  · rfl
  · rfl
  · exact (subperm_map _ hsub).append (List.Subperm.refl _)

theorem Inv.starts (hinv : Inv cfg arrived d) (hmarshal : ∀ id, ch.marshal [184, id] = true) :
    Inv cfg arrived (startSession cfg ch { d with timerChan := false }) := by
  obtain ⟨s, hs, heq⟩ := @startSession_eq cfg _ hmarshal { d with timerChan := false }
  rw [heq]
  have hsession : s.session.conns.Perm ((GoMap.toList d.peers).map fun e => e.2.conn) := by
    rw [hs]
    exact conns_newJoinSession hmarshal _ _ _ _ _
  have hconns : (DiceMix.conns { d with
      timerChan := false
      peers := ∅
      willStart := false
      started := d.started ++ [s]
      told := d.told ++ (GoMap.range ch.order [173] d.peers).map fun e => (e.2.conn, ⟨e.2.id, ch.genId 0⟩) }).Perm
        d.conns := by
    rw [DiceMix.conns, DiceMix.conns, List.flatMap_append, List.flatMap_singleton]
    change (d.started.flatMap (·.session.conns) ++ s.session.conns).Perm _
    exact List.perm_append_comm.trans (hsession.append_right _)
  refine ⟨fun p peer hp => ?_, hconns.nodup_iff.mpr hinv.nodup, fun c hc => hinv.known (hconns.mem_iff.mp hc), rfl,
    fun _ hlen => ?_⟩
  · change (∅ : GoMap ℕ PeerInfo).lookup p = some peer at hp
    rw [AList.lookup_empty] at hp
    cases hp
  · have hnone := (le_max_left 2 cfg.minParticipants).trans hlen
    cases hnone

theorem conns_subperm_of_step {s s' : System} {ev : Event} (h : s.step pkgs ch ev = some s') :
    s'.session.conns.Subperm s.session.conns :=
  conns_subperm_of_effect (effect_of_stepped (Coinjoin.stepped_of_step h))

theorem Inv.session (hinv : Inv cfg arrived d) {i : ℕ} {ev : Event} {s s' : System} (hi : d.started[i]? = some s)
    (h : s.step pkgs ch ev = some s') : Inv cfg arrived { d with started := d.started.set i s' } := by
  refine hinv.shrink ?_ ?_ ?_ (fun p peer hp => hp) ?_
  · rfl
  · rfl
  · rfl
  · exact (List.Subperm.refl _).append (flatMap_set_subperm (fun s => s.session.conns) hi (conns_subperm_of_step h))

end Steps

theorem Reachable.inv {pkgs : Packages} {cfg : Config} {arrived : List (ℕ × ℕ)} {d : DiceMix}
    (hd : Reachable pkgs cfg arrived d) : Inv cfg arrived d := by
  induction hd with
  | start =>
    refine ⟨fun p peer hp => ?_, List.nodup_nil, fun c hc => ?_, rfl, fun _ hlen => ?_⟩
    · cases hp
    · cases hc
    · have hnone := (le_max_left 2 cfg.minParticipants).trans hlen
      cases hnone
  | arrive _ hconn hid h ih =>
    cases stepped_of_step h with
    | newPeer => exact ih.newPeer hconn hid
  | step _ hev hmarshal h ih =>
    cases stepped_of_step h with
    | newPeer => exact absurd rfl (hev _ _)
    | armed => exact ⟨ih.fresh, ih.nodup, ih.known, rfl, fun _ _ => rfl⟩
    | unarmed hidle => exact ih.unarmed hidle
    | leave => exact ih.leave _
    | few hfew =>
      refine ⟨ih.fresh, ih.nodup, ih.known, rfl, fun _ hlen => ?_⟩
      exact absurd ((le_max_right ..).trans hlen) (not_le.mpr hfew)
    | starts => exact ih.starts hmarshal
    | session hi hstep => exact ih.session hi hstep

/-! ### The sessions -/

section Sessions
variable {pkgs : Packages} {cfg : Config} {ch : Choices} {arrived : List (ℕ × ℕ)} {d d' : DiceMix}

/-- The sessions of the queue are the ones the rest of the model is about. -/
theorem Reachable.started (hd : Reachable pkgs cfg arrived d) : ∀ s ∈ d.started, Coinjoin.Reachable pkgs s := by
  induction hd with
  | start => simp [new]
  | arrive _ _ _ h ih =>
    cases stepped_of_step h with
    | newPeer => exact ih
  | @step arrived d d' ch ev hd hev hmarshal h ih =>
    cases stepped_of_step h with
    | newPeer => exact absurd rfl (hev _ _)
    | starts =>
      obtain ⟨s, hs, heq⟩ := @startSession_eq cfg _ hmarshal { d with timerChan := false }
      rw [heq]
      intro s' hs'
      rcases List.mem_append.mp hs' with hold | hnew
      · exact ih s' hold
      · obtain rfl := List.mem_singleton.mp hnew
        have hfresh := hd.inv.fresh
        have hnodup := hd.inv.nodup
        rw [hs, newJoinSession_admitted hmarshal _ _ _ _ fun p peer hp => by
          obtain ⟨conn, -, hpeer⟩ := hfresh p peer hp
          exact ⟨conn, hpeer⟩]
        have hqueue := (GoMap.range_perm ch.order [173] d.peers).map fun e => e.2.conn
        apply Coinjoin.Reachable.start
        · rw [List.map_map]
          exact hqueue.nodup_iff.mpr (List.nodup_append.mp hnodup).1
        · rw [List.map_map]
          exact GoMap.nodup_range ..
    | session hi hstep =>
      intro s₁ hs₁
      rcases List.mem_or_eq_of_mem_set hs₁ with hold | rfl
      · exact ih s₁ hold
      · exact .step (ih _ (List.mem_of_getElem? hi)) hstep
    | _ => exact ih

/-- The timer with enough peers in the queue. -/
theorem starts_startSession (hinv : Inv cfg arrived d) (hmarshal : ∀ id, ch.marshal [184, id] = true) :
    Starts d (startSession cfg ch { d with timerChan := false }) := by
  obtain ⟨s, hs, heq⟩ := @startSession_eq cfg _ hmarshal { d with timerChan := false }
  rw [heq]
  have hown : ∀ p peer, d.peers.lookup p = some peer → peer.id = p := by
    intro p peer hp
    obtain ⟨conn, -, rfl⟩ := hinv.fresh p peer hp
    rfl
  refine ⟨rfl, s, rfl, fun p peer' => ?_, _, rfl, ?_⟩
  · have hpeers : s.session.peers = GoMap.mapVal (fun _ peer => { peer with sessionId := ch.genId 0 })
        (GoMap.ofList (GoMap.range ch.order [173] d.peers)) := by
      rw [hs, admitPeers_range hmarshal]
      simp only [System.start, newJoinSession, GoMap.mapVal_mapVal]
    have hid : s.session.id = ch.genId 0 := by
      rw [hs]
      rfl
    rw [hpeers, hid, GoMap.lookup_mapVal, Option.map_eq_some_iff]
    simp only [GoMap.lookup_ofList (GoMap.nodup_range ..), GoMap.mem_range]
    constructor
    · intro h
      obtain ⟨peer, hp, rfl⟩ := h
      exact ⟨peer, hp, hown p peer hp, rfl⟩
    · intro h
      obtain ⟨peer, hp, -, rfl⟩ := h
      exact ⟨peer, hp, rfl⟩
  · have hid : s.session.id = ch.genId 0 := by
      rw [hs]
      rfl
    rw [hid]
    have hsame : (GoMap.toList d.peers).map (fun e => (e.2.conn, (⟨e.2.id, ch.genId 0⟩ : CoinJoinRes))) =
        (GoMap.toList d.peers).map fun e => (e.2.conn, ⟨e.1, ch.genId 0⟩) := by
      apply List.map_congr_left
      intro e he
      rw [hown e.1 e.2 (GoMap.mem_toList.mp he)]
    rw [← hsame]
    exact (GoMap.range_perm ..).map _

theorem Waits.of_started (hstarted : d'.started = d.started) (htold : d'.told = d.told) : Waits d d' where
  count := by rw [hstarted]
  conns i s' hi := ⟨s', by rwa [hstarted] at hi, List.Subperm.refl _⟩
  told := htold

/-- Any other step. -/
theorem waits_of_step {ev : QueueEvent} (h : d.step pkgs cfg ch ev = some d')
    (hev : ¬(ev = .timer ∧ cfg.minParticipants ≤ GoMap.len d.peers)) : Waits d d' := by
  cases stepped_of_step h with
  | starts henough => exact absurd ⟨rfl, henough⟩ hev
  | @session i ev s s' hi hstep =>
    refine ⟨List.length_set .., fun j s₁ hj => ?_, rfl⟩
    change (d.started.set i s')[j]? = some s₁ at hj
    rw [List.getElem?_set] at hj
    split_ifs at hj with hij hlt
    · cases hj
      exact ⟨s, hij ▸ hi, conns_subperm_of_step hstep⟩
    · exact ⟨s₁, hj, List.Subperm.refl _⟩
  | _ => exact .of_started rfl rfl

end Sessions

/-- **The queue loses nobody and starts in time**: a connection is never in two places,
a timer is pending whenever `Run` waits with enough peers, and each step either makes
a session of everybody in the queue or lets nobody into one. -/
theorem queue_conserved {pkgs : Packages} {cfg : Config} {arrived : List (ℕ × ℕ)} {d : DiceMix}
    (hd : Reachable pkgs cfg arrived d) :
    d.conns.Nodup ∧
      (d.pc = .select → max 2 cfg.minParticipants ≤ GoMap.len d.peers → d.willStart = true ∧ d.timerChan = true) ∧
      ∀ ch ev d', (∀ id, ch.marshal [184, id] = true) → d.step pkgs cfg ch ev = some d' →
        (ev = .timer ∧ cfg.minParticipants ≤ GoMap.len d.peers → Starts d d') ∧
          (¬(ev = .timer ∧ cfg.minParticipants ≤ GoMap.len d.peers) → Waits d d') := by
  have hinv := hd.inv
  refine ⟨hinv.nodup, fun hselect hlen => ?_, fun ch ev d' hmarshal h => ⟨fun hev => ?_, waits_of_step h⟩⟩
  · have hwill := hinv.pending hselect hlen
    exact ⟨hwill, hinv.armed ▸ hwill⟩
  · obtain ⟨rfl, henough⟩ := hev
    cases stepped_of_step h with
    | few hfew => exact absurd henough (not_le.mpr hfew)
    | starts => exact starts_startSession hinv hmarshal

/-- A queue of two that has armed its timer. -/
def armed : DiceMix := ⟨.select, queuePeers [(11, 1), (12, 2)], true, true, [], []⟩

theorem armed_reachable : Reachable plainPackages ⟨2, 60, false⟩ [(12, 2), (11, 1)] armed := by
  have hfirst : Reachable plainPackages ⟨2, 60, false⟩ [(11, 1)] ⟨.added, queuePeers [(11, 1)], false, false, [], []⟩ :=
    @Reachable.arrive _ _ _ _ _ (plainChoices id) _ _ .start (by simp) (by simp) rfl
  have hone : Reachable plainPackages ⟨2, 60, false⟩ [(11, 1)] ⟨.select, queuePeers [(11, 1)], false, false, [], []⟩ :=
    @Reachable.step _ _ _ _ _ (plainChoices id) .arm hfirst (by simp) (fun _ => rfl) rfl
  have htwo : Reachable plainPackages ⟨2, 60, false⟩ [(12, 2), (11, 1)]
      ⟨.added, queuePeers [(11, 1), (12, 2)], false, false, [], []⟩ :=
    @Reachable.arrive _ _ _ _ _ (plainChoices id) _ _ hone (by simp) (by simp) rfl
  exact @Reachable.step _ _ _ _ _ (plainChoices id) .arm htwo (by simp) (fun _ => rfl) rfl

/-- Its timer makes a session of both. -/
theorem queue_conserved_two : ∃ d', armed.step plainPackages ⟨2, 60, false⟩ (plainChoices id) .timer = some d' ∧
    armed.conns.Nodup ∧ armed.timerChan = true ∧ Starts armed d' := by
  have hconserved := queue_conserved armed_reachable
  obtain ⟨d', hstep⟩ : ∃ d', armed.step plainPackages ⟨2, 60, false⟩ (plainChoices id) .timer = some d' := ⟨_, rfl⟩
  exact ⟨d', hstep, hconserved.1, (hconserved.2.1 rfl (by decide)).2,
    (hconserved.2.2 (plainChoices id) .timer d' (fun _ => rfl) hstep).1 ⟨rfl, by decide⟩⟩

end DiceMix

end Dcrtxmatcher.Coinjoin
