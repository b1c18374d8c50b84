import Dcrtxmatcher.Coinjoin.Alike
import Dcrtxmatcher.Coinjoin.Departed
import Dcrtxmatcher.Coinjoin.Handover
import Dcrtxmatcher.Coinjoin.Isolation

/-! A restarted session next to a new one.

`pushMaliciousInfo` resets the members and some fields of the session, while the
locals of `run`, the publisher, the flag of a finding, the timer and what the readers
hold stay as they were. Where nothing of that is left to be looked at, the restarted
session and a new one of the same members do the same for ever.

The readers are those of everybody who has been in the session: a peer that was
removed is closed, but what its reader has taken in before still comes to the loop. -/
namespace Dcrtxmatcher.Coinjoin
open Lib

/-! ### What is compared -/

/-- An event that is about nobody else. -/
def Event.About (conns : List ℕ) : Event → Prop
  | .timeout => True
  | .rest => True
  | .deliver conn => conn ∈ conns
  | .read conn _ => conn ∈ conns
  | .push conn => conn ∈ conns
  | .remove conn => conn ∈ conns
  | .readError conn => conn ∈ conns
  | .writeError conn => conn ∈ conns

instance (conns : List ℕ) : DecidablePred (Event.About conns) := fun ev => by
  cases ev <;> unfold Event.About <;> infer_instance

/-- An event that a former member may still have a part in. Its connection is closed:
its reader gives on what it holds, or ends, but reads nothing more. -/
def Event.Later (js : JoinSession) : Event → Prop
  | .timeout => True
  | .rest => True
  | .deliver conn => conn ∈ js.everyone
  | .read conn _ => conn ∈ js.conns
  | .push conn => conn ∈ js.everyone
  | .remove conn => conn ∈ js.everyone
  | .readError conn => conn ∈ js.everyone
  | .writeError conn => conn ∈ js.conns

/-- What shows of a session: its round and id, its members, what it has sent, and
whether `run` has not returned. -/
structure Shown where
  state : SessionState
  id : ℕ
  members : List (ℕ × ℕ)
  out : List Output
  running : Bool
  deriving DecidableEq

/-- What shows after so many messages. -/
def System.shown (since : ℕ) (s : System) : Shown where
  state := s.session.state
  id := s.session.id
  members := (GoMap.toList s.session.peers).map fun e => (e.1, e.2.conn)
  out := s.session.out.drop since
  running := match s.loop with
    | .returned => false
    | _ => true

/-- The session is the outcome of a `pushMaliciousInfo`, with survivors. -/
def Restarts (s s' : System) : Prop :=
  ∃ ch ps, s.session.pushMaliciousInfo ch ps = .ok s'.session ∧ GoMap.len s'.session.peers ≠ 0

/-- A new session of the same members. -/
def System.afresh (s : System) : System :=
  .start (newJoinSession s.session.id s.session.roundTimeOut s.session.serverPublish
    (GoMap.mapVal (fun p peer => newPeer peer.conn p) s.session.peers))

/-- Nobody has the id of a former member, and none is drawn. -/
def System.Distinct (s : System) (l : List (Choices × Event)) : Prop :=
  ∀ peer ∈ s.session.former, peer.id ∉ s.session.peers.keys ∧ ∀ e ∈ l, ∀ i, e.1.genId i ≠ peer.id

/-- The session does from here on what a new one of the same members does, and what
is left of the former members makes no difference. -/
structure System.LikeNew (pkgs : Packages) (s : System) : Prop where
  members : ∀ l : List (Choices × Event), (∀ e ∈ l, e.2.About s.session.conns) →
    (s.run pkgs l).map (System.shown s.session.out.length) = (s.afresh.run pkgs l).map (System.shown 0)
  everyone : ∀ l : List (Choices × Event), (∀ e ∈ l, e.2.Later s.session) → s.Distinct l → ∀ s', s.run pkgs l = some s' →
    ∃ t, s.afresh.run pkgs (l.filter fun e => e.2.About s.session.conns) = some t ∧
      s'.shown s.session.out.length = t.shown 0

/-- Nothing from before the restart is left where a step looks for it. -/
structure Unburdened (s : System) : Prop where
  loop : s.loop = .select s.session.roundTimeout
  timer : ∀ n ∈ s.fired, n < s.session.roundTimeout.seq
  errm : s.session.errm = none
  missedPeers : s.session.missedPeers = []
  maliciousFinding : s.session.maliciousFinding = false
  readers : ∀ conn ∈ s.session.conns, s.readers conn = .reading
  former : ∀ peer ∈ s.session.former, s.readers peer.conn = .reading ∨ s.readers peer.conn = .returned
  writers : ∀ conn ∈ s.session.conns, s.writers conn = true

deriving instance DecidableEq for LoopPc

instance (pc : ReaderPc) : Decidable (pc = .reading) :=
  match pc with
  | .reading => isTrue rfl
  | .sending .. => isFalse nofun
  | .pushing _ => isFalse nofun
  | .removing _ => isFalse nofun
  | .returned => isFalse nofun

instance (pc : ReaderPc) : Decidable (pc = .returned) :=
  match pc with
  | .reading => isFalse nofun
  | .sending .. => isFalse nofun
  | .pushing _ => isFalse nofun
  | .removing _ => isFalse nofun
  | .returned => isTrue rfl

instance (s : System) : Decidable (Unburdened s) :=
  decidable_of_iff (s.loop = .select s.session.roundTimeout ∧ (∀ n ∈ s.fired, n < s.session.roundTimeout.seq) ∧
      s.session.errm = none ∧ s.session.missedPeers = [] ∧ s.session.maliciousFinding = false ∧
      (∀ conn ∈ s.session.conns, s.readers conn = .reading) ∧
      (∀ peer ∈ s.session.former, s.readers peer.conn = .reading ∨ s.readers peer.conn = .returned) ∧
      ∀ conn ∈ s.session.conns, s.writers conn = true)
    ⟨fun h => ⟨h.1, h.2.1, h.2.2.1, h.2.2.2.1, h.2.2.2.2.1, h.2.2.2.2.2.1, h.2.2.2.2.2.2.1, h.2.2.2.2.2.2.2⟩,
      fun h => ⟨h.loop, h.timer, h.errm, h.missedPeers, h.maliciousFinding, h.readers, h.former, h.writers⟩⟩

/-! ### Side by side -/

/-- A reader holds inputs. -/
def System.HoldsInputs (s : System) : Prop :=
  ∃ conn sessionId state txins, s.readers conn = .sending sessionId state (.txInputs txins)

/-- The loops are at one place; the timers of the first have higher numbers. -/
inductive SameLoop (timers : ℕ) : LoopPc → LoopPc → Prop
  | select {timer timer' : Timer} (hseq : timer.seq = timers + timer'.seq) : SameLoop timers (.select timer) (.select timer')
  | rest (d : Done) : SameLoop timers (.rest d) (.rest d)
  | returned : SameLoop timers .returned .returned

/-- The two systems, with nothing between the members to tell them apart. -/
structure Beside (past : Past) (conns : List ℕ) (s t : System) : Prop where
  session : Alike past t.HoldsInputs s.session t.session
  loop : SameLoop past.timers s.loop t.loop
  readers : ∀ conn ∈ conns, s.readers conn = t.readers conn
  writers : ∀ conn ∈ conns, s.writers conn = t.writers conn
  fired : ∀ n, past.timers + n ∈ s.fired ↔ n ∈ t.fired
  strangers : ∀ peer ∈ past.former, peer.conn ∉ conns

theorem Alike.mono {past : Past} {held held' : Prop} {js fresh : JoinSession} (h : Alike past held js fresh)
    (himp : held' → held ∨ js.state = .txInput) : Alike past held' js fresh :=
  { h with scripts := fun hread => h.scripts (hread.elim himp .inr) }

/-- Both find the connection's peer under one id, or neither finds one. -/
theorem Alike.peerOf {past : Past} {held : Prop} {js fresh : JoinSession} (h : Alike past held js fresh) {conn : ℕ}
    (hstrangers : ∀ peer ∈ past.former, peer.conn ≠ conn) :
    Option.Rel (fun peer peer' => peer.id = peer'.id) (js.peerOf conn) (fresh.peerOf conn) := by
  have hids : (js.peerOf conn).map (·.id) = (fresh.peerOf conn).map (·.id) := by
    have hmembers : ((GoMap.toList js.peers).map Prod.snd).map PeerInfo.unpriced =
        ((GoMap.toList fresh.peers).map Prod.snd).map PeerInfo.unpriced := by
      have hread : ∀ peers, ((GoMap.toList peers).map Prod.snd).map PeerInfo.unpriced =
          (GoMap.toList (unpriced peers)).map Prod.snd := by
        intro peers
        rw [unpriced, GoMap.toList_mapVal, List.map_map, List.map_map]
        rfl
      rw [hread, hread, h.peers]
    have hpast : (past.former.map PeerInfo.unpriced).find? (fun peer => peer.conn = conn) = none := by
      rw [List.find?_eq_none]
      intro peer hpeer
      obtain ⟨peer, hmem, rfl⟩ := List.mem_map.mp hpeer
      have hne : ¬peer.unpriced.conn = conn := hstrangers peer hmem
      simpa using hne
    have hread : ∀ js : JoinSession, (js.peerOf conn).map (·.id) =
        (((((GoMap.toList js.peers).map Prod.snd).map PeerInfo.unpriced).find? fun peer => peer.conn = conn).or
          ((js.former.map PeerInfo.unpriced).find? fun peer => peer.conn = conn)).map (·.id) := by
      intro js
      rw [JoinSession.peerOf, ← List.find?_append, ← List.map_append, List.find?_map, Option.map_map]
      rfl
    rw [hread, hread, hmembers, h.former, List.find?_append, hpast, Option.none_or]
  cases hjs : js.peerOf conn with
  | none =>
    rw [hjs] at hids
    rw [Option.map_eq_none_iff.mp hids.symm]
    exact .none
  | some peer =>
    rw [hjs] at hids
    obtain ⟨peer', hfresh, hid⟩ := Option.map_eq_some_iff.mp hids.symm
    rw [hfresh]
    exact .some hid.symm

namespace Beside
variable {pkgs : Packages} {ch : Choices} {past : Past} {conns : List ℕ} {s t : System} (h : Beside past conns s t)
include h

/-- A reader moves in both, to where it holds no inputs or has just been admitted with
some. -/
theorem moveReader {js fresh : JoinSession} (hsession : Alike past t.HoldsInputs js fresh) (conn : ℕ) (pc : ReaderPc)
    (hpc : ∀ sessionId state txins, pc = .sending sessionId state (.txInputs txins) → js.state = .txInput)
    {loop loop' : LoopPc} (hloop : SameLoop past.timers loop loop') :
    Beside past conns { s with session := js, loop := loop, readers := s.setReader conn pc }
      { t with session := fresh, loop := loop', readers := t.setReader conn pc } where
  session := by
    refine hsession.mono fun hheld => ?_
    obtain ⟨conn', sessionId, state, txins, hreader⟩ := hheld
    rcases sending_setReader hreader with ⟨-, hnew⟩ | ⟨-, hold⟩
    · exact .inr (hpc _ _ _ hnew)
    · exact .inl ⟨conn', sessionId, state, txins, hold⟩
  loop := hloop
  readers c hc := by
    by_cases hconn : c = conn
    · subst hconn
      simp [System.setReader]
    · simpa [System.setReader, Function.update_of_ne hconn] using h.readers c hc
  writers := h.writers
  fired := h.fired
  strangers := h.strangers

theorem timeout : Option.Rel (Beside past conns) (s.step pkgs ch .timeout) (t.step pkgs ch .timeout) := by
  unfold System.step
  have hloop := h.loop
  generalize s.loop = loop at hloop ⊢
  generalize t.loop = loop' at hloop ⊢
  cases hloop with
  | @select timer timer' hseq =>
    dsimp only
    by_cases hfired : timer'.seq ∈ t.fired
    · rw [if_pos hfired, if_pos (hseq ▸ (h.fired _).mpr hfired)]
      exact .none
    · rw [if_neg hfired, if_neg (fun hmem => hfired ((h.fired _).mp (hseq ▸ hmem)))]
      refine optionRel_bind (h.session.timeout pkgs ch).toOption fun r r' hr => .some ?_
      obtain ⟨d, js⟩ := r
      obtain ⟨d', fresh⟩ := r'
      obtain ⟨rfl, hsession⟩ := hr
      refine ⟨hsession, .rest d, h.readers, h.writers, fun n => ?_, h.strangers⟩
      simp only [List.mem_cons, h.fired, hseq, Nat.add_left_cancel_iff]
  | rest d => exact .none
  | returned => exact .none

theorem rest : Option.Rel (Beside past conns) (s.step pkgs ch .rest) (t.step pkgs ch .rest) := by
  unfold System.step
  have hloop := h.loop
  generalize s.loop = loop at hloop ⊢
  generalize t.loop = loop' at hloop ⊢
  cases hloop with
  | select hseq => exact .none
  | rest d =>
    refine optionRel_bind (h.session.finish ch d).toOption fun r r' hr => .some ?_
    obtain ⟨running, js⟩ := r
    obtain ⟨running', fresh⟩ := r'
    obtain ⟨rfl, hsession⟩ := hr
    refine ⟨hsession, ?_, h.readers, h.writers, h.fired, h.strangers⟩
    cases running with
    | false => exact .returned
    | true => exact .select hsession.timer
  | returned => exact .none

theorem deliver {conn : ℕ} (hconn : conn ∈ conns) :
    Option.Rel (Beside past conns) (s.step pkgs ch (.deliver conn)) (t.step pkgs ch (.deliver conn)) := by
  unfold System.step
  have hloop := h.loop
  generalize s.loop = loop at hloop ⊢
  generalize t.loop = loop' at hloop ⊢
  dsimp only
  rw [h.readers conn hconn]
  cases hloop with
  | select hseq =>
    cases hreader : t.readers conn with
    | sending sessionId state msg =>
      have hheld : ∀ txins, msg = .txInputs txins → t.HoldsInputs := by
        intro txins hmsg
        exact ⟨conn, sessionId, state, txins, hmsg ▸ hreader⟩
      refine optionRel_bind (h.session.handle pkgs ch hheld).toOption fun r r' hr => .some ?_
      obtain ⟨d, js⟩ := r
      obtain ⟨d', fresh⟩ := r'
      obtain ⟨rfl, hsession⟩ := hr
      exact h.moveReader hsession conn .reading nofun (.rest d)
    | _ => exact .none
  | rest d => exact .none
  | returned => exact .none

/-- What the two find at a connection of a member. -/
theorem peerOf {conn : ℕ} (hconn : conn ∈ conns) :
    Option.Rel (fun peer peer' => peer.id = peer'.id) (s.session.peerOf conn) (t.session.peerOf conn) :=
  h.session.peerOf fun peer hpeer hsame => h.strangers peer hpeer (hsame ▸ hconn)

theorem read {conn : ℕ} (hconn : conn ∈ conns) (raw : RawMessage) :
    Option.Rel (Beside past conns) (s.step pkgs ch (.read conn raw)) (t.step pkgs ch (.read conn raw)) := by
  unfold System.step
  dsimp only
  have hpeer := h.peerOf hconn
  generalize s.session.peerOf conn = peer at hpeer ⊢
  generalize t.session.peerOf conn = peer' at hpeer ⊢
  rw [h.readers conn hconn]
  cases t.readers conn with
  | reading =>
    cases hpeer with
    | none => exact .none
    | @some peer peer' hid =>
      dsimp only
      cases hread : Coinjoin.readMessage peer raw s.session with
      | error e =>
        have hagree := h.session.readMessage hid raw
        rw [hread] at hagree
        generalize Coinjoin.readMessage peer' raw t.session = r at hagree ⊢
        cases hagree
        exact .none
      | ok r =>
        have hagree := h.session.readMessage hid raw
        rw [hread] at hagree
        generalize Coinjoin.readMessage peer' raw t.session = r' at hagree ⊢
        cases hagree with
        | @ok _ r' hr =>
          obtain ⟨pc, js⟩ := r
          obtain ⟨pc', fresh⟩ := r'
          obtain ⟨rfl, hsession⟩ := hr
          refine .some (h.moveReader hsession conn pc (fun sessionId state txins hpc => ?_) h.loop)
          obtain ⟨hvalid, -, hstate⟩ := (of_readMessage hread).2 _ _ _ hpc
          rw [← hstate]
          exact of_decide_eq_true hvalid
  | _ => exact .none

theorem push {conn : ℕ} (hconn : conn ∈ conns) :
    Option.Rel (Beside past conns) (s.step pkgs ch (.push conn)) (t.step pkgs ch (.push conn)) := by
  unfold System.step
  dsimp only
  rw [h.readers conn hconn]
  cases t.readers conn with
  | pushing peerId =>
    refine optionRel_bind (h.session.pushMaliciousInfo ch [peerId]).toOption fun js fresh hsession => .some ?_
    exact h.moveReader hsession conn .reading nofun h.loop
  | _ => exact .none

theorem remove {conn : ℕ} (hconn : conn ∈ conns) :
    Option.Rel (Beside past conns) (s.step pkgs ch (.remove conn)) (t.step pkgs ch (.remove conn)) := by
  unfold System.step
  dsimp only
  rw [h.readers conn hconn]
  cases t.readers conn with
  | removing peerId => exact .some (h.moveReader (h.session.removePeer peerId) conn .reading nofun h.loop)
  | _ => exact .none

theorem readError {conn : ℕ} (hconn : conn ∈ conns) :
    Option.Rel (Beside past conns) (s.step pkgs ch (.readError conn)) (t.step pkgs ch (.readError conn)) := by
  unfold System.step
  dsimp only
  have hpeer := h.peerOf hconn
  generalize s.session.peerOf conn = peer at hpeer ⊢
  generalize t.session.peerOf conn = peer' at hpeer ⊢
  rw [h.readers conn hconn]
  cases t.readers conn with
  | reading =>
    cases hpeer with
    | none => exact .none
    | some hid =>
      refine optionRel_bind (h.session.readError pkgs ch hid).toOption fun js fresh hsession => .some ?_
      exact h.moveReader hsession conn .returned nofun h.loop
  | _ => exact .none

theorem writeError {conn : ℕ} (hconn : conn ∈ conns) :
    Option.Rel (Beside past conns) (s.step pkgs ch (.writeError conn)) (t.step pkgs ch (.writeError conn)) := by
  unfold System.step
  dsimp only
  have hpeer := h.peerOf hconn
  generalize s.session.peerOf conn = peer at hpeer ⊢
  generalize t.session.peerOf conn = peer' at hpeer ⊢
  rw [h.writers conn hconn]
  cases t.writers conn with
  | false => exact .none
  | true =>
    cases hpeer with
    | none => exact .none
    | some hid =>
      refine optionRel_bind (h.session.writeError pkgs ch hid).toOption fun js fresh hsession => .some ?_
      refine ⟨hsession, h.loop, h.readers, fun c hc => ?_, h.fired, h.strangers⟩
      change Function.update s.writers conn false c = Function.update t.writers conn false c
      rw [Function.update_apply, Function.update_apply, h.writers c hc]

theorem step {ev : Event} (hev : ev.About conns) : Option.Rel (Beside past conns) (s.step pkgs ch ev) (t.step pkgs ch ev) := by
  cases ev with
  | timeout => exact h.timeout
  | rest => exact h.rest
  | deliver conn => exact h.deliver hev
  | read conn raw => exact h.read hev raw
  | push conn => exact h.push hev
  | remove conn => exact h.remove hev
  | readError conn => exact h.readError hev
  | writeError conn => exact h.writeError hev

theorem run {l : List (Choices × Event)} (hl : ∀ e ∈ l, e.2.About conns) :
    Option.Rel (Beside past conns) (s.run pkgs l) (t.run pkgs l) := by
  induction l generalizing s t with
  | nil => exact .some h
  | cons e rest ih =>
    refine optionRel_bind (h.step (hl e (List.mem_cons_self ..))) fun s' t' h' => ?_
    exact ih h' fun e he => hl e (List.mem_cons_of_mem _ he)

theorem shown : s.shown past.out.length = t.shown 0 := by
  have hmembers : ((GoMap.toList s.session.peers).map fun e => (e.1, e.2.conn)) =
      (GoMap.toList t.session.peers).map fun e => (e.1, e.2.conn) := by
    have hread : ∀ peers : GoMap ℕ PeerInfo, ((GoMap.toList peers).map fun e => (e.1, e.2.conn)) =
        (GoMap.toList (unpriced peers)).map fun e => (e.1, e.2.conn) := by
      intro peers
      rw [unpriced, GoMap.toList_mapVal, List.map_map]
      rfl
    rw [hread s.session.peers, h.session.peers, ← hread]
  have hout : s.session.out.drop past.out.length = t.session.out.drop 0 := by
    rw [h.session.out, List.drop_left, List.drop_zero]
  unfold System.shown
  rw [h.session.state, h.session.id, hmembers, hout]
  have hloop := h.loop
  generalize s.loop = loop at hloop ⊢
  generalize t.loop = loop' at hloop ⊢
  cases hloop <;> rfl

end Beside

/-! ### Former members -/

/-- The members of a session whose step it is, or ids that were drawn for them. -/
theorem keys_of_stepped {pkgs : Packages} {ch : Choices} {s s' : System} {ev : Event} (h : Stepped pkgs ch s ev s') {p : ℕ}
    (hp : p ∈ s'.session.peers.keys) : p ∈ s.session.peers.keys ∨ ∃ i, ch.genId i = p := by
  cases effect_of_stepped h with
  | removed hremoves =>
    obtain ⟨ps, -, hkept⟩ := hremoves
    exact .inl (hkept.keys_subset hp)
  | keyExchange _ _ houtcome => exact .inl (keys_keyExchange houtcome hp)
  | @expelled ps hsession =>
    rw [hsession, JoinSession.expelled] at hp
    split_ifs at hp
    · exact .inl (((Kept.refl _).removePeers ps).keys_subset hp)
    · obtain ⟨i, -, hdrawn⟩ := keys_restart hp
      exact .inr ⟨i + 1, hdrawn⟩

/-- The readers of others are where they were. -/
theorem readers_of_stepped {pkgs : Packages} {ch : Choices} {s s' : System} {ev : Event} (h : Stepped pkgs ch s ev s')
    {conns : List ℕ} (hev : ev.About conns) {conn : ℕ} (hconn : conn ∉ conns) : s'.readers conn = s.readers conn := by
  have hother : ∀ {c}, c ∈ conns → ∀ pc, s.setReader c pc conn = s.readers conn := by
    intro c hc pc
    have hne : conn ≠ c := fun heq => hconn (heq ▸ hc)
    exact Function.update_of_ne hne ..
  cases h with
  | timeout => rfl
  | deliver => exact hother hev _
  | rest => rfl
  | read => exact hother hev _
  | push => exact hother hev _
  | remove => exact hother hev _
  | readError => exact hother hev _
  | writeError => rfl

/-- A reader that ends changes nothing when its peer is not a member. -/
theorem readError_stranger {pkgs : Packages} {ch : Choices} {peer : PeerInfo} {js js' : JoinSession}
    (h : Coinjoin.readError pkgs ch peer js = .ok js') (hp : peer.id ∉ js.peers.keys) : js' = js := by
  have hremoved : js.removePeer peer.id = js := by rw [JoinSession.removePeer, AList.lookup_eq_none.mpr hp]
  have houtcome := readError_outcome pkgs ch peer (mu_of_readError h)
  rw [h] at houtcome
  cases houtcome with
  | left => exact hremoved
  | kept => rfl
  | emptied _ hpub => exact absurd hpub.1 hp
  | changed _ hpub => exact absurd hpub.1 hp

/-- The two next to each other, and the former members with nothing to give on. -/
structure Parted (past : Past) (conns : List ℕ) (s t : System) : Prop extends Beside past conns s t where
  known : ∀ conn ∈ t.session.everyone, conn ∈ conns
  idle : ∀ peer ∈ past.former, s.readers peer.conn = .reading ∨ s.readers peer.conn = .returned
  ids : ∀ peer ∈ past.former, peer.id ∉ s.session.peers.keys

namespace Parted
variable {pkgs : Packages} {ch : Choices} {past : Past} {conns : List ℕ} {s t : System} (h : Parted past conns s t)
include h

/-- Whose connection is none of the new session's was there before. -/
theorem former_of_peerOf {conn : ℕ} {peer : PeerInfo} (hconn : conn ∉ conns) (hpeer : s.session.peerOf conn = some peer) :
    ∃ old ∈ past.former, old.id = peer.id := by
  have hsame : peer.conn = conn := by simpa using List.find?_some hpeer
  rcases List.mem_append.mp (List.mem_of_find?_eq_some hpeer) with hmember | hformer
  · have hconns : s.session.conns = t.session.conns := by
      have hread : ∀ js : JoinSession, js.conns = (GoMap.toList (unpriced js.peers)).map fun e => e.2.conn := by
        intro js
        rw [unpriced, GoMap.toList_mapVal, List.map_map]
        rfl
      rw [hread, hread, h.session.peers]
    obtain ⟨e, he, rfl⟩ := List.mem_map.mp hmember
    have hmem : conn ∈ s.session.conns := hsame ▸ List.mem_map_of_mem he
    rw [hconns] at hmem
    exact absurd (h.known conn (List.mem_append_left _ hmem)) hconn
  · have hmem := List.mem_map_of_mem (f := PeerInfo.unpriced) hformer
    rw [h.session.former, List.mem_append] at hmem
    rcases hmem with hold | hlater
    · obtain ⟨old, hold, heq⟩ := List.mem_map.mp hold
      exact ⟨old, hold, congrArg (·.id) heq⟩
    · obtain ⟨later, hlater, heq⟩ := List.mem_map.mp hlater
      have hlaterConn : later.conn = conn := (congrArg (·.conn) heq).trans hsame
      have hmem : conn ∈ t.session.everyone := List.mem_append_right _ (hlaterConn ▸ List.mem_map_of_mem hlater)
      exact absurd (h.known conn hmem) hconn

theorem step_about {ev : Event} (hev : ev.About conns) (hdrawn : ∀ peer ∈ past.former, ∀ i, ch.genId i ≠ peer.id)
    {s' : System} (hs' : s.step pkgs ch ev = some s') : ∃ t', t.step pkgs ch ev = some t' ∧ Parted past conns s' t' := by
  have hboth : Option.Rel (Beside past conns) (s.step pkgs ch ev) (t.step pkgs ch ev) := h.toBeside.step hev
  rw [hs'] at hboth
  generalize ht : t.step pkgs ch ev = r at hboth
  cases hboth with
  | @some _ t' hbeside =>
    refine ⟨t', rfl, { hbeside with known := ?_, idle := ?_, ids := ?_ }⟩
    · intro conn hconn
      exact h.known conn ((Conserves.of_stepped (stepped_of_step ht)).mem_iff.mp hconn)
    · intro peer hpeer
      rw [readers_of_stepped (stepped_of_step hs') hev (h.strangers peer hpeer)]
      exact h.idle peer hpeer
    · intro peer hpeer hmem
      rcases keys_of_stepped (stepped_of_step hs') hmem with hbefore | ⟨i, hi⟩
      · exact h.ids peer hpeer hbefore
      · exact hdrawn peer hpeer i hi

/-- A former member only ends. -/
theorem step_former {ev : Event} {conn : ℕ} (hev : ev = .deliver conn ∨ ev = .push conn ∨ ev = .remove conn ∨ ev = .readError conn)
    (hconn : ∃ peer ∈ past.former, peer.conn = conn) {s' : System} (hs' : s.step pkgs ch ev = some s') :
    Parted past conns s' t := by
  obtain ⟨old, hold, rfl⟩ := hconn
  have hstepped := stepped_of_step hs'
  have hidle := h.idle old hold
  rcases hev with rfl | rfl | rfl | rfl
  · cases hstepped with
    | deliver _ hreader => simp [hreader] at hidle
  · cases hstepped with
    | push hreader => simp [hreader] at hidle
  · cases hstepped with
    | remove hreader => simp [hreader] at hidle
  · cases hstepped with
    | @readError _ peer js _ hpeer herror =>
      obtain ⟨old', hold', hid⟩ := h.former_of_peerOf (h.strangers old hold) hpeer
      obtain rfl : js = s.session := readError_stranger herror (hid ▸ h.ids old' hold')
      refine { h with readers := fun c hc => ?_, idle := fun peer hpeer => ?_ }
      · have hne : c ≠ old.conn := fun heq => h.strangers old hold (heq ▸ hc)
        exact (Function.update_of_ne hne ..).trans (h.readers c hc)
      · change Function.update s.readers old.conn .returned peer.conn = _ ∨ Function.update s.readers old.conn .returned peer.conn = _
        rw [Function.update_apply]
        split_ifs
        · exact .inr rfl
        · exact h.idle peer hpeer

/-- An event that comes later is one of the members, or the end of a former member. -/
theorem step {ev : Event} {js : JoinSession} (hev : ev.Later js) (hconns : js.conns = conns) (hformer : js.former = past.former)
    (hdrawn : ∀ peer ∈ past.former, ∀ i, ch.genId i ≠ peer.id) {s' : System} (hs' : s.step pkgs ch ev = some s') :
    (ev.About conns ∧ ∃ t', t.step pkgs ch ev = some t' ∧ Parted past conns s' t') ∨
      ¬ev.About conns ∧ Parted past conns s' t := by
  by_cases habout : ev.About conns
  · exact .inl ⟨habout, h.step_about habout hdrawn hs'⟩
  have hpast : ∀ {conn}, conn ∈ js.everyone → conn ∉ conns → ∃ peer ∈ past.former, peer.conn = conn := by
    intro conn hconn hnot
    rcases List.mem_append.mp hconn with hmember | hleft
    · exact absurd (hconns ▸ hmember) hnot
    · exact hformer ▸ List.mem_map.mp hleft
  refine .inr ⟨habout, ?_⟩
  cases ev with
  | timeout => exact absurd trivial habout
  | rest => exact absurd trivial habout
  | deliver conn => exact h.step_former (.inl rfl) (hpast hev habout) hs'
  | read conn raw => exact absurd (hconns ▸ hev) habout
  | push conn => exact h.step_former (.inr (.inl rfl)) (hpast hev habout) hs'
  | remove conn => exact h.step_former (.inr (.inr (.inl rfl))) (hpast hev habout) hs'
  | readError conn => exact h.step_former (.inr (.inr (.inr rfl))) (hpast hev habout) hs'
  | writeError conn => exact absurd (hconns ▸ hev) habout

/-- In the new session what is left of the former members does not happen. -/
theorem run {l : List (Choices × Event)} {js : JoinSession} (hl : ∀ e ∈ l, e.2.Later js) (hconns : js.conns = conns)
    (hformer : js.former = past.former) (hdrawn : ∀ peer ∈ past.former, ∀ e ∈ l, ∀ i, e.1.genId i ≠ peer.id)
    {s' : System} (hs' : s.run pkgs l = some s') :
    ∃ t', t.run pkgs (l.filter fun e => e.2.About conns) = some t' ∧ Parted past conns s' t' := by
  induction l generalizing s t with
  | nil =>
    cases hs'
    exact ⟨t, rfl, h⟩
  | cons e rest ih =>
    obtain ⟨s₁, hstep, hrun⟩ := Option.bind_eq_some_iff.mp hs'
    have hl' : ∀ e ∈ rest, e.2.Later js := fun e he => hl e (List.mem_cons_of_mem _ he)
    have hdrawn' : ∀ peer ∈ past.former, ∀ e ∈ rest, ∀ i, e.1.genId i ≠ peer.id :=
      fun peer hpeer e he => hdrawn peer hpeer e (List.mem_cons_of_mem _ he)
    have hfirst := h.step (hl e (List.mem_cons_self ..)) hconns hformer
      (fun peer hpeer => hdrawn peer hpeer e (List.mem_cons_self ..)) hstep
    rcases hfirst with ⟨habout, t₁, ht₁, h₁⟩ | ⟨hother, h₁⟩
    · obtain ⟨t', hrun', h'⟩ := ih h₁ hl' hdrawn' hrun
      refine ⟨t', ?_, h'⟩
      rw [List.filter_cons_of_pos (by simpa using habout)]
      exact Option.bind_eq_some_iff.mpr ⟨t₁, ht₁, hrun'⟩
    · obtain ⟨t', hrun', h'⟩ := ih h₁ hl' hdrawn' hrun
      refine ⟨t', ?_, h'⟩
      rw [List.filter_cons_of_neg (by simpa using hother)]
      exact hrun'

end Parted

/-! ### The restarted session -/

/-- The members after a restart are new ones but for their prices. -/
theorem unpriced_newPeers_renewed (ch : Choices) (js : JoinSession) :
    unpriced (JoinSession.newPeers (js.renewed ch)) = unpriced (GoMap.mapVal (fun _ peer => { peer with sessionId := ch.genId 0 })
      (GoMap.mapVal (fun p peer => newPeer peer.conn p) (JoinSession.newPeers (js.renewed ch)))) := by
  unfold unpriced
  rw [GoMap.mapVal_mapVal, GoMap.mapVal_mapVal]
  refine GoMap.mapVal_congr fun p peer hp => ?_
  obtain ⟨renewed, hmem, heq⟩ := List.mem_map.mp (GoMap.mem_of_lookup_ofList hp)
  cases heq
  obtain ⟨e, -, rfl⟩ := List.mem_map.mp hmem
  rfl

section Afresh
variable {pkgs : Packages} {s s' : System}

/-- The survivors of a restart. -/
theorem Restarts.session (h : Restarts s s') : ∃ ch ps, s'.session = (s.session.removePeers ps).restart ch ps ∧
    s'.session.mu = false := by
  obtain ⟨ch, ps, hpushed, hlen⟩ := h
  have hmu := mu_of_pushMaliciousInfo hpushed
  rw [JoinSession.pushMaliciousInfo_eq ch ps hmu] at hpushed
  have hsession : s'.session = s.session.expelled ch ps := (Except.ok.inj hpushed).symm
  refine ⟨ch, ps, ?_, by rw [hsession, JoinSession.mu_expelled, hmu]⟩
  rw [hsession, JoinSession.expelled] at hlen ⊢
  rw [if_neg]
  intro hempty
  rw [if_pos hempty] at hlen
  exact hlen hempty

/-- What was there before the restart. -/
def System.past (s : System) : Past := ⟨s.session.former, s.session.roundTimeout.seq, s.session.out⟩

/-- The new session has the members, and nobody has left it. -/
theorem everyone_afresh : s'.afresh.session.everyone.Perm s'.session.conns := by
  have hconns : s'.afresh.session.conns = s'.session.conns := by
    change ((GoMap.toList (GoMap.mapVal _ (GoMap.mapVal _ s'.session.peers))).map fun e => e.2.conn) = _
    rw [GoMap.toList_mapVal, GoMap.toList_mapVal, List.map_map, List.map_map]
    rfl
  rw [JoinSession.everyone, hconns]
  exact (List.append_nil _).symm ▸ .refl _

theorem beside_afresh (hs' : Reachable pkgs s') (h : Restarts s s') (hclean : Unburdened s') :
    Beside s'.past s'.session.conns s' s'.afresh := by
  obtain ⟨ch, ps, hsession, hmu⟩ := h.session
  have hlen : GoMap.len s'.session.peers ≠ 0 := by
    obtain ⟨_, _, -, hlen⟩ := h
    exact hlen
  have hpeers : unpriced s'.session.peers = unpriced s'.afresh.session.peers := by
    have hafresh : s'.afresh.session.peers = GoMap.mapVal (fun _ peer => { peer with sessionId := s'.session.id })
      (GoMap.mapVal (fun p peer => newPeer peer.conn p) s'.session.peers) := rfl
    rw [hafresh, hsession]
    exact unpriced_newPeers_renewed ch _
  have hnew : s'.session.joinedTx = none ∧ s'.session.peersMsgInfo = [] ∧ s'.session.state = .keyExchange ∧
      s'.session.totalMsg = 0 := by
    rw [hsession]
    exact ⟨rfl, rfl, rfl, rfl⟩
  obtain ⟨hjoined, hinfo, hstate, htotal⟩ := hnew
  refine ⟨⟨?_, fun hread => ?_, fun hread => ?_, ?_, ?_, ?_⟩, ?_, hclean.readers, hclean.writers, fun n => ?_, ?_⟩
  · have hafresh : s'.afresh.session.essence = { s'.afresh.session.essence with peers := unpriced s'.session.peers } := by
      rw [hpeers]
      rfl
    rw [hafresh]
    simp only [JoinSession.essence, hmu, hstate, htotal, hinfo, hjoined, hclean.errm, hclean.missedPeers,
      hclean.maliciousFinding, System.afresh, System.start, newJoinSession]
  · rw [hstate] at hread
    cases hread
  · rw [hstate] at hread
    rcases hread with ⟨_, _, _, _, hreader⟩ | hread
    · cases hreader
    · cases hread
  · rfl
  · exact (List.append_nil _).symm
  · exact (List.append_nil _).symm
  · have hrunning : s'.afresh.loop = .select ⟨0, s'.session.roundTimeOut⟩ := by
      have hcount : GoMap.len s'.afresh.session.peers ≠ 0 := by
        change GoMap.len (GoMap.mapVal _ (GoMap.mapVal _ s'.session.peers)) ≠ 0
        rw [GoMap.len_mapVal, GoMap.len_mapVal]
        exact hlen
      change System.loopTo s'.afresh.session (decide (GoMap.len s'.afresh.session.peers ≠ 0)) = _
      rw [System.loopTo, if_pos (decide_eq_true hcount)]
      rfl
    rw [hclean.loop, hrunning]
    exact .select rfl
  · refine iff_of_false (fun hmem => ?_) List.not_mem_nil
    have hlt := hclean.timer _ hmem
    change s'.session.roundTimeout.seq + n < s'.session.roundTimeout.seq at hlt
    omega
  · intro peer hpeer hmem
    have hnodup := hs'.nodup_everyone
    exact (List.nodup_append.mp hnodup).2.2 _ hmem _ (List.mem_map_of_mem hpeer) rfl

end Afresh

/-- **A restarted session is like a new one** when nothing from before the restart is
left for a step to look at. -/
theorem restarted_like_new {pkgs : Packages} {s s' : System} (hs : Reachable pkgs s) {ch : Choices} {ev : Event}
    (h : s.step pkgs ch ev = some s') (hrestarts : Restarts s s') (hclean : Unburdened s') : s'.LikeNew pkgs := by
  have hbeside := beside_afresh (hs.step h) hrestarts hclean
  constructor
  · intro l hl
    exact map_eq_of_rel (hbeside.run hl) fun _ _ h => h.shown
  · intro l hl hdistinct t hrun
    have hparted : Parted s'.past s'.session.conns s' s'.afresh :=
      { hbeside with known := fun _ => everyone_afresh.mem_iff.mp, idle := hclean.former, ids := fun peer hpeer => (hdistinct peer hpeer).1 }
    obtain ⟨t', hrun', h'⟩ := hparted.run hl rfl rfl (fun peer hpeer => (hdistinct peer hpeer).2) hrun
    exact ⟨t', hrun', h'.shown⟩

/-! ### Restarts of three wallets -/

/-- The rest of a case that pushes restarts the session. -/
theorem restarts_of_rest {pkgs : Packages} {ch : Choices} {s s' : System} {ps : List ℕ} (hloop : s.loop = .rest ⟨some ps, .next⟩)
    (h : s.step pkgs ch .rest = some s') (hlen : GoMap.len s'.session.peers ≠ 0) : Restarts s s' := by
  unfold System.step at h
  rw [hloop] at h
  obtain ⟨r, hfinish, h⟩ := toOption_bind_eq_some h
  obtain ⟨js, hpush, hrest⟩ := bind_eq_ok.mp hfinish
  cases hrest
  cases h
  exact ⟨ch, ps, hpush, hlen⟩

/-- So does a reader that pushes. -/
theorem restarts_of_push {pkgs : Packages} {ch : Choices} {s s' : System} {conn : ℕ}
    (h : s.step pkgs ch (.push conn) = some s') (hlen : GoMap.len s'.session.peers ≠ 0) : Restarts s s' := by
  cases stepped_of_step h with
  | push _ hpush => exact ⟨ch, _, hpush, hlen⟩

/-- Three wallets whose keys are known. -/
def keyedRun : List (Choices × Event) :=
  turn 1 (.keyExchange ⟨0, [5], 1⟩) ++ turn 2 (.keyExchange ⟨0, [6], 1⟩) ++ turn 3 (.keyExchange ⟨0, [7], 1⟩)

/-- The first sends a vector that cannot be unmarshalled. -/
def malformedRun : List (Choices × Event) :=
  keyedRun ++ [(plainChoices id, .read 1 (.malformed .dcExpVector))]

/-- The reader's push leaves nothing behind. -/
def pushesClean (s : System) : Bool :=
  (s.step walletPackages (plainChoices id) (.push 1)).any fun s' =>
    GoMap.len s'.session.peers ≠ 0 ∧ Unburdened s'

theorem restarted_like_new_wallets : ∃ s s', Reachable walletPackages s ∧
    s.step walletPackages (plainChoices id) (.push 1) = some s' ∧ s'.LikeNew walletPackages := by
  have hstart : Reachable walletPackages (System.start (newJoinSession 7 60 false (queuePeers [(1, 1), (2, 2), (3, 3)]))) :=
    .start 7 60 false [(1, 1), (2, 2), (3, 3)] (by decide) (by decide)
  obtain ⟨s, hs, hpushes⟩ := hstart.of_any (l := malformedRun) (p := pushesClean) (by decide +kernel)
  cases hs' : s.step walletPackages (plainChoices id) (.push 1) with
  | none =>
    rw [pushesClean, hs'] at hpushes
    cases hpushes
  | some s' =>
    rw [pushesClean, hs', Option.any_some, decide_eq_true_eq] at hpushes
    obtain ⟨hlen, hclean⟩ := hpushes
    exact ⟨s, s', hs, hs', restarted_like_new hs hs' (restarts_of_push hs' hlen) hclean⟩

/-- The first sends an entry that is zero. -/
def zeroRun : List (Choices × Event) :=
  keyedRun ++ [(plainChoices id, .read 1 (.message (.dcExpVector (smallVector [0, 1])))), (plainChoices id, .deliver 1)]

/-- The other two announce keys again, and one sends a vector. -/
def onceMore : List (Choices × Event) :=
  turn 2 (.keyExchange ⟨0, [6], 1⟩) ++ turn 3 (.keyExchange ⟨0, [7], 1⟩) ++ turn 2 (.dcExpVector (smallVector [4, 16]))

/-- The push is next, and what two of the wallets do after it comes out differently. -/
def burdened (s : System) : Bool :=
  (match s.loop with
    | .rest d => d = ⟨some [1], .next⟩
    | _ => false) &&
  (s.step walletPackages (plainChoices id) .rest).any fun s' =>
    GoMap.len s'.session.peers ≠ 0 ∧ (∀ e ∈ onceMore, e.2.About s'.session.conns) ∧
      (s'.run walletPackages onceMore).map (System.shown s'.session.out.length) ≠
        (s'.afresh.run walletPackages onceMore).map (System.shown 0)

theorem zeroRun_burdened : ∃ s, Reachable walletPackages s ∧ burdened s = true :=
  (Reachable.start 7 60 false [(1, 1), (2, 2), (3, 3)] (by decide) (by decide)).of_any (l := zeroRun) (by decide +kernel)

/-- **The error of one wallet stays**: after the restart that a zero entry leads to, a
valid vector of another wallet is refused for the old error. -/
theorem old_error_stays : ∃ s s' ch ev, Reachable walletPackages s ∧ s.step walletPackages ch ev = some s' ∧ Restarts s s' ∧
    ¬s'.LikeNew walletPackages := by
  obtain ⟨s, hs, hburdened⟩ := zeroRun_burdened
  obtain ⟨hloop, hstep⟩ := Bool.and_eq_true_iff.mp hburdened
  cases hs' : s.step walletPackages (plainChoices id) .rest with
  | none =>
    rw [hs'] at hstep
    cases hstep
  | some s' =>
    rw [hs', Option.any_some, decide_eq_true_eq] at hstep
    obtain ⟨hlen, habout, hdiffer⟩ := hstep
    have hrest : s.loop = .rest ⟨some [1], .next⟩ := by
      split at hloop
      · rename_i d hd
        rw [hd, of_decide_eq_true hloop]
      · cases hloop
    exact ⟨s, s', plainChoices id, .rest, hs, hs', restarts_of_rest hrest hs' hlen, fun hlike => hdiffer (hlike.members onceMore habout)⟩

end Dcrtxmatcher.Coinjoin
