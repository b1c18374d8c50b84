import Dcrtxmatcher.Coinjoin.Timers
import Dcrtxmatcher.Lib.Agree

/-! What a session keeps from before a restart, and what looks at it.

A restarted session is put next to a new one. Prices, the publisher, the scripts of
the xor round, the numbers of the timers, the peers that have left and what has been
sent may differ between them (`Alike`); whatever the handlers do to both, they do
the same. -/
namespace Dcrtxmatcher.Coinjoin
open Lib

/-! ### Prices -/

/-- The peer but for its price, which is written and not looked at again. -/
def PeerInfo.unpriced (peer : PeerInfo) : PeerInfo := { peer with ticketPrice := 0 }

def unpriced (peers : GoMap ℕ PeerInfo) : GoMap ℕ PeerInfo := GoMap.mapVal (fun _ => PeerInfo.unpriced) peers

/-- What is done to one member is done to it without its price. -/
theorem unpriced_modify {g : PeerInfo → PeerInfo} (hg : ∀ peer, (g peer).unpriced = (g peer.unpriced).unpriced) (p : ℕ)
    (peers : GoMap ℕ PeerInfo) :
    unpriced (GoMap.modify p g peers) = GoMap.modify p (fun peer => (g peer).unpriced) (unpriced peers) :=
  GoMap.mapVal_modify hg peers

section Reading
variable {peers peers' : GoMap ℕ PeerInfo} (h : unpriced peers = unpriced peers')
include h

/-- A loop that does not look at prices sees the same in the same order. -/
theorem map_range_of_unpriced (o : VisitOrder ℕ) (site : List ℕ) {α : Type} {g : ℕ × PeerInfo → α}
    (hg : ∀ p peer, g (p, peer.unpriced) = g (p, peer)) :
    (GoMap.range o site peers).map g = (GoMap.range o site peers').map g := by
  have hread : ∀ peers, (GoMap.range o site (unpriced peers)).map g = (GoMap.range o site peers).map g := by
    intro peers
    rw [unpriced, GoMap.range_mapVal, List.map_map]
    exact List.map_congr_left fun e _ => hg e.1 e.2
  rw [← hread, h, hread]

/-- So does a loop over the peers alone. -/
theorem map_values_of_unpriced (o : VisitOrder ℕ) (site : List ℕ) {α : Type} {g : PeerInfo → α}
    (hg : ∀ peer, g peer.unpriced = g peer) :
    (GoMap.values o site peers).map g = (GoMap.values o site peers').map g := by
  rw [GoMap.values, GoMap.values, List.map_map, List.map_map]
  exact map_range_of_unpriced h o site fun _ peer => hg peer

end Reading

/-! ### The relation -/

/-- The session but for what no step looks at, or looks at in one state only. -/
def JoinSession.essence (js : JoinSession) : JoinSession :=
  { js with
    peers := unpriced js.peers
    publisher := 0
    roundTimeout := ⟨0, 0⟩
    allPkScripts := []
    former := []
    out := [] }

/-- What there was before the restart. -/
structure Past where
  former : List PeerInfo
  timers : ℕ
  out : List Output

/-- A restarted session and a new one. The publisher is looked at while a peer
publishes, the scripts when inputs are taken, or while a reader holds some (`held`). -/
structure Alike (past : Past) (held : Prop) (js fresh : JoinSession) : Prop where
  essence : js.essence = fresh.essence
  publisher : js.state = .txPublish → js.publisher = fresh.publisher
  scripts : held ∨ js.state = .txInput → js.allPkScripts = fresh.allPkScripts
  timer : js.roundTimeout.seq = past.timers + fresh.roundTimeout.seq
  former : js.former.map (·.unpriced) = past.former.map (·.unpriced) ++ fresh.former.map (·.unpriced)
  out : js.out = past.out ++ fresh.out

/-- The same value, and sessions that are alike. -/
def Paired {α : Type} (past : Past) (held : Prop) (r r' : α × JoinSession) : Prop :=
  r.1 = r'.1 ∧ Alike past held r.2 r'.2

namespace Alike
variable {past : Past} {held : Prop} {js fresh : JoinSession} (h : Alike past held js fresh)
include h

/-! ### What is read -/

/-- What does not depend on what was left over is the same in both. -/
theorem read {α : Type} (f : JoinSession → α) (hf : ∀ js, f js.essence = f js) : f js = f fresh := by
  rw [← hf, h.essence, hf]

theorem id : js.id = fresh.id := h.read (·.id) fun _ => rfl
theorem mu : js.mu = fresh.mu := h.read (·.mu) fun _ => rfl
theorem state : js.state = fresh.state := h.read (·.state) fun _ => rfl
theorem peersMsgInfo : js.peersMsgInfo = fresh.peersMsgInfo := h.read (·.peersMsgInfo) fun _ => rfl
theorem missedPeers : js.missedPeers = fresh.missedPeers := h.read (·.missedPeers) fun _ => rfl
theorem maliciousFinding : js.maliciousFinding = fresh.maliciousFinding := h.read (·.maliciousFinding) fun _ => rfl
theorem errm : js.errm = fresh.errm := h.read (·.errm) fun _ => rfl
theorem joinedTx : js.joinedTx = fresh.joinedTx := h.read (·.joinedTx) fun _ => rfl
theorem serverPublish : js.serverPublish = fresh.serverPublish := h.read (·.serverPublish) fun _ => rfl
theorem peers : unpriced js.peers = unpriced fresh.peers := h.read (fun js => unpriced js.peers) fun js => by
  rw [JoinSession.essence, unpriced, unpriced, GoMap.mapVal_mapVal]
  rfl

theorem keys : js.peers.keys = fresh.peers.keys := h.read (·.peers.keys) fun _ => GoMap.keys_mapVal ..
theorem len : GoMap.len js.peers = GoMap.len fresh.peers := h.read (fun js => GoMap.len js.peers) fun _ => GoMap.len_mapVal ..

theorem map_values (ch : Choices) (site : List ℕ) {α : Type} {g : PeerInfo → α} (hg : ∀ peer, g peer.unpriced = g peer) :
    (GoMap.values ch.order site js.peers).map g = (GoMap.values ch.order site fresh.peers).map g :=
  map_values_of_unpriced h.peers ch.order site hg

theorem lookup_map (p : ℕ) : (js.peers.lookup p).map PeerInfo.unpriced = (fresh.peers.lookup p).map PeerInfo.unpriced := by
  have hlookup := congrArg (AList.lookup p) h.peers
  rwa [unpriced, unpriced, GoMap.lookup_mapVal, GoMap.lookup_mapVal] at hlookup

/-- Both know the peer, and it differs in its price, or none does. -/
theorem lookup (p : ℕ) : js.peers.lookup p = none ∧ fresh.peers.lookup p = none ∨
    ∃ peer price, js.peers.lookup p = some { peer with ticketPrice := price } ∧ fresh.peers.lookup p = some peer := by
  have hlookup := h.lookup_map p
  cases hjs : js.peers.lookup p with
  | none =>
    rw [hjs] at hlookup
    exact .inl ⟨rfl, Option.map_eq_none_iff.mp hlookup.symm⟩
  | some peer' =>
    rw [hjs] at hlookup
    obtain ⟨peer, hpeer, hsame⟩ := Option.map_eq_some_iff.mp hlookup.symm
    refine .inr ⟨peer, peer'.ticketPrice, ?_, hpeer⟩
    have hprice : ({ peer with ticketPrice := peer'.ticketPrice } : PeerInfo) =
        { peer.unpriced with ticketPrice := peer'.ticketPrice } := rfl
    rw [hprice, hsame]
    rfl

/-- The round is over for both at once. -/
theorem allSubmit {submitted : PeerInfo → Bool} (hs : ∀ peer, submitted peer.unpriced = submitted peer) :
    js.allSubmit submitted = fresh.allSubmit submitted := by
  refine h.read (·.allSubmit submitted) fun js => ?_
  rw [JoinSession.allSubmit, JoinSession.allSubmit, JoinSession.essence, unpriced, GoMap.toList_mapVal, List.all_map]
  exact List.all_congr rfl fun e => hs e.2

/-! ### What is written -/

theorem withMu (b : Bool) : Alike past held (js.withMu b) (fresh.withMu b) :=
  { h with essence := congrArg (fun js => js.withMu b) h.essence }

/-- Members that agree but for their prices may be put in. -/
theorem withPeers {peers peers' : GoMap ℕ PeerInfo} (hpeers : unpriced peers = unpriced peers') :
    Alike past held { js with peers := peers } { fresh with peers := peers' } where
  essence := by
    change { js.essence with peers := unpriced peers } = { fresh.essence with peers := unpriced peers' }
    rw [hpeers, h.essence]
  publisher := h.publisher
  scripts := h.scripts
  timer := h.timer
  former := h.former
  out := h.out

/-- The state in which a publisher is looked at comes with one, and the one in which
scripts are looked at with some. -/
theorem withState (state : SessionState) (hpublisher : state = .txPublish → js.publisher = fresh.publisher)
    (hscripts : state = .txInput → js.allPkScripts = fresh.allPkScripts) :
    Alike past held { js with state := state } { fresh with state := state } where
  essence := congrArg (fun js => { js with state := state }) h.essence
  publisher := hpublisher
  scripts hread := hread.elim (fun hheld => h.scripts (.inl hheld)) hscripts
  timer := h.timer
  former := h.former
  out := h.out

/-- A state in which neither publisher nor scripts are looked at. -/
theorem advance (state : SessionState) (hpublish : state ≠ .txPublish) (hinput : state ≠ .txInput) :
    Alike past held { js with state := state } { fresh with state := state } :=
  h.withState state (fun hs => absurd hs hpublish) fun hs => absurd hs hinput

/-- Both send the same; what was sent before the restart stays in front. -/
theorem append {sent sent' : List Output} (hsent : sent = sent') :
    Alike past held { js with out := js.out ++ sent } { fresh with out := fresh.out ++ sent' } :=
  { h with out := by rw [h.out, hsent, List.append_assoc] }

theorem setPeer (p : ℕ) {g : PeerInfo → PeerInfo} (hg : ∀ peer, (g peer).unpriced = (g peer.unpriced).unpriced) :
    Alike past held (js.setPeer p g) (fresh.setPeer p g) :=
  h.withPeers (by rw [unpriced_modify hg, unpriced_modify hg, h.peers])

theorem broadcast (ch : Choices) (site : ℕ) (msg : ServerMessage) :
    Alike past held (js.broadcast ch site msg) (fresh.broadcast ch site msg) :=
  h.append (h.map_values ch [site] fun _ => rfl)

/-- The numbers of the timers stay as far apart as they were. -/
theorem newTimer (seconds seconds' : ℕ) : Alike past held (js.newTimer seconds) (fresh.newTimer seconds') :=
  { h with timer := by simp only [JoinSession.newTimer, h.timer]; omega }

theorem terminate (ch : Choices) : Alike past held (js.terminate ch) (fresh.terminate ch) :=
  h.append (h.map_values ch [156] fun _ => rfl)

/-- Whoever leaves is a former member of both from now on. -/
theorem removePeer (p : ℕ) : Alike past held (js.removePeer p) (fresh.removePeer p) := by
  rcases h.lookup p with ⟨hjs, hfresh⟩ | ⟨peer, price, hjs, hfresh⟩
  · rw [JoinSession.removePeer, JoinSession.removePeer, hjs, hfresh]
    exact h
  · rw [JoinSession.removePeer, JoinSession.removePeer, hjs, hfresh]
    have herased : unpriced (js.peers.erase p) = unpriced (fresh.peers.erase p) := by
      rw [unpriced, unpriced, GoMap.mapVal_erase, GoMap.mapVal_erase]
      exact congrArg (AList.erase p) h.peers
    refine { (h.withPeers herased).append rfl with former := ?_ }
    rw [List.map_append, List.map_append, h.former, List.append_assoc]
    rfl

theorem removePeers (ps : List ℕ) : Alike past held (js.removePeers ps) (fresh.removePeers ps) := by
  unfold JoinSession.removePeers
  induction ps generalizing js fresh with
  | nil => exact h
  | cons p ps ih => exact ih (h.removePeer p)

/-! ### The mutex -/

theorem lock : Agree (Alike past held) js.lock fresh.lock := by
  unfold JoinSession.lock
  exact .ite (by rw [h.mu]) (fun _ => .error _) fun _ => .ok (h.withMu true)

theorem unlock : Agree (Alike past held) js.unlock fresh.unlock := by
  unfold JoinSession.unlock
  exact .ite (by rw [h.mu]) (fun _ => .ok (h.withMu false)) fun _ => .error _

theorem unlockAnd (d : Done) : Agree (Paired past held) (js.unlockAnd d) (fresh.unlockAnd d) :=
  h.unlock.bind fun _ _ h => .ok ⟨rfl, h⟩

theorem failWith (err : Errm) : Agree (Paired past held) (js.failWith err) (fresh.failWith err) :=
  .ok ⟨rfl, { h with essence := congrArg (fun js => { js with errm := some err }) h.essence }⟩

end Alike

end Dcrtxmatcher.Coinjoin
