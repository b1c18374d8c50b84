import Dcrtxmatcher.Coinjoin.Queue

/-! How a connection is torn down.

A reader that ends sends on its peer's channel `Close`, and the writer takes that at
its select and closes the channel. A writer whose write has failed closes it as well,
and has nobody left to take what the reader sends: a reader that comes later sends on
a closed channel, and one that is waiting already is woken by the close; both stop
the process. -/
namespace Dcrtxmatcher.Coinjoin
open Lib

/-- How far the reader of a connection is. -/
inductive ReaderEnd where
  /-- In the loop, or in the end of it that the session's steps show. -/
  | running
  /-- Its connection has failed in the queue, and `RemovePeer` is next. -/
  | leaving (id : ℕ)
  /-- At `peer.Close <- struct{}{}`. -/
  | sending
  | ended
  deriving DecidableEq, Repr

/-- The queue and the sessions with the ends of all connections, and how often each
`Close` has been closed. -/
structure Server where
  mix : DiceMix
  readers : ℕ → ReaderEnd
  writers : ℕ → WriterPc
  closes : ℕ → ℕ
  panicked : Bool

inductive ServerEvent where
  | queue (ev : QueueEvent)
  /-- The connection of a peer in the queue fails. -/
  | readFails (conn : ℕ)
  | leave (conn : ℕ)
  /-- A write of a message to the peer fails. -/
  | writeFails (conn : ℕ)
  /-- The writer takes what the reader sends on `Close`. -/
  | received (conn : ℕ)

namespace Server

def new : Server := ⟨.new, fun _ => .running, fun _ => .serving, fun _ => 0, false⟩

/-- `peer.Close <- struct{}{}`, up to where it waits. -/
def sendClose (conn : ℕ) (s : Server) : Server :=
  if s.closes conn = 0 then { s with readers := Function.update s.readers conn .sending }
  else { s with panicked := true }

/-- The end of a writer, `close(peer.Close)`. -/
def close (conn : ℕ) (s : Server) : Server :=
  { s with
    writers := Function.update s.writers conn .returned
    closes := Function.update s.closes conn (s.closes conn + 1)
    panicked := decide (s.closes conn ≠ 0 ∨ s.readers conn = .sending) }

/-- Whether the reader or the writer that an event belongs to is where it can happen. -/
def allows (s : Server) : QueueEvent → Bool
  | .leave _ => false
  | .session _ (.read conn _) => s.readers conn = .running
  | .session _ (.readError conn) => s.readers conn = .running
  | .session _ (.writeError conn) => s.writers conn = .failing
  | _ => true

/-- What the deferred function of a reader or a writer does at its end. -/
def deferred : QueueEvent → Server → Server
  | .session _ (.readError conn), s => s.sendClose conn
  | .session _ (.writeError conn), s => s.close conn
  | _, s => s

/-- One step, nothing when the event cannot happen or the process has stopped. -/
def step (pkgs : Packages) (cfg : Config) (ch : Choices) (s : Server) (ev : ServerEvent) : Option Server :=
  if s.panicked then none
  else
    match ev with
    | .queue ev =>
      if s.allows ev then (s.mix.step pkgs cfg ch ev).map fun d => deferred ev { s with mix := d } else none
    | .readFails conn =>
      if s.readers conn = .running then
        ((GoMap.toList s.mix.peers).find? fun e => e.2.conn = conn).map fun e =>
          { s with readers := Function.update s.readers conn (.leaving e.1) }
      else none
    | .leave conn =>
      match s.readers conn with
      | .leaving id => some (sendClose conn { s with mix := s.mix.removePeer id })
      | _ => none
    | .writeFails conn =>
      if conn ∈ s.mix.told.map Prod.fst ∧ s.writers conn = .serving then
        some { s with writers := Function.update s.writers conn .failing }
      else none
    | .received conn =>
      if s.readers conn = .sending ∧ s.writers conn = .serving then
        some (close conn { s with readers := Function.update s.readers conn .ended })
      else none

/-- The states the server can get to when every step meets a condition. -/
inductive ReachableBy (pkgs : Packages) (cfg : Config) (meets : Server → ServerEvent → Prop) : Server → Prop
  | start : ReachableBy pkgs cfg meets .new
  | step {s s' : Server} {ch : Choices} {ev : ServerEvent} (hs : ReachableBy pkgs cfg meets s) (hmeets : meets s ev)
      (h : s.step pkgs cfg ch ev = some s') : ReachableBy pkgs cfg meets s'

/-- Nothing has stopped the process, every channel has been closed at most once, and a
reader that sends on one can be received from. -/
structure Safe (pkgs : Packages) (cfg : Config) (s : Server) : Prop where
  alive : s.panicked = false
  closedOnce : ∀ conn, s.closes conn ≤ 1
  receivable : ∀ conn, s.readers conn = .sending → ∀ ch, (s.step pkgs cfg ch (.received conn)).isSome = true

/-- A reader ends while its writer is at the select, and no write fails while the reader
waits for that. -/
def Orderly (s : Server) : ServerEvent → Prop
  | .queue (.session _ (.readError conn)) => s.writers conn = .serving
  | .leave conn => s.writers conn = .serving
  | .writeFails conn => s.readers conn ≠ .sending
  | _ => True

/-- A channel is closed when its writer has returned, and a reader that sends has a
writer that serves. -/
structure Inv (s : Server) : Prop where
  alive : s.panicked = false
  closes : ∀ conn, s.closes conn = if s.writers conn = .returned then 1 else 0
  sending : ∀ conn, s.readers conn = .sending → s.writers conn = .serving

section Steps
variable {pkgs : Packages} {cfg : Config} {ch : Choices} {s s' : Server}

theorem step_received_isSome (halive : s.panicked = false) (conn : ℕ) :
    (s.step pkgs cfg ch (.received conn)).isSome = true ↔ s.readers conn = .sending ∧ s.writers conn = .serving := by
  rw [step, halive]
  simp only [Bool.false_eq_true, if_false]
  split_ifs with h
  · simpa using h
  · simpa using h

theorem Inv.safe (h : Inv s) : Safe pkgs cfg s where
  alive := h.alive
  closedOnce conn := by
    rw [h.closes]
    split_ifs <;> omega
  receivable conn hsending ch := (step_received_isSome h.alive conn).mpr ⟨hsending, h.sending conn hsending⟩

/-- The queue and the sessions have nothing to do with the ends. -/
theorem Inv.withMix (h : Inv s) (d : DiceMix) : Inv { s with mix := d } := ⟨h.alive, h.closes, h.sending⟩

theorem Inv.sendClose (h : Inv s) {conn : ℕ} (hserving : s.writers conn = .serving) : Inv (s.sendClose conn) := by
  have hopen : s.closes conn = 0 := by
    rw [h.closes, hserving]
    rfl
  rw [Server.sendClose, if_pos hopen]
  refine ⟨h.alive, h.closes, fun c hc => ?_⟩
  by_cases hconn : c = conn
  · rw [hconn]
    exact hserving
  · change Function.update s.readers conn .sending c = .sending at hc
    rw [Function.update_of_ne hconn] at hc
    exact h.sending c hc

/-- A reader that sends without a writer that serves is not safe. -/
theorem not_safe_sendClose {conn : ℕ} (hserving : s.writers conn ≠ .serving) :
    ¬Safe pkgs cfg (s.sendClose conn) := by
  intro hsafe
  have halive := hsafe.alive
  rw [Server.sendClose] at hsafe halive
  split_ifs at hsafe halive
  have hreceived := hsafe.receivable conn (Function.update_self ..) (plainChoices id)
  exact hserving ((step_received_isSome halive conn).mp hreceived).2

theorem Inv.close (h : Inv s) {conn : ℕ} (hwriter : s.writers conn ≠ .returned) (hreader : s.readers conn ≠ .sending) :
    Inv (s.close conn) := by
  have hopen : s.closes conn = 0 := by rw [h.closes, if_neg hwriter]
  refine ⟨?_, fun c => ?_, fun c hc => ?_⟩
  · simp [Server.close, hopen, hreader]
  · by_cases hconn : c = conn
    · subst hconn
      simp [Server.close, hopen]
    · simp only [Server.close, Function.update_of_ne hconn]
      exact h.closes c
  · change s.readers c = .sending at hc
    have hne : c ≠ conn := by
      intro heq
      exact hreader (heq ▸ hc)
    simp only [Server.close, Function.update_of_ne hne]
    exact h.sending c hc

/-- What the steps do to the ends. -/
inductive Stepped (s : Server) : ServerEvent → Server → Prop
  | queue {ev : QueueEvent} (d : DiceMix) (hallows : s.allows ev = true) :
      Stepped s (.queue ev) (deferred ev { s with mix := d })
  | readFails {conn : ℕ} (id : ℕ) :
      Stepped s (.readFails conn) { s with readers := Function.update s.readers conn (.leaving id) }
  | leave {conn : ℕ} (id : ℕ) : Stepped s (.leave conn) (sendClose conn { s with mix := s.mix.removePeer id })
  | writeFails {conn : ℕ} (hserving : s.writers conn = .serving) :
      Stepped s (.writeFails conn) { s with writers := Function.update s.writers conn .failing }
  | received {conn : ℕ} (hserving : s.writers conn = .serving) :
      Stepped s (.received conn) (close conn { s with readers := Function.update s.readers conn .ended })

theorem stepped_of_step {ev : ServerEvent} (h : s.step pkgs cfg ch ev = some s') : Stepped s ev s' := by
  unfold step at h
  split_ifs at h
  cases ev with
  | queue ev =>
    dsimp only at h
    split_ifs at h with hallows
    obtain ⟨d, -, rfl⟩ := Option.map_eq_some_iff.mp h
    exact .queue d hallows
  | readFails conn =>
    dsimp only at h
    split_ifs at h
    obtain ⟨e, -, rfl⟩ := Option.map_eq_some_iff.mp h
    exact .readFails e.1
  | leave conn =>
    dsimp only at h
    split at h
    · cases h
      exact .leave _
    · cases h
  | writeFails conn =>
    dsimp only at h
    split_ifs at h with hserving
    cases h
    exact .writeFails hserving.2
  | received conn =>
    dsimp only at h
    split_ifs at h with hends
    cases h
    exact .received hends.2

/-- An orderly step keeps the ends in order. -/
theorem Inv.step (h : Inv s) {ev : ServerEvent} (horderly : Orderly s ev) (hstep : s.step pkgs cfg ch ev = some s') :
    Inv s' := by
  cases stepped_of_step hstep with
  | @queue ev d hallows =>
    cases ev with
    | session i ev =>
      cases ev with
      | readError conn => exact (h.withMix d).sendClose horderly
      | writeError conn =>
        have hfailing : s.writers conn = .failing := of_decide_eq_true hallows
        apply (h.withMix d).close
        · change s.writers conn ≠ .returned
          rw [hfailing]
          decide
        · intro hsending
          have hserving := h.sending conn hsending
          rw [hfailing] at hserving
          cases hserving
      | _ => exact h.withMix d
    | _ => exact h.withMix d
  | @readFails conn id =>
    refine ⟨h.alive, h.closes, fun c hc => ?_⟩
    by_cases hconn : c = conn
    · subst hconn
      change Function.update s.readers c _ c = .sending at hc
      rw [Function.update_self] at hc
      cases hc
    · change Function.update s.readers conn _ c = .sending at hc
      rw [Function.update_of_ne hconn] at hc
      exact h.sending c hc
  | leave id => exact (h.withMix _).sendClose horderly
  | @writeFails conn hserving =>
    refine ⟨h.alive, fun c => ?_, fun c hc => ?_⟩
    · change s.closes c = if Function.update s.writers conn .failing c = .returned then 1 else 0
      by_cases hconn : c = conn
      · subst hconn
        rw [h.closes, hserving, Function.update_self]
        rfl
      · rw [Function.update_of_ne hconn]
        exact h.closes c
    · change s.readers c = .sending at hc
      have hne : c ≠ conn := by
        intro heq
        exact horderly (heq ▸ hc)
      change Function.update s.writers conn .failing c = .serving
      rw [Function.update_of_ne hne]
      exact h.sending c hc
  | @received conn hserving =>
    have hended : Inv { s with readers := Function.update s.readers conn .ended } := by
      refine ⟨h.alive, h.closes, fun c hc => ?_⟩
      by_cases hconn : c = conn
      · rw [hconn]
        exact hserving
      · change Function.update s.readers conn .ended c = .sending at hc
        rw [Function.update_of_ne hconn] at hc
        exact h.sending c hc
    apply hended.close
    · change s.writers conn ≠ .returned
      rw [hserving]
      decide
    · change Function.update s.readers conn .ended conn ≠ .sending
      rw [Function.update_self]
      decide

/-- A step that is not orderly is not safe. -/
theorem orderly_of_safe {ev : ServerEvent} (hstep : s.step pkgs cfg ch ev = some s') (hsafe : Safe pkgs cfg s') :
    Orderly s ev := by
  by_contra hdisorder
  cases stepped_of_step hstep with
  | @queue ev d hallows =>
    cases ev with
    | session i ev =>
      cases ev with
      | readError conn => exact not_safe_sendClose (s := { s with mix := d }) hdisorder hsafe
      | _ => exact hdisorder trivial
    | _ => exact hdisorder trivial
  | leave id => exact not_safe_sendClose (s := { s with mix := s.mix.removePeer id }) hdisorder hsafe
  | @writeFails conn =>
    have hsending : s.readers conn = .sending := not_not.mp hdisorder
    have hreceived := hsafe.receivable conn hsending (plainChoices id)
    rw [step_received_isSome hsafe.alive] at hreceived
    have hserving : Function.update s.writers conn .failing conn = .serving := hreceived.2
    rw [Function.update_self] at hserving
    cases hserving
  | _ => exact hdisorder trivial

end Steps

theorem ReachableBy.inv {pkgs : Packages} {cfg : Config} {s : Server} (hs : ReachableBy pkgs cfg Orderly s) : Inv s := by
  induction hs with
  | start =>
    refine ⟨rfl, fun _ => rfl, fun _ h => ?_⟩
    cases h
  | step _ horderly h ih => exact ih.step horderly h

/-- **Connections are torn down safely** in a run of orderly steps, and no other step
that such a run can take is safe. -/
theorem teardown_safe {pkgs : Packages} {cfg : Config} {s : Server} (hs : ReachableBy pkgs cfg Orderly s) :
    Safe pkgs cfg s ∧ ∀ ch ev s', s.step pkgs cfg ch ev = some s' → (Safe pkgs cfg s' ↔ Orderly s ev) := by
  refine ⟨hs.inv.safe, fun ch ev s' h => ⟨orderly_of_safe h, fun horderly => ?_⟩⟩
  exact (hs.inv.step horderly h).safe

/-- A run, given by its events and what is chosen at each. -/
def run (pkgs : Packages) (cfg : Config) (s : Server) : List (Choices × ServerEvent) → Option Server
  | [] => some s
  | (ch, ev) :: rest => (s.step pkgs cfg ch ev).bind fun s' => run pkgs cfg s' rest

theorem ReachableBy.run {pkgs : Packages} {cfg : Config} {s s' : Server}
    (hs : ReachableBy pkgs cfg (fun _ _ => True) s) {l : List (Choices × ServerEvent)} (h : s.run pkgs cfg l = some s') :
    ReachableBy pkgs cfg (fun _ _ => True) s' := by
  induction l generalizing s with
  | nil =>
    cases h
    exact hs
  | cons e l ih =>
    obtain ⟨s₁, hstep, hrun⟩ := Option.bind_eq_some_iff.mp h
    exact ih (hs.step trivial hstep) hrun

theorem ReachableBy.of_any {pkgs : Packages} {cfg : Config} {s : Server}
    (hs : ReachableBy pkgs cfg (fun _ _ => True) s) {l : List (Choices × ServerEvent)} {p : Server → Bool}
    (h : (s.run pkgs cfg l).any p = true) : ∃ s', ReachableBy pkgs cfg (fun _ _ => True) s' ∧ p s' = true := by
  cases hrun : s.run pkgs cfg l with
  | none =>
    rw [hrun] at h
    cases h
  | some s' =>
    rw [hrun] at h
    exact ⟨s', hs.run hrun, h⟩

/-- Two peers join the queue, and a session of both is started. -/
def joins : List (Choices × ServerEvent) :=
  [.newPeer 1 1, .arm, .newPeer 2 2, .arm, .timer].map fun ev => (plainChoices id, .queue ev)

/-- **A failed write stops the process**: the writer of the first peer cannot deliver the
session's first message and closes the channel, then its reader ends and sends. -/
theorem failed_write_panics : ∃ s, ReachableBy walletPackages ⟨2, 60, false⟩ (fun _ _ => True) s ∧
    ¬Safe walletPackages ⟨2, 60, false⟩ s := by
  have hrun : (new.run walletPackages ⟨2, 60, false⟩ (joins ++ [(plainChoices id, .writeFails 1),
      (plainChoices id, .queue (.session 0 (.writeError 1))), (plainChoices id, .queue (.session 0 (.readError 1)))])).any
        (·.panicked) = true := by decide +kernel
  obtain ⟨s, hs, hpanicked⟩ := ReachableBy.of_any .start hrun
  refine ⟨s, hs, fun hsafe => ?_⟩
  have halive := hsafe.alive
  rw [hpanicked] at halive
  cases halive

/-- A peer that leaves the queue is torn down safely. -/
theorem teardown_safe_queue : ∃ s, ReachableBy walletPackages ⟨2, 60, false⟩ Orderly s ∧ s.readers 1 = .sending ∧
    Safe walletPackages ⟨2, 60, false⟩ s := by
  have hjoined : ReachableBy walletPackages ⟨2, 60, false⟩ Orderly _ :=
    @ReachableBy.step _ _ _ _ _ (plainChoices id) (.queue (.newPeer 1 1)) .start trivial rfl
  have hfailed : ReachableBy walletPackages ⟨2, 60, false⟩ Orderly _ :=
    @ReachableBy.step _ _ _ _ _ (plainChoices id) (.readFails 1) hjoined trivial rfl
  have hleft : ReachableBy walletPackages ⟨2, 60, false⟩ Orderly _ :=
    @ReachableBy.step _ _ _ _ _ (plainChoices id) (.leave 1) hfailed rfl rfl
  exact ⟨_, hleft, rfl, (teardown_safe hleft).1⟩

end Server

end Dcrtxmatcher.Coinjoin
