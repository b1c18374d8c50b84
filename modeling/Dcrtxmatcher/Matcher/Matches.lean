import Dcrtxmatcher.Matcher.Waiting

/-! What becomes of the calls of `FindMatches`.

A call is in the queue, or a participant of one session, just as its goroutine has it
(`Placed`); sessions have the size that was read less those that have left since
(`Measured`); and the session of a `JoinId` is registered (`Known`), until a
`RemoveSession` that cannot send keeps the lock: from then on no session is. -/
namespace Dcrtxmatcher.Matcher
open Lib

namespace SplitTxMatcherService

/-! ### Where a call is -/

/-- A call is in the queue when its request was received and it was not taken out; it
is a participant of exactly the session it was answered with; and a handler returns
only that answer. -/
structure Placed (svc : SplitTxMatcherService) : Prop where
  keyed : ∀ sessID req, svc.waitingPars.lookup sessID = some req → req.sessID = sessID
  waits : ∀ sessID, sessID ∈ svc.waitingPars.keys ↔ ∃ call, svc.calls.lookup sessID = some call ∧
    call.adding = .waiting ∧ call.handler ≠ .sendingDone true
  withdrawn : ∀ sessID call, svc.calls.lookup sessID = some call → call.handler = .sendingDone true → call.adding = .waiting
  participant : ∀ f ∈ svc.formed, ∀ sessID, sessID ∈ f.session.participants.keys ↔
    ∃ call, svc.calls.lookup sessID = some call ∧ call.adding = .answered f.joinSessionID
  session : ∀ sessID call joinSessionID, svc.calls.lookup sessID = some call → call.adding = .answered joinSessionID →
    joinSessionID ∈ svc.formed.map (·.joinSessionID)
  once : (svc.formed.map (·.joinSessionID)).Nodup
  returned : ∀ sessID call joinSessionID, svc.calls.lookup sessID = some call → call.handler = .returned joinSessionID →
    call.adding = .answered joinSessionID

theorem lookup_setCall (svc : SplitTxMatcherService) (sessID k : ℕ) (f : FindCall → FindCall) :
    (svc.setCall sessID f).calls.lookup k = (svc.calls.lookup k).map fun call => if k = sessID then f call else call := by
  by_cases hk : k = sessID
  · subst hk
    simp [setCall]
  · simp [setCall, GoMap.lookup_modify_ne hk, hk]

theorem placed_start : newSplitTxMatcherService.Placed where
  keyed _ _ h := by cases h
  waits sessID := ⟨fun h => absurd h (List.not_mem_nil), fun h => by obtain ⟨_, h, -⟩ := h; cases h⟩
  withdrawn _ _ h := by cases h
  participant _ hf := absurd hf List.not_mem_nil
  session _ _ _ h := by cases h
  once := List.nodup_nil
  returned _ _ _ h := by cases h

section Placing
variable {cfg : Config} {svc svc' : SplitTxMatcherService} {sessID : ℕ} {call : FindCall}

/-- The ids of the requests in the queue, in the order they are visited. -/
theorem Placed.waiting_perm (h : svc.Placed) (o : VisitOrder ℕ) (site : List ℕ) :
    ((GoMap.values o site svc.waitingPars).map (·.sessID)).Perm svc.waitingPars.keys := by
  refine ((GoMap.values_perm o site svc.waitingPars).map _).trans (.of_eq ?_)
  rw [GoMap.keys_eq, List.map_map]
  refine List.map_congr_left fun e he => ?_
  exact h.keyed e.1 e.2 (GoMap.mem_toList.mp he)

/-- What `Placed` asks of one call. -/
structure Situated (svc : SplitTxMatcherService) (sessID : ℕ) (call : FindCall) : Prop where
  waits : sessID ∈ svc.waitingPars.keys ↔ call.adding = .waiting ∧ call.handler ≠ .sendingDone true
  withdrawn : call.handler = .sendingDone true → call.adding = .waiting
  participant : ∀ f ∈ svc.formed, sessID ∈ f.session.participants.keys ↔ call.adding = .answered f.joinSessionID
  session : ∀ joinSessionID, call.adding = .answered joinSessionID → joinSessionID ∈ svc.formed.map (·.joinSessionID)
  returned : ∀ joinSessionID, call.handler = .returned joinSessionID → call.adding = .answered joinSessionID

/-- A client that has not called is nowhere. -/
def Absent (svc : SplitTxMatcherService) (sessID : ℕ) : Prop :=
  sessID ∉ svc.waitingPars.keys ∧ ∀ f ∈ svc.formed, sessID ∉ f.session.participants.keys

theorem Placed.situated (h : svc.Placed) (hcall : svc.calls.lookup sessID = some call) : svc.Situated sessID call where
  waits := by simpa [hcall] using h.waits sessID
  withdrawn := h.withdrawn sessID call hcall
  participant f hf := by simpa [hcall] using h.participant f hf sessID
  session j := h.session sessID call j hcall
  returned j := h.returned sessID call j hcall

theorem Placed.absent (h : svc.Placed) (hnone : svc.calls.lookup sessID = none) : svc.Absent sessID := by
  constructor
  · simp [h.waits, hnone]
  · intro f hf
    simp [h.participant f hf, hnone]

theorem placed_of_situated (hkeyed : ∀ k req, svc.waitingPars.lookup k = some req → req.sessID = k)
    (honce : (svc.formed.map (·.joinSessionID)).Nodup)
    (hcalls : ∀ k call, svc.calls.lookup k = some call → svc.Situated k call)
    (habsent : ∀ k, svc.calls.lookup k = none → svc.Absent k) : svc.Placed where
  keyed := hkeyed
  waits k := by
    cases hcall : svc.calls.lookup k with
    | none => simpa using (habsent k hcall).1
    | some call => simpa using (hcalls k call hcall).waits
  withdrawn k call hcall := (hcalls k call hcall).withdrawn
  participant f hf k := by
    cases hcall : svc.calls.lookup k with
    | none => simpa using (habsent k hcall).2 f hf
    | some call => simpa using (hcalls k call hcall).participant f hf
  session k call j hcall := (hcalls k call hcall).session j
  once := honce
  returned k call j hcall := (hcalls k call hcall).returned j

/-- One call is changed, and perhaps whether it is in the queue; all others are where they were. -/
theorem Placed.update (h : svc.Placed) (hformed : svc'.formed = svc.formed)
    (hkeyed : ∀ k req, svc'.waitingPars.lookup k = some req → req.sessID = k)
    (hothers : ∀ k ≠ sessID, svc'.calls.lookup k = svc.calls.lookup k ∧ (k ∈ svc'.waitingPars.keys ↔ k ∈ svc.waitingPars.keys))
    (hcall : svc'.calls.lookup sessID = some call) (hself : svc'.Situated sessID call) : svc'.Placed := by
  refine placed_of_situated hkeyed (hformed ▸ h.once) (fun k call' hk => ?_) fun k hk => ?_
  · by_cases hsame : k = sessID
    · subst hsame
      cases hcall.symm.trans hk
      exact hself
    · obtain ⟨hlookup, hqueue⟩ := hothers k hsame
      have hold := h.situated (hlookup.symm.trans hk)
      exact ⟨hqueue.trans hold.waits, hold.withdrawn, hformed ▸ hold.participant, hformed ▸ hold.session, hold.returned⟩
  · have hsame : k ≠ sessID := by
      rintro rfl
      rw [hcall] at hk
      cases hk
    obtain ⟨hlookup, hqueue⟩ := hothers k hsame
    have hold := h.absent (hlookup.symm.trans hk)
    exact ⟨mt hqueue.mp hold.1, hformed ▸ hold.2⟩

theorem lookup_setCall_ne (svc : SplitTxMatcherService) (f : FindCall → FindCall) {k : ℕ} (hk : k ≠ sessID) :
    (svc.setCall sessID f).calls.lookup k = svc.calls.lookup k := by
  simp [lookup_setCall, hk]

theorem lookup_setCall_self (svc : SplitTxMatcherService) (hcall : svc.calls.lookup sessID = some call) (f : FindCall → FindCall) :
    (svc.setCall sessID f).calls.lookup sessID = some (f call) := by
  simp [lookup_setCall, hcall]

theorem Placed.findMatches (h : svc.Placed) (hnew : sessID ∉ svc.calls.keys) (amount : ℕ) :
    Placed { svc with calls := svc.calls.insert sessID ⟨amount, .sending, .selecting⟩ } := by
  have habsent := h.absent (AList.lookup_eq_none.mpr hnew)
  have hlookup := GoMap.lookup_insert_eq svc.calls sessID
  refine @Placed.update svc _ sessID ⟨amount, .sending, .selecting⟩ h rfl h.keyed (fun k hk => ⟨?_, .rfl⟩) ?_ ?_
  · exact (hlookup k _).trans (if_neg hk)
  · exact (hlookup sessID _).trans (if_pos rfl)
  · exact ⟨iff_of_false habsent.1 (by simp), by simp, fun f hf => iff_of_false (habsent.2 f hf) (by simp), by simp, by simp⟩

/-- The handler of a call goes on: from its select with the answer, or without. -/
theorem Placed.handled (h : svc.Placed) (hcall : svc.calls.lookup sessID = some call) (hselecting : call.handler = .selecting)
    {handler : Finding} (hkept : handler ≠ .sendingDone true)
    (hreturned : ∀ j, handler = .returned j → call.adding = .answered j) :
    (svc.setCall sessID fun call => { call with handler := handler }).Placed := by
  have hold := h.situated hcall
  refine h.update rfl h.keyed (fun k hk => ⟨lookup_setCall_ne svc _ hk, .rfl⟩) (lookup_setCall_self svc hcall _) ?_
  exact ⟨hold.waits.trans (by simp [hselecting, hkept]), fun hdone => absurd hdone hkept, hold.participant, hold.session, hreturned⟩

theorem Placed.receive (h : svc.Placed) (hcall : svc.calls.lookup sessID = some call) (hadding : call.adding = .sending) :
    ({ svc with waitingPars := svc.waitingPars.insert sessID ⟨call.amount, sessID⟩ }.setCall sessID
      fun call => { call with adding := .waiting }).Placed := by
  have hold := h.situated hcall
  have hqueue := fun k => GoMap.lookup_insert_eq svc.waitingPars sessID k ⟨call.amount, sessID⟩
  have hmem : ∀ k, k ∈ (svc.waitingPars.insert sessID ⟨call.amount, sessID⟩).keys ↔ k = sessID ∨ k ∈ svc.waitingPars.keys := by
    intro k
    rw [GoMap.mem_keys_iff, hqueue, GoMap.mem_keys_iff]
    by_cases hk : k = sessID <;> simp [hk]
  have hhandler : call.handler ≠ .sendingDone true := fun hdone => by
    rw [hold.withdrawn hdone] at hadding
    cases hadding
  refine h.update rfl (fun k req hk => ?_) (fun k hk => ⟨lookup_setCall_ne _ _ hk, ?_⟩)
    (lookup_setCall_self _ hcall _) ⟨?_, fun _ => rfl, fun f hf => ?_, by simp, fun j hj => ?_⟩
  · have hk := (hqueue k).symm.trans hk
    split_ifs at hk with hsame
    · cases hk
      exact hsame.symm
    · exact h.keyed k req hk
  · exact (hmem k).trans (or_iff_right hk)
  · exact iff_of_true ((hmem sessID).mpr (.inl rfl)) ⟨rfl, hhandler⟩
  · exact (hold.participant f hf).trans (by simp [hadding])
  · rw [hold.returned j hj] at hadding
    cases hadding

theorem Placed.withdraw (h : svc.Placed) (hcall : svc.calls.lookup sessID = some call) (hfound : sessID ∈ svc.waitingPars.keys) :
    ({ svc with waitingPars := svc.waitingPars.erase sessID, run := svc.run.leave }.setCall sessID
      fun call => { call with handler := .sendingDone true }).Placed := by
  have hold := h.situated hcall
  have hqueue := fun k => GoMap.lookup_erase_eq svc.waitingPars sessID k
  have hmem : ∀ k, k ∈ (svc.waitingPars.erase sessID).keys ↔ k ≠ sessID ∧ k ∈ svc.waitingPars.keys := by
    intro k
    rw [GoMap.mem_keys_iff, hqueue, GoMap.mem_keys_iff]
    by_cases hk : k = sessID <;> simp [hk]
  refine h.update rfl (fun k req hk => ?_) (fun k hk => ⟨lookup_setCall_ne _ _ hk, ?_⟩)
    (lookup_setCall_self _ hcall _)
    ⟨?_, fun _ => (hold.waits.mp hfound).1, hold.participant, hold.session, by simp⟩
  · have hk := (hqueue k).symm.trans hk
    split_ifs at hk
    exact h.keyed k req hk
  · exact (hmem k).trans (and_iff_right hk)
  · exact iff_of_false (fun hin => ((hmem sessID).mp hin).1 rfl) (by simp)

/-- Calls that wait for their answer all get it. -/
theorem respond_eq {joinSessionID : ℕ} {ids : List ℕ} {calls : GoMap ℕ FindCall} (hnodup : ids.Nodup)
    (hwaiting : ∀ id ∈ ids, ∃ call, calls.lookup id = some call ∧ call.adding = .waiting) :
    ∃ calls', respond joinSessionID ids calls = some calls' ∧ ∀ k, calls'.lookup k =
      (calls.lookup k).map fun call => if k ∈ ids then { call with adding := .answered joinSessionID } else call := by
  induction ids generalizing calls with
  | nil => exact ⟨calls, rfl, fun k => by simp⟩
  | cons id rest ih =>
    obtain ⟨hnotin, hnodup⟩ := List.nodup_cons.mp hnodup
    obtain ⟨call, hcall, hadding⟩ := hwaiting id List.mem_cons_self
    have hrest : ∀ other ∈ rest, other ≠ id := fun other hother heq => hnotin (heq ▸ hother)
    obtain ⟨calls', hrespond, hlookup⟩ := @ih
      (GoMap.modify id (fun call => { call with adding := .answered joinSessionID }) calls) hnodup
      fun other hother => by
        rw [GoMap.lookup_modify_ne (hrest other hother)]
        exact hwaiting other (List.mem_cons_of_mem id hother)
    refine ⟨calls', ?_, fun k => ?_⟩
    · rw [respond, hcall, if_pos (by simp [hadding])]
      exact hrespond
    · rw [hlookup]
      by_cases hk : k = id
      · subst hk
        simp [hcall, hnotin]
      · simp [GoMap.lookup_modify_ne hk, hk]

theorem mem_keys_newJoinSession {randomIndex : Bool} {ids : List ℕ} (hnodup : ids.Nodup) {id : ℕ} :
    id ∈ (newJoinSession randomIndex ids).participants.keys ↔ id ∈ ids := by
  have hkeys : ((ids.map fun id => (id, newParticipant id)).map Prod.fst) = ids := by
    rw [List.map_map]
    exact List.map_id ids
  have hperm := (GoMap.toList_ofList (hkeys.symm ▸ hnodup)).map Prod.fst
  rw [hkeys, ← GoMap.keys_eq] at hperm
  exact hperm.mem_iff

theorem Placed.respond_waiting (h : svc.Placed) (o : VisitOrder ℕ) (site : List ℕ) (joinSessionID : ℕ) :
    ∃ calls, respond joinSessionID ((GoMap.values o site svc.waitingPars).map (·.sessID)) svc.calls = some calls ∧
      ∀ k, calls.lookup k = (svc.calls.lookup k).map fun call =>
        if k ∈ svc.waitingPars.keys then { call with adding := .answered joinSessionID } else call := by
  have hperm := h.waiting_perm o site
  obtain ⟨calls, hrespond, hlookup⟩ := respond_eq (hperm.nodup_iff.mpr (AList.keys_nodup _)) fun id hid => by
    obtain ⟨call, hcall, hadding, -⟩ := (h.waits id).mp (hperm.mem_iff.mp hid)
    exact ⟨call, hcall, hadding⟩
  refine ⟨calls, hrespond, fun k => ?_⟩
  rw [hlookup]
  simp only [hperm.mem_iff]

theorem Placed.form (h : svc.Placed) {ch : Choices} {joinSessionID sessSize left : ℕ} {waitingPars : List ℕ}
    {calls : GoMap ℕ FindCall} {run : RunPc} (hnew : joinSessionID ∉ svc.formed.map (·.joinSessionID))
    (hwaiting : waitingPars = (GoMap.values ch.order [139] svc.waitingPars).map (·.sessID))
    (hrespond : respond joinSessionID waitingPars svc.calls = some calls) (randomIndex : Bool) :
    Placed { svc with
      waitingPars := ∅
      run := run
      calls := calls
      formed := svc.formed ++ [⟨joinSessionID, sessSize, left, newJoinSession randomIndex waitingPars⟩] } := by
  obtain ⟨calls', hcalls', hlookup⟩ := h.respond_waiting ch.order [139] joinSessionID
  rw [← hwaiting, hrespond] at hcalls'
  cases hcalls'
  have hids : ∀ id, id ∈ waitingPars ↔ id ∈ svc.waitingPars.keys := fun id =>
    hwaiting ▸ (h.waiting_perm ch.order [139]).mem_iff
  have hnodup : waitingPars.Nodup := hwaiting ▸ (h.waiting_perm ch.order [139]).nodup_iff.mpr (AList.keys_nodup _)
  refine placed_of_situated (fun k req hk => (by cases hk)) ?_ (fun k call' hk => ?_) fun k hk => ?_
  · rw [List.map_append, List.nodup_append]
    refine ⟨h.once, List.nodup_singleton _, fun a ha b hb hab => ?_⟩
    obtain rfl := List.mem_singleton.mp hb
    exact hnew (hab ▸ ha)
  · obtain ⟨call, hcall, rfl⟩ := Option.map_eq_some_iff.mp ((hlookup k).symm.trans hk)
    have hold := h.situated hcall
    by_cases hmem : k ∈ svc.waitingPars.keys
    · -- the call waited, and is answered with the new session
      obtain ⟨hwaits, hkept⟩ := hold.waits.mp hmem
      rw [if_pos hmem]
      refine ⟨iff_of_false List.not_mem_nil (by simp), fun hdone => absurd hdone hkept, fun f hf => ?_, fun j hj => ?_, fun j hj => ?_⟩
      · rcases List.mem_append.mp hf with hf | hf
        · have hother : joinSessionID ≠ f.joinSessionID := fun heq => hnew (heq ▸ List.mem_map_of_mem hf)
          exact (hold.participant f hf).trans (by simp [hwaits, hother])
        · obtain rfl := List.mem_singleton.mp hf
          exact iff_of_true ((mem_keys_newJoinSession hnodup).mpr ((hids k).mpr hmem)) rfl
      · cases hj
        simp
      · rw [hold.returned j hj] at hwaits
        cases hwaits
    · rw [if_neg hmem]
      refine ⟨iff_of_false List.not_mem_nil (mt hold.waits.mpr hmem), hold.withdrawn, fun f hf => ?_, fun j hj => ?_, hold.returned⟩
      · rcases List.mem_append.mp hf with hf | hf
        · exact hold.participant f hf
        · obtain rfl := List.mem_singleton.mp hf
          refine iff_of_false (fun hin => hmem ((hids k).mp ((mem_keys_newJoinSession hnodup).mp hin))) fun hanswered => ?_
          exact hnew (hold.session _ hanswered)
      · rw [List.map_append]
        exact List.mem_append_left _ (hold.session j hj)
  · have hold := h.absent (Option.map_eq_none_iff.mp ((hlookup k).symm.trans hk))
    refine ⟨List.not_mem_nil, fun f hf => ?_⟩
    rcases List.mem_append.mp hf with hf | hf
    · exact hold.2 f hf
    · obtain rfl := List.mem_singleton.mp hf
      exact fun hin => hold.1 ((hids k).mp ((mem_keys_newJoinSession hnodup).mp hin))

theorem Placed.step {ev : Event} (h : svc.Placed) (hfresh : svc.Fresh ev) (hstep : svc.step cfg ev = some svc') :
    svc'.Placed := by
  cases stepped_of_step hstep with
  | findMatches => exact h.findMatches hfresh _
  | receive _ hcall hadding => exact h.receive hcall hadding
  | idle => exact h
  | sized => exact ⟨h.keyed, h.waits, h.withdrawn, h.participant, h.session, h.once, h.returned⟩
  | form _ hwaiting hrespond => exact h.form hfresh hwaiting hrespond _
  | register => exact ⟨h.keyed, h.waits, h.withdrawn, h.participant, h.session, h.once, h.returned⟩
  | withdrawn hcall _ hfound => exact h.withdraw hcall hfound
  | deserted hcall hhandler => exact h.handled hcall hhandler (by simp) fun _ hreturned => by cases hreturned
  | handOff hcall =>
    refine h.handled hcall rfl (by simp) fun j hreturned => ?_
    cases hreturned
    rfl
  | removeSession => exact ⟨h.keyed, h.waits, h.withdrawn, h.participant, h.session, h.once, h.returned⟩
  | registry => exact ⟨h.keyed, h.waits, h.withdrawn, h.participant, h.session, h.once, h.returned⟩

end Placing

theorem Reachable.placed {cfg : Config} {svc : SplitTxMatcherService} (hs : Reachable cfg svc) : svc.Placed :=
  RunsTo.invariant hs placed_start fun _ _ _ h hfresh hstep => h.step hfresh hstep

/-- **Every call is where its answer says.** It is in the queue exactly from when its
request is received until it is withdrawn or answered, it is a participant of the one
session it is answered with, and `Run` never blocks on an answer. -/
theorem find_matches_placed {cfg : Config} {svc : SplitTxMatcherService} (hs : Reachable cfg svc) :
    svc.Placed ∧ ∀ sessSize left, svc.run = .sized sessSize left →
      ∀ ch joinSessionID, (svc.step cfg (.form ch joinSessionID)).isSome = true := by
  refine ⟨hs.placed, fun sessSize left hrun ch joinSessionID => ?_⟩
  obtain ⟨calls, hrespond, -⟩ := hs.placed.respond_waiting ch.order [139] joinSessionID
  simp only [step, hrun, hrespond]
  rfl

/-! ### Sizes -/

/-- `Run` goes on with enough waiting, and a session lacks those that have left since. -/
structure Measured (cfg : Config) (svc : SplitTxMatcherService) : Prop where
  pending : ∀ sessSize left, svc.run = .sized sessSize left →
    0 < sessSize ∧ cfg.minParticipants ≤ sessSize ∧ GoMap.len svc.waitingPars + left = sessSize
  formed : ∀ f ∈ svc.formed,
    0 < f.sessSize ∧ cfg.minParticipants ≤ f.sessSize ∧ GoMap.len f.session.participants + f.left = f.sessSize

theorem len_newJoinSession (randomIndex : Bool) {ids : List ℕ} (hnodup : ids.Nodup) :
    GoMap.len (newJoinSession randomIndex ids).participants = ids.length := by
  have hkeys : ((ids.map fun id => (id, newParticipant id)).map Prod.fst) = ids := by
    rw [List.map_map]
    exact List.map_id ids
  rw [← GoMap.length_toList]
  exact (GoMap.toList_ofList (hkeys.symm ▸ hnodup)).length_eq.trans (List.length_map _)

/-- The same queue, at another place of `Run`. -/
theorem Measured.elsewhere {cfg : Config} {svc svc' : SplitTxMatcherService} (h : svc.Measured cfg)
    (hrun : ∀ sessSize left, svc'.run ≠ .sized sessSize left) (hformed : svc'.formed = svc.formed) : svc'.Measured cfg where
  pending sessSize left hsized := absurd hsized (hrun sessSize left)
  formed := hformed ▸ h.formed

theorem Measured.step {cfg : Config} {svc svc' : SplitTxMatcherService} {ev : Event} (hplaced : svc.Placed)
    (h : svc.Measured cfg) (hstep : svc.step cfg ev = some svc') : svc'.Measured cfg := by
  cases stepped_of_step hstep with
  | findMatches => exact ⟨h.pending, h.formed⟩
  | receive hrun =>
    refine h.elsewhere (fun sessSize left hsized => ?_) rfl
    cases hrun.symm.trans hsized
  | idle => exact h
  | sized _ hsome hmin =>
    refine ⟨fun sessSize left hsized => ?_, h.formed⟩
    cases hsized
    exact ⟨Nat.pos_of_ne_zero hsome, hmin, rfl⟩
  | @form ch _ sessSize left _ _ hrun hwaiting =>
    refine ⟨fun _ _ hsized => (by cases hsized), fun f hf => ?_⟩
    rcases List.mem_append.mp hf with hf | hf
    · exact h.formed f hf
    · obtain rfl := List.mem_singleton.mp hf
      obtain ⟨hpos, hmin, hlen⟩ := h.pending sessSize left hrun
      have hperm := hwaiting ▸ hplaced.waiting_perm ch.order [139]
      have hsize := len_newJoinSession cfg.randomIndex (hperm.nodup_iff.mpr (AList.keys_nodup _))
      rw [hperm.length_eq, GoMap.length_keys] at hsize
      exact ⟨hpos, hmin, (congrArg (· + left) hsize).trans hlen⟩
  | register => exact h.elsewhere (fun _ _ hsized => by cases hsized) rfl
  | withdrawn _ _ hfound =>
    refine ⟨fun sessSize left hsized => ?_, h.formed⟩
    have hpos : 0 < GoMap.len svc.waitingPars := by
      rw [← GoMap.length_keys]
      exact List.length_pos_of_mem hfound
    cases hrun : svc.run with
    | sized sessSize' left' =>
      have hleave : svc.run.leave = .sized sessSize left := hsized
      rw [hrun] at hleave
      cases hleave
      obtain ⟨hsize, hmin, hlen⟩ := h.pending sessSize left' hrun
      have herase := GoMap.len_erase hfound
      refine ⟨hsize, hmin, ?_⟩
      show GoMap.len (svc.waitingPars.erase _) + (left' + 1) = sessSize
      omega
    | select =>
      have hleave : svc.run.leave = .sized sessSize left := hsized
      rw [hrun] at hleave
      cases hleave
    | registering id joinSession =>
      have hleave : svc.run.leave = .sized sessSize left := hsized
      rw [hrun] at hleave
      cases hleave
  | deserted => exact ⟨h.pending, h.formed⟩
  | handOff => exact ⟨h.pending, h.formed⟩
  | removeSession => exact ⟨h.pending, h.formed⟩
  | registry => exact ⟨h.pending, h.formed⟩

/-- **A session is started with at least the minimum less those that left in between**:
the number of waiting participants is read before the lock is taken, nobody is added
after that, and every `RemoveWaitingID` since makes the session smaller by one. -/
theorem session_sizes {cfg : Config} {svc : SplitTxMatcherService} (hs : Reachable cfg svc) : svc.Measured cfg := by
  have hboth : svc.Placed ∧ svc.Measured cfg := by
    induction hs with
    | start => exact ⟨placed_start, fun _ _ h => (by cases h), fun _ hf => absurd hf List.not_mem_nil⟩
    | step _ ev hfresh hstep ih => exact ⟨ih.1.step hfresh hstep, ih.2.step ih.1 hstep⟩
  exact hboth.2

/-! ### The session behind a `JoinId` -/

/-- A session that was made is about to be registered, or registered, or was removed. -/
structure Known (svc : SplitTxMatcherService) : Prop where
  registering : ∀ joinSessionID joinSession, svc.run = .registering joinSessionID joinSession →
    ∃ f ∈ svc.formed, f.joinSessionID = joinSessionID ∧ f.session = joinSession
  found : ∀ f ∈ svc.formed, svc.run = .registering f.joinSessionID f.session ∨
    svc.joinTicker.joinSessions.lookup f.joinSessionID = some f.session ∨ f.joinSessionID ∈ svc.removed

theorem joinSessions_step {Session : Type} {joinTicker joinTicker' : JoinTicker Session} {ev : JoinTicker.Event Session}
    (h : joinTicker.step ev = some joinTicker') (hrun : ∀ id joinSession, ev ≠ .run id joinSession)
    (hremove : ∀ id, ev ≠ .removeSession id) : joinTicker'.joinSessions = joinTicker.joinSessions := by
  cases ev with
  | run id joinSession => exact absurd rfl (hrun id joinSession)
  | removeSession id => exact absurd rfl (hremove id)
  | send =>
    rw [JoinTicker.step] at h
    split_ifs at h
    cases h
    rfl
  | stop =>
    rw [JoinTicker.step] at h
    split_ifs at h
    · cases h
      rfl
    · cases h
      rfl
  | receive =>
    rw [JoinTicker.step] at h
    split_ifs at h
    cases h
    rfl

theorem joinSessions_run {Session : Type} {joinTicker joinTicker' : JoinTicker Session} {id : ℕ} {joinSession : Session}
    (h : joinTicker.step (.run id joinSession) = some joinTicker') :
    joinTicker'.joinSessions = joinTicker.joinSessions.insert id joinSession := by
  rw [JoinTicker.step] at h
  split_ifs at h
  cases h
  rfl

theorem joinSessions_removeSession {Session : Type} {joinTicker joinTicker' : JoinTicker Session} {id : ℕ}
    (h : joinTicker.step (.removeSession id) = some joinTicker') :
    joinTicker'.joinSessions = joinTicker.joinSessions.erase id := by
  rw [JoinTicker.step] at h
  split_ifs at h
  cases h
  rfl

theorem RunPc.leave_eq_registering {run : RunPc} {joinSessionID : ℕ} {joinSession : JoinSession} :
    run.leave = .registering joinSessionID joinSession ↔ run = .registering joinSessionID joinSession := by
  cases run <;> simp [RunPc.leave]

theorem Known.step {cfg : Config} {svc svc' : SplitTxMatcherService} {ev : Event} (hplaced : svc.Placed) (h : svc.Known)
    (hstep : svc.step cfg ev = some svc') : svc'.Known := by
  have hidle : ∀ run : RunPc, svc.run = .select → (∀ id joinSession, run ≠ .registering id joinSession) →
      Known { svc with run := run } := by
    intro run hrun hother
    refine ⟨fun id joinSession hreg => absurd hreg (hother id joinSession), fun f hf => .inr ?_⟩
    rcases h.found f hf with hreg | hknown
    · rw [hrun] at hreg
      cases hreg
    · exact hknown
  cases stepped_of_step hstep with
  | findMatches => exact ⟨h.registering, h.found⟩
  | receive => exact ⟨h.registering, h.found⟩
  | idle => exact h
  | sized hrun => exact hidle _ hrun fun _ _ hreg => by cases hreg
  | form hrun =>
    refine ⟨fun id joinSession hreg => ?_, fun f hf => ?_⟩
    · cases hreg
      exact ⟨_, List.mem_append_right _ List.mem_cons_self, rfl, rfl⟩
    · rcases List.mem_append.mp hf with hf | hf
      · rcases h.found f hf with hreg | hknown
        · rw [hrun] at hreg
          cases hreg
        · exact .inr hknown
      · obtain rfl := List.mem_singleton.mp hf
        exact .inl rfl
  | register hrun hregister =>
    refine ⟨fun _ _ hreg => (by cases hreg), fun f hf => ?_⟩
    obtain ⟨own, hown, rfl, rfl⟩ := h.registering _ _ hrun
    show _ ∨ AList.lookup _ _ = _ ∨ _
    rw [joinSessions_run hregister, GoMap.lookup_insert_eq]
    by_cases hsame : f.joinSessionID = own.joinSessionID
    · have hf : f = own := List.inj_on_of_nodup_map hplaced.once hf hown hsame
      rw [if_pos hsame, hf]
      exact .inr (.inl rfl)
    · rw [if_neg hsame]
      rcases h.found f hf with hreg | hknown
      · rw [hrun] at hreg
        injection hreg with hid
        exact absurd hid.symm hsame
      · exact .inr hknown
  | withdrawn =>
    refine ⟨fun id joinSession hreg => h.registering id joinSession (RunPc.leave_eq_registering.mp hreg), fun f hf => ?_⟩
    exact (h.found f hf).imp_left RunPc.leave_eq_registering.mpr
  | deserted => exact ⟨h.registering, h.found⟩
  | handOff => exact ⟨h.registering, h.found⟩
  | @removeSession joinId _ hremove =>
    refine ⟨h.registering, fun f hf => (h.found f hf).imp_right fun hknown => ?_⟩
    show AList.lookup _ _ = _ ∨ _ ∈ joinId :: svc.removed
    rw [joinSessions_removeSession hremove, GoMap.lookup_erase_eq]
    by_cases hsame : f.joinSessionID = joinId
    · exact .inr (hsame ▸ List.mem_cons_self)
    · rw [if_neg hsame]
      exact hknown.imp_right (List.mem_cons_of_mem _)
  | registry hticker hrun hremove =>
    refine ⟨h.registering, fun f hf => ?_⟩
    show _ ∨ AList.lookup _ _ = _ ∨ _
    rw [joinSessions_step hticker hrun hremove]
    exact h.found f hf

/-- **A client finds the session it was told**: a session was made as `JoinId`, the client is
among its participants, and it is registered, unless `Run` has not come to that yet or
`RemoveSession` was called. -/
theorem answers_found {cfg : Config} {svc : SplitTxMatcherService} (hs : Reachable cfg svc) {sessID joinId : ℕ}
    {call : FindCall} (hcall : svc.calls.lookup sessID = some call) (hreturned : call.handler = .returned joinId) :
    ∃ f ∈ svc.formed, f.joinSessionID = joinId ∧ sessID ∈ f.session.participants.keys ∧
      (svc.run = .registering joinId f.session ∨ svc.joinTicker.joinSessions.lookup joinId = some f.session ∨
        joinId ∈ svc.removed) := by
  have hboth : svc.Placed ∧ svc.Known := by
    clear hcall hreturned
    induction hs with
    | start => exact ⟨placed_start, fun _ _ h => (by cases h), fun _ hf => absurd hf List.not_mem_nil⟩
    | step _ ev hfresh hstep ih => exact ⟨ih.1.step hfresh hstep, ih.2.step ih.1 hstep⟩
  obtain ⟨hplaced, hknown⟩ := hboth
  have hadding := hplaced.returned sessID call joinId hcall hreturned
  obtain ⟨f, hf, rfl⟩ := List.mem_map.mp (hplaced.session sessID call joinId hcall hadding)
  exact ⟨f, hf, rfl, (hplaced.participant f hf sessID).mpr ⟨call, hcall, hadding⟩, hknown.found f hf⟩

/-! ### A `RemoveSession` that keeps the lock -/

/-- Nothing is registered and nothing can be, and at most one session was made since. -/
structure Stopped (made : ℕ) (svc : SplitTxMatcherService) : Prop where
  blocked : svc.joinTicker.Blocked
  stop : svc.joinTicker.stopCall ≠ .waiting
  empty : GoMap.len svc.joinTicker.joinSessions = 0
  made : svc.formed.length = made ∨
    svc.formed.length ≤ made + 1 ∧ ∃ joinSessionID joinSession, svc.run = .registering joinSessionID joinSession

/-- While a `RemoveSession` sends, the map is empty. -/
theorem empty_of_sending {Session : Type} {joinTicker joinTicker' : JoinTicker Session} {ev : JoinTicker.Event Session}
    (h : joinTicker.sending = true → GoMap.len joinTicker.joinSessions = 0) (hstep : joinTicker.step ev = some joinTicker') :
    joinTicker'.sending = true → GoMap.len joinTicker'.joinSessions = 0 := by
  cases ev with
  | run id joinSession =>
    rw [JoinTicker.step] at hstep
    split_ifs at hstep with hsending
    cases hstep
    exact fun hs => absurd hs hsending
  | removeSession id =>
    rw [JoinTicker.step] at hstep
    split_ifs at hstep
    cases hstep
    exact fun hs => of_decide_eq_true hs
  | send =>
    rw [JoinTicker.step] at hstep
    split_ifs at hstep
    cases hstep
    exact fun hs => by cases hs
  | stop =>
    rw [JoinTicker.step] at hstep
    split_ifs at hstep
    · cases hstep
      exact h
    · cases hstep
      exact h
  | receive =>
    rw [JoinTicker.step] at hstep
    split_ifs at hstep
    cases hstep
    exact h

theorem Reachable.empty_of_sending {cfg : Config} {svc : SplitTxMatcherService} (hs : Reachable cfg svc)
    (hsending : svc.joinTicker.sending = true) : GoMap.len svc.joinTicker.joinSessions = 0 := by
  induction hs with
  | start => cases hsending
  | step _ ev _ hstep ih =>
    cases stepped_of_step hstep with
    | register _ hticker => exact SplitTxMatcherService.empty_of_sending ih hticker hsending
    | removeSession hticker => exact SplitTxMatcherService.empty_of_sending ih hticker hsending
    | registry hticker => exact SplitTxMatcherService.empty_of_sending ih hticker hsending
    | _ => exact ih hsending

/-- The lock is not given back: only a second `Stop` can change anything. -/
theorem stopped_ticker {joinTicker joinTicker' : JoinTicker JoinSession} {ev : JoinTicker.Event JoinSession}
    (hblocked : joinTicker.Blocked) (hstop : joinTicker.stopCall ≠ .waiting) (hempty : GoMap.len joinTicker.joinSessions = 0)
    (hstep : joinTicker.step ev = some joinTicker') :
    joinTicker' = { joinTicker with stopCall := .returned 0 } ∧ ev = .stop := by
  obtain ⟨hsending, hdone⟩ := hblocked
  cases ev with
  | run id joinSession =>
    rw [JoinTicker.step, if_pos hsending] at hstep
    cases hstep
  | removeSession id =>
    rw [JoinTicker.step, if_pos hsending] at hstep
    cases hstep
  | send =>
    rw [JoinTicker.step, if_neg (by simp [hdone])] at hstep
    cases hstep
  | stop =>
    rw [JoinTicker.step] at hstep
    split_ifs at hstep with _ hregistered
    · exact absurd hempty hregistered
    · cases hstep
      exact ⟨rfl, rfl⟩
  | receive =>
    rw [JoinTicker.step, if_neg fun h => hstop h.1] at hstep
    cases hstep

theorem Stopped.step {cfg : Config} {made : ℕ} {svc svc' : SplitTxMatcherService} {ev : Event} (h : svc.Stopped made)
    (hstep : svc.step cfg ev = some svc') : svc'.Stopped made := by
  have hrunning : ∀ run, svc.run = run → (∀ id joinSession, run ≠ .registering id joinSession) →
      svc.formed.length = made := by
    intro run hrun hother
    rcases h.made with hmade | ⟨-, id, joinSession, hreg⟩
    · exact hmade
    · exact absurd (hrun.symm.trans hreg) (hother id joinSession)
  cases stepped_of_step hstep with
  | findMatches => exact ⟨h.blocked, h.stop, h.empty, h.made⟩
  | receive => exact ⟨h.blocked, h.stop, h.empty, h.made⟩
  | idle => exact h
  | sized hrun => exact ⟨h.blocked, h.stop, h.empty, .inl (hrunning _ hrun fun _ _ hreg => by cases hreg)⟩
  | form hrun =>
    have hmade := hrunning _ hrun fun _ _ hreg => by cases hreg
    refine ⟨h.blocked, h.stop, h.empty, .inr ⟨?_, _, _, rfl⟩⟩
    show (svc.formed ++ [_]).length ≤ made + 1
    rw [List.length_append, List.length_singleton, hmade]
  | register _ hticker =>
    obtain ⟨-, hev⟩ := stopped_ticker h.blocked h.stop h.empty hticker
    cases hev
  | withdrawn =>
    refine ⟨h.blocked, h.stop, h.empty, h.made.imp_right fun hone => ⟨hone.1, ?_⟩⟩
    obtain ⟨-, id, joinSession, hreg⟩ := hone
    exact ⟨id, joinSession, RunPc.leave_eq_registering.mpr hreg⟩
  | deserted => exact ⟨h.blocked, h.stop, h.empty, h.made⟩
  | handOff => exact ⟨h.blocked, h.stop, h.empty, h.made⟩
  | removeSession hticker =>
    obtain ⟨-, hev⟩ := stopped_ticker h.blocked h.stop h.empty hticker
    cases hev
  | registry hticker =>
    obtain ⟨rfl, -⟩ := stopped_ticker h.blocked h.stop h.empty hticker
    exact ⟨h.blocked, fun hwaiting => (by cases hwaiting), h.empty, h.made⟩

/-- **A `RemoveSession` that cannot send stops the matching for good**, unless `Stop`
waits already: from then on no session is ever registered, and at most one is made. -/
theorem matching_stops {cfg : Config} {svc svc' : SplitTxMatcherService} (hs : Reachable cfg svc)
    (hblocked : svc.joinTicker.Blocked) (hstop : svc.joinTicker.stopCall ≠ .waiting)
    (hrun : RunsTo (step cfg) Fresh svc svc') :
    svc'.joinTicker.Blocked ∧ GoMap.len svc'.joinTicker.joinSessions = 0 ∧ svc'.formed.length ≤ svc.formed.length + 1 := by
  have hstopped : svc'.Stopped svc.formed.length :=
    hrun.invariant ⟨hblocked, hstop, hs.empty_of_sending hblocked.1, .inl rfl⟩ fun _ _ _ h _ hstep => h.step hstep
  refine ⟨hstopped.blocked, hstopped.empty, ?_⟩
  rcases hstopped.made with hmade | ⟨hmade, -⟩
  · omega
  · exact hmade

/-! Two calls: both are answered, or both are given up behind the count. -/

instance (svc : SplitTxMatcherService) : (ev : Event) → Decidable (svc.Fresh ev)
  | .findMatches sessID _ => inferInstanceAs (Decidable (sessID ∉ svc.calls.keys))
  | .form _ joinSessionID => inferInstanceAs (Decidable (joinSessionID ∉ svc.formed.map (·.joinSessionID)))
  | .receive _ | .tick | .register | .cancel _ | .handOff _ | .removeSession _ | .send | .stop | .receiveDone =>
    inferInstanceAs (Decidable True)

theorem reachable_of_any (cfg : Config) (evs : List Event) {p : SplitTxMatcherService → Bool}
    (h : (evs.foldlM (fun svc ev => if decide (svc.Fresh ev) then svc.step cfg ev else none)
      newSplitTxMatcherService).any p = true) : ∃ svc, Reachable cfg svc ∧ p svc = true := by
  obtain ⟨svc, hrun, hp⟩ := (Option.any_eq_true _ _).mp h
  exact ⟨svc, .of_checked (fun svc ev => decide (svc.Fresh ev)) (fun _ _ => of_decide_eq_true) hrun, hp⟩

/-- The request of the second call is received after its client has gone. -/
def twoCalls : List Event :=
  [.findMatches 1 5, .findMatches 2 5, .receive 1, .cancel 2, .receive 2, .tick, .form .plain 7, .register, .handOff 1]

/-- Two sessions, one after the other. -/
def twoSessions : List Event :=
  [.findMatches 1 5, .receive 1, .tick, .form .plain 7, .register, .removeSession 7, .send,
    .findMatches 2 5, .receive 2, .tick, .form .plain 8, .register, .removeSession 8]

def givenUp : List Event :=
  [.findMatches 1 5, .findMatches 2 5, .receive 1, .receive 2, .tick, .cancel 1, .cancel 2, .form .plain 7]

theorem find_matches_placed_two : ∃ svc : SplitTxMatcherService,
    (svc.calls.lookup 2).map (·.adding) = some (.answered 7) ∧ svc.Placed ∧
      ∀ sessSize left, svc.run = .sized sessSize left →
        ∀ ch joinSessionID, (svc.step ⟨2, true⟩ (.form ch joinSessionID)).isSome = true := by
  obtain ⟨svc, hs, hanswered⟩ := reachable_of_any ⟨2, true⟩ twoCalls
    (p := fun svc => decide ((svc.calls.lookup 2).map (·.adding) = some (.answered 7))) (by decide +kernel)
  exact ⟨svc, of_decide_eq_true hanswered, find_matches_placed hs⟩

theorem session_sizes_given_up : ∃ svc : SplitTxMatcherService,
    svc.formed.map (fun f => (f.sessSize, f.left, GoMap.len f.session.participants)) = [(2, 2, 0)] ∧
      svc.Measured ⟨2, true⟩ := by
  obtain ⟨svc, hs, hsizes⟩ := reachable_of_any ⟨2, true⟩ givenUp
    (p := fun svc => decide (svc.formed.map (fun f => (f.sessSize, f.left, GoMap.len f.session.participants)) = [(2, 2, 0)]))
    (by decide +kernel)
  exact ⟨svc, of_decide_eq_true hsizes, session_sizes hs⟩

theorem answers_found_one : ∃ svc : SplitTxMatcherService, ∃ f ∈ svc.formed, f.joinSessionID = 7 ∧
    1 ∈ f.session.participants.keys ∧ (svc.run = .registering 7 f.session ∨
      svc.joinTicker.joinSessions.lookup 7 = some f.session ∨ 7 ∈ svc.removed) := by
  obtain ⟨svc, hs, hreturned⟩ := reachable_of_any ⟨2, true⟩ twoCalls
    (p := fun svc => decide (svc.calls.lookup 1 = some ⟨5, .answered 7, .returned 7⟩)) (by decide +kernel)
  exact ⟨svc, answers_found hs (of_decide_eq_true hreturned) rfl⟩

theorem matching_stops_second : ∃ svc : SplitTxMatcherService, svc.formed.length = 2 ∧
    ∀ svc', RunsTo (step ⟨1, true⟩) Fresh svc svc' → svc'.joinTicker.Blocked ∧
      GoMap.len svc'.joinTicker.joinSessions = 0 ∧ svc'.formed.length ≤ svc.formed.length + 1 := by
  obtain ⟨svc, hs, hblocks⟩ := reachable_of_any ⟨1, true⟩ twoSessions
    (p := fun svc => decide (svc.joinTicker.sending = true ∧ svc.joinTicker.done = true ∧
      svc.joinTicker.stopCall = .notCalled ∧ svc.formed.length = 2)) (by decide +kernel)
  obtain ⟨hsending, hdone, hstop, hmade⟩ := of_decide_eq_true hblocks
  exact ⟨svc, hmade, fun svc' hrun => matching_stops hs ⟨hsending, hdone⟩ (by rw [hstop]; simp) hrun⟩

end SplitTxMatcherService

end Dcrtxmatcher.Matcher
