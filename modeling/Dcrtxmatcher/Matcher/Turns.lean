import Dcrtxmatcher.Go
import Dcrtxmatcher.Lib.Shares
import Dcrtxmatcher.Matcher.Session

/-! What the functions of a matcher session do when `Run` gets through them. -/
namespace Dcrtxmatcher.Matcher
open Lib
open Coinjoin (TxIn TxOut)

namespace JoinSession
variable {ch : Choices} {m m' : JoinSession}

/-! ### Replies -/

theorem send_eq_ok {chan : Option ℕ} {res : Response} :
    m.send chan res = .ok m' ↔
      ∃ c, chan = some c ∧ c ∉ m.replies.map Prod.fst ∧ m' = { m with replies := m.replies ++ [(c, res)] } := by
  cases chan with
  | none => simp [send]
  | some c =>
    rw [send]
    by_cases hc : c ∈ m.replies.map Prod.fst
    · rw [if_pos hc]
      constructor
      · intro h
        cases h
      · intro ⟨_, heq, hnot, _⟩
        cases heq
        exact absurd hc hnot
    · rw [if_neg hc]
      constructor
      · intro h
        cases h
        exact ⟨c, rfl, hc, rfl⟩
      · intro ⟨_, heq, _, h⟩
        cases heq
        rw [h]

/-- A send that is stuck has done nothing. -/
theorem send_eq_error {chan : Option ℕ} {res : Response} {halt : Halt} (h : m.send chan res = .error halt) : halt = .send m := by
  cases chan with
  | none =>
    cases h
    rfl
  | some c =>
    rw [send] at h
    split_ifs at h
    cases h
    rfl

theorem send_ne_panic (chan : Option ℕ) (res : Response) (m : JoinSession) : m.send chan res ≠ .error .panic := by
  intro h
  cases send_eq_error h

/-- A loop of sends gets through when nobody was answered before or is answered twice. -/
theorem foldlM_send_eq_ok {β : Type} {chan : β → Option ℕ} {res : β → Response} {l : List β} :
    l.foldlM (fun m p => m.send (chan p) (res p)) m = .ok m' ↔
      ∃ cs : List ℕ, l.map chan = cs.map some ∧ (m.replies.map Prod.fst).Disjoint cs ∧ cs.Nodup ∧
        m' = { m with replies := m.replies ++ cs.zip (l.map res) } := by
  induction l generalizing m with
  | nil =>
    constructor
    · intro h
      cases h
      exact ⟨[], rfl, List.disjoint_nil_right _, List.nodup_nil, by simp⟩
    · intro ⟨cs, hcs, _, _, h⟩
      rw [List.map_nil, eq_comm, List.map_eq_nil_iff] at hcs
      rw [h, hcs]
      simp
  | cons p l ih =>
    rw [List.foldlM_cons, bind_eq_ok]
    constructor
    · intro ⟨m₁, hsend, h⟩
      obtain ⟨c, hchan, hc, rfl⟩ := send_eq_ok.mp hsend
      obtain ⟨cs, hcs, hdisj, hnodup, rfl⟩ := ih.mp h
      rw [List.map_append, List.disjoint_append_left] at hdisj
      refine ⟨c :: cs, by rw [List.map_cons, hchan, hcs, List.map_cons], ?_, ?_, ?_⟩
      · exact List.disjoint_cons_right.mpr ⟨hc, hdisj.1⟩
      · exact List.nodup_cons.mpr ⟨List.singleton_disjoint.mp hdisj.2, hnodup⟩
      · simp
    · intro ⟨cs, hcs, hdisj, hnodup, h⟩
      cases cs with
      | nil => cases hcs
      | cons c cs =>
        rw [List.map_cons, List.map_cons, List.cons.injEq] at hcs
        rw [List.disjoint_cons_right] at hdisj
        rw [List.nodup_cons] at hnodup
        refine ⟨_, send_eq_ok.mpr ⟨c, hcs.1, hdisj.1, rfl⟩, ih.mpr ⟨cs, hcs.2, ?_, hnodup.2, ?_⟩⟩
        · rw [List.map_append, List.disjoint_append_left]
          exact ⟨hdisj.2, List.singleton_disjoint.mpr hnodup.1⟩
        · rw [h]
          simp

/-- A loop of sends that is stuck has sent to some before, and nothing else. -/
theorem foldlM_send_eq_error {β : Type} {chan : β → Option ℕ} {res : β → Response} {l : List β} {halt : Halt}
    (h : l.foldlM (fun m p => m.send (chan p) (res p)) m = .error halt) :
    ∃ new : List (ℕ × Response), halt = .send { m with replies := m.replies ++ new } ∧
      ∀ e ∈ new, ∃ p ∈ l, chan p = some e.1 ∧ res p = e.2 := by
  induction l generalizing m with
  | nil => cases h
  | cons p l ih =>
    rw [List.foldlM_cons] at h
    rcases bind_eq_error.mp h with hsend | ⟨m₁, hsend, hrest⟩
    · refine ⟨[], ?_, fun _ he => absurd he List.not_mem_nil⟩
      rw [List.append_nil]
      exact send_eq_error hsend
    · obtain ⟨c, hchan, -, rfl⟩ := send_eq_ok.mp hsend
      obtain ⟨new, rfl, hnew⟩ := ih hrest
      refine ⟨(c, res p) :: new, by simp, List.forall_mem_cons.mpr ⟨⟨p, List.mem_cons_self .., hchan, rfl⟩, fun e he => ?_⟩⟩
      obtain ⟨q, hq, htold⟩ := hnew e he
      exact ⟨q, List.mem_cons_of_mem p hq, htold⟩

/-- Everybody has a response channel of its own that was not answered yet. -/
structure Listening (chanOf : SessionParticipant → Option ℕ) (m : JoinSession) : Prop where
  waits : ∀ sid p, m.participants.lookup sid = some p → ∃ c, chanOf p = some c ∧ c ∉ m.replies.map Prod.fst
  own : ((GoMap.toList m.participants).map fun e => chanOf e.2).Nodup

/-- Everybody was sent its response on its channel, once. -/
def ToldAll (chanOf : SessionParticipant → Option ℕ) (res : SessionParticipant → Response) (m m' : JoinSession) : Prop :=
  ∃ new : List (ℕ × Response), m'.replies = m.replies ++ new ∧
    (new.map fun e => (some e.1, e.2)).Perm ((GoMap.toList m.participants).map fun e => (chanOf e.2, res e.2))

/-- A loop of sends over the participants gets through when everybody is listening. -/
theorem exists_sendAll {chanOf : SessionParticipant → Option ℕ} (res : SessionParticipant → Response)
    (h : m.Listening chanOf) (o : VisitOrder ℕ) (site : List ℕ) :
    ∃ m', (GoMap.values o site m.participants).foldlM (fun m p => m.send (chanOf p) (res p)) m = .ok m' := by
  have hwaits : ∀ p ∈ GoMap.values o site m.participants, ∃ c, chanOf p = some c ∧ c ∉ m.replies.map Prod.fst := by
    intro p hp
    obtain ⟨sid, hsid⟩ := GoMap.mem_values.mp hp
    exact h.waits sid p hsid
  have hown : ((GoMap.values o site m.participants).map chanOf).Nodup := by
    refine (((GoMap.values_perm o site m.participants).map chanOf).nodup_iff).mpr ?_
    rw [List.map_map]
    exact h.own
  generalize GoMap.values o site m.participants = l at hwaits hown
  obtain ⟨cs, hcs, hfree⟩ : ∃ cs : List ℕ, l.map chanOf = cs.map some ∧ ∀ c ∈ cs, c ∉ m.replies.map Prod.fst := by
    clear hown
    induction l with
    | nil => exact ⟨[], rfl, fun _ hc => absurd hc List.not_mem_nil⟩
    | cons p l ih =>
      obtain ⟨c, hc, hfree⟩ := hwaits p (List.mem_cons_self ..)
      obtain ⟨cs, hcs, hrest⟩ := ih fun p' hp' => hwaits p' (List.mem_cons_of_mem p hp')
      exact ⟨c :: cs, by rw [List.map_cons, hc, hcs, List.map_cons], List.forall_mem_cons.mpr ⟨hfree, hrest⟩⟩
  rw [hcs, List.nodup_map_iff (Option.some_injective ℕ)] at hown
  exact ⟨_, foldlM_send_eq_ok.mpr ⟨cs, hcs, fun c hold hc => hfree c hc hold, hown, rfl⟩⟩

/-- The channels and the responses of a loop, side by side. -/
theorem map_zip {β : Type} {l : List β} {chan : β → Option ℕ} {cs : List ℕ} (hcs : l.map chan = cs.map some)
    (res : β → Response) :
    ((cs.zip (l.map res)).map fun e => (some e.1, e.2)) = l.map fun b => (chan b, res b) := by
  induction l generalizing cs with
  | nil => simp
  | cons b l ih =>
    cases cs with
    | nil => cases hcs
    | cons c cs =>
      rw [List.map_cons, List.map_cons, List.cons.injEq] at hcs
      rw [List.map_cons, List.zip_cons_cons, List.map_cons, List.map_cons, ih hcs.2, hcs.1]

/-- Of a loop of sends over the participants nothing is left but the replies. -/
theorem sendAll_of_ok {chanOf : SessionParticipant → Option ℕ} {res : SessionParticipant → Response} {o : VisitOrder ℕ}
    {site : List ℕ}
    (h : (GoMap.values o site m.participants).foldlM (fun m p => m.send (chanOf p) (res p)) m = .ok m') :
    m.Listening chanOf ∧ m.ToldAll chanOf res m' ∧ m' = { m with replies := m'.replies } := by
  obtain ⟨cs, hcs, hdisj, hnodup, rfl⟩ := foldlM_send_eq_ok.mp h
  have hvalues := GoMap.values_perm o site m.participants
  refine ⟨⟨fun sid p hp => ?_, ?_⟩, ⟨_, rfl, ?_⟩, rfl⟩
  · have hmem : chanOf p ∈ cs.map some := hcs ▸ List.mem_map_of_mem (GoMap.mem_values.mpr ⟨sid, hp⟩)
    obtain ⟨c, hc, heq⟩ := List.mem_map.mp hmem
    exact ⟨c, heq.symm, fun hold => hdisj hold hc⟩
  · have hnodup' := (List.nodup_map_iff (Option.some_injective ℕ)).mpr hnodup
    rw [← hcs, (hvalues.map chanOf).nodup_iff, List.map_map] at hnodup'
    exact hnodup'
  · rw [map_zip hcs]
    refine (hvalues.map _).trans ?_
    rw [List.map_map]
    exact .refl _

theorem sendMerged_eq_ok {site : ℕ} {merged : MsgTx} :
    m.sendMerged ch site merged = .ok m' ↔
      ∃ cs : List ℕ, (GoMap.values ch.order [site] m.participants).map SessionParticipant.chanSubmitSplitTxRes =
          cs.map some ∧ (m.replies.map Prod.fst).Disjoint cs ∧ cs.Nodup ∧
        m' = { m with
          replies := m.replies ++ cs.zip ((GoMap.values ch.order [site] m.participants).map fun p =>
            .submitSplitTxRes merged p.inputIndes p.outputIndes) } :=
  foldlM_send_eq_ok

/-! ### Rearranging -/

/-- A loop over indices carries their entries, and the indices with them. -/
theorem shuffle_eq_ok {α : Type} {perm : List ℕ} (hperm : perm.Nodup) {old new new' : List (Option α)}
    {indes indes' : List ℕ} (hbound : ∀ j ∈ perm, j < new.length)
    (h : shuffle perm old indes new = .ok (new', indes')) :
    Carried perm old indes new new' ∧ indes'.map some = indes.map (perm[·]?) := by
  induction indes generalizing new indes' with
  | nil =>
    cases h
    exact ⟨.nil, rfl⟩
  | cons i rest ih =>
    rw [shuffle] at h
    split at h
    · rename_i j a hj ha
      obtain ⟨⟨new₁, moved⟩, hrest, h⟩ := bind_eq_ok.mp h
      cases h
      have hset := Carried.set hperm hj ha (hbound j (List.mem_of_getElem? hj))
      obtain ⟨hcarried, hmoved⟩ := ih (fun j hj => by rw [List.length_set]; exact hbound j hj) hrest
      exact ⟨hset.trans hcarried, by rw [List.map_cons, List.map_cons, hj, hmoved]⟩
    · cases h

/-- Indices in range do not panic. -/
theorem exists_shuffle {α : Type} {perm : List ℕ} {old : List (Option α)} (hlength : perm.length = old.length)
    {indes : List ℕ} (h : ∀ i ∈ indes, i < old.length) (new : List (Option α)) :
    ∃ r, shuffle perm old indes new = .ok r := by
  induction indes generalizing new with
  | nil => exact ⟨_, rfl⟩
  | cons i rest ih =>
    have hi := h i (List.mem_cons_self ..)
    obtain ⟨index, hindex⟩ : ∃ index, perm[i]? = some index := ⟨_, List.getElem?_eq_getElem (hlength ▸ hi)⟩
    obtain ⟨⟨new', indes'⟩, hr⟩ := ih (fun i' hi' => h i' (List.mem_cons_of_mem i hi')) (new.set index old[i])
    refine ⟨(new', index :: indes'), ?_⟩
    rw [shuffle, hindex, List.getElem?_eq_getElem hi]
    show (shuffle perm old rest _ >>= _) = _
    rw [hr]
    rfl

/-- The participants with new indices, as the loop over them leaves them. -/
def reindexed (ins outs : ℕ → List ℕ) (keys : List ℕ) (participants : GoMap ℕ SessionParticipant) :
    GoMap ℕ SessionParticipant :=
  GoMap.mapVal (fun sid p => if sid ∈ keys then { p with inputIndes := ins sid, outputIndes := outs sid } else p)
    participants

theorem reindexed_cons {ins outs : ℕ → List ℕ} {keys : List ℕ} {sid : ℕ} (h : sid ∉ keys) (inputIndes outputIndes : List ℕ)
    (participants : GoMap ℕ SessionParticipant) :
    reindexed ins outs keys
        (GoMap.modify sid (fun p => { p with inputIndes := inputIndes, outputIndes := outputIndes }) participants) =
      reindexed (Function.update ins sid inputIndes) (Function.update outs sid outputIndes) (sid :: keys)
        participants := by
  rw [reindexed, reindexed, GoMap.modify, GoMap.mapVal_mapVal]
  refine GoMap.mapVal_congr fun sid' p _ => ?_
  by_cases hsid : sid' = sid
  · subst hsid
    rw [if_neg h, if_pos rfl, if_pos (List.mem_cons_self ..), Function.update_self, Function.update_self]
  · rw [if_neg hsid, Function.update_of_ne hsid, Function.update_of_ne hsid]
    simp only [List.mem_cons, hsid, false_or]

/-- The loop over the participants: everybody's entries and indices are carried to new places. -/
theorem shuffleAll_eq_ok {permIn permOut : List ℕ} (hin : permIn.Nodup) (hout : permOut.Nodup) {merged : MsgTx}
    {l : List (ℕ × SessionParticipant)} (hkeys : (l.map Prod.fst).Nodup) {txIn txIn' : List (Option TxIn)}
    {txOut txOut' : List (Option TxOut)} {ps ps' : GoMap ℕ SessionParticipant}
    (hboundIn : ∀ j ∈ permIn, j < txIn.length) (hboundOut : ∀ j ∈ permOut, j < txOut.length)
    (h : shuffleAll permIn permOut merged l txIn txOut ps = .ok (txIn', txOut', ps')) :
    Carried permIn merged.txIn (l.flatMap fun e => e.2.inputIndes) txIn txIn' ∧
      Carried permOut merged.txOut (l.flatMap fun e => e.2.outputIndes) txOut txOut' ∧
      ∃ ins outs : ℕ → List ℕ,
        (∀ e ∈ l, (ins e.1).map some = e.2.inputIndes.map (permIn[·]?) ∧
          (outs e.1).map some = e.2.outputIndes.map (permOut[·]?)) ∧
        ps' = reindexed ins outs (l.map Prod.fst) ps := by
  induction l generalizing txIn txOut ps with
  | nil =>
    cases h
    refine ⟨.nil, .nil, fun _ => [], fun _ => [], fun _ he => absurd he List.not_mem_nil, ?_⟩
    apply AList.ext
    simp [reindexed, GoMap.mapVal]
  | cons e rest ih =>
    obtain ⟨sid, p⟩ := e
    rw [List.map_cons, List.nodup_cons] at hkeys
    rw [shuffleAll] at h
    obtain ⟨⟨txIn₁, inputIndes⟩, hshuffleIn, h⟩ := bind_eq_ok.mp h
    obtain ⟨⟨txOut₁, outputIndes⟩, hshuffleOut, h⟩ := bind_eq_ok.mp h
    obtain ⟨hcarriedIn, hinputs⟩ := shuffle_eq_ok hin hboundIn hshuffleIn
    obtain ⟨hcarriedOut, houtputs⟩ := shuffle_eq_ok hout hboundOut hshuffleOut
    obtain ⟨hrestIn, hrestOut, ins, outs, hlists, rfl⟩ :=
      ih hkeys.2 (by rwa [hcarriedIn.length]) (by rwa [hcarriedOut.length]) h
    refine ⟨hcarriedIn.trans hrestIn, hcarriedOut.trans hrestOut, Function.update ins sid inputIndes,
      Function.update outs sid outputIndes, ?_, reindexed_cons hkeys.1 ..⟩
    intro e he
    rcases List.mem_cons.mp he with rfl | he
    · rw [Function.update_self, Function.update_self]
      exact ⟨hinputs, houtputs⟩
    · have hne : e.1 ≠ sid := fun heq => hkeys.1 (List.mem_map.mpr ⟨e, he, heq⟩)
      rw [Function.update_of_ne hne, Function.update_of_ne hne]
      exact hlists e he

theorem exists_shuffleAll {permIn permOut : List ℕ} {merged : MsgTx} (hin : permIn.length = merged.txIn.length)
    (hout : permOut.length = merged.txOut.length) {l : List (ℕ × SessionParticipant)}
    (h : ∀ e ∈ l, (∀ i ∈ e.2.inputIndes, i < merged.txIn.length) ∧ ∀ i ∈ e.2.outputIndes, i < merged.txOut.length)
    (txIn : List (Option TxIn)) (txOut : List (Option TxOut)) (ps : GoMap ℕ SessionParticipant) :
    ∃ r, shuffleAll permIn permOut merged l txIn txOut ps = .ok r := by
  induction l generalizing txIn txOut ps with
  | nil => exact ⟨_, rfl⟩
  | cons e rest ih =>
    obtain ⟨sid, p⟩ := e
    have hp := h (sid, p) (List.mem_cons_self ..)
    obtain ⟨⟨txIn₁, inputIndes⟩, hshuffleIn⟩ := exists_shuffle hin hp.1 txIn
    obtain ⟨⟨txOut₁, outputIndes⟩, hshuffleOut⟩ := exists_shuffle hout hp.2 txOut
    obtain ⟨r, hr⟩ := ih (fun e he => h e (List.mem_cons_of_mem _ he)) txIn₁ txOut₁
      (GoMap.modify sid (fun p => { p with inputIndes := inputIndes, outputIndes := outputIndes }) ps)
    refine ⟨r, ?_⟩
    rw [shuffleAll, hshuffleIn]
    show (shuffle permOut merged.txOut p.outputIndes txOut >>= _) = _
    rw [hshuffleOut]
    exact hr

/-! ### Split transactions -/

theorem mergeSplitTx_eq_ok {splitTx merged : MsgTx} {old : Option MsgTx} {inputIndes outputIndes : List ℕ}
    (h : mergeSplitTx splitTx old = .ok (merged, inputIndes, outputIndes)) :
    merged.txIn = old.elim [] MsgTx.txIn ++ splitTx.txIn ∧ merged.txOut = old.elim [] MsgTx.txOut ++ splitTx.txOut ∧
      inputIndes = List.range' (old.elim [] MsgTx.txIn).length splitTx.txIn.length ∧
      outputIndes = List.range' (old.elim [] MsgTx.txOut).length splitTx.txOut.length ∧
      merged = { old.getD splitTx with txIn := merged.txIn, txOut := merged.txOut } := by
  cases old with
  | none =>
    obtain ⟨tx, hcopy, h⟩ := bind_eq_ok.mp h
    rw [MsgTx.copy] at hcopy
    split_ifs at hcopy
    cases hcopy
    cases h
    exact ⟨rfl, rfl, rfl, rfl, rfl⟩
  | some old =>
    cases h
    exact ⟨rfl, rfl, rfl, rfl, rfl⟩

theorem participants_withSplitTx (sessionID : ℕ) (splitTx : MsgTx) (resp : ℕ) (merged : MsgTx)
    (inputIndes outputIndes : List ℕ) (m : JoinSession) :
    (m.withSplitTx sessionID splitTx resp merged inputIndes outputIndes).participants =
      GoMap.modify sessionID (fun p =>
        { p with
          splitTx := some splitTx
          chanSubmitSplitTxRes := some resp
          inputIndes := inputIndes
          outputIndes := outputIndes }) m.participants := rfl

/-- The random branch. -/
theorem sendTxData_random {merged : MsgTx} (h : m.randomIndex = true ∧ 1 < GoMap.len m.participants) :
    m.sendTxData ch merged = .ok m' ↔ ∃ txIn txOut participants m₁,
      shuffleAll (ch.perm 406 merged.txIn.length) (ch.perm 407 merged.txOut.length) merged
          (GoMap.range ch.order [421] m.participants) (List.replicate merged.txIn.length none)
          (List.replicate merged.txOut.length none) m.participants = .ok (txIn, txOut, participants) ∧
        sendMerged ch 446 { merged with txIn := txIn, txOut := txOut }
          { m with participants := participants
                   mergedSplitTx := some { merged with txIn := txIn, txOut := txOut } } = .ok m₁ ∧
        m' = { m₁ with progress := .signedTx, clientTimeout := true } := by
  rw [sendTxData, if_pos h, bind_eq_ok]
  constructor
  · intro ⟨⟨txIn, txOut, participants⟩, hshuffle, h⟩
    obtain ⟨m₁, hsend, h⟩ := bind_eq_ok.mp h
    cases h
    exact ⟨txIn, txOut, participants, m₁, hshuffle, hsend, rfl⟩
  · intro ⟨txIn, txOut, participants, m₁, hshuffle, hsend, h⟩
    exact ⟨(txIn, txOut, participants), hshuffle, bind_eq_ok.mpr ⟨m₁, hsend, by rw [h]⟩⟩

/-- The other branch: nothing but the replies and the timer. -/
theorem sendTxData_plain {merged : MsgTx} (h : ¬ (m.randomIndex = true ∧ 1 < GoMap.len m.participants)) :
    m.sendTxData ch merged = .ok m' ↔
      ∃ m₁, m.sendMerged ch 461 merged = .ok m₁ ∧ m' = { m₁ with clientTimeout := true } := by
  rw [sendTxData, if_neg h, bind_eq_ok]
  simp only [Except.ok.injEq, eq_comm]

theorem addParticipantInput_eq_ok {sessionID : ℕ} {splitTx : MsgTx} {resp : ℕ} {err : Option Err} :
    m.addParticipantInput ch sessionID splitTx resp = .ok (err, m') ↔
      (sessionID ∉ m.participants.keys ∧ err = some .sessionNotFound ∧ m' = m) ∨
      (sessionID ∈ m.participants.keys ∧ err = none ∧ ∃ merged inputIndes outputIndes,
        mergeSplitTx splitTx m.mergedSplitTx = .ok (merged, inputIndes, outputIndes) ∧
        if (m.withSplitTx sessionID splitTx resp merged inputIndes outputIndes).checkTxSubmitted = true then
          (m.withSplitTx sessionID splitTx resp merged inputIndes outputIndes).sendTxData ch merged = .ok m'
        else m' = m.withSplitTx sessionID splitTx resp merged inputIndes outputIndes) := by
  rw [addParticipantInput]
  by_cases hmem : sessionID ∈ m.participants.keys
  · rw [if_pos hmem, bind_eq_ok]
    constructor
    · intro ⟨⟨merged, inputIndes, outputIndes⟩, hmerge, h⟩
      dsimp only at h
      split_ifs at h with hall
      · obtain ⟨m₁, hsend, h⟩ := bind_eq_ok.mp h
        cases h
        exact .inr ⟨hmem, rfl, merged, inputIndes, outputIndes, hmerge, by rwa [if_pos hall]⟩
      · cases h
        exact .inr ⟨hmem, rfl, merged, inputIndes, outputIndes, hmerge, by rw [if_neg hall]⟩
    · intro h
      rcases h with ⟨hnot, _⟩ | ⟨_, rfl, merged, inputIndes, outputIndes, hmerge, h⟩
      · exact absurd hmem hnot
      · refine ⟨(merged, inputIndes, outputIndes), hmerge, ?_⟩
        dsimp only
        split_ifs at h ⊢ with hall
        · rw [h]
          rfl
        · rw [h]
  · rw [if_neg hmem]
    constructor
    · intro h
      cases h
      exact .inl ⟨hmem, rfl, rfl⟩
    · intro h
      rcases h with ⟨_, rfl, rfl⟩ | ⟨hmem', _⟩
      · rfl
      · exact absurd hmem' hmem

/-! ### Signed transactions -/

/-- Own entries go in, up to the first nil; the others stay. -/
theorem mergeOwn_eq_ok {α : Type} {own : List (Option α)} {indes : List ℕ} {signed signed' : List (Option α)} {all : Bool}
    (h : mergeOwn own indes signed = .ok (all, signed')) :
    signed'.length = signed.length ∧
      (∀ i : ℕ, signed'[i]? = signed[i]? ∨ i ∈ indes ∧ ∃ a, own[i]? = some (some a) ∧ signed'[i]? = some (some a)) ∧
      (all = true → ∀ i ∈ indes, ∃ a, own[i]? = some (some a) ∧ signed'[i]? = some (some a)) := by
  induction indes generalizing signed with
  | nil =>
    cases h
    exact ⟨rfl, fun _ => .inl rfl, fun _ _ hi => absurd hi List.not_mem_nil⟩
  | cons j rest ih =>
    rw [mergeOwn] at h
    split at h
    · cases h
    · cases h
      exact ⟨rfl, fun _ => .inl rfl, fun h => by cases h⟩
    · rename_i a ha
      split_ifs at h with hlt
      obtain ⟨hlength, heach, hall⟩ := ih h
      -- what the rest of the loop leaves at `j` is the entry set there, or the same entry again
      have hj : signed'[j]? = some (some a) := by
        rcases heach j with hsame | ⟨_, b, hb, hset⟩
        · rw [hsame, List.getElem?_set_self hlt]
        · rw [hset, ← hb, ha]
      refine ⟨by rw [hlength, List.length_set], ?_, ?_⟩
      · intro i
        by_cases hij : i = j
        · exact .inr ⟨hij ▸ List.mem_cons_self .., a, hij ▸ ha, hij ▸ hj⟩
        · rcases heach i with hsame | ⟨hi, hset⟩
          · left
            rw [hsame, List.getElem?_set_ne (Ne.symm hij)]
          · exact .inr ⟨List.mem_cons_of_mem j hi, hset⟩
      · intro htrue i hi
        rcases List.mem_cons.mp hi with rfl | hi
        · exact ⟨a, ha, hj⟩
        · exact hall htrue i hi

theorem exists_mergeOwn {α : Type} {own : List (Option α)} {indes : List ℕ} {signed : List (Option α)}
    (hown : ∀ i ∈ indes, ∃ a, own[i]? = some (some a)) (hlt : ∀ i ∈ indes, i < signed.length) :
    ∃ signed', mergeOwn own indes signed = .ok (true, signed') := by
  induction indes generalizing signed with
  | nil => exact ⟨signed, rfl⟩
  | cons j rest ih =>
    obtain ⟨a, ha⟩ := hown j (List.mem_cons_self ..)
    have hlt' : ∀ i ∈ rest, i < (signed.set j (some a)).length := by
      intro i hi
      rw [List.length_set]
      exact hlt i (List.mem_cons_of_mem j hi)
    obtain ⟨signed', h⟩ := ih (fun i hi => hown i (List.mem_cons_of_mem j hi)) hlt'
    refine ⟨signed', ?_⟩
    rw [mergeOwn, ha]
    exact (if_pos (hlt j (List.mem_cons_self ..))).trans h

/-- The participants after the publisher is chosen among those that are visited from the `i`-th on. -/
def markPublisher (randIndex : ℕ) :
    ℕ → List (ℕ × SessionParticipant) → GoMap ℕ SessionParticipant → GoMap ℕ SessionParticipant
  | _, [], participants => participants
  | i, (sid, _) :: rest, participants =>
    markPublisher randIndex (i + 1) rest
      (if i = randIndex then GoMap.modify sid (fun p => { p with publisher := true }) participants else participants)

/-- Participants that differ in nothing but who publishes. -/
theorem lookup_markPublisher (randIndex i : ℕ) (l : List (ℕ × SessionParticipant))
    (participants : GoMap ℕ SessionParticipant) (sid : ℕ) :
    ∃ publisher : SessionParticipant → Bool, (markPublisher randIndex i l participants).lookup sid =
      (participants.lookup sid).map fun p => { p with publisher := publisher p } := by
  induction l generalizing i participants with
  | nil => exact ⟨SessionParticipant.publisher, by simp [markPublisher]⟩
  | cons e rest ih =>
    obtain ⟨publisher, h⟩ := ih (i + 1)
      (if i = randIndex then GoMap.modify e.1 (fun p => { p with publisher := true }) participants else participants)
    rw [markPublisher, h]
    split_ifs with hi
    · by_cases hsid : sid = e.1
      · refine ⟨fun p => publisher { p with publisher := true }, ?_⟩
        rw [hsid, GoMap.lookup_modify_self, Option.map_map]
        rfl
      · exact ⟨publisher, by rw [GoMap.lookup_modify_ne hsid]⟩
    · exact ⟨publisher, rfl⟩

theorem sendSigned_eq_ok {randIndex i : ℕ} {signedTx : MsgTx} {l : List (ℕ × SessionParticipant)} :
    sendSigned randIndex signedTx i l m = .ok m' ↔
      ∃ cs : List ℕ, (l.map fun e => e.2.chanSubmitSignedTxRes) = cs.map some ∧
        (m.replies.map Prod.fst).Disjoint cs ∧ cs.Nodup ∧
        m' = { m with
          participants := markPublisher randIndex i l m.participants
          replies := m.replies ++
            cs.zip (l.mapIdx fun j _ => .submitSignedTxRes signedTx (decide (i + j = randIndex))) } := by
  induction l generalizing i m with
  | nil =>
    constructor
    · intro h
      cases h
      exact ⟨[], rfl, List.disjoint_nil_right _, List.nodup_nil, by simp [markPublisher]⟩
    · intro ⟨cs, hcs, _, _, h⟩
      rw [List.map_nil, eq_comm, List.map_eq_nil_iff] at hcs
      rw [h, hcs]
      simp [sendSigned, markPublisher]
  | cons e rest ih =>
    obtain ⟨sid, p⟩ := e
    rw [sendSigned]
    have hshift : ∀ cs : List ℕ, (cs.zip (rest.mapIdx fun j _ => Response.submitSignedTxRes signedTx
        (decide (i + 1 + j = randIndex)))) = cs.zip (rest.mapIdx fun j _ =>
          Response.submitSignedTxRes signedTx (decide (i + (j + 1) = randIndex))) := by
      intro cs
      simp only [Nat.add_assoc, Nat.add_comm 1]
    constructor
    · intro h
      obtain ⟨m₁, hsend, h⟩ := bind_eq_ok.mp h
      obtain ⟨c, hchan, hc, rfl⟩ := send_eq_ok.mp hsend
      obtain ⟨cs, hcs, hdisj, hnodup, rfl⟩ := ih.mp h
      have hreplies : (if i = randIndex then
          { m with participants := GoMap.modify sid (fun p => { p with publisher := true }) m.participants }
          else m).replies = m.replies := by split_ifs <;> rfl
      simp only [hreplies] at hc hdisj ⊢
      rw [List.map_append, List.disjoint_append_left] at hdisj
      refine ⟨c :: cs, by rw [List.map_cons, hchan, hcs, List.map_cons], ?_, ?_, ?_⟩
      · exact List.disjoint_cons_right.mpr ⟨hc, hdisj.1⟩
      · exact List.nodup_cons.mpr ⟨List.singleton_disjoint.mp hdisj.2, hnodup⟩
      · rw [hshift, markPublisher, List.mapIdx_cons, List.zip_cons_cons, List.append_assoc, List.singleton_append]
        split_ifs <;> rfl
    · intro ⟨cs, hcs, hdisj, hnodup, h⟩
      cases cs with
      | nil => cases hcs
      | cons c cs =>
        rw [List.map_cons, List.map_cons, List.cons.injEq] at hcs
        rw [List.disjoint_cons_right] at hdisj
        rw [List.nodup_cons] at hnodup
        refine bind_eq_ok.mpr ⟨_, send_eq_ok.mpr ⟨c, hcs.1, ?_, rfl⟩, ih.mpr ⟨cs, hcs.2, ?_, hnodup.2, ?_⟩⟩
        · split_ifs <;> exact hdisj.1
        · rw [List.map_append, List.disjoint_append_left]
          refine ⟨?_, List.singleton_disjoint.mpr hnodup.1⟩
          split_ifs <;> exact hdisj.2
        · rw [h, hshift, markPublisher, List.mapIdx_cons, List.zip_cons_cons]
          split_ifs <;> simp

/-- A loop that is stuck has told some what all are to be told, and has marked whom it came to. -/
theorem sendSigned_eq_error {randIndex i : ℕ} {signedTx : MsgTx} {l : List (ℕ × SessionParticipant)} {halt : Halt}
    (h : sendSigned randIndex signedTx i l m = .error halt) :
    ∃ (visited : List (ℕ × SessionParticipant)) (new : List (ℕ × Response)), halt = .send { m with
          participants := markPublisher randIndex i visited m.participants
          replies := m.replies ++ new } ∧
      ∀ e ∈ new, ∃ publisher, e.2 = .submitSignedTxRes signedTx publisher := by
  induction l generalizing i m with
  | nil => cases h
  | cons e rest ih =>
    obtain ⟨sid, p⟩ := e
    rw [sendSigned] at h
    rcases bind_eq_error.mp h with hsend | ⟨m₁, hsend, hrest⟩
    · refine ⟨[(sid, p)], [], ?_, fun _ he => absurd he List.not_mem_nil⟩
      rw [send_eq_error hsend, markPublisher, markPublisher, List.append_nil]
      split_ifs <;> rfl
    · obtain ⟨c, -, -, rfl⟩ := send_eq_ok.mp hsend
      obtain ⟨visited, new, rfl, hnew⟩ := ih hrest
      refine ⟨(sid, p) :: visited, (c, .submitSignedTxRes signedTx (decide (i = randIndex))) :: new, ?_,
        List.forall_mem_cons.mpr ⟨⟨_, rfl⟩, hnew⟩⟩
      rw [markPublisher]
      split_ifs <;> simp

theorem participants_withSignedTx (sessionID : ℕ) (tx : MsgTx) (resp : ℕ) (m : JoinSession) :
    (m.withSignedTx sessionID tx resp).participants =
      GoMap.modify sessionID (fun p => { p with signedTx := some tx, chanSubmitSignedTxRes := some resp })
        m.participants := rfl

/-- The ways through `mergeSignedInput`. -/
inductive Signing (ch : Choices) (sessionID : ℕ) (tx : MsgTx) (resp : ℕ) (m : JoinSession) :
    Option Err → JoinSession → Prop where
  | unknown (h : m.participants.lookup sessionID = none) : Signing ch sessionID tx resp m (some .sessionNotFound) m
  | nilInput {p : SessionParticipant} {base : MsgTx} {txIn : List (Option TxIn)}
      (hp : m.participants.lookup sessionID = some p) (hbase : signedBase tx m.signedTx = .ok base)
      (hin : mergeOwn tx.txIn p.inputIndes base.txIn = .ok (false, txIn)) :
      Signing ch sessionID tx resp m (some (.nilInput p.id))
        { m.withSignedTx sessionID tx resp with signedTx := some { base with txIn := txIn } }
  | nilOutput {p : SessionParticipant} {base : MsgTx} {txIn : List (Option TxIn)} {txOut : List (Option TxOut)}
      (hp : m.participants.lookup sessionID = some p) (hbase : signedBase tx m.signedTx = .ok base)
      (hin : mergeOwn tx.txIn p.inputIndes base.txIn = .ok (true, txIn))
      (hout : mergeOwn tx.txOut p.outputIndes base.txOut = .ok (false, txOut)) :
      Signing ch sessionID tx resp m (some (.nilInput p.id))
        { m.withSignedTx sessionID tx resp with signedTx := some { base with txIn := txIn, txOut := txOut } }
  | waiting {p : SessionParticipant} {base : MsgTx} {txIn : List (Option TxIn)} {txOut : List (Option TxOut)}
      (hp : m.participants.lookup sessionID = some p) (hbase : signedBase tx m.signedTx = .ok base)
      (hin : mergeOwn tx.txIn p.inputIndes base.txIn = .ok (true, txIn))
      (hout : mergeOwn tx.txOut p.outputIndes base.txOut = .ok (true, txOut))
      (hopen : (m.withSignedTx sessionID tx resp).checkInputsSigned = false) :
      Signing ch sessionID tx resp m none
        { m.withSignedTx sessionID tx resp with signedTx := some { base with txIn := txIn, txOut := txOut } }
  | completed {p : SessionParticipant} {base : MsgTx} {txIn : List (Option TxIn)} {txOut : List (Option TxOut)}
      {m₁ : JoinSession} (hp : m.participants.lookup sessionID = some p) (hbase : signedBase tx m.signedTx = .ok base)
      (hin : mergeOwn tx.txIn p.inputIndes base.txIn = .ok (true, txIn))
      (hout : mergeOwn tx.txOut p.outputIndes base.txOut = .ok (true, txOut))
      (hall : (m.withSignedTx sessionID tx resp).checkInputsSigned = true)
      (hsend : sendSigned (ch.intn (GoMap.len (m.withSignedTx sessionID tx resp).participants))
        { base with txIn := txIn, txOut := txOut } 0
        (GoMap.range ch.order [271] (m.withSignedTx sessionID tx resp).participants)
        { m.withSignedTx sessionID tx resp with signedTx := some { base with txIn := txIn, txOut := txOut } } = .ok m₁) :
      Signing ch sessionID tx resp m none { m₁ with progress := .publishTx }

theorem mergeSignedInput_eq_ok {sessionID : ℕ} {tx : MsgTx} {resp : ℕ} {err : Option Err} :
    m.mergeSignedInput ch sessionID tx resp = .ok (err, m') ↔ Signing ch sessionID tx resp m err m' := by
  constructor
  · intro h
    rw [mergeSignedInput] at h
    split at h
    · rename_i hp
      cases h
      exact .unknown hp
    · rename_i p hp
      obtain ⟨base, hbase, h⟩ := bind_eq_ok.mp h
      obtain ⟨⟨inputs, txIn⟩, hin, h⟩ := bind_eq_ok.mp h
      cases inputs with
      | false =>
        cases h
        exact .nilInput hp hbase hin
      | true =>
        obtain ⟨⟨outputs, txOut⟩, hout, h⟩ := bind_eq_ok.mp h
        cases outputs with
        | false =>
          cases h
          exact .nilOutput hp hbase hin hout
        | true =>
          dsimp only at h
          by_cases hall : (m.withSignedTx sessionID tx resp).checkInputsSigned = true
          · replace h := (if_pos hall).symm.trans h
            obtain ⟨m₁, hsend, h⟩ := bind_eq_ok.mp h
            cases h
            exact .completed hp hbase hin hout hall hsend
          · replace h := (if_neg hall).symm.trans h
            cases h
            exact .waiting hp hbase hin hout (Bool.not_eq_true _ ▸ hall)
  · intro h
    rw [mergeSignedInput]
    cases h with
    | unknown hp => rw [hp]
    | nilInput hp hbase hin =>
      rw [hp]
      exact bind_eq_ok.mpr ⟨_, hbase, bind_eq_ok.mpr ⟨_, hin, rfl⟩⟩
    | nilOutput hp hbase hin hout =>
      rw [hp]
      exact bind_eq_ok.mpr ⟨_, hbase, bind_eq_ok.mpr ⟨_, hin, bind_eq_ok.mpr ⟨_, hout, rfl⟩⟩⟩
    | waiting hp hbase hin hout hopen =>
      rw [hp]
      refine bind_eq_ok.mpr ⟨_, hbase, bind_eq_ok.mpr ⟨_, hin, bind_eq_ok.mpr ⟨_, hout, ?_⟩⟩⟩
      exact if_neg (Bool.eq_false_iff.mp hopen)
    | completed hp hbase hin hout hall hsend =>
      rw [hp]
      refine bind_eq_ok.mpr ⟨_, hbase, bind_eq_ok.mpr ⟨_, hin, bind_eq_ok.mpr ⟨_, hout, ?_⟩⟩⟩
      exact (if_pos hall).trans (bind_eq_ok.mpr ⟨_, hsend, rfl⟩)

/-! ### The published transaction -/

theorem participants_withPublished (sessionID : ℕ) (publisher : Bool) (tx : Option MsgTx) (resp : ℕ) (m : JoinSession) :
    (m.withPublished sessionID publisher tx resp).participants =
      GoMap.modify sessionID (fun p => { p with sentPublished := true, chanPublishedTxRes := some resp })
        m.participants := rfl

/-- The outcome everybody gets. -/
def publishedRes (m : JoinSession) : Response :=
  match m.publishedTx with
  | some tx => .publishedTxRes tx
  | none => .err .publishTxNotSent

theorem sendPublished_eq_ok :
    m.sendPublished ch = .ok m' ↔
      ∃ cs : List ℕ, (GoMap.values ch.order [309] m.participants).map SessionParticipant.chanPublishedTxRes =
          cs.map some ∧ (m.replies.map Prod.fst).Disjoint cs ∧ cs.Nodup ∧
        m' = { m with
          replies := m.replies ++ cs.zip ((GoMap.values ch.order [309] m.participants).map fun _ => m.publishedRes) } :=
  foldlM_send_eq_ok

/-- What the publisher sends can be hashed. -/
theorem logPublished_eq_ok {publisher : Bool} {tx : Option MsgTx} :
    logPublished publisher tx = .ok () ↔ (publisher = true → ∀ result, tx = some result → result.Whole) := by
  cases publisher with
  | false => simp [logPublished]
  | true =>
    cases tx with
    | none => simp [logPublished]
    | some result =>
      by_cases hnil : none ∈ result.txIn ∨ none ∈ result.txOut
      · have hnot : ¬ result.Whole := fun hwhole => hnil.elim hwhole.1 hwhole.2
        simp [logPublished, MsgTx.txHash, hnil, hnot]
      · have hwhole : result.Whole := not_or.mp hnil
        simp [logPublished, MsgTx.txHash, hnil, hwhole]

theorem publishTxResult_eq_ok {sessionID : ℕ} {tx : Option MsgTx} {resp : ℕ} {err : Option Err} :
    m.publishTxResult ch sessionID tx resp = .ok (err, m') ↔
      (m.participants.lookup sessionID = none ∧ err = some .sessionNotFound ∧ m' = m) ∨
      ∃ p, m.participants.lookup sessionID = some p ∧ err = none ∧
        (p.publisher = true → ∀ result, tx = some result → result.Whole) ∧
        if (m.withPublished sessionID p.publisher tx resp).checkAllSentPublished = true then
          ∃ m₁, (m.withPublished sessionID p.publisher tx resp).sendPublished ch = .ok m₁ ∧
            m' = { m₁ with finished := m₁.finished + 1 }
        else m' = m.withPublished sessionID p.publisher tx resp := by
  rw [publishTxResult]
  rcases hp : m.participants.lookup sessionID with _ | p
  · constructor
    · intro h
      cases h
      exact .inl ⟨rfl, rfl, rfl⟩
    · intro h
      rcases h with ⟨_, rfl, rfl⟩ | ⟨_, h, _⟩
      · rfl
      · cases h
  · dsimp only
    rw [bind_eq_ok]
    by_cases hall : (m.withPublished sessionID p.publisher tx resp).checkAllSentPublished = true
    · simp only [if_pos hall, bind_eq_ok]
      constructor
      · intro ⟨_, hlog, m₁, hsend, h⟩
        cases h
        exact .inr ⟨p, rfl, rfl, logPublished_eq_ok.mp hlog, by rw [if_pos hall]; exact ⟨m₁, hsend, rfl⟩⟩
      · intro h
        rcases h with ⟨h, _⟩ | ⟨_, heq, rfl, hwhole, h⟩
        · cases h
        · cases heq
          rw [if_pos hall] at h
          obtain ⟨m₁, hsend, rfl⟩ := h
          exact ⟨(), logPublished_eq_ok.mpr hwhole, m₁, hsend, rfl⟩
    · simp only [if_neg hall]
      constructor
      · intro ⟨_, hlog, h⟩
        cases h
        exact .inr ⟨p, rfl, rfl, logPublished_eq_ok.mp hlog, by rw [if_neg hall]⟩
      · intro h
        rcases h with ⟨h, _⟩ | ⟨_, heq, rfl, hwhole, h⟩
        · cases h
        · cases heq
          rw [if_neg hall] at h
          rw [h]
          exact ⟨(), logPublished_eq_ok.mpr hwhole, rfl⟩

/-! ### Turns -/

/-- A request out of its stage, one that is answered with an error, and one that is taken in. -/
theorem inStage_eq_ok {stage : Progress} {resp : ℕ} {handler : JoinSession → Except Halt (Option Err × JoinSession)} :
    inStage stage resp handler m = .ok m' ↔
      (m.progress ≠ stage ∧ m.send (some resp) (.err .invalidRequest) = .ok m') ∨
      (m.progress = stage ∧
        ((∃ err m₁, handler m = .ok (some err, m₁) ∧ m₁.send (some resp) (.err err) = .ok m') ∨
          handler m = .ok (none, m'))) := by
  rw [inStage]
  by_cases hstage : m.progress = stage
  · rw [if_neg (not_not.mpr hstage), bind_eq_ok]
    constructor
    · intro ⟨⟨err, m₁⟩, hhandler, h⟩
      refine .inr ⟨hstage, ?_⟩
      cases err with
      | none =>
        cases h
        exact .inr hhandler
      | some err => exact .inl ⟨err, m₁, hhandler, h⟩
    · intro h
      rcases h with ⟨hnot, _⟩ | ⟨_, ⟨err, m₁, hhandler, h⟩ | hhandler⟩
      · exact absurd hstage hnot
      · exact ⟨_, hhandler, h⟩
      · exact ⟨_, hhandler, rfl⟩
  · rw [if_pos hstage]
    simp [hstage]

theorem toOption_eq_some {ε β : Type} {x : Except ε β} {b : β} : x.toOption = some b ↔ x = .ok b := by
  cases x <;> simp [Except.toOption]

theorem step_eq_some {ev : Event} (h : m.step (ch, ev) = some m') : handle ch m ev = .ok m' := by
  cases ev with
  | clientTimeout =>
    rw [step] at h
    dsimp only at h
    split_ifs at h
    exact toOption_eq_some.mp h
  | submitSplitTx => exact toOption_eq_some.mp h
  | submitSignedTx => exact toOption_eq_some.mp h
  | publishResult => exact toOption_eq_some.mp h
  | removeSessionID => exact toOption_eq_some.mp h

/-- Whoever the timeout misses is gone, the others stay as they are. -/
theorem lookup_timeout (sid : ℕ) :
    (m.timeout ch).participants.lookup sid = (m.participants.lookup sid).filter fun p => !missed m.progress p := by
  have hfold : ∀ (l : List (ℕ × SessionParticipant)) (participants : GoMap ℕ SessionParticipant),
      ((l.map Prod.fst).foldl (fun participants sid => participants.erase sid) participants).lookup sid =
        if sid ∈ l.map Prod.fst then none else participants.lookup sid := by
    intro l
    induction l with
    | nil => exact fun _ => rfl
    | cons e l ih =>
      intro participants
      rw [List.map_cons, List.foldl_cons, ih, GoMap.lookup_erase_eq]
      by_cases hsid : sid = e.1
      · simp [hsid]
      · rw [if_neg hsid]
        simp only [List.mem_cons, hsid, false_or]
  rw [timeout]
  dsimp only
  rw [hfold]
  rcases hp : m.participants.lookup sid with _ | p
  · simp
  · have hmem : sid ∈ ((GoMap.range ch.order [149] m.participants).filter fun e => missed m.progress e.2).map Prod.fst ↔
        missed m.progress p = true := by
      constructor
      · intro h
        obtain ⟨⟨_, p'⟩, he, rfl⟩ := List.mem_map.mp h
        obtain ⟨hrange, hmissed⟩ := List.mem_filter.mp he
        have hp' := GoMap.mem_range.mp hrange
        rw [hp] at hp'
        cases hp'
        exact hmissed
      · intro h
        exact List.mem_map.mpr ⟨(sid, p), List.mem_filter.mpr ⟨GoMap.mem_range.mpr hp, h⟩, rfl⟩
    by_cases hmissed : missed m.progress p = true
    · rw [if_pos (hmem.mpr hmissed), Option.filter_some_neg]
      rw [hmissed]
      rfl
    · rw [if_neg (fun h => hmissed (hmem.mp h)), Option.filter_some_pos]
      rw [Bool.eq_false_iff.mpr hmissed]
      rfl

theorem lookup_timeout_cases (ch : Choices) (m : JoinSession) (sid : ℕ) :
    (m.timeout ch).participants.lookup sid = m.participants.lookup sid ∨
      (m.timeout ch).participants.lookup sid = none ∧
        ∃ p, m.participants.lookup sid = some p ∧ missed m.progress p = true := by
  rw [lookup_timeout]
  rcases hp : m.participants.lookup sid with _ | p
  · exact .inl rfl
  · by_cases hmissed : missed m.progress p = true
    · exact .inr ⟨Option.filter_some_neg (by rw [hmissed]; rfl), p, rfl, hmissed⟩
    · exact .inl (Option.filter_some_pos (by rw [Bool.eq_false_iff.mpr hmissed]; rfl))

theorem lookup_removeSessionID_cases (m : JoinSession) (sessionID sid : ℕ) :
    (m.removeSessionID sessionID).participants.lookup sid = m.participants.lookup sid ∨
      (m.removeSessionID sessionID).participants.lookup sid = none ∧
        ∃ p, m.participants.lookup sid = some p ∧ sid = sessionID := by
  rw [removeSessionID]
  dsimp only
  rw [GoMap.lookup_erase_eq]
  by_cases hsid : sid = sessionID
  · rw [if_pos hsid]
    rcases hp : m.participants.lookup sid with _ | p
    · exact .inl rfl
    · exact .inr ⟨rfl, p, rfl, hsid⟩
  · rw [if_neg hsid]
    exact .inl rfl

end JoinSession

end Dcrtxmatcher.Matcher
