import Dcrtxmatcher.Coinjoin.Handover
import Dcrtxmatcher.Coinjoin.Holdings

/-! What the joined transaction spends.

Each member's inputs are compared with its own change and its own messages at its own
price, in wrapping integers and rounded to coins. The joined transaction has every
output of every member, and an output at the last price for every script. -/
namespace Dcrtxmatcher.Coinjoin
open Lib

/-! ### Amounts -/

/-- What goes into a transaction. -/
def MsgTx.inputTotal (tx : MsgTx) : ℤ := (tx.txIn.map (·.valueIn)).sum

/-- What comes out of it. -/
def MsgTx.outputTotal (tx : MsgTx) : ℤ := (tx.txOut.map (·.value)).sum

/-- All the coins there can be, in atoms. -/
def maxAmount : ℤ := 21 * 10 ^ 14

/-- Amounts that are compared as they are: no input takes anything away, the sums are in
range, and nothing is spent past the first output. -/
structure PlainAmounts (numMsg : ℕ) (ticketPrice : ℤ) (tx : MsgTx) : Prop where
  nonneg : ∀ txin ∈ tx.txIn, 0 ≤ txin.valueIn
  total : tx.inputTotal ≤ maxAmount
  range : ∀ change ∈ tx.txOut.head?, -(2 ^ 63) ≤ change.value + numMsg * ticketPrice ∧
    change.value + numMsg * ticketPrice < 2 ^ 63
  rest : (tx.txOut.tail.map (·.value)).sum ≤ 0

instance (numMsg : ℕ) (ticketPrice : ℤ) (tx : MsgTx) : Decidable (PlainAmounts numMsg ticketPrice tx) :=
  decidable_of_iff ((∀ txin ∈ tx.txIn, 0 ≤ txin.valueIn) ∧ tx.inputTotal ≤ maxAmount ∧
      (∀ change ∈ tx.txOut.head?, -(2 ^ 63) ≤ change.value + numMsg * ticketPrice ∧
        change.value + numMsg * ticketPrice < 2 ^ 63) ∧ (tx.txOut.tail.map (·.value)).sum ≤ 0)
    ⟨fun h => ⟨h.1, h.2.1, h.2.2.1, h.2.2.2⟩, fun h => ⟨h.nonneg, h.total, h.range, h.rest⟩⟩

/-- The loop over the inputs counts at most what goes in. -/
theorem sumInputs_le {l : List TxIn} (hnonneg : ∀ txin ∈ l, 0 ≤ txin.valueIn) {txAmount : ℤ} (hstart : 0 ≤ txAmount)
    (htotal : txAmount + (l.map (·.valueIn)).sum ≤ maxAmount) :
    0 ≤ (sumInputs txAmount l).1 ∧ (sumInputs txAmount l).1 ≤ txAmount + (l.map (·.valueIn)).sum := by
  induction l generalizing txAmount with
  | nil => simpa [sumInputs] using hstart
  | cons txin rest ih =>
    rw [List.forall_mem_cons] at hnonneg
    rw [List.map_cons, List.sum_cons] at htotal ⊢
    have hrest : 0 ≤ (rest.map (·.valueIn)).sum := by
      apply List.sum_nonneg
      intro x hx
      obtain ⟨txin', hmem, rfl⟩ := List.mem_map.mp hx
      exact hnonneg.2 txin' hmem
    rw [sumInputs]
    split_ifs
    · have := hnonneg.1
      constructor
      · exact hstart
      · dsimp only
        omega
    · have hexact : wrap64 (txAmount + txin.valueIn) = txAmount + txin.valueIn := by
        have := hnonneg.1
        unfold maxAmount at htotal
        apply wrap64_of_range <;> omega
      rw [hexact, ← add_assoc]
      exact ih hnonneg.2 (add_nonneg hstart hnonneg.1) (by rwa [add_assoc])

/-- Inputs that pass the check pay for all outputs and for the messages. -/
theorem paid_of_checked {numMsg : ℕ} {ticketPrice : ℤ} {tx : MsgTx} (h : PlainAmounts numMsg ticketPrice tx)
    {change : TxOut} {outs : List TxOut} (hout : tx.txOut = change :: outs)
    (hspend : ¬dcr (sumInputs 0 tx.txIn).1 < dcr (wrap64 (change.value + wrap64 (numMsg * ticketPrice)))) :
    tx.outputTotal + numMsg * ticketPrice ≤ tx.inputTotal := by
  have hsum := sumInputs_le h.nonneg le_rfl (by rw [zero_add]; exact h.total)
  rw [zero_add] at hsum
  obtain ⟨hlo, hhi⟩ := h.range change (by rw [hout]; rfl)
  have hwrap : wrap64 (change.value + wrap64 (numMsg * ticketPrice)) = change.value + numMsg * ticketPrice := by
    rw [← wrap64_of_range hlo hhi]
    exact Int.add_bmod_bmod ..
  have hchecked : change.value + numMsg * ticketPrice ≤ (sumInputs 0 tx.txIn).1 := by
    by_contra hover
    rw [not_le] at hover
    apply hspend
    rw [hwrap]
    calc dcr (sumInputs 0 tx.txIn).1 < dcr ((sumInputs 0 tx.txIn).1 + 1) :=
        dcr_lt_succ hsum.1 (hsum.2.trans h.total)
      _ ≤ dcr (change.value + numMsg * ticketPrice) := dcr_mono hover
  have hrest := h.rest
  have houtputs : tx.outputTotal = change.value + (outs.map (·.value)).sum := by
    rw [MsgTx.outputTotal, hout, List.map_cons, List.sum_cons]
  rw [hout, List.tail_cons] at hrest
  have hle := hsum.2
  change (sumInputs 0 tx.txIn).1 ≤ tx.inputTotal at hle
  linarith

/-! ### The joined transaction -/

/-- What the members pay for their messages, each at its own price. -/
def JoinSession.pledged (js : JoinSession) : ℤ :=
  ((GoMap.toList js.peers).map fun e => (e.2.numMsg : ℤ) * e.2.ticketPrice).sum

/-- The member's inputs pay for its outputs and its messages. -/
def PeerInfo.Pays (peer : PeerInfo) : Prop :=
  ∀ tx, peer.txIns = some tx → tx.outputTotal + peer.numMsg * peer.ticketPrice ≤ tx.inputTotal

theorem PeerInfo.Pays.of_bid {peer peer' : PeerInfo} (h : peer.Pays) (hbid : peer'.bid = peer.bid) : peer'.Pays := by
  simp only [PeerInfo.bid, Prod.mk.injEq] at hbid
  unfold PeerInfo.Pays
  rw [hbid.1, hbid.2.1, hbid.2.2]
  exact h

theorem pays_of_none {peer : PeerInfo} (h : peer.txIns = none) : peer.Pays := by
  intro tx htx
  rw [h] at htx
  cases htx

theorem totals_of_appendTxs (first : ℕ) (tx : MsgTx) (rest : List (ℕ × MsgTx)) :
    (appendTxs tx rest).inputTotal = (((first, tx) :: rest).map (·.2.inputTotal)).sum ∧
      (appendTxs tx rest).outputTotal = (((first, tx) :: rest).map (·.2.outputTotal)).sum := by
  simp [appendTxs, MsgTx.inputTotal, MsgTx.outputTotal, List.flatMap_def, List.sum_flatten,
    Function.comp_def]

/-- What the members have left over pays for their messages. -/
theorem submitted_pays (l : List (ℕ × PeerInfo)) (hsubmitted : ∀ e ∈ l, e.2.txIns.isSome = true)
    (hpays : ∀ e ∈ l, e.2.Pays) :
    ((l.filterMap fun e => e.2.txIns.map (e.1, ·)).map (·.2.outputTotal)).sum +
        (l.map fun e => (e.2.numMsg : ℤ) * e.2.ticketPrice).sum ≤
      ((l.filterMap fun e => e.2.txIns.map (e.1, ·)).map (·.2.inputTotal)).sum := by
  induction l with
  | nil => rfl
  | cons e l ih =>
    rw [List.forall_mem_cons] at hsubmitted hpays
    obtain ⟨tx, htx⟩ := Option.isSome_iff_exists.mp hsubmitted.1
    have hrest := ih hsubmitted.2 hpays.2
    have hfirst := hpays.1 tx htx
    rw [List.filterMap_cons_some (by rw [htx]; rfl)]
    simp only [List.map_cons, List.sum_cons]
    linarith

/-- **The joined transaction** spends no more than it has when every member pays for
itself and all of them for the scripts. -/
theorem joinedTx_paid {ch : Choices} {ticketPrice : ℤ} {js js' : JoinSession} {joinedtx : MsgTx}
    (h : buildJoinedTx ch ticketPrice js = .ok (joinedtx, js'))
    (hall : js.allSubmit (fun peer => peer.txIns.isSome) = true)
    (hpays : ∀ p peer, js.peers.lookup p = some peer → peer.Pays)
    (hscripts : js.allPkScripts.length * ticketPrice ≤ js.pledged) : joinedtx.outputTotal ≤ joinedtx.inputTotal := by
  obtain ⟨first, tx, rest, hvisited, rfl, -⟩ := buildJoinedTx_eq_ok h
  obtain ⟨hin, hout⟩ := totals_of_appendTxs first tx rest
  rw [← hvisited] at hin hout
  have hscriptTotal : (addScripts ticketPrice js.allPkScripts (appendTxs tx rest)).outputTotal =
      (appendTxs tx rest).outputTotal + js.allPkScripts.length * ticketPrice := by
    simp [addScripts, MsgTx.outputTotal, newTxOut, Function.comp_def]
  have hpledged : ((GoMap.range ch.order [647] js.peers).map fun e => (e.2.numMsg : ℤ) * e.2.ticketPrice).sum =
      js.pledged := ((GoMap.range_perm ..).map _).sum_eq
  have hmembers := submitted_pays (GoMap.range ch.order [647] js.peers)
    (fun e he => List.all_eq_true.mp hall e ((GoMap.range_perm ..).mem_iff.mp he))
    (fun e he => hpays e.1 e.2 (GoMap.mem_range.mp he))
  change (addScripts ticketPrice js.allPkScripts (appendTxs tx rest)).outputTotal ≤ (appendTxs tx rest).inputTotal
  rw [hscriptTotal, hout, hin]
  rw [hpledged] at hmembers
  exact (add_le_add_right hscripts _).trans hmembers

/-! ### The session -/

/-- The sender's amounts are plain, and if everybody has now sent inputs the members'
messages, each at its own price, pay for all scripts at the last price. -/
def Affordable (pkgs : Packages) (js : JoinSession) (txins : TxInputs) : Prop :=
  ∀ peer ∈ js.peers.lookup txins.peerId, ∀ tx ∈ pkgs.btcDecode txins.txins, 0 < txins.ticketPrice →
    PlainAmounts peer.numMsg txins.ticketPrice tx ∧
      ((storeInputs txins tx js).allSubmit (fun peer => peer.txIns.isSome) = true →
        js.allPkScripts.length * txins.ticketPrice ≤ (storeInputs txins tx js).pledged)

/-- The inputs that a message brings. -/
def ClientMessage.inputs : ClientMessage → Option TxInputs
  | .txInputs txins => some txins
  | _ => none

theorem ClientMessage.inputs_eq_some {msg : ClientMessage} {txins : TxInputs} (h : msg.inputs = some txins) :
    msg = .txInputs txins := by
  cases msg with
  | txInputs => exact congrArg ClientMessage.txInputs (Option.some_inj.mp h)
  | _ => cases h

instance (pkgs : Packages) (js : JoinSession) (txins : TxInputs) : Decidable (Affordable pkgs js txins) := by
  unfold Affordable
  infer_instance

/-- A message comes to the loop in a round that it belongs to, and inputs are affordable. -/
def Solvent (pkgs : Packages) (_ : Choices) (s : System) (ev : Event) : Prop :=
  ∀ msg ∈ s.handed ev, msg.kind.validIn s.session.state = true ∧
    ∀ txins ∈ msg.inputs, Affordable pkgs s.session txins

instance (pkgs : Packages) (ch : Choices) (s : System) (ev : Event) : Decidable (Solvent pkgs ch s ev) := by
  unfold Solvent
  infer_instance

/-- Nobody has sent inputs before they are asked for, and while they are collected every
member pays for itself. -/
structure Funded (s : System) : Prop where
  early : s.session.state.rank < SessionState.txInput.rank →
    ∀ p peer, s.session.peers.lookup p = some peer → peer.txIns = none
  pays : s.session.state = .txInput → s.session.mu = false → s.loop.waits = true →
    ∀ p peer, s.session.peers.lookup p = some peer → peer.Pays

section Steps
variable {pkgs : Packages} {ch : Choices} {s s' : System} {ev : Event} {js' : JoinSession}

theorem Funded.of_none (h : ∀ p peer, s.session.peers.lookup p = some peer → peer.txIns = none) : Funded s :=
  ⟨fun _ => h, fun _ _ _ p peer hp => pays_of_none (h p peer hp)⟩

/-- A step that leaves the round and the bids alone. -/
theorem Funded.quiet (h : Funded s) (hinherits : Inherits PeerInfo.bid s.session s'.session)
    (hstate : s'.session.state = s.session.state)
    (hwaits : s'.session.mu = false → s'.loop.waits = true → s.session.mu = false ∧ s.loop.waits = true) : Funded s' where
  early hrank p peer' hp := by
    rw [hstate] at hrank
    obtain ⟨peer, hpeer, hbid⟩ := hinherits p peer' hp
    exact (congrArg Prod.fst hbid).trans (h.early hrank p peer hpeer)
  pays hround hmu hloop p peer' hp := by
    rw [hstate] at hround
    obtain ⟨hfree, hrest⟩ := hwaits hmu hloop
    obtain ⟨peer, hpeer, hbid⟩ := hinherits p peer' hp
    exact (h.pays hround hfree hrest p peer hpeer).of_bid hbid

/-- A step that goes on to a round after the inputs, or to one before them. -/
theorem Funded.advanced (h : Funded s) (hinherits : Inherits (·.txIns) s.session s'.session)
    (hrank : s.session.state.rank < s'.session.state.rank) : Funded s' := by
  have hnone : s'.session.state.rank ≤ SessionState.txInput.rank →
      ∀ p peer, s'.session.peers.lookup p = some peer → peer.txIns = none := by
    intro hle p peer' hp
    obtain ⟨peer, hpeer, hsame⟩ := hinherits p peer' hp
    exact hsame.trans (h.early (hrank.trans_le hle) p peer hpeer)
  constructor
  · intro hlt
    exact hnone hlt.le
  · intro hround _ _ p peer hp
    exact pays_of_none (hnone (by rw [hround]) p peer hp)

theorem funded_expelled {ps : List ℕ} (hsession : s'.session = s.session.expelled ch ps) : Funded s' := by
  apply Funded.of_none
  intro p peer hp
  rw [hsession] at hp
  obtain ⟨old, id, sessionId, rfl⟩ := lookup_expelled hp
  rfl

theorem inherits_readMessage {peer : PeerInfo} {raw : RawMessage} {pc : ReaderPc} {js js' : JoinSession}
    (h : readMessage peer raw js = .ok (pc, js')) : Inherits PeerInfo.bid js js' := by
  rcases mu_of_readMessage h with hmu | ⟨-, hsame⟩
  · have houtcome := readMessage_outcome peer raw hmu
    rw [h] at houtcome
    cases houtcome with
    | admitted =>
      split_ifs
      · exact (Inherits.refl js).congr rfl
      · exact .refl js
    | _ => exact (Inherits.refl js).congr rfl
  · cases hsame
    exact .refl js

theorem allPkScripts_storeInputs (txins : TxInputs) (tx : MsgTx) (js : JoinSession) :
    (storeInputs txins tx js).allPkScripts = js.allPkScripts := by
  simp only [storeInputs]
  split <;> rfl

/-- The sender and the others once its inputs are in. -/
theorem bid_storeInputs {txins : TxInputs} {tx : MsgTx} {js : JoinSession} {p : ℕ} {peer' : PeerInfo}
    (h : (storeInputs txins tx js).peers.lookup p = some peer') :
    ∃ peer, js.peers.lookup p = some peer ∧
      (p = txins.peerId ∧ peer'.bid = (some tx, peer.numMsg, txins.ticketPrice) ∨ p ≠ txins.peerId ∧ peer' = peer) := by
  by_cases hp : p = txins.peerId
  · have hpeers : (storeInputs txins tx js).peers =
        ((storePrice txins js).setPeer txins.peerId fun peer => { peer with txIns := some tx }).peers := by
      simp only [storeInputs]
      split <;> rfl
    rw [hpeers, JoinSession.setPeer, hp, GoMap.lookup_modify_self, storePrice, JoinSession.setPeer,
      GoMap.lookup_modify_self, Option.map_map, Option.map_eq_some_iff] at h
    obtain ⟨peer, hpeer, rfl⟩ := h
    exact ⟨peer, hp ▸ hpeer, .inl ⟨hp, rfl⟩⟩
  · rw [lookup_storeInputs hp] at h
    exact ⟨peer', h, .inr ⟨hp, rfl⟩⟩

/-- Every member pays for itself once affordable inputs are in. -/
theorem pays_storeInputs {txins : TxInputs} {tx : MsgTx} {js : JoinSession} {peer : PeerInfo}
    (hpays : ∀ p peer, js.peers.lookup p = some peer → peer.Pays) (hp : js.peers.lookup txins.peerId = some peer)
    (hplain : PlainAmounts peer.numMsg txins.ticketPrice tx) {change : TxOut} {outs : List TxOut}
    (hout : tx.txOut = change :: outs)
    (hspend : ¬dcr (sumInputs 0 tx.txIn).1 < dcr (wrap64 (change.value + wrap64 (peer.numMsg * txins.ticketPrice)))) :
    ∀ q peer', (storeInputs txins tx js).peers.lookup q = some peer' → peer'.Pays := by
  intro q peer' hq
  obtain ⟨old, hold, ⟨rfl, hbid⟩ | ⟨-, rfl⟩⟩ := bid_storeInputs hq
  · rw [hp, Option.some_inj] at hold
    subst hold
    simp only [PeerInfo.bid, Prod.mk.injEq] at hbid
    intro tx' htx
    rw [hbid.1, Option.some_inj] at htx
    subst htx
    rw [hbid.2.1, hbid.2.2]
    exact paid_of_checked hplain hout hspend
  · exact hpays q peer' hold

/-- Inputs to the loop. -/
theorem Funded.inputs (h : Funded s) {txins : TxInputs} {d : Done} {readers : ℕ → ReaderPc}
    (hstate : s.session.state = .txInput) (hmu : s.session.mu = false) (hwaits : s.loop.waits = true)
    (hafford : Affordable pkgs s.session txins) (houtcome : TxInputsOutcome pkgs ch txins s.session (.ok (d, js'))) :
    Funded { s with session := js', loop := .rest d, readers := readers } := by
  have hpays := h.pays hstate hmu hwaits
  have hround : ∀ {s' : System}, s'.session.state.rank = 3 ∨ s'.session.state.rank = 4 →
      (s'.session.state = .txInput → s'.session.mu = false → s'.loop.waits = true →
        ∀ p peer, s'.session.peers.lookup p = some peer → peer.Pays) → Funded s' := by
    intro s' hrank hpays'
    refine ⟨fun hlt => ?_, hpays'⟩
    change s'.session.state.rank < 3 at hlt
    omega
  have hstored : ∀ tx, (storeInputs txins tx s.session).state.rank = 3 := by
    intro tx
    rw [state_storeInputs, hstate]
    rfl
  cases houtcome with
  | stranger =>
    apply hround (.inl (by rw [hstate]; rfl))
    intro _ _ _
    exact hpays
  | unpriced =>
    apply hround (.inl (by change s.session.state.rank = 3; rw [hstate]; rfl))
    intro _ _ hloop
    cases hloop
  | undecodable =>
    apply hround (.inl (by change s.session.state.rank = 3; rw [hstate]; rfl))
    intro _ _ hloop
    cases hloop
  | overspent =>
    apply hround (.inl (hstored _))
    intro _ hfree
    cases hfree
  | waiting hp hprice hdecode hout hspend =>
    apply hround (.inl (hstored _))
    intro _ _ _
    exact pays_storeInputs hpays hp (hafford _ hp _ hdecode (not_le.mp hprice)).1 hout hspend
  | joined _ _ _ _ _ _ hjoined =>
    cases hjoined with
    | failed hbuild =>
      apply hround (.inl ((congrArg SessionState.rank (state_buildJoinedTx hbuild)).trans (hstored _)))
      intro _ _ hloop
      cases hloop
    | sent =>
      apply hround (.inr rfl)
      intro hsign
      cases hsign

/-- A message to the loop. -/
theorem Funded.deliver (h : Funded s) {conn sessionId : ℕ} {state : SessionState} {msg : ClientMessage} {timer : Timer}
    {d : Done} (hmeets : Solvent pkgs ch s (.deliver conn)) (hloop : s.loop = .select timer)
    (hreader : s.readers conn = .sending sessionId state msg) (hhandle : handle pkgs ch s.session msg = .ok (d, js')) :
    Funded { s with session := js', loop := .rest d, readers := s.setReader conn .reading } := by
  have hmu := mu_of_handle hhandle
  have houtcome := hhandle ▸ handle_outcome pkgs ch msg hmu
  have hwaits : s.loop.waits = true := by
    rw [hloop]
    rfl
  have hhanded : s.handed (.deliver conn) = some msg := by
    rw [System.handed, hreader]
  obtain ⟨hvalid, hinputs⟩ := hmeets msg hhanded
  rcases inherits_handle houtcome with ⟨req, rfl, hinherits⟩ | ⟨txins, rfl⟩ | hinherits
  · apply Funded.of_none
    intro p peer' hp
    obtain ⟨peer, hpeer, hsame⟩ := hinherits p peer' hp
    have hstate : s.session.state = .keyExchange := by simpa [ClientMessage.kind, Kind.validIn] using hvalid
    exact hsame.trans (h.early (by rw [hstate]; decide) p peer hpeer)
  · have hstate : s.session.state = .txInput := by simpa [ClientMessage.kind, Kind.validIn] using hvalid
    exact h.inputs hstate hmu hwaits (hinputs txins rfl) houtcome
  · rcases advances_handle houtcome with ⟨hnext, -⟩ | ⟨hsame, -⟩
    · exact h.advanced (hinherits.comp Prod.fst) (Kind.rank_lt hvalid hnext)
    · exact h.quiet hinherits hsame fun _ _ => ⟨hmu, hwaits⟩

/-- The rest of a case. -/
theorem Funded.rest (h : Funded s) {d : Done} {running : Bool} (hloop : s.loop = .rest d)
    (hfinish : finish ch d s.session = .ok (running, js')) :
    Funded { s with session := js', loop := System.loopTo js' running } := by
  have hsteady : ∀ js running, Inherits PeerInfo.bid s.session js → js.state = s.session.state →
      (running = true → js.mu = false → s.session.mu = false ∧ s.loop.waits = true) →
      Funded { s with session := js, loop := System.loopTo js running } := by
    intro js running hinherits hstate hwaits
    apply h.quiet hinherits hstate
    intro hfree hselect
    cases running with
    | false => cases hselect
    | true => exact hwaits rfl hfree
  cases hmu : s.session.mu with
  | true =>
    rw [finish_held ch d hmu] at hfinish
    split_ifs at hfinish
    · cases hfinish
      refine hsteady _ _ ((Inherits.refl s.session).congr ?_) rfl fun hrunning => ?_
      · rfl
      · cases hrunning
    · cases hfinish
      apply hsteady _ _ (.refl _) rfl
      intro _ hfree
      exact absurd (hmu.symm.trans hfree) Bool.true_eq_false.mp
  | false =>
    rw [finish_free ch d hmu] at hfinish
    split_ifs at hfinish
    cases hfinish
    cases hpush : d.push with
    | some ps =>
      apply funded_expelled
      rw [Done.pushed, hpush]
      rfl
    | none =>
      have hsame : d.pushed ch s.session = s.session := by
        rw [Done.pushed, hpush]
        rfl
      rw [hsame]
      apply hsteady _ _ (.refl _) rfl
      intro hrunning _
      have hexit : d.exit = .next := (of_decide_eq_true hrunning).1
      obtain ⟨push, exit⟩ := d
      cases hpush
      cases hexit
      rw [hloop]
      exact ⟨hmu, rfl⟩

theorem Funded.step (h : Funded s) (hmeets : Solvent pkgs ch s ev) (hstep : Stepped pkgs ch s ev s') : Funded s' := by
  cases hstep with
  | timeout hloop _ htimeout =>
    apply h.quiet (inherits_timeout htimeout) (state_timeout htimeout)
    intro _ _
    rw [hloop]
    exact ⟨mu_of_timeout htimeout, rfl⟩
  | deliver hloop hreader hhandle => exact h.deliver hmeets hloop hreader hhandle
  | rest hloop hfinish => exact h.rest hloop hfinish
  | read _ _ hread =>
    apply h.quiet (inherits_readMessage hread) (of_readMessage hread).1
    intro hmu hwaits
    rcases mu_of_readMessage hread with hfree | ⟨-, hsame⟩
    · exact ⟨hfree, hwaits⟩
    · cases hsame
      exact ⟨hmu, hwaits⟩
  | push _ hpush =>
    rw [JoinSession.pushMaliciousInfo_eq ch _ (mu_of_pushMaliciousInfo hpush)] at hpush
    cases hpush
    exact funded_expelled rfl
  | remove =>
    apply h.quiet ((Inherits.refl _).removePeer _) (JoinSession.state_removePeer ..)
    intro hmu hwaits
    exact ⟨(JoinSession.mu_removePeer ..).symm.trans hmu, hwaits⟩
  | readError _ _ hread =>
    apply h.quiet (inherits_readError hread) (state_readError hread)
    exact fun _ hwaits => ⟨mu_of_readError hread, hwaits⟩
  | writeError _ _ hwrite =>
    apply h.quiet (inherits_writeError hwrite) (state_writeError hwrite)
    exact fun _ hwaits => ⟨mu_of_writeError hwrite, hwaits⟩

end Steps

theorem funded {pkgs : Packages} {s : System} (hs : ReachableBy pkgs (Solvent pkgs) s) : Funded s := by
  induction hs with
  | start sessionId roundTimeOut serverPublish queue hconn hid =>
    apply Funded.of_none
    intro p peer hp
    obtain ⟨conn, -, rfl⟩ := lookup_newJoinSession sessionId roundTimeOut serverPublish hp
    rfl
  | step _ hmeets h ih => exact ih.step hmeets (stepped_of_step h)

/-! ### What is broadcast -/

/-- The transaction that the loop builds when it takes inputs (`joinedtx`, complete at
line 667): from a member, at a price, that decode, pay for themselves and are the last. -/
def joinedtx (pkgs : Packages) (ch : Choices) (txins : TxInputs) (js : JoinSession) : Option MsgTx :=
  match js.peers.lookup txins.peerId, pkgs.btcDecode txins.txins with
  | some peer, some tx =>
    match tx.txOut with
    | [] => none
    | change :: _ =>
      if txins.ticketPrice ≤ 0 then none
      else if dcr (sumInputs 0 tx.txIn).1 < dcr (wrap64 (change.value + wrap64 (peer.numMsg * txins.ticketPrice))) then none
      else if (storeInputs txins tx js).allSubmit (fun peer => peer.txIns.isSome) then
        (buildJoinedTx ch txins.ticketPrice (storeInputs txins tx js)).toOption.map Prod.fst
      else none
  | _, _ => none

theorem joinedtx_eq_some {pkgs : Packages} {ch : Choices} {txins : TxInputs} {js : JoinSession} {joined : MsgTx} :
    joinedtx pkgs ch txins js = some joined ↔ ∃ peer tx change outs js',
      js.peers.lookup txins.peerId = some peer ∧ pkgs.btcDecode txins.txins = some tx ∧ tx.txOut = change :: outs ∧
        ¬txins.ticketPrice ≤ 0 ∧
        ¬dcr (sumInputs 0 tx.txIn).1 < dcr (wrap64 (change.value + wrap64 (peer.numMsg * txins.ticketPrice))) ∧
        (storeInputs txins tx js).allSubmit (fun peer => peer.txIns.isSome) = true ∧
        buildJoinedTx ch txins.ticketPrice (storeInputs txins tx js) = .ok (joined, js') := by
  constructor
  · intro h
    unfold joinedtx at h
    split at h
    · rename_i peer tx hp hdecode
      split at h
      · cases h
      · rename_i change outs hout
        split_ifs at h with hprice hspend hall
        rcases hbuild : buildJoinedTx ch txins.ticketPrice (storeInputs txins tx js) with e | ⟨joined', js'⟩
        · rw [hbuild] at h
          cases h
        · rw [hbuild] at h
          cases h
          exact ⟨peer, tx, change, outs, js', hp, hdecode, hout, hprice, hspend, hall, hbuild⟩
    · cases h
  · rintro ⟨peer, tx, change, outs, js', hp, hdecode, hout, hprice, hspend, hall, hbuild⟩
    simp only [joinedtx, hp, hdecode, hout]
    rw [if_neg hprice, if_neg hspend, if_pos hall, hbuild]
    rfl

/-- The transaction that is built in a step. -/
def System.builds (pkgs : Packages) (ch : Choices) (s : System) (ev : Event) : Option MsgTx := do
  let msg ← s.handed ev
  let txins ← msg.inputs
  joinedtx pkgs ch txins s.session

/-- The states that a session can get to when every step meets a condition, with the
transactions that were built on the way. -/
inductive Built (pkgs : Packages) (meets : Choices → System → Event → Prop) : List MsgTx → System → Prop
  | start (sessionId roundTimeOut : ℕ) (serverPublish : Bool) (queue : List (ℕ × ℕ))
      (hconn : (queue.map Prod.fst).Nodup) (hid : (queue.map Prod.snd).Nodup) :
      Built pkgs meets [] (.start (newJoinSession sessionId roundTimeOut serverPublish (queuePeers queue)))
  | step {built : List MsgTx} {s s' : System} {ch : Choices} {ev : Event} (hs : Built pkgs meets built s)
      (hmeets : meets ch s ev) (h : s.step pkgs ch ev = some s') :
      Built pkgs meets (built ++ (s.builds pkgs ch ev).toList) s'

section Built
variable {pkgs : Packages} {meets : Choices → System → Event → Prop} {s : System}

theorem Built.reachableBy {built : List MsgTx} (hs : Built pkgs meets built s) : ReachableBy pkgs meets s := by
  induction hs with
  | start sessionId roundTimeOut serverPublish queue hconn hid =>
    exact .start sessionId roundTimeOut serverPublish queue hconn hid
  | step _ hmeets h ih => exact ih.step hmeets h

/-- The run that leads to a state has built something. -/
theorem ReachableBy.built (hs : ReachableBy pkgs meets s) : ∃ built, Built pkgs meets built s := by
  induction hs with
  | start sessionId roundTimeOut serverPublish queue hconn hid =>
    exact ⟨[], .start sessionId roundTimeOut serverPublish queue hconn hid⟩
  | step _ hmeets h ih =>
    obtain ⟨built, hbuilt⟩ := ih
    exact ⟨_, hbuilt.step hmeets h⟩

end Built

/-- An unsigned transaction that is sent is the one that was built. -/
theorem joinedtx_of_sent {pkgs : Packages} {ch : Choices} {txins : TxInputs} {js js' : JoinSession} {d : Done}
    (h : TxInputsOutcome pkgs ch txins js (.ok (d, js'))) {conn : ℕ} {bytes : Bytes}
    (hsent : .send conn (.joinedTx bytes) ∈ js'.out) (hnew : .send conn (.joinedTx bytes) ∉ js.out) :
    ∃ joined, joinedtx pkgs ch txins js = some joined ∧ pkgs.btcEncode joined = some bytes := by
  have hstore : ∀ tx, (storeInputs txins tx js).out = js.out := fun tx => out_storeInputs txins tx js
  cases h with
  | stranger => exact absurd hsent hnew
  | unpriced => exact absurd hsent hnew
  | undecodable => exact absurd hsent hnew
  | overspent => exact absurd (hstore _ ▸ hsent) hnew
  | waiting => exact absurd (hstore _ ▸ hsent) hnew
  | joined hp hprice hdecode hout hspend hall hjoined =>
    cases hjoined with
    | failed hbuild => exact absurd (hstore _ ▸ out_buildJoinedTx hbuild ▸ hsent) hnew
    | @sent joined js'' tx hbuild hencode =>
      refine ⟨joined, joinedtx_eq_some.mpr ⟨_, _, _, _, js'', hp, hdecode, hout, hprice, hspend, hall, hbuild⟩, ?_⟩
      have hout' : js''.out = js.out := (out_buildJoinedTx hbuild).trans (hstore _)
      change _ ∈ js''.out ++ _ at hsent
      rw [hout'] at hsent
      obtain ⟨peer, -, heq⟩ := List.mem_map.mp ((List.mem_append.mp hsent).resolve_left hnew)
      cases heq
      exact hencode

/-- The messages of a step with a transaction in them carry the one that it builds. -/
theorem builds_of_sent {pkgs : Packages} {ch : Choices} {s s' : System} {ev : Event} (h : Stepped pkgs ch s ev s')
    {conn : ℕ} {bytes : Bytes} (hsent : .send conn (.joinedTx bytes) ∈ s'.session.out)
    (hnew : .send conn (.joinedTx bytes) ∉ s.session.out) :
    ∃ joined, s.builds pkgs ch ev = some joined ∧ pkgs.btcEncode joined = some bytes := by
  have hout : .send conn (.joinedTx bytes) ∈ s'.session.out.drop s.session.out.length := by
    obtain ⟨P, sent, hP, -⟩ : ∃ P : Output → Bool, Sends P s.session s'.session := by
      rcases sends_of_stepped h with ⟨_, _, _, _, _, _, hsends⟩ | hsends
      · exact ⟨_, hsends⟩
      · exact ⟨_, hsends⟩
    rw [hP] at hsent ⊢
    rw [List.drop_left]
    exact (List.mem_append.mp hsent).resolve_left hnew
  rcases sends_of_stepped h with ⟨conn', sessionId, state, msg, rfl, hreader, hsends⟩ | hsends
  swap
  · cases hsends.mem hout
  have hinputs : msg.kind = .txInputs := of_decide_eq_true (hsends.mem hout)
  cases h with
  | deliver hloop hreader' hhandle =>
    cases hreader.symm.trans hreader'
    cases msg with
    | txInputs txins =>
      have houtcome : TxInputsOutcome pkgs ch txins s.session _ :=
        hhandle ▸ handle_outcome pkgs ch _ (mu_of_handle hhandle)
      obtain ⟨joined, hjoined, hencode⟩ := joinedtx_of_sent houtcome hsent hnew
      refine ⟨joined, ?_, hencode⟩
      rw [System.builds, System.handed, hreader]
      exact hjoined
    | _ => cases hinputs

/-- A transaction that is built in a step of such a run is paid for. -/
theorem builds_paid {pkgs : Packages} {ch : Choices} {s s' : System} {ev : Event}
    (hs : ReachableBy pkgs (Solvent pkgs) s) (hmeets : Solvent pkgs ch s ev) (h : Stepped pkgs ch s ev s')
    {joined : MsgTx} (hbuilds : s.builds pkgs ch ev = some joined) : joined.outputTotal ≤ joined.inputTotal := by
  obtain ⟨msg, hhanded, hbuilds⟩ := Option.bind_eq_some_iff.mp hbuilds
  obtain ⟨txins, hinputs, hjoined⟩ := Option.bind_eq_some_iff.mp hbuilds
  obtain ⟨peer, own, change, outs, js', hp, hdecode, hown, hprice, hspend, hall, hbuild⟩ := joinedtx_eq_some.mp hjoined
  obtain ⟨hvalid, hafford⟩ := hmeets msg hhanded
  obtain ⟨hplain, hscripts⟩ := hafford txins hinputs peer hp own hdecode (not_le.mp hprice)
  obtain rfl := ClientMessage.inputs_eq_some hinputs
  have hstate : s.session.state = .txInput := of_decide_eq_true hvalid
  cases h with
  | deliver hloop hreader hhandle =>
    have hpays := (funded hs).pays hstate (mu_of_handle hhandle) (by rw [hloop]; rfl)
    apply joinedTx_paid hbuild hall (pays_storeInputs hpays hp hplain hown hspend)
    rw [allPkScripts_storeInputs]
    exact hscripts hall
  | _ => cases hhanded

/-- Every unsigned transaction that is sent is one that was built. -/
theorem built_of_sent {pkgs : Packages} {meets : Choices → System → Event → Prop} {built : List MsgTx} {s : System}
    (hs : Built pkgs meets built s) {conn : ℕ} {bytes : Bytes} (hsent : .send conn (.joinedTx bytes) ∈ s.session.out) :
    ∃ joined ∈ built, pkgs.btcEncode joined = some bytes := by
  induction hs with
  | start => cases hsent
  | step hs hmeets h ih =>
    rename_i built s s' ch ev
    by_cases hold : .send conn (.joinedTx bytes) ∈ s.session.out
    · obtain ⟨joined, hjoined, hencode⟩ := ih hold
      exact ⟨joined, List.mem_append_left _ hjoined, hencode⟩
    · obtain ⟨joined, hbuilds, hencode⟩ := builds_of_sent (stepped_of_step h) hsent hold
      exact ⟨joined, List.mem_append_right _ (Option.mem_toList.mpr hbuilds), hencode⟩

/-- **The joined transaction never spends more than it has** in a run in which messages
come to the loop in their rounds and inputs are affordable, and the unsigned
transactions that are sent are those that were built. -/
theorem joinedTx_affordable {pkgs : Packages} {built : List MsgTx} {s : System}
    (hs : Built pkgs (Solvent pkgs) built s) :
    (∀ joined ∈ built, joined.outputTotal ≤ joined.inputTotal) ∧
      ∀ conn bytes, .send conn (.joinedTx bytes) ∈ s.session.out →
        ∃ joined ∈ built, pkgs.btcEncode joined = some bytes := by
  refine ⟨?_, fun conn bytes => built_of_sent hs⟩
  induction hs with
  | start => exact fun joined hjoined => absurd hjoined List.not_mem_nil
  | step hs hmeets h ih =>
    intro joined hjoined
    rcases List.mem_append.mp hjoined with hold | hnew
    · exact ih joined hold
    · exact builds_paid hs.reachableBy hmeets (stepped_of_step h) (Option.mem_toList.mp hnew)

/-! Two wallets that join a transaction, and one that asks for more than its change. -/

/-- What the wallets' transactions are joined to, the first wallet's being `first`. -/
def tradedTx (first : MsgTx) : MsgTx :=
  addScripts 5 [List.replicate 24 0 ++ [8], List.replicate 24 0 ++ [9]] (appendTxs (walletTx 2) [(1, first)])

def tradePackages (first : MsgTx) : Packages :=
  { walletPackages with
    btcEncode := fun tx => if tx = tradedTx first then some [9] else none
    btcDecode := fun bytes => if bytes = [1] then some first else walletPackages.btcDecode bytes }

theorem tradePackages_traded {first joined : MsgTx} (h : (tradePackages first).btcEncode joined = some [9]) :
    joined = tradedTx first := by
  simp only [tradePackages] at h
  split_ifs at h with hsame
  exact hsame

def tradeRun : List (Choices × Event) :=
  turn 1 (.keyExchange ⟨0, [5], 1⟩) ++ turn 2 (.keyExchange ⟨0, [6], 1⟩) ++
    turn 1 (.dcExpVector (smallVector [10, 100])) ++ turn 2 (.dcExpVector (smallVector [4, 16])) ++
    turn 1 (.dcXorVector (smallScripts [8, 0])) ++ turn 2 (.dcXorVector (smallScripts [0, 9])) ++
    turn 1 (.txInputs ⟨0, [1], 5⟩) ++ turn 2 (.txInputs ⟨0, [2], 5⟩)

theorem joinedTx_affordable_wallets : ∃ s built,
    Built (tradePackages (walletTx 1)) (Solvent (tradePackages (walletTx 1))) built s ∧
      .send 1 (.joinedTx [9]) ∈ s.session.out ∧ tradedTx (walletTx 1) ∈ built ∧
      (tradedTx (walletTx 1)).outputTotal ≤ (tradedTx (walletTx 1)).inputTotal := by
  have hstart : ReachableBy (tradePackages (walletTx 1)) (Solvent (tradePackages (walletTx 1)))
      (System.start (newJoinSession 7 60 false (queuePeers [(1, 1), (2, 2)]))) :=
    .start 7 60 false [(1, 1), (2, 2)] (by decide) (by decide)
  obtain ⟨s, hs, hsent⟩ := hstart.of_any (l := tradeRun) (p := fun s => .send 1 (.joinedTx [9]) ∈ s.session.out)
    (by decide +kernel)
  have hsent' : .send 1 (.joinedTx [9]) ∈ s.session.out := of_decide_eq_true hsent
  obtain ⟨built, hbuilt⟩ := hs.built
  obtain ⟨hpaid, hjoined⟩ := joinedTx_affordable hbuilt
  obtain ⟨joined, hmem, hencode⟩ := hjoined 1 [9] hsent'
  obtain rfl := tradePackages_traded hencode
  exact ⟨s, built, hbuilt, hsent', hmem, hpaid _ hmem⟩

/-- A wallet whose second output nobody looks at. -/
def greedyTx : MsgTx := { walletTx 1 with txOut := [newTxOut 3 [1], newTxOut 1000 [1]] }

/-- **A second output is not paid for.** -/
theorem second_output_overspends : ∃ s built, Built (tradePackages greedyTx) (fun _ _ _ => True) built s ∧
    ∃ joined ∈ built, ∃ conn bytes, .send conn (.joinedTx bytes) ∈ s.session.out ∧
      (tradePackages greedyTx).btcEncode joined = some bytes ∧ ¬joined.outputTotal ≤ joined.inputTotal := by
  have hstart : ReachableBy (tradePackages greedyTx) (fun _ _ _ => True)
      (System.start (newJoinSession 7 60 false (queuePeers [(1, 1), (2, 2)]))) :=
    .start 7 60 false [(1, 1), (2, 2)] (by decide) (by decide)
  obtain ⟨s, hs, hsent⟩ := hstart.of_any (l := tradeRun) (p := fun s => .send 1 (.joinedTx [9]) ∈ s.session.out)
    (by decide +kernel)
  have hsent' : .send 1 (.joinedTx [9]) ∈ s.session.out := of_decide_eq_true hsent
  obtain ⟨built, hbuilt⟩ := hs.built
  obtain ⟨joined, hmem, hencode⟩ := built_of_sent hbuilt hsent'
  obtain rfl := tradePackages_traded hencode
  exact ⟨s, built, hbuilt, _, hmem, 1, [9], hsent', hencode, by decide⟩

end Dcrtxmatcher.Coinjoin
