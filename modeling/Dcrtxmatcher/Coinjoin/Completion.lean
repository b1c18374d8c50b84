import Dcrtxmatcher.Coinjoin.HonestRun

/-! Honest sessions come to their end.

Wallets that can answer what they are sent always have a next step until a peer has
been asked to publish, and the run is bounded; so it can be brought there from wherever
it stands, and no run stops before (`honest_session_completes`). When that peer reports,
everybody is told and the session is completed. -/
namespace Dcrtxmatcher.Coinjoin
open Lib

/-- What peers need to be able to answer: bytes for the elements of the field, their own
transactions and their signatures. -/
structure Wallets.Able (pkgs : Packages) (w : Wallets) (ids : List ℕ) : Prop where
  element : ∀ x : Field, ∃ b : Bytes, b.length = pkScriptHashSize ∧ newFF pkgs b = x
  inputs : ∀ p ∈ ids, ∃ bytes, pkgs.btcDecode bytes = some (w.tx p)
  signs : ∀ p ∈ ids, ∀ order scripts, order.Perm ids → scripts.Perm (ids.flatMap w.scripts) →
    ∃ bytes tx, pkgs.btcDecode bytes = some tx ∧ w.Signs p (w.joined order scripts) tx

/-- A vector can be sent. -/
theorem exists_carries {pkgs : Packages} (h : ∀ x : Field, ∃ b : Bytes, b.length = pkScriptHashSize ∧ newFF pkgs b = x)
    (v : List Field) : ∃ data, Carries pkgs data v := by
  choose bytes hsize hbytes using h
  have hlength : ∀ l : List Field, (l.flatMap bytes).length = l.length * pkScriptHashSize := by
    intro l
    rw [List.length_flatMap, List.map_congr_left fun x _ => hsize x, List.map_const', List.sum_replicate, smul_eq_mul]
  refine ⟨⟨0, v.length, v.flatMap bytes, []⟩, rfl, hlength v, fun i hi => ?_⟩
  have hsplit : v = v.take i ++ v[i] :: v.drop (i + 1) := by
    rw [List.getElem_cons_drop, List.take_append_drop]
  have hflat : v.flatMap bytes = (v.take i).flatMap bytes ++ (bytes v[i] ++ (v.drop (i + 1)).flatMap bytes) := by
    conv_lhs => rw [hsplit]
    rw [List.flatMap_append, List.flatMap_cons]
  have hbefore : ((v.take i).flatMap bytes).length = i * pkScriptHashSize := by
    rw [hlength, List.length_take, min_eq_left hi.le]
  show newFF pkgs (((v.flatMap bytes).take ((i + 1) * pkScriptHashSize)).drop (i * pkScriptHashSize)) = v[i]
  rw [List.drop_take, hflat, ← hbefore, List.drop_left, hbefore, Nat.add_mul, Nat.one_mul, Nat.add_sub_cancel_left,
    ← hsize v[i], List.take_left]
  exact hbytes v[i]

section Progress
variable {pkgs : Packages} {w : Wallets} {queue : List (ℕ × ℕ)} {ids done : List ℕ} {asked : List ServerMessage}
  {t : Attended}

/-- Whoever is asked has an answer. -/
theorem Barrier.exists_answer {said : ℕ → ClientMessage → Prop} {js : JoinSession} (hable : w.Able pkgs ids)
    (h : Barrier pkgs w ids done said js asked) {p : ℕ} (hp : p ∈ ids) : ∃ msg, w.Answers pkgs p asked msg := by
  cases h with
  | keys => exact ⟨.keyExchange ⟨p, w.pk p, (w.scripts p).length⟩, rfl, rfl, rfl⟩
  | exponential =>
    obtain ⟨data, hdata⟩ := exists_carries hable.element _
    exact ⟨.dcExpVector data, _, rfl, hdata⟩
  | xor => exact ⟨.dcXorVector ⟨p, _, _, []⟩, _, _, _, rfl, rfl, rfl⟩
  | inputs =>
    obtain ⟨bytes, hdecode⟩ := hable.inputs p hp
    exact ⟨.txInputs ⟨p, bytes, w.ticketPrice⟩, _, _, _, rfl, rfl, hdecode⟩
  | signing _ _ horder hscripts _ hdecode =>
    obtain ⟨bytes, tx, htx, hsigns⟩ := hable.signs p hp _ _ horder hscripts
    exact ⟨.txSigned ⟨p, bytes⟩, _, _, _, _, _, tx, rfl, hdecode, htx, hsigns⟩

/-- The peer of a connection of the queue. -/
theorem Gathered.exists_peer (hm : Meeting pkgs w queue ids) {js : JoinSession} (h : Gathered queue ids js) {conn p : ℕ}
    (hmem : (conn, p) ∈ queue) : ∃ peer, js.peerOf conn = some peer ∧ peer.id = p := by
  obtain ⟨peer, hp⟩ := GoMap.lookup_of_mem_keys (h.keys ▸ hm.mem_ids hmem)
  obtain ⟨hid, hpeer⟩ := h.member p peer hp
  have hconn : peer.conn = conn := hm.conn_eq hpeer hmem
  have hlisted : peer ∈ (GoMap.toList js.peers).map Prod.snd ++ js.former :=
    List.mem_append_left _ (List.mem_map.mpr ⟨(p, peer), GoMap.mem_toList.mpr hp, rfl⟩)
  cases hfind : js.peerOf conn with
  | none =>
    rw [JoinSession.peerOf, List.find?_eq_none] at hfind
    exact absurd (decide_eq_true hconn) (hfind peer hlisted)
  | some found =>
    obtain ⟨hfound, -⟩ := h.peerOf hfind
    exact ⟨found, rfl, hm.peer_eq hfound hmem⟩

/-- As long as answers are missing there is a step. -/
theorem Asking.exists_step (hm : Meeting pkgs w queue ids) (hable : w.Able pkgs ids)
    (h : Asking pkgs w queue ids t asked done) : ∃ e t', t.Dutiful pkgs w e ∧ t.step pkgs e = some t' := by
  rcases h.goesOn hm with ⟨⟨conn, p⟩, hmem, howes⟩ | ⟨ev, hev, hstep⟩
  · obtain ⟨peer, hpeer, rfl⟩ := h.gathered.exists_peer hm hmem
    obtain ⟨msg, hanswers⟩ := h.barrier.exists_answer hable (hm.mem_ids hmem)
    have hok : t.Dutiful pkgs w (plainChoices id, .read conn (.message msg)) :=
      ⟨fun _ => rfl, howes, peer, hpeer, by rwa [h.received _ hmem]⟩
    obtain ⟨t', hstep⟩ := Option.isSome_iff_exists.mp ((Going.asking h).read hok)
    exact ⟨_, t', hok, hstep⟩
  · obtain ⟨t', hstep⟩ := Option.isSome_iff_exists.mp (hstep (plainChoices id) fun _ => rfl)
    refine ⟨_, t', ⟨fun _ => rfl, ?_⟩, hstep⟩
    rcases hev with rfl | ⟨conn, rfl⟩
    · trivial
    · trivial

/-- A run can be brought to the end: with every step there is less left to do. -/
theorem OnCourse.exists_end (hm : Meeting pkgs w queue ids) (hable : w.Able pkgs ids) (h : OnCourse pkgs w queue ids t) :
    ∃ t', RunsTo (Attended.step pkgs) (Attended.Dutiful pkgs w) t t' ∧ Published pkgs w queue ids t' := by
  generalize hleft : t.pending queue = n
  induction n using Nat.strong_induction_on generalizing t with
  | _ n ih =>
    cases h.going with
    | published hpublished => exact ⟨t, .start, hpublished⟩
    | asking hasking =>
      obtain ⟨e, t₁, hok, hstep⟩ := hasking.exists_step hm hable
      obtain ⟨-, -, hless⟩ := h.going.step hm hok hstep
      obtain ⟨t', hrun, hend⟩ := ih (t₁.pending queue) (by omega) (onCourse_step hm h hok hstep) rfl
      exact ⟨t', RunsTo.trans (.step .start e hok hstep) hrun, hend⟩

/-! ### The publisher -/

/-- Who has been asked to publish is a member. -/
def Attended.Appointed (t : Attended) : Prop :=
  t.system.session.state = .txPublish → ∃ peer, t.system.session.peers.lookup t.system.session.publisher = some peer

/-- Only the last signature gets a session to `TxPublish`, and then a member is chosen. -/
theorem appointed_handle {ch : Choices} {js js' : JoinSession} {msg : ClientMessage} {d : Done}
    (h : HandleOutcome pkgs ch js msg (.ok (d, js'))) (hbefore : js.state ≠ .txPublish) (hstate : js'.state = .txPublish) :
    ∃ peer, js'.peers.lookup js'.publisher = some peer := by
  rcases advances_handle h with ⟨hnext, -⟩ | ⟨hsame, -⟩
  swap
  · exact absurd (hsame.symm.trans hstate) hbefore
  rw [hstate] at hnext
  cases msg with
  | txSigned signedTx =>
    change TxSignedOutcome pkgs ch signedTx js _ at h
    cases h with
    | stranger => exact absurd hstate hbefore
    | undecodable => exact absurd hstate hbefore
    | again => exact absurd hstate hbefore
    | invalid => exact absurd hstate hbefore
    | waiting _ _ _ _ hmerge =>
      obtain ⟨_, rfl⟩ := mergeSigned_eq_ok hmerge
      exact absurd hstate hbefore
    | ended _ _ _ _ hmerge _ hpublish =>
      obtain ⟨_, rfl⟩ := mergeSigned_eq_ok hmerge
      cases hpublish with
      | unencodable => exact absurd hstate hbefore
      | published => cases hstate
      | unmarshalled => exact absurd hstate hbefore
      | delegated _ _ _ hp => exact ⟨_, hp⟩
  | _ => simp [ClientMessage.kind, Kind.next] at hnext

theorem appointed_step (hm : Meeting pkgs w queue ids) (h : Going pkgs w queue ids t) (happointed : t.Appointed) {t' : Attended}
    {e : Choices × Event} (hok : t.Dutiful pkgs w e) (hstep : t.step pkgs e = some t') : t'.Appointed := by
  obtain ⟨s', hsystem, rfl⟩ := Option.map_eq_some_iff.mp hstep
  obtain ⟨ch, ev⟩ := e
  obtain ⟨hmarshal, hev⟩ := hok
  cases stepped_of_step hsystem with
  | rest hloop hfinish =>
    obtain ⟨-, rfl, -⟩ := h.rest hm hloop hfinish
    exact happointed
  | deliver _ hreader hhandle =>
    cases h with
    | asking h =>
      exact fun hstate => appointed_handle (hhandle ▸ handle_outcome pkgs ch _ (mu_of_handle hhandle)) h.state_ne hstate
    | published h => exact ReaderPc.noConfusion ((h.readers _).symm.trans hreader)
  | @read _ raw _ _ _ _ hpeer hread =>
    cases raw with
    | message msg =>
      obtain ⟨howes, peer', hpeer', hanswers⟩ := hev
      cases hpeer.symm.trans hpeer'
      cases h with
      | asking h =>
        obtain ⟨-, -, hheld, -⟩ := h.read howes hpeer hanswers
        cases hheld.symm.trans hread
        exact happointed
      | published h => exact absurd howes (h.not_owes (h.gathered.peerOf hpeer).1)
    | _ => exact hev.elim
  | _ => exact hev.elim

theorem run_append {s s' : System} {l l' : List (Choices × Event)} (h : s.run pkgs l = some s') :
    s.run pkgs (l ++ l') = s'.run pkgs l' := by
  induction l generalizing s with
  | nil =>
    cases h
    rfl
  | cons e l ih =>
    obtain ⟨mid, hstep, hrest⟩ := Option.bind_eq_some_iff.mp h
    rw [List.cons_append, System.run, hstep]
    exact ih hrest

/-- Nothing is left to do before the loop waits. -/
theorem Published.exists_select (hm : Meeting pkgs w queue ids) (h : Published pkgs w queue ids t) :
    ∃ l timer, t.system.run pkgs l = some { t.system with loop := .select timer } := by
  rcases h.loop with ⟨timer, hselect⟩ | hrest
  · refine ⟨[], timer, congrArg some ?_⟩
    rw [← hselect]
  · refine ⟨[(plainChoices id, .rest)], t.system.session.roundTimeout, ?_⟩
    simp only [System.run, System.step, hrest, hm.finish_next h.gathered]
    rfl

/-- The publisher reports, and everybody is told what it reports. -/
theorem Published.completes (hm : Meeting pkgs w queue ids) (h : Published pkgs w queue ids t) (happointed : t.Appointed)
    (result : Bytes) : ∃ l s', t.system.run pkgs l = some s' ∧ s'.session.state = .completed ∧ s'.loop = .returned ∧
      ∀ e ∈ queue, s'.session.received e.1 = t.system.session.received e.1 ++ [.txPublishResult result] := by
  obtain ⟨member, hmember⟩ := happointed h.state
  obtain ⟨hid, hqueue⟩ := h.gathered.member _ member hmember
  obtain ⟨peer, hpeer, hpid⟩ := h.gathered.exists_peer hm hqueue
  obtain ⟨l, timer, hselect⟩ := h.exists_select hm
  have haccepted : admission .txPublishResult peer.id t.system.session = .accepted := by
    rw [admission, h.state, if_neg (by decide), if_neg (fun hno => hno.2 hpid), if_neg (by simp)]
  have hread : readMessage peer (.message (.txPublishResult ⟨peer.id, result⟩)) t.system.session =
      .ok (.sending t.system.session.id t.system.session.state (.txPublishResult ⟨peer.id, result⟩), t.system.session) := by
    have houtcome := readMessage_outcome peer (.message (.txPublishResult ⟨peer.id, result⟩)) h.gathered.mu
    generalize readMessage peer _ t.system.session = r at houtcome ⊢
    cases houtcome with
    | admitted => rfl
    | refused hraw hrefused =>
      cases hraw
      exact Admission.noConfusion (haccepted.symm.trans hrefused)
    | locked hraw => cases hraw
  have hhandle := txPublishResult_eq (plainChoices id) ⟨peer.id, result⟩ h.gathered.mu
  have hsent : Gathered queue ids (resultSent (plainChoices id) result t.system.session) :=
    { h.gathered with }
  have hfinish : finish (plainChoices id) ⟨none, .breakLoop⟩ (resultSent (plainChoices id) result t.system.session) =
      .ok (false, resultSent (plainChoices id) result t.system.session) := by
    rw [finish_free _ _ hsent.mu, if_neg (by rw [hsent.errm]; simp)]
    rfl
  -- the three steps after the select
  let waiting : System := { t.system with loop := .select timer }
  let holding : System := { waiting with
    readers := waiting.setReader member.conn
      (.sending t.system.session.id t.system.session.state (.txPublishResult ⟨peer.id, result⟩)) }
  let resting : System := { holding with
    session := resultSent (plainChoices id) result t.system.session
    loop := .rest ⟨none, .breakLoop⟩
    readers := holding.setReader member.conn .reading }
  have hstep₁ : waiting.step pkgs (plainChoices id) (.read member.conn (.message (.txPublishResult ⟨peer.id, result⟩))) =
      some holding := by
    have hreader : waiting.readers member.conn = .reading := h.readers _
    have hpeer : waiting.session.peerOf member.conn = some peer := hpeer
    simp only [System.step, hreader, hpeer]
    show ((readMessage peer _ t.system.session).toOption >>= _) = _
    rw [hread]
    rfl
  have hstep₂ : holding.step pkgs (plainChoices id) (.deliver member.conn) = some resting := by
    have hloop : holding.loop = .select timer := rfl
    have hreader : holding.readers member.conn =
      .sending t.system.session.id t.system.session.state (.txPublishResult ⟨peer.id, result⟩) := Function.update_self ..
    simp only [System.step, hloop, hreader]
    show ((txPublishResult (plainChoices id) _ t.system.session).toOption >>= _) = _
    rw [hhandle]
    rfl
  have hstep₃ : resting.step pkgs (plainChoices id) .rest = some { resting with loop := .returned } := by
    have hloop : resting.loop = .rest ⟨none, .breakLoop⟩ := rfl
    simp only [System.step, hloop]
    show ((finish (plainChoices id) _ (resultSent (plainChoices id) result t.system.session)).toOption >>= _) = _
    rw [hfinish]
    rfl
  refine ⟨l ++ [(plainChoices id, .read member.conn (.message (.txPublishResult ⟨peer.id, result⟩))),
    (plainChoices id, .deliver member.conn), (plainChoices id, .rest)], { resting with loop := .returned }, ?_, rfl, rfl,
    fun e he => received_broadcast hsent hm.perm hm.conns (plainChoices id) [834] _ rfl he⟩
  rw [run_append hselect]
  simp only [System.run]
  rw [show ({ t.system with loop := .select timer } : System) = waiting from rfl, hstep₁, Option.bind_some, hstep₂,
    Option.bind_some, hstep₃, Option.bind_some]

theorem Wallets.Able.perm {ids' : List ℕ} (h : w.Able pkgs ids') (hperm : ids.Perm ids') : w.Able pkgs ids where
  element := h.element
  inputs p hp := h.inputs p (hperm.mem_iff.mp hp)
  signs p hp order scripts horder hscripts :=
    h.signs p (hperm.mem_iff.mp hp) order scripts (horder.trans hperm) (hscripts.trans (hperm.flatMap_right w.scripts))

/-- On course, and with a member for publisher. -/
structure Underway (pkgs : Packages) (w : Wallets) (queue : List (ℕ × ℕ)) (ids : List ℕ) (t : Attended) : Prop where
  course : OnCourse pkgs w queue ids t
  appointed : t.Appointed

theorem Underway.run (hm : Meeting pkgs w queue ids) {t' : Attended} (h : Underway pkgs w queue ids t)
    (hrun : RunsTo (Attended.step pkgs) (Attended.Dutiful pkgs w) t t') : Underway pkgs w queue ids t' :=
  hrun.invariant h fun _ _ _ hinv hok hstep =>
    ⟨onCourse_step hm hinv.course hok hstep, appointed_step hm hinv.course.going hinv.appointed hok hstep⟩

/-- **Honest sessions come to their end.** Wallets that follow the protocol and can answer
are never stuck before a peer has been asked to publish, wherever the run stands it can
be brought there, and the report of that peer completes the session and reaches all. -/
theorem honest_session_completes (hflint : pkgs.flint.Correct fieldPrime) (hlaws : pkgs.XorLaws)
    (hconn : (queue.map Prod.fst).Nodup) (hid : (queue.map Prod.snd).Nodup) (h2 : 2 ≤ queue.length)
    (hw : w.Match pkgs (queue.map Prod.snd)) (hcodec : w.Encodable pkgs (queue.map Prod.snd))
    (hable : w.Able pkgs (queue.map Prod.snd)) {sessionId roundTimeOut : ℕ}
    (hrun : RunsTo (Attended.step pkgs) (Attended.Dutiful pkgs w)
      (.start (newJoinSession sessionId roundTimeOut false (queuePeers queue))) t) :
    ((∀ e t', t.Dutiful pkgs w e → t.step pkgs e ≠ some t') → t.system.session.state = .txPublish) ∧
      ∃ t', RunsTo (Attended.step pkgs) (Attended.Dutiful pkgs w) t t' ∧ t'.system.session.state = .txPublish ∧
        ∀ result : Bytes, ∃ l s', t'.system.run pkgs l = some s' ∧ s'.session.state = .completed ∧ s'.loop = .returned ∧
          ∀ e ∈ queue, s'.session.received e.1 = t'.system.session.received e.1 ++ [.txPublishResult result] := by
  obtain ⟨ids, hm, hcourse⟩ := exists_meeting hflint hlaws hconn hid h2 hw hcodec sessionId roundTimeOut
  have hable := hable.perm hm.perm
  have hstart : Underway pkgs w queue ids (.start (newJoinSession sessionId roundTimeOut false (queuePeers queue))) :=
    ⟨hcourse, fun hstate => by cases hstate⟩
  have hunderway := hstart.run hm hrun
  refine ⟨fun hstuck => ?_, ?_⟩
  · cases hunderway.course.going with
    | published h => exact h.state
    | asking h =>
      obtain ⟨e, t', hok, hstep⟩ := h.exists_step hm hable
      exact absurd hstep (hstuck e t' hok)
  · obtain ⟨t', honward, hend⟩ := hunderway.course.exists_end hm hable
    exact ⟨t', honward, hend.state, hend.completes hm (hunderway.run hm honward).appointed⟩

end Progress

/-! ### Two wallets -/

/-- Two peers with a script each. -/
def pairWallets : Wallets where
  pk p := [UInt8.ofNat p]
  scripts p := [List.replicate 24 0 ++ [UInt8.ofNat (p + 7)]]
  pad _ _ := 5
  xorPad _ _ := Pads.Xored.ofList (List.replicate pkScriptSize 7)
  tx := walletTx
  ticketPrice := 5

/-- What the two submit and what can be joined of it. -/
def pairTxs : List MsgTx :=
  [walletTx 1, walletTx 2] ++ [1, 2].permutations.flatMap fun order =>
    ([1, 2].flatMap pairWallets.scripts).permutations.map (pairWallets.joined order)

/-- The transaction with all inputs signed. -/
def signAll (tx : MsgTx) : MsgTx := { tx with txIn := tx.txIn.map fun txin => { txin with signatureScript := [7] } }

def signingTxs : List MsgTx := pairTxs ++ pairTxs.map signAll

/-- Two wallets' transactions, each encoded as the place where it is listed. -/
noncomputable def signingPackages : Packages :=
  referencePackages Flint.referenceLibrary (fun tx => some [UInt8.ofNat (signingTxs.idxOf tx)]) fun bytes =>
    signingTxs[(bytes.headD 0).toNat]?

theorem signingPackages_decode {tx : MsgTx} (h : tx ∈ signingTxs) :
    signingPackages.btcDecode [UInt8.ofNat (signingTxs.idxOf tx)] = some tx := by
  have hplace := List.idxOf_lt_length_iff.mpr h
  have hlength : signingTxs.length = 12 := by
    simp [signingTxs, pairTxs, List.length_flatMap, List.length_permutations, pairWallets]
  show signingTxs[(UInt8.ofNat (signingTxs.idxOf tx)).toNat]? = _
  rw [UInt8.toNat_ofNat', Nat.mod_eq_of_lt (by omega)]
  exact List.getElem?_idxOf h

theorem mem_pairTxs_joined {order : List ℕ} {scripts : List Bytes} (horder : order.Perm [1, 2])
    (hscripts : scripts.Perm ([1, 2].flatMap pairWallets.scripts)) : pairWallets.joined order scripts ∈ pairTxs :=
  List.mem_append_right _ (List.mem_flatMap.mpr ⟨order, List.mem_permutations.mpr horder,
    List.mem_map_of_mem (List.mem_permutations.mpr hscripts)⟩)

theorem signingPackages_match : pairWallets.Match signingPackages [1, 2] where
  keys := by decide
  scripts := by decide
  size := by decide
  total := by decide
  distinct := by decide +kernel
  pad _ _ _ _ := rfl
  xorPad _ _ _ _ := rfl
  nonzero := by decide +kernel
  price := by decide
  unsigned := by decide
  covered p hp := by
    refine ⟨newTxOut 3 [1], [], rfl, ?_⟩
    revert p
    decide

theorem signingPackages_encodable : pairWallets.Encodable signingPackages [1, 2] where
  unsigned _ _ horder hscripts :=
    ⟨_, rfl, signingPackages_decode (List.mem_append_left _ (mem_pairTxs_joined horder hscripts))⟩
  signed _ _ _ _ _ _ := rfl

theorem signs_signAll (w : Wallets) (p : ℕ) (tx : MsgTx) : w.Signs p tx (signAll tx) where
  same := by
    rw [MsgTx.stripped, signAll, List.map_map]
    rfl
  own txin htxin _ := by
    obtain ⟨_, -, rfl⟩ := List.mem_map.mp htxin
    simp

theorem walletTx_mem_signingTxs {p : ℕ} (hp : p ∈ [1, 2]) : walletTx p ∈ signingTxs := by
  have hmem : walletTx p ∈ [1, 2].map walletTx := List.mem_map_of_mem hp
  exact List.mem_append_left _ (List.mem_append_left _ hmem)

theorem signAll_mem_signingTxs {tx : MsgTx} (h : tx ∈ pairTxs) : signAll tx ∈ signingTxs :=
  List.mem_append_right _ (List.mem_map_of_mem h)

theorem newFF_signingPackages (b : Bytes) : newFF signingPackages b = ((bigEndian b : ℕ) : Field) := rfl

theorem signingPackages_element (x : Field) : ∃ b : Bytes, b.length = pkScriptHashSize ∧ newFF signingPackages b = x := by
  have hsmall : x.val < 256 ^ 16 := (ZMod.val_lt x).trans (by norm_num [fieldPrime])
  refine ⟨toBigEndian x.val 16, length_toBigEndian x.val 16, ?_⟩
  rw [newFF_signingPackages, bigEndian_toBigEndian hsmall]
  exact ZMod.natCast_zmod_val x

theorem signingPackages_able : pairWallets.Able signingPackages [1, 2] where
  element := signingPackages_element
  inputs _ hp := ⟨_, signingPackages_decode (walletTx_mem_signingTxs hp)⟩
  signs _ _ _ _ horder hscripts :=
    ⟨_, _, signingPackages_decode (signAll_mem_signingTxs (mem_pairTxs_joined horder hscripts)), signs_signAll _ _ _⟩

def pairStart : Attended := .start (newJoinSession 7 60 false (queuePeers [(11, 1), (12, 2)]))

/-- The two go through all the rounds. -/
theorem honest_run_pair : ∃ t : Attended, t.system.session.state = .txPublish ∧
    t.Completes signingPackages pairWallets [(11, 1), (12, 2)] := by
  have hlaws : signingPackages.XorLaws := ⟨plainPackages_xor.nil, plainPackages_xor.xor⟩
  obtain ⟨ids, hm, hcourse⟩ := @exists_meeting signingPackages pairWallets [(11, 1), (12, 2)] Flint.referenceLibrary_correct hlaws
    (by decide) (by decide) (by decide) signingPackages_match signingPackages_encodable 7 60
  obtain ⟨t, hrun, hend⟩ := hcourse.exists_end hm (signingPackages_able.perm hm.perm)
  exact ⟨t, hend.state, honest_run Flint.referenceLibrary_correct hlaws (by decide) (by decide) (by decide) signingPackages_match
    signingPackages_encodable hrun⟩

/-- From the very start, the two wallets get to the end. -/
theorem honest_session_completes_pair : ∃ t', RunsTo (Attended.step signingPackages) (Attended.Dutiful signingPackages pairWallets)
      pairStart t' ∧ t'.system.session.state = .txPublish ∧
    ∀ result : Bytes, ∃ l s', t'.system.run signingPackages l = some s' ∧ s'.session.state = .completed ∧
      s'.loop = .returned ∧ ∀ e ∈ [(11, 1), (12, 2)],
        s'.session.received e.1 = t'.system.session.received e.1 ++ [.txPublishResult result] :=
  have hlaws : signingPackages.XorLaws := ⟨plainPackages_xor.nil, plainPackages_xor.xor⟩
  (@honest_session_completes signingPackages pairWallets [(11, 1), (12, 2)] pairStart Flint.referenceLibrary_correct hlaws
    (by decide) (by decide) (by decide) signingPackages_match signingPackages_encodable signingPackages_able 7 60 .start).2

end Dcrtxmatcher.Coinjoin
