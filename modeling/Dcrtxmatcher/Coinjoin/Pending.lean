import Dcrtxmatcher.Coinjoin.Isolation
import Dcrtxmatcher.Coinjoin.Joining
import Dcrtxmatcher.Coinjoin.KeyList
import Dcrtxmatcher.Coinjoin.Mutex

/-! What a running session waits for.

Whether a round is complete is only asked when a datum arrives. A round that is
completed in another way, by the last ones that owe a datum leaving, or whose end
fails without a new state, is left waiting with nothing to wait for (`Abandons`,
`Stalls`); as long as neither happens somebody always owes the session something. -/
namespace Dcrtxmatcher.Coinjoin
open Lib

/-- The rounds that collect a datum of every member. -/
def SessionState.collects : SessionState → Bool
  | .txPublish | .completed => false
  | _ => true

/-- Whether the peer has still to submit the datum of the round. -/
def owes : SessionState → PeerInfo → Bool
  | .keyExchange, peer => peer.pk = []
  | .dcExponential, peer => peer.dcExpVector = []
  | .dcXor, peer => peer.dcXorVector = []
  | .txInput, peer => peer.txIns.isNone
  | .txSign, peer => peer.signedTx.isNone
  | .revealSecret, peer => peer.vk = []
  | .txPublish, _ | .completed, _ => false

/-- Some member owes the datum of a round. -/
def JoinSession.Awaits (state : SessionState) (js : JoinSession) : Prop :=
  ∃ p peer, js.peers.lookup p = some peer ∧ owes state peer = true

instance (state : SessionState) (js : JoinSession) : Decidable (js.Awaits state) :=
  decidable_of_iff (∃ e ∈ GoMap.toList js.peers, owes state e.2 = true)
    ⟨fun ⟨e, he, h⟩ => ⟨e.1, e.2, GoMap.mem_toList.mp he, h⟩, fun ⟨p, peer, hp, h⟩ => ⟨(p, peer), GoMap.mem_toList.mpr hp, h⟩⟩

/-- The round under way still waits for somebody, if there is anybody. -/
def Pending (js : JoinSession) : Prop :=
  js.state.collects = true → GoMap.len js.peers ≠ 0 → js.Awaits js.state

instance (js : JoinSession) : Decidable (Pending js) := by
  unfold Pending
  infer_instance

/-- No completed round is left waiting between two events. -/
def NoneLeftWaiting (s : System) : Prop := ∀ timer, s.loop = .select timer → Pending s.session

/-! ### What leaves a round waiting -/

/-- The last ones that owe the datum of the round leave, and others stay. -/
def Abandons (ps : List ℕ) (js : JoinSession) : Prop :=
  js.state.collects = true ∧ (∃ p ∈ ps, p ∈ js.peers.keys) ∧ (∃ p ∈ js.peers.keys, p ∉ ps) ∧
    ∀ p peer, js.peers.lookup p = some peer → p ∉ ps → owes js.state peer = false

/-- The vectors are complete with this one, and the polynomial cannot be solved. -/
def Unsolved (pkgs : Packages) (ch : Choices) (data : DcVector) (js : JoinSession) : Prop :=
  ∃ peer vector sums ret roots, js.peers.lookup data.peerId = some peer ∧ ¬data.vector.length < pkScriptHashSize * 2 ∧
    readEntries pkgs peer.id (data.vector ++ data.spare) 0 data.len = .ok (vector, none) ∧ js.errm = none ∧
    (storeExp data vector js).allSubmit (fun peer => peer.dcExpVector ≠ []) = true ∧
    combine vector.length ((GoMap.values ch.order [423] (storeExp data vector js).peers).map (·.dcExpVector)) = .ok sums ∧
    Flint.getRoots pkgs.flint (Hex.hexStr fieldPrime) sums vector.length = .ok (ret, roots) ∧ ret ≠ 0

/-- A message that ends a round, or could, and leaves nothing to wait for. -/
inductive Stalls (pkgs : Packages) (ch : Choices) (js : JoinSession) : ClientMessage → Prop
  /-- The sender has to go, and nobody else owes a key. -/
  | rejected {req : KeyExchangeReq} (hp : req.peerId ∈ js.peers.keys)
      (hkey : pkgs.unmarshal req.pk = false ∨ Completes js (.keyExchange req) ∧ ch.marshal [355] = false)
      (hleft : Abandons [req.peerId] js) : Stalls pkgs ch js (.keyExchange req)
  /-- All have announced a key, and the list is not as long as the map. -/
  | miscounted {req : KeyExchangeReq} (hp : req.peerId ∈ js.peers.keys) (hkey : pkgs.unmarshal req.pk = true)
      (hlen : ¬Completes js (.keyExchange req)) (hstate : js.state = .keyExchange) (hpk : req.pk ≠ [])
      (hall : ∀ p peer, js.peers.lookup p = some peer → p ≠ req.peerId → peer.pk ≠ []) :
      Stalls pkgs ch js (.keyExchange req)
  /-- The round ends, and nobody owes the datum of the next one. -/
  | overtaken {msg : ClientMessage} {next : SessionState} (hp : msg.peerId ∈ js.peers.keys) (hend : Completes js msg)
      (hnext : next ∈ msg.kind.next) (hcollects : next.collects = true) (hdone : ¬js.Awaits next) : Stalls pkgs ch js msg
  | unsolved {data : DcVector} (hstate : js.state = .dcExponential) (h : Unsolved pkgs ch data js) :
      Stalls pkgs ch js (.dcExpVector data)
  /-- The last inputs spend less than what goes out. -/
  | overspent {txins : TxInputs} (hstate : js.state = .txInput) (hend : Completes js (.txInputs txins))
      (hprice : 0 < txins.ticketPrice) (hspend : Overspent pkgs js txins) : Stalls pkgs ch js (.txInputs txins)
  /-- The replay of the last secret finds nobody malicious. -/
  | unblamed {rvSecret : RevealSecret} {findings : Findings} (hp : rvSecret.peerId ∈ js.peers.keys)
      (hstate : js.state = .revealSecret)
      (hall : (storeSecret rvSecret js).allSubmit (fun peer => peer.vk ≠ []) = true)
      (hreplay : replay pkgs ch (storeSecret rvSecret js) = .ok findings) (hnobody : findings.maliciousIds = []) :
      Stalls pkgs ch js (.revealSecret rvSecret)

/-- Whether the loop is at the select or on its way there. -/
def LoopPc.waits : LoopPc → Bool
  | .select _ => true
  | .rest d => d = .next
  | .returned => false

/-- The message an event hands to the loop. -/
def System.handed (s : System) : Event → Option ClientMessage
  | .deliver conn =>
    match s.readers conn with
    | .sending _ _ msg => some msg
    | _ => none
  | _ => none

/-- While the loop waits, neither the last ones that owe a datum leave nor a message
leaves nothing to wait for. -/
def Attentive (pkgs : Packages) (ch : Choices) (s : System) (ev : Event) : Prop :=
  s.loop.waits = true →
    ¬Abandons (s.leaving ch ev) s.session ∧ ∀ msg, s.handed ev = some msg → ¬Stalls pkgs ch s.session msg

/-! ### Members that leave -/

section Pending
variable {pkgs : Packages} {ch : Choices} {js js' : JoinSession} {d : Done}

theorem pending_of_not_collects (h : js.state.collects = false) : Pending js := by
  unfold Pending
  rw [h]
  intro hcollects
  cases hcollects

theorem pending_of_awaits (h : js.Awaits js.state) : Pending js := fun _ _ => h

/-- Nothing else of a session is about what it waits for. -/
theorem Pending.congr (h : Pending js) (hstate : js'.state = js.state)
    (hpeers : ∀ p, js'.peers.lookup p = js.peers.lookup p) : Pending js' := by
  intro hcollects hlen
  rw [hstate] at hcollects ⊢
  obtain ⟨p, peer, hp⟩ := GoMap.len_ne_zero_iff.mp hlen
  rw [hpeers] at hp
  obtain ⟨q, late, hq, howes⟩ := h hcollects (GoMap.len_ne_zero_iff.mpr ⟨p, peer, hp⟩)
  exact ⟨q, late, (hpeers q).trans hq, howes⟩

theorem lookup_removePeer (p : ℕ) (js : JoinSession) (q : ℕ) :
    (js.removePeer p).peers.lookup q = if q = p then none else js.peers.lookup q := by
  unfold JoinSession.removePeer
  split
  · exact GoMap.lookup_erase_eq ..
  · split_ifs with hq
    · rw [hq, ‹js.peers.lookup p = none›]
    · rfl

theorem lookup_removePeers (ps : List ℕ) (js : JoinSession) (q : ℕ) :
    (js.removePeers ps).peers.lookup q = if q ∈ ps then none else js.peers.lookup q := by
  induction ps generalizing js with
  | nil => simp [JoinSession.removePeers]
  | cons p ps ih =>
    have hfold : js.removePeers (p :: ps) = (js.removePeer p).removePeers ps := rfl
    rw [hfold, ih, lookup_removePeer]
    by_cases hq : q = p
    · simp [hq]
    · simp [hq]

theorem toList_removePeers (ps : List ℕ) (js : JoinSession) :
    (GoMap.toList (js.removePeers ps).peers).Perm ((GoMap.toList js.peers).filter fun e => e.1 ∉ ps) := by
  have hnodup : ((GoMap.toList js.peers).filter fun e => decide (e.1 ∉ ps)).Nodup :=
    ((GoMap.nodup_toList js.peers).of_map).filter _
  refine (List.perm_ext_iff_of_nodup (GoMap.nodup_toList _).of_map hnodup).mpr fun e => ?_
  obtain ⟨p, peer⟩ := e
  rw [GoMap.mem_toList, lookup_removePeers, List.mem_filter, GoMap.mem_toList]
  by_cases hp : p ∈ ps
  · simp [hp]
  · simp [hp]

/-- Members may leave unless they abandon the round. -/
theorem Pending.removePeers (h : Pending js) {ps : List ℕ} (hps : ¬Abandons ps js) : Pending (js.removePeers ps) := by
  intro hcollects hlen
  rw [state_removePeers] at hcollects ⊢
  -- somebody stays
  obtain ⟨p, peer, hpeer⟩ := GoMap.len_ne_zero_iff.mp hlen
  rw [lookup_removePeers] at hpeer
  split_ifs at hpeer with hmem
  by_contra hnone
  have hdone : ∀ q peer, js.peers.lookup q = some peer → q ∉ ps → owes js.state peer = false := by
    intro q peer hq hstay
    by_contra howes
    apply hnone
    refine ⟨q, peer, ?_, by simpa using howes⟩
    rw [lookup_removePeers, if_neg hstay, hq]
  obtain ⟨q, late, hq, howes⟩ := h hcollects (GoMap.len_ne_zero_iff.mpr ⟨p, peer, hpeer⟩)
  apply hps
  refine ⟨hcollects, ⟨q, ?_, GoMap.mem_keys_of_lookup hq⟩, ⟨p, GoMap.mem_keys_of_lookup hpeer, hmem⟩, hdone⟩
  by_contra hstay
  rw [hdone q late hq hstay] at howes
  cases howes

theorem Pending.removePeer (h : Pending js) {p : ℕ} (hp : ¬Abandons [p] js) : Pending (js.removePeer p) :=
  h.removePeers hp

/-- A restarted session waits for the keys of all its members. -/
theorem pending_expelled (ch : Choices) (ps : List ℕ) (js : JoinSession) : Pending (js.expelled ch ps) := by
  unfold JoinSession.expelled
  split
  · rename_i hempty
    intro _ hlen
    exact absurd hempty hlen
  · intro _ hlen
    obtain ⟨p, peer, hpeer⟩ := GoMap.len_ne_zero_iff.mp hlen
    refine ⟨p, peer, hpeer, ?_⟩
    obtain ⟨new, hmem, heq⟩ := List.mem_map.mp (GoMap.mem_of_lookup_ofList hpeer)
    cases heq
    obtain ⟨⟨old, i⟩, -, rfl⟩ := List.mem_map.mp hmem
    rfl

/-! ### Messages -/

/-- Who owes a datum still owes it when something else of the members is changed. -/
theorem JoinSession.Awaits.of_lookup {state : SessionState} (h : js.Awaits state)
    (hpeers : ∀ p peer, js.peers.lookup p = some peer → owes state peer = true →
      ∃ peer', js'.peers.lookup p = some peer' ∧ owes state peer' = true) : js'.Awaits state := by
  obtain ⟨p, peer, hp, howes⟩ := h
  obtain ⟨peer', hp', howes'⟩ := hpeers p peer hp howes
  exact ⟨p, peer', hp', howes'⟩

theorem JoinSession.Awaits.congr {state : SessionState} (h : js.Awaits state) (hpeers : js'.peers = js.peers) :
    js'.Awaits state :=
  h.of_lookup fun _ peer hp howes => ⟨peer, hpeers ▸ hp, howes⟩

theorem JoinSession.Awaits.setPeer {state : SessionState} (h : js.Awaits state) {p : ℕ} {f : PeerInfo → PeerInfo}
    (hf : ∀ peer, owes state peer = true → owes state (f peer) = true) : (js.setPeer p f).Awaits state := by
  refine h.of_lookup fun q peer hq howes => ?_
  rw [JoinSession.setPeer, GoMap.modify, GoMap.lookup_mapVal, hq, Option.map_some]
  refine ⟨_, rfl, ?_⟩
  split_ifs
  · exact hf peer howes
  · exact howes

theorem Pending.setPeer (h : Pending js) {p : ℕ} {f : PeerInfo → PeerInfo}
    (hf : ∀ peer, owes js.state peer = true → owes js.state (f peer) = true) : Pending (js.setPeer p f) := by
  intro hcollects hlen
  exact (h hcollects (by simpa [JoinSession.setPeer] using hlen)).setPeer hf

/-- While not all have submitted somebody owes the datum. -/
theorem awaits_of_allSubmit {state : SessionState} {submitted : PeerInfo → Bool} (h : js.allSubmit submitted = false)
    (howes : ∀ peer, submitted peer = false → owes state peer = true) : js.Awaits state := by
  obtain ⟨e, he, hnot⟩ := List.all_eq_false.mp h
  exact ⟨e.1, e.2, GoMap.mem_toList.mp he, howes e.2 (by simpa using hnot)⟩

theorem pending_keyExchange {req : KeyExchangeReq} (hpend : Pending js) (hno : ¬Stalls pkgs ch js (.keyExchange req))
    (h : KeyExchangeOutcome pkgs ch req js (.ok (d, js'))) : Pending js' := by
  cases h with
  | stranger => exact hpend
  | invalid hp hpk =>
    exact hpend.removePeer fun hleft => hno (.rejected (GoMap.mem_keys_of_lookup hp) (.inl hpk) hleft)
  | @waiting peer hp hpk hlen =>
    by_cases hstate : js.state = .keyExchange
    · apply pending_of_awaits
      rw [show (announce req peer js).state = .keyExchange from hstate]
      by_contra hnone
      apply hno
      refine .miscounted (GoMap.mem_keys_of_lookup hp) hpk hlen hstate (fun hempty => hnone ?_) fun q other hq hne hempty =>
        hnone ?_
      · exact ⟨req.peerId, _, by rw [lookup_announce, hp, Option.map_some, if_pos rfl], by simpa [owes] using hempty⟩
      · exact ⟨q, other, by rw [lookup_announce, hq, Option.map_some, if_neg hne], by simpa [owes] using hempty⟩
    · refine Pending.congr (hpend.setPeer fun peer howes => ?_) rfl fun _ => rfl
      revert hstate howes
      cases js.state <;> simp [owes]
  | @unmarshalled peer hp hpk hlen hmarshal =>
    -- what the sender has announced goes with it
    have hremoved : Pending (js.removePeer req.peerId) :=
      hpend.removePeer fun hleft => hno (.rejected (GoMap.mem_keys_of_lookup hp) (.inr ⟨hlen, hmarshal⟩) hleft)
    refine hremoved.congr (by simp [announce, JoinSession.setPeer]) fun q => ?_
    rw [lookup_removePeer, lookup_removePeer, lookup_announce]
    split_ifs
    · rfl
    · cases js.peers.lookup q <;> rfl
  | @complete peer hp hpk hlen hmarshal =>
    apply pending_of_awaits
    by_contra hnone
    refine hno (.overtaken (GoMap.mem_keys_of_lookup hp) hlen (List.mem_singleton.mpr rfl) rfl fun hawaits => hnone ?_)
    exact hawaits.setPeer fun _ => id

theorem pending_dcExpVector {data : DcVector} (hpend : Pending js) (hno : ¬Stalls pkgs ch js (.dcExpVector data))
    (h : DcExpOutcome pkgs ch data js (.ok (d, js'))) (hd : d = .next) : Pending js' := by
  have hstored : ∀ vector, js.state ≠ .dcExponential → Pending (storeExp data vector js) := by
    intro vector hstate
    refine hpend.setPeer fun peer howes => ?_
    revert hstate howes
    cases js.state <;> simp [owes]
  cases h with
  | stranger => exact hpend
  | short => cases hd
  | rejected => cases hd
  | @waiting peer vector hp _ _ _ hall =>
    by_cases hstate : js.state = .dcExponential
    · apply pending_of_awaits
      rw [show (storeExp data vector js).state = .dcExponential from hstate]
      exact awaits_of_allSubmit hall fun peer => by simp [owes]
    · exact hstored vector hstate
  | @ended peer vector hp hsize hread herrm hall _ hsolve =>
    cases hsolve with
    | unsolved hcombine hroots hret =>
      have hstate : js.state ≠ .dcExponential := fun hstate =>
        hno (.unsolved hstate ⟨_, _, _, _, _, hp, hsize, hread, herrm, hall, hcombine, hroots, hret⟩)
      exact (hstored vector hstate).congr rfl fun _ => rfl
    | failed => cases hd
    | solved =>
      apply pending_of_awaits
      by_contra hnone
      have hnext : .dcXor ∈ Kind.next .dcExpVector := List.mem_singleton.mpr rfl
      refine hno (.overtaken (GoMap.mem_keys_of_lookup hp) (fun q other hq hne => ?_) hnext rfl fun hawaits => hnone ?_)
      · simpa using submitted_of_allSubmit _ (fun _ hne => GoMap.lookup_modify_ne hne _ _) hall hq hne
      · exact hawaits.setPeer fun _ => id

theorem pending_dcXorVector {data : DcVector} (hpend : Pending js) (hno : ¬Stalls pkgs ch js (.dcXorVector data))
    (h : DcXorOutcome pkgs ch data js (.ok (d, js'))) (hd : d = .next) : Pending js' := by
  cases h with
  | short => cases hd
  | stranger => exact hpend
  | @waiting peer dcXor hp _ _ hall =>
    by_cases hstate : js.state = .dcXor
    · apply pending_of_awaits
      rw [show ({ storeXor data dcXor js with allPkScripts := List.replicate dcXor.length [] } : JoinSession).state = .dcXor
        from hstate]
      exact (awaits_of_allSubmit hall fun peer => by simp [owes]).congr rfl
    · refine Pending.congr (hpend.setPeer fun peer howes => ?_) rfl fun _ => rfl
      revert hstate howes
      cases js.state <;> simp [owes]
  | failed => cases hd
  | @complete peer dcXor allPkScripts hp _ _ hall =>
    apply pending_of_awaits
    by_contra hnone
    have hnext : .txInput ∈ Kind.next .dcXorVector := List.mem_singleton.mpr rfl
    refine hno (.overtaken (GoMap.mem_keys_of_lookup hp) (fun q other hq hne => ?_) hnext rfl fun hawaits => hnone ?_)
    · simpa using submitted_of_allSubmit _ (fun _ hne => GoMap.lookup_modify_ne hne _ _) hall hq hne
    · exact hawaits.setPeer fun _ => id

theorem awaits_storeInputs {state : SessionState} (h : js.Awaits state) (hstate : state ≠ .txInput) (txins : TxInputs)
    (tx : MsgTx) : (storeInputs txins tx js).Awaits state := by
  have hstore : ((storePrice txins js).setPeer txins.peerId fun peer => { peer with txIns := some tx }).Awaits state := by
    refine JoinSession.Awaits.setPeer (h.setPeer fun peer howes => ?_) fun peer howes => ?_
    all_goals
      revert hstate howes
      cases state <;> simp [owes]
  simp only [storeInputs]
  split
  · exact hstore.congr rfl
  · exact hstore

theorem len_storeInputs (txins : TxInputs) (tx : MsgTx) (js : JoinSession) :
    GoMap.len (storeInputs txins tx js).peers = GoMap.len js.peers := by
  simp only [storeInputs]
  split <;> simp [storePrice, JoinSession.setPeer]

theorem Pending.storeInputs (h : Pending js) (hstate : js.state ≠ .txInput) (txins : TxInputs) (tx : MsgTx) :
    Pending (storeInputs txins tx js) := by
  intro hcollects hlen
  rw [state_storeInputs] at hcollects ⊢
  rw [len_storeInputs] at hlen
  exact awaits_storeInputs (h hcollects hlen) hstate txins tx

/-- When all have inputs once the sender's are stored, the others had. -/
theorem completes_storeInputs {txins : TxInputs} {tx : MsgTx}
    (hall : (storeInputs txins tx js).allSubmit (fun peer => peer.txIns.isSome) = true) :
    Completes js (.txInputs txins) := fun _ _ hq hne =>
  submitted_of_allSubmit (fun peer => peer.txIns.isSome) (fun _ hne => lookup_storeInputs hne) hall hq hne

/-- Joining the transactions does not touch the signed ones. -/
theorem awaits_buildJoinedTx {ticketPrice : ℤ} {joinedtx : MsgTx} (hbuild : buildJoinedTx ch ticketPrice js = .ok (joinedtx, js'))
    (h : js.Awaits .txSign) : js'.Awaits .txSign := by
  obtain ⟨first, tx, rest, -, -, rfl⟩ := buildJoinedTx_eq_ok hbuild
  refine h.of_lookup fun p peer hp howes => ⟨_, by rw [GoMap.lookup_mapVal, hp, Option.map_some], ?_⟩
  unfold joinedPeer holdJoined
  split_ifs <;> exact howes

theorem pending_txInputs {txins : TxInputs} (hpend : Pending js) (hno : ¬Stalls pkgs ch js (.txInputs txins))
    (h : TxInputsOutcome pkgs ch txins js (.ok (d, js'))) (hd : d = .next) : Pending js' := by
  -- with the inputs stored somebody owes, unless they were the last ones
  have hstored : ∀ tx, (js.state = .txInput → ¬Completes js (.txInputs txins)) → Pending (storeInputs txins tx js) := by
    intro tx hlast
    by_cases hstate : js.state = .txInput
    · apply pending_of_awaits
      rw [state_storeInputs, hstate]
      have howing : (storeInputs txins tx js).allSubmit (fun peer => peer.txIns.isSome) = false := by
        by_contra hall
        exact hlast hstate (completes_storeInputs (by simpa using hall))
      exact awaits_of_allSubmit howing fun peer => by simp [owes]
    · exact hpend.storeInputs hstate txins tx
  cases h with
  | stranger => exact hpend
  | unpriced => cases hd
  | undecodable => cases hd
  | @overspent peer tx change outs hp hprice hdecode hout hspend =>
    refine (hstored tx fun hstate hend => hno ?_).congr rfl fun _ => rfl
    exact .overspent hstate hend (by omega) ⟨peer, tx, change, outs, hp, hdecode, hout, hspend⟩
  | @waiting peer tx change outs _ _ _ _ _ hall =>
    by_cases hstate : js.state = .txInput
    · apply pending_of_awaits
      rw [state_storeInputs, hstate]
      exact awaits_of_allSubmit hall fun peer => by simp [owes]
    · exact hpend.storeInputs hstate txins tx
  | @joined peer tx change outs hp _ _ _ _ hall _ hjoined =>
    cases hjoined with
    | failed => cases hd
    | sent hbuild =>
      apply pending_of_awaits
      by_contra hnone
      have hnext : .txSign ∈ Kind.next .txInputs := List.mem_singleton.mpr rfl
      refine hno (.overtaken (GoMap.mem_keys_of_lookup hp) (completes_storeInputs hall) hnext rfl fun hawaits => hnone ?_)
      have hjoined := awaits_buildJoinedTx hbuild (awaits_storeInputs hawaits (by simp) txins tx)
      exact hjoined.congr rfl

theorem pending_txSigned {signedTx : JoinTx} (hpend : Pending js)
    (h : TxSignedOutcome pkgs ch signedTx js (.ok (d, js'))) (hd : d = .next) : Pending js' := by
  cases h with
  | stranger => exact hpend
  | undecodable => cases hd
  | again => exact hpend
  | invalid => cases hd
  | @waiting peer tx _ _ _ _ _ hmerge hall =>
    obtain ⟨joinedTx, rfl⟩ := mergeSigned_eq_ok hmerge
    by_cases hstate : js.state = .txSign
    · apply pending_of_awaits
      rw [show ({ storeSigned signedTx tx js with joinedTx := some joinedTx } : JoinSession).state = .txSign from hstate]
      exact (awaits_of_allSubmit hall fun peer => by simp [owes]).congr rfl
    · refine Pending.congr (hpend.setPeer fun peer howes => ?_) rfl fun _ => rfl
      revert hstate howes
      cases js.state <;> simp [owes]
  | ended _ _ _ _ _ _ hpublish =>
    cases hpublish with
    | unencodable => cases hd
    | published => cases hd
    | unmarshalled => cases hd
    | delegated => exact pending_of_not_collects rfl

theorem revealSecret_stranger {rvSecret : RevealSecret} (hmu : js.mu = false)
    (hp : js.peers.lookup rvSecret.peerId = none) : revealSecret pkgs ch rvSecret js = .ok (.next, js) := by
  rw [revealSecret, js.lock_eq hmu, ok_bind, JoinSession.peers_withMu, hp]
  exact JoinSession.of_unlockAnd (P := (· = _)) js hmu rfl

/-- The handler of a member's secret, by whether it is the last one. -/
theorem revealSecret_member {rvSecret : RevealSecret} {peer : PeerInfo} (hmu : js.mu = false)
    (hp : js.peers.lookup rvSecret.peerId = some peer) :
    revealSecret pkgs ch rvSecret js =
      if (storeSecret rvSecret js).allSubmit (fun peer => peer.vk ≠ []) then
        afterReplay (storeSecret rvSecret js) (replay pkgs ch (storeSecret rvSecret js))
      else .ok (.next, { storeSecret rvSecret js with maliciousFinding := false }) := by
  have hrest : (JoinSession.withMu { storeSecret rvSecret js with maliciousFinding := false } true).unlockAnd .next =
      .ok (.next, { storeSecret rvSecret js with maliciousFinding := false }) :=
    JoinSession.of_unlockAnd (P := (· = _)) { storeSecret rvSecret js with maliciousFinding := false } hmu rfl
  rw [revealSecret, js.lock_eq hmu, ok_bind, JoinSession.peers_withMu, hp, ← hrest]
  rfl

theorem pending_revealSecret {rvSecret : RevealSecret} (hpend : Pending js) (hno : ¬Stalls pkgs ch js (.revealSecret rvSecret))
    (hmu : js.mu = false) (h : revealSecret pkgs ch rvSecret js = .ok (d, js')) (hd : d = .next) : Pending js' := by
  have hstored : js.state ≠ .revealSecret → Pending (storeSecret rvSecret js) := by
    intro hstate
    refine hpend.setPeer fun peer howes => ?_
    revert hstate howes
    cases js.state <;> simp [owes]
  rcases hp : js.peers.lookup rvSecret.peerId with _ | peer
  · rw [revealSecret_stranger hmu hp] at h
    cases h
    exact hpend
  rw [revealSecret_member hmu hp] at h
  by_cases hall : (storeSecret rvSecret js).allSubmit (fun peer => peer.vk ≠ []) = true
  · rw [if_pos hall] at h
    rcases hreplay : replay pkgs ch (storeSecret rvSecret js) with (f | err) | findings
    · rw [hreplay] at h
      cases h
    · rw [hreplay] at h
      cases h
      cases hd
    · have hunlock : afterReplay (storeSecret rvSecret js) (.ok findings) =
          .ok (⟨if findings.maliciousIds = [] then none else some findings.maliciousIds, .next⟩,
            { storeSecret rvSecret js with totalMsg := findings.totalMsg, maliciousFinding := false }) :=
        JoinSession.of_unlockAnd (P := (· = _))
          { storeSecret rvSecret js with totalMsg := findings.totalMsg, maliciousFinding := false } hmu rfl
      rw [hreplay, hunlock] at h
      cases h
      have hnobody : findings.maliciousIds = [] := by
        by_contra hsome
        rw [if_neg hsome] at hd
        cases hd
      refine (hstored fun hstate => hno ?_).congr rfl fun _ => rfl
      exact .unblamed (GoMap.mem_keys_of_lookup hp) hstate hall hreplay hnobody
  · rw [if_neg hall] at h
    cases h
    by_cases hstate : js.state = .revealSecret
    · apply pending_of_awaits
      rw [show ({ storeSecret rvSecret js with maliciousFinding := false } : JoinSession).state = .revealSecret from hstate]
      exact (awaits_of_allSubmit (Bool.eq_false_iff.mpr hall) fun peer => by simp [owes]).congr rfl
    · exact (hstored hstate).congr rfl fun _ => rfl

theorem pending_msgNotFound {data : MsgNotFound} (hpend : Pending js) (hno : ¬Stalls pkgs ch js (.msgNotFound data))
    (h : MsgNotFoundOutcome ch data js (.ok (d, js'))) : Pending js' := by
  cases h with
  | stranger => exact hpend
  | asked hp =>
    apply pending_of_awaits
    by_contra hnone
    have hnext : .revealSecret ∈ Kind.next .msgNotFound := List.mem_singleton.mpr rfl
    refine hno (.overtaken (GoMap.mem_keys_of_lookup hp) trivial hnext rfl fun hawaits => hnone ?_)
    exact hawaits.congr rfl

/-- A message that does not stall the session leaves somebody to wait for. -/
theorem pending_handle {msg : ClientMessage} (hpend : Pending js) (hno : ¬Stalls pkgs ch js msg)
    (h : handle pkgs ch js msg = .ok (d, js')) (hd : d = .next) : Pending js' := by
  have hmu := mu_of_handle h
  have houtcome := handle_outcome pkgs ch msg hmu
  rw [h] at houtcome
  cases msg with
  | keyExchange req => exact pending_keyExchange hpend hno houtcome
  | dcExpVector data => exact pending_dcExpVector hpend hno houtcome hd
  | dcXorVector data => exact pending_dcXorVector hpend hno houtcome hd
  | txInputs txins => exact pending_txInputs hpend hno houtcome hd
  | txSigned signedTx => exact pending_txSigned hpend houtcome hd
  | txPublishResult pubResult =>
    cases houtcome
    cases hd
  | revealSecret rvSecret => exact pending_revealSecret hpend hno hmu h hd
  | msgNotFound data => exact pending_msgNotFound hpend hno houtcome

end Pending

/-! ### Runs -/

section Runs
variable {pkgs : Packages} {ch : Choices} {s s' : System} {ev : Event}

theorem pending_timeout {d : Done} {js' : JoinSession} (hpend : Pending s.session)
    (hleft : ¬Abandons (s.leaving ch .timeout) s.session) (h : timeout pkgs ch s.session = .ok (d, js')) (hd : d = .next) :
    Pending js' := by
  have htimed : Pending (s.session.timedOut ch) := hpend.congr rfl fun _ => rfl
  have houtcome := timeout_outcome pkgs ch (mu_of_timeout h)
  rw [h] at houtcome
  cases houtcome with
  | returned => cases hd
  | republished hstate _ hrep hinform =>
    have hpublish : ∀ js : JoinSession, js.state = .txPublish → Pending js := fun js hstate =>
      pending_of_not_collects (by rw [hstate]; rfl)
    have hsame : (JoinSession.withMu _ false).state = .txPublish := hrep.state.trans hstate
    cases hinform with
    | nobody => exact hpublish _ hsame
    | dropped => exact hpublish _ ((state_removePeers ..).trans hsame)
  | informed _ hinform =>
    cases hinform with
    | nobody => exact htimed
    | dropped _ hkey =>
      refine htimed.removePeers fun habandons => hleft ?_
      rw [System.leaving, show s.session.state = .keyExchange from hkey]
      exact habandons

theorem pending_readError {conn : ℕ} {peer : PeerInfo} {js' : JoinSession} (hpeer : s.session.peerOf conn = some peer)
    (hpend : Pending s.session) (hleft : ¬Abandons (s.leaving ch (.readError conn)) s.session)
    (h : readError pkgs ch peer s.session = .ok js') : Pending js' := by
  have houtcome := readError_outcome pkgs ch peer (mu_of_readError h)
  rw [h] at houtcome
  cases houtcome with
  | left hstate =>
    refine hpend.removePeer fun habandons => hleft ?_
    simpa [System.leaving, hpeer, hstate] using habandons
  | kept => exact hpend
  | emptied hstate => exact pending_of_not_collects (by simp [hstate, SessionState.collects])
  | changed hstate _ hchange =>
    refine pending_of_not_collects ?_
    rw [JoinSession.state_withMu, hchange.state]
    simp [hstate, SessionState.collects]

theorem pending_writeError {conn : ℕ} {peer : PeerInfo} {js' : JoinSession} (hpeer : s.session.peerOf conn = some peer)
    (hpend : Pending s.session) (hleft : ¬Abandons (s.leaving ch (.writeError conn)) s.session)
    (h : writeError pkgs ch peer s.session = .ok js') : Pending js' := by
  have houtcome := writeError_outcome pkgs ch peer (mu_of_writeError h)
  rw [h] at houtcome
  cases houtcome with
  | left hstate =>
    refine hpend.removePeer fun habandons => hleft ?_
    simpa [System.leaving, hpeer, hstate] using habandons
  | kept => exact hpend
  | changed hstate _ hchange =>
    refine pending_of_not_collects ?_
    rw [JoinSession.state_withMu, hchange.state]
    simp [hstate, SessionState.collects]
  | locked hstate _ hchange =>
    refine pending_of_not_collects ?_
    rw [hchange.state]
    simp [hstate, SessionState.collects]

/-- What the loop does on its way to the select leaves somebody to wait for. -/
theorem pending_finish {d : Done} {running : Bool} {js js' : JoinSession} (hpend : d = .next → Pending js)
    (h : finish ch d js = .ok (running, js')) (hrunning : running = true) : Pending js' := by
  cases hmu : js.mu with
  | true =>
    rw [finish_held ch d hmu] at h
    split_ifs at h with hpush
    · cases h
      cases hrunning
    · cases h
      obtain ⟨hexit, -⟩ := of_decide_eq_true hrunning
      obtain ⟨push, exit⟩ := d
      obtain rfl : push = none := by simpa using hpush
      exact hpend (by rw [Done.next, ← hexit])
  | false =>
    rw [finish_free ch d hmu] at h
    split_ifs at h
    cases h
    obtain ⟨hexit, -⟩ := of_decide_eq_true hrunning
    obtain ⟨push, exit⟩ := d
    cases push with
    | none => exact hpend (by rw [Done.next, ← hexit])
    | some ps => exact pending_expelled ch ps js

theorem pending_readMessage {peer : PeerInfo} {raw : RawMessage} {pc : ReaderPc} {js js' : JoinSession} (hpend : Pending js)
    (h : readMessage peer raw js = .ok (pc, js')) : Pending js' := by
  rcases mu_of_readMessage h with hmu | ⟨-, hsame⟩
  · have houtcome := readMessage_outcome peer raw hmu
    rw [h] at houtcome
    cases houtcome with
    | ignored => exact hpend
    | unknown => exact hpend
    | refused => exact hpend
    | locked => exact hpend
    | malformed => exact hpend
    | admitted =>
      split_ifs
      · exact hpend
      · exact hpend
  · cases hsame
    exact hpend

/-- While the loop waits the session waits for somebody. -/
def PendingInv (s : System) : Prop := s.loop.waits = true → Pending s.session

theorem PendingInv.step (hinv : PendingInv s) (hattentive : Attentive pkgs ch s ev) (h : Stepped pkgs ch s ev s') :
    PendingInv s' := by
  intro hwaits
  cases h with
  | timeout hloop _ h =>
    have hbefore : s.loop.waits = true := by rw [hloop]; rfl
    exact pending_timeout (hinv hbefore) (hattentive hbefore).1 h (of_decide_eq_true hwaits)
  | deliver hloop hreader h =>
    have hbefore : s.loop.waits = true := by rw [hloop]; rfl
    have hno := (hattentive hbefore).2 _ (by rw [System.handed, hreader])
    exact pending_handle (hinv hbefore) hno h (of_decide_eq_true hwaits)
  | @rest d running js hloop h =>
    refine pending_finish (fun hd => hinv ?_) h ?_
    · rw [hloop, hd]
      rfl
    · cases running with
      | true => rfl
      | false => cases hwaits
  | read _ _ h => exact pending_readMessage (hinv hwaits) h
  | push _ h =>
    rw [JoinSession.pushMaliciousInfo_eq ch _ (mu_of_pushMaliciousInfo h)] at h
    cases h
    exact pending_expelled ch _ s.session
  | remove hreader =>
    refine (hinv hwaits).removePeer fun habandons => (hattentive hwaits).1 ?_
    simpa [System.leaving, hreader] using habandons
  | readError _ hpeer h => exact pending_readError hpeer (hinv hwaits) (hattentive hwaits).1 h
  | writeError _ hpeer h => exact pending_writeError hpeer (hinv hwaits) (hattentive hwaits).1 h

theorem ReachableBy.pendingInv (hs : ReachableBy pkgs (Attentive pkgs) s) : PendingInv s := by
  induction hs with
  | start sessionId roundTimeOut serverPublish queue =>
    intro _ _ hlen
    obtain ⟨p, peer, hp⟩ := GoMap.len_ne_zero_iff.mp hlen
    refine ⟨p, peer, hp, ?_⟩
    obtain ⟨_, -, rfl⟩ := lookup_newJoinSession sessionId roundTimeOut serverPublish hp
    rfl
  | step _ hattentive h ih => exact ih.step hattentive (stepped_of_step h)

end Runs

/-- **No completed round is left waiting** as long as neither the last ones that owe a
datum leave without a restart nor a message leaves nothing to wait for. -/
theorem none_left_waiting {pkgs : Packages} {s : System} (hs : ReachableBy pkgs (Attentive pkgs) s) : NoneLeftWaiting s := by
  intro timer hloop
  apply hs.pendingInv
  rw [hloop]
  rfl

/-- An event that takes out nobody and hands the loop nothing. -/
theorem attentive_of_idle {pkgs : Packages} {ch : Choices} {s : System} {ev : Event} (hleaving : s.leaving ch ev = [])
    (hhanded : s.handed ev = none) : Attentive pkgs ch s ev := by
  intro _
  rw [hleaving, hhanded]
  refine ⟨?_, fun _ h => by cases h⟩
  rintro ⟨-, ⟨p, hp, -⟩, -⟩
  cases hp

/-- A valid key that is not the last one, with somebody else still to announce one. -/
theorem not_stalls_keyExchange {pkgs : Packages} {ch : Choices} {js : JoinSession} {req : KeyExchangeReq}
    (hvalid : pkgs.unmarshal req.pk = true) (hlen : ¬Completes js (.keyExchange req)) {p : ℕ} {peer : PeerInfo}
    (hp : js.peers.lookup p = some peer) (hother : p ≠ req.peerId) (howes : peer.pk = []) :
    ¬Stalls pkgs ch js (.keyExchange req) := by
  intro h
  cases h with
  | rejected _ hkey =>
    rcases hkey with hinvalid | ⟨hend, -⟩
    · rw [hvalid] at hinvalid
      cases hinvalid
    · exact hlen hend
  | miscounted _ _ _ _ _ hall => exact hall p peer hp hother howes
  | overtaken _ hend => exact hlen hend

/-- The first of two peers has announced its key, and the loop waits again. -/
theorem none_left_waiting_one : ∃ s timer, s.loop = .select timer ∧ s.session.peers.keys = [2, 1] ∧
    s.session.listed = [1] ∧ NoneLeftWaiting s := by
  have hstart : ReachableBy plainPackages (Attentive plainPackages) _ :=
    .start 7 60 false [(1, 1), (2, 2)] (by decide) (by decide)
  have hread := hstart.onward (plainChoices id) (.read 1 (.message (.keyExchange ⟨0, [5], 1⟩)))
    (attentive_of_idle rfl rfl) rfl
  have hdeliver := hread.onward (plainChoices id) (.deliver 1) ?_ rfl
  · have hrest := hdeliver.onward (plainChoices id) .rest (attentive_of_idle rfl rfl) rfl
    exact ⟨_, _, rfl, rfl, rfl, none_left_waiting hrest⟩
  · intro _
    refine ⟨?_, fun msg hmsg => ?_⟩
    · rintro ⟨-, ⟨p, hp, -⟩, -⟩
      cases hp
    · cases hmsg
      exact not_stalls_keyExchange rfl (show ¬(2 = 1) by decide) (p := 2) rfl (by decide) rfl

/-- **A lost connection leaves the round waiting**: the first of two peers has announced
its key, and the other one leaves. -/
theorem lostConnection_leaves_waiting : ∃ s, Reachable plainPackages s ∧ ¬NoneLeftWaiting s := by
  refine ⟨_, (Reachable.start 7 60 false [(1, 1), (2, 2)] (by decide) (by decide)).run
    (l := [(plainChoices id, .read 1 (.message (.keyExchange ⟨0, [5], 1⟩))), (plainChoices id, .deliver 1),
      (plainChoices id, .rest), (plainChoices id, .readError 2)]) rfl, fun hnone => ?_⟩
  exact absurd (hnone _ rfl) (by decide)

end Dcrtxmatcher.Coinjoin
