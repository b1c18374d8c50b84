import Dcrtxmatcher.Coinjoin.Wallets

/-! The rounds as barriers.

In every round a session waits for one answer of each member: it keeps what has come
in, and opens the next round with the last of them. For each round there is what is
known of the members while some have answered (a row of the session), and what the
handler makes of the next answer. -/
namespace Dcrtxmatcher.Coinjoin
open Lib Lib.Pads Lib.PowerSums Lib.Layout

/-! ### What does not change -/

/-- The members are the peers `ids` of the queue, nothing has failed, and a peer is to publish. -/
structure Gathered (queue : List (ℕ × ℕ)) (ids : List ℕ) (js : JoinSession) : Prop where
  mu : js.mu = false
  errm : js.errm = none
  asksPeer : js.serverPublish = false
  former : js.former = []
  keys : js.peers.keys = ids
  member : ∀ p peer, js.peers.lookup p = some peer → peer.id = p ∧ (peer.conn, p) ∈ queue

/-- What holds of every member. -/
def Every (row : ℕ → PeerInfo → Prop) (js : JoinSession) : Prop := ∀ p peer, js.peers.lookup p = some peer → row p peer

section Rows
variable {queue : List (ℕ × ℕ)} {ids done : List ℕ} {js js' : JoinSession} {p : ℕ} {f : PeerInfo → PeerInfo}
  {row row' : ℕ → PeerInfo → Prop}

/-- The members are changed but for who they are. -/
theorem Gathered.mapVal (h : Gathered queue ids js) {g : ℕ → PeerInfo → PeerInfo}
    (hpeers : js'.peers = GoMap.mapVal g js.peers) (hg : ∀ p peer, (g p peer).id = peer.id ∧ (g p peer).conn = peer.conn)
    (hmu : js'.mu = false) (herrm : js'.errm = none) (hasks : js'.serverPublish = js.serverPublish)
    (hformer : js'.former = js.former) : Gathered queue ids js' where
  mu := hmu
  errm := herrm
  asksPeer := hasks.trans h.asksPeer
  former := hformer.trans h.former
  keys := by rw [hpeers, GoMap.keys_mapVal, h.keys]
  member p peer' hp := by
    rw [hpeers, GoMap.lookup_mapVal, Option.map_eq_some_iff] at hp
    obtain ⟨peer, hpeer, rfl⟩ := hp
    rw [(hg p peer).1, (hg p peer).2]
    exact h.member p peer hpeer

/-- One member is changed but for who it is. -/
theorem Gathered.modify (h : Gathered queue ids js) (hpeers : js'.peers = GoMap.modify p f js.peers)
    (hf : ∀ peer, (f peer).id = peer.id ∧ (f peer).conn = peer.conn) (hmu : js'.mu = false) (herrm : js'.errm = none)
    (hasks : js'.serverPublish = js.serverPublish) (hformer : js'.former = js.former) : Gathered queue ids js' := by
  refine h.mapVal hpeers (fun q peer => ?_) hmu herrm hasks hformer
  split_ifs
  · exact hf peer
  · exact ⟨rfl, rfl⟩

theorem Gathered.wellKeyed (h : Gathered queue ids js) : JoinSession.WellKeyed js.peers := fun p peer hp =>
  (h.member p peer hp).1

theorem Every.congr (h : Every row js) (hpeers : js'.peers = js.peers) : Every row js' := by
  rw [Every, hpeers]
  exact h

theorem Every.mono (h : Every row js) (hrow : ∀ p peer, js.peers.lookup p = some peer → row p peer → row' p peer) :
    Every row' js := fun p peer hp => hrow p peer hp (h p peer hp)

/-- A change of one member. -/
theorem Every.modify (h : Every row js) (hpeers : js'.peers = GoMap.modify p f js.peers)
    (hself : ∀ peer, row p peer → row' p (f peer)) (hother : ∀ q ≠ p, ∀ peer, row q peer → row' q peer) : Every row' js' := by
  intro q peer' hq
  rw [hpeers] at hq
  by_cases heq : q = p
  · subst heq
    rw [GoMap.lookup_modify_self, Option.map_eq_some_iff] at hq
    obtain ⟨peer, hpeer, rfl⟩ := hq
    exact hself peer (h q peer hpeer)
  · rw [GoMap.lookup_modify_ne heq] at hq
    exact hother q heq peer' (h q peer' hq)

/-- Everybody has submitted once all are done. -/
theorem allSubmit_iff {α : Type} {get : PeerInfo → α} {datum : ℕ → α} {blank : α} (present : α → Bool)
    (h : Every (fun p peer => get peer = if p ∈ done then datum p else blank) js) (hkeys : js.peers.keys = ids)
    (hdatum : ∀ p, present (datum p) = true) (hblank : present blank = false) :
    js.allSubmit (fun peer => present (get peer)) = true ↔ ∀ p ∈ ids, p ∈ done := by
  have hpresent : ∀ p peer, js.peers.lookup p = some peer → (present (get peer) = true ↔ p ∈ done) := by
    intro p peer hpeer
    rw [h p peer hpeer]
    split_ifs with hp
    · exact iff_of_true (hdatum p) hp
    · exact iff_of_false (hblank.trans_ne Bool.false_ne_true) hp
  rw [JoinSession.allSubmit, List.all_eq_true, ← hkeys]
  constructor
  · intro hall p hp
    obtain ⟨peer, hpeer⟩ := GoMap.lookup_of_mem_keys hp
    exact (hpresent p peer hpeer).mp (hall (p, peer) (GoMap.mem_toList.mpr hpeer))
  · intro hall e he
    have hpeer := GoMap.mem_toList.mp (show (e.1, e.2) ∈ GoMap.toList js.peers from he)
    exact (hpresent e.1 e.2 hpeer).mpr (hall e.1 (GoMap.mem_keys_of_lookup hpeer))

/-- What everybody has submitted, in the order a loop visits them. -/
theorem values_of_every {α : Type} {get : PeerInfo → α} {vec : ℕ → α} (h : Every (fun p peer => get peer = vec p) js)
    (ch : Choices) (site : List ℕ) : ((GoMap.values ch.order site js.peers).map get).Perm (js.peers.keys.map vec) := by
  refine ((GoMap.values_perm ch.order site js.peers).map get).trans (.of_eq ?_)
  rw [GoMap.keys_eq, List.map_map, List.map_map]
  exact List.map_congr_left fun e he => h e.1 e.2 (GoMap.mem_toList.mp he)

end Rows

/-! ### What is known in a round -/

/-- Nothing has come in of the peer's transactions. -/
def PeerInfo.Idle (peer : PeerInfo) : Prop := peer.txIns = none ∧ peer.inputIndex = [] ∧ peer.signedTx = none

section Barriers
variable (pkgs : Packages) (w : Wallets) (ids done : List ℕ)

def keyRow (p : ℕ) (peer : PeerInfo) : Prop :=
  (p ∈ done → peer.numMsg = (w.scripts p).length) ∧ peer.dcExpVector = [] ∧ peer.dcXorVector = [] ∧ peer.Idle

/-- The vector of a peer in the exponential round. -/
def Wallets.expVector (p : ℕ) : List Field := honestVector ids w.pad (w.hashes pkgs p) p (w.total ids)

def expRow (p : ℕ) (peer : PeerInfo) : Prop :=
  peer.numMsg = (w.scripts p).length ∧ peer.dcExpVector = (if p ∈ done then w.expVector pkgs ids p else []) ∧
    peer.dcXorVector = [] ∧ peer.Idle

def xorRow (roots : List Field) (p : ℕ) (peer : PeerInfo) : Prop :=
  peer.numMsg = (w.scripts p).length ∧
    peer.dcXorVector = (if p ∈ done then w.xorVector pkgs ids roots p else []) ∧ peer.Idle

def inputRow (p : ℕ) (peer : PeerInfo) : Prop :=
  peer.numMsg = (w.scripts p).length ∧ peer.txIns = (if p ∈ done then some (w.tx p) else none) ∧
    peer.inputIndex = [] ∧ peer.signedTx = none

def signRow (place : ℕ → List ℕ) (unsigned : MsgTx) (signed : ℕ → MsgTx) (p : ℕ) (peer : PeerInfo) : Prop :=
  peer.inputIndex = place p ∧ (∀ i idx : ℕ, (place p)[i]? = some idx → peer.ownInputs[i]? = unsigned.txIn[idx]?) ∧
    peer.signedTx = if p ∈ done then some (signed p) else none

/-- Where the inputs of the peers are in their joined transaction. -/
structure Wallets.Placed (order : List ℕ) (scripts : List Bytes) (place : ℕ → List ℕ) : Prop where
  partition : (order.flatMap place).Perm (List.range (w.joined order scripts).txIn.length)
  length : ∀ p ∈ order, (place p).length = (w.tx p).txIn.length
  own : ∀ p ∈ order, ∀ i idx : ℕ, (place p)[i]? = some idx → (w.joined order scripts).txIn[idx]? = (w.tx p).txIn[i]?

/-- The transaction joined so far has what those who are done have signed. -/
def Patched (place : ℕ → List ℕ) (unsigned : MsgTx) (signed : ℕ → MsgTx) (tx : MsgTx) : Prop :=
  tx.stripped = unsigned.stripped ∧ ∀ p ∈ done, ∀ idx ∈ place p, tx.txIn[idx]? = (signed p).txIn[idx]?

/-- What is known while the peers `done` have answered the last of the messages. `said p`
are the messages of peer `p`. -/
inductive Barrier (said : ℕ → ClientMessage → Prop) (js : JoinSession) : List ServerMessage → Prop
  | keys (state : js.state = .keyExchange) (rows : Every (keyRow w done) js) (joined : js.joinedTx = none)
      (infos : js.peersMsgInfo = done.map w.info) : Barrier said js []
  | exponential {order : List ℕ} (state : js.state = .dcExponential) (rows : Every (expRow pkgs w ids done) js)
      (joined : js.joinedTx = none) (horder : order.Perm ids) : Barrier said js [.keyExchange (order.map w.info)]
  | xor {order : List ℕ} {n : ℕ} {msgs : Bytes} (state : js.state = .dcXor)
      (rows : Every (xorRow pkgs w ids done (fieldRoots msgs)) js)
      (joined : js.joinedTx = none) (horder : order.Perm ids)
      (hroots : (fieldRoots msgs).Perm ((ids.flatMap w.scripts).map (scriptHash pkgs))) :
      Barrier said js [.keyExchange (order.map w.info), .dcExpVector n msgs]
  | inputs {first second : ServerMessage} {msgs : Bytes} (state : js.state = .txInput) (rows : Every (inputRow w done) js)
      (joined : js.joinedTx = none) (hscripts : js.allPkScripts.Perm (ids.flatMap w.scripts)) :
      Barrier said js [first, second, .dcXorVector msgs]
  | signing {first second third : ServerMessage} {bytes : Bytes} {order : List ℕ} {scripts : List Bytes}
      {place : ℕ → List ℕ} {signed : ℕ → MsgTx} (state : js.state = .txSign)
      (rows : Every (signRow done place (w.joined order scripts) signed) js) (horder : order.Perm ids)
      (hscripts : scripts.Perm (ids.flatMap w.scripts)) (placed : w.Placed order scripts place)
      (hdecode : pkgs.btcDecode bytes = some (w.joined order scripts)) (hnone : js.joinedTx = none → done = [])
      (patched : ∀ tx, js.joinedTx = some tx → Patched done place (w.joined order scripts) signed tx)
      (hsaid : ∀ p ∈ done, ∃ signedTx, said p (.txSigned signedTx) ∧ pkgs.btcDecode signedTx.tx = some (signed p) ∧
        w.Signs p (w.joined order scripts) (signed p)) :
      Barrier said js [first, second, third, .joinedTx bytes]

/-- The transaction is that of the peers with all signatures, each from the owner of the input. -/
def Wallets.SignedByAll (said : ℕ → ClientMessage → Prop) (joinedTx : MsgTx) : Prop :=
  ∃ order scripts place, order.Perm ids ∧ scripts.Perm (ids.flatMap w.scripts) ∧ w.Placed order scripts place ∧
    joinedTx.stripped = w.joined order scripts ∧ ∀ p ∈ ids, ∃ signedTx tx, said p (.txSigned signedTx) ∧
      pkgs.btcDecode signedTx.tx = some tx ∧ w.Signs p (w.joined order scripts) tx ∧
      ∀ idx ∈ place p, joinedTx.txIn[idx]? = tx.txIn[idx]?

/-- What becomes of the session with one more answer: it waits for others, opens the next
round with a message to all, or asks a peer to publish. -/
inductive Passed (queue : List (ℕ × ℕ)) (said : ℕ → ClientMessage → Prop) (ch : Choices) (p : ℕ) (js : JoinSession)
    (asked : List ServerMessage) (js' : JoinSession) : Prop
  | waits (hgathered : Gathered queue ids js') (hlate : ∃ q ∈ ids, q ∉ done ++ [p])
      (hbarrier : Barrier pkgs w ids (done ++ [p]) said js' asked) (hout : js'.out = js.out)
  | opens {msg : ServerMessage} {site : ℕ}
      (hout : js'.out = js.out ++ (GoMap.values ch.order [site] js'.peers).map fun peer => .send peer.conn msg)
      (hmsg : ∀ conn, (Output.send conn msg).ofRound = true)
      (hgathered : Gathered queue ids js') (hall : ∀ q ∈ ids, q ∈ done ++ [p])
      (hbarrier : Barrier pkgs w ids [] said js' (asked ++ [msg]))
  | ends {tx : Bytes} {publisher : PeerInfo} {joinedTx : MsgTx}
      (hout : js'.out = js.out ++ [.send publisher.conn (.txSign tx)]) (hgathered : Gathered queue ids js')
      (hall : ∀ q ∈ ids, q ∈ done ++ [p]) (hasked : asked.length = 4) (hstate : js'.state = .txPublish)
      (hpublisher : js'.peers.lookup publisher.id = some publisher) (hjoined : js'.joinedTx = some joinedTx)
      (hsigned : w.SignedByAll pkgs ids said joinedTx)

end Barriers

/-! ### One more answer -/

/-- Somebody who has not answered yet does. -/
structure Next (queue : List (ℕ × ℕ)) (ids done : List ℕ) (p : ℕ) (js : JoinSession) : Prop where
  gathered : Gathered queue ids js
  mem : p ∈ ids
  new : p ∉ done
  sub : ∀ q ∈ done, q ∈ ids
  nodup : done.Nodup

section Passing
variable {pkgs : Packages} {w : Wallets} {queue : List (ℕ × ℕ)} {ids done : List ℕ} {p : ℕ} {js : JoinSession}
  {said : ℕ → ClientMessage → Prop} {ch : Choices}

namespace Next

theorem nodup_ids (h : Next queue ids done p js) : ids.Nodup := h.gathered.keys ▸ js.peers.keys_nodup

theorem nodup_next (h : Next queue ids done p js) : (done ++ [p]).Nodup :=
  List.nodup_append.mpr ⟨h.nodup, List.nodup_singleton p, fun q hq r hr heq => by
    rw [heq, List.mem_singleton.mp hr] at hq
    exact h.new hq⟩

theorem sub_next (h : Next queue ids done p js) : ∀ q ∈ done ++ [p], q ∈ ids := by
  intro q hq
  rcases List.mem_append.mp hq with hq | hq
  · exact h.sub q hq
  · rw [List.mem_singleton.mp hq]
    exact h.mem

theorem perm_of_all (h : Next queue ids done p js) (hall : ∀ q ∈ ids, q ∈ done ++ [p]) : (done ++ [p]).Perm ids :=
  (List.perm_ext_iff_of_nodup h.nodup_next h.nodup_ids).mpr fun q => ⟨h.sub_next q, hall q⟩

/-- The session counts who has answered. -/
theorem all_iff (h : Next queue ids done p js) : (∀ q ∈ ids, q ∈ done ++ [p]) ↔ GoMap.len js.peers = done.length + 1 := by
  rw [← GoMap.length_keys, h.gathered.keys]
  constructor
  · intro hall
    rw [← (h.perm_of_all hall).length_eq, List.length_append, List.length_singleton]
  · intro hlen q hq
    have hperm := (List.subperm_of_subset h.nodup_next h.sub_next).perm_of_length_le (by simp [hlen])
    exact hperm.mem_iff.mpr hq

theorem exists_late (h : ¬∀ q ∈ ids, q ∈ done ++ [p]) : ∃ q ∈ ids, q ∉ done ++ [p] := by
  simpa using h

theorem lookup (h : Next queue ids done p js) : ∃ peer, js.peers.lookup p = some peer :=
  GoMap.lookup_of_mem_keys (h.gathered.keys ▸ h.mem)

end Next

/-- A row in which one more is done: the others' are as they were. -/
theorem mem_next_iff {q : ℕ} (hne : q ≠ p) : q ∈ done ++ [p] ↔ q ∈ done := by
  simp [hne]

theorem ite_mem_next {α : Type} {q : ℕ} (hne : q ≠ p) (a b : α) :
    (if q ∈ done ++ [p] then a else b) = if q ∈ done then a else b := by
  simp only [mem_next_iff hne]

theorem mem_next_self : p ∈ done ++ [p] := List.mem_append_right done (List.mem_singleton_self p)

/-- The key exchange. -/
theorem passes_keys (h : Next queue ids done p js) (hw : w.Match pkgs ids) (hmarshal : ∀ site, ch.marshal site = true)
    (hstate : js.state = .keyExchange) (hrows : Every (keyRow w done) js) (hjoined : js.joinedTx = none)
    (hinfos : js.peersMsgInfo = done.map w.info) {req : KeyExchangeReq} (hreq : req.peerId = p) (hpk : req.pk = w.pk p)
    (hnum : req.numMsg = (w.scripts p).length) :
    ∃ js', keyExchange pkgs ch req js = .ok (.next, js') ∧ Passed pkgs w ids done queue said ch p js [] js' := by
  subst hreq
  have hkey : pkgs.unmarshal req.pk = true := by
    rw [hpk]
    exact hw.keys _ h.mem
  have hlength : js.peersMsgInfo.length = done.length := by rw [hinfos, List.length_map]
  -- the member's key is stored and listed
  have hannounced : ∀ peer, js.peers.lookup req.peerId = some peer →
      Gathered queue ids (announce req peer js) ∧ Every (keyRow w (done ++ [req.peerId])) (announce req peer js) ∧
        (announce req peer js).peersMsgInfo = (done ++ [req.peerId]).map w.info := by
    intro peer hpeer
    have hpeers : (announce req peer js).peers =
        GoMap.modify req.peerId (fun peer => { peer with pk := req.pk, numMsg := req.numMsg }) js.peers := rfl
    refine ⟨h.gathered.modify hpeers (fun _ => ⟨rfl, rfl⟩) h.gathered.mu h.gathered.errm rfl rfl, ?_, ?_⟩
    · refine hrows.modify hpeers (fun peer hrow => ⟨fun _ => hnum, hrow.2⟩) fun q hne peer hrow => ⟨fun hq => ?_, hrow.2⟩
      exact hrow.1 ((mem_next_iff hne).mp hq)
    · rw [peersMsgInfo_announce, hinfos, List.map_append, List.map_singleton, Wallets.info, hpk, hnum,
        (h.gathered.member _ peer hpeer).1]
  have houtcome := keyExchange_outcome pkgs ch req h.gathered.mu
  generalize keyExchange pkgs ch req js = r at houtcome ⊢
  cases houtcome with
  | stranger hp =>
    obtain ⟨peer, hpeer⟩ := h.lookup
    exact absurd (hp.symm.trans hpeer) (Option.some_ne_none peer).symm
  | invalid _ hbad => exact absurd (hbad.symm.trans hkey) Bool.false_ne_true
  | waiting hp _ hlen =>
    obtain ⟨hgathered, hrows', hinfos'⟩ := hannounced _ hp
    refine ⟨_, rfl, .waits hgathered (Next.exists_late fun hall => hlen ?_) (.keys hstate hrows' hjoined hinfos') rfl⟩
    rw [hlength]
    exact h.all_iff.mp hall
  | unmarshalled _ _ _ hbad => exact absurd (hbad.symm.trans (hmarshal _)) Bool.false_ne_true
  | complete hp _ hlen =>
    obtain ⟨hgathered, hrows', hinfos'⟩ := hannounced _ hp
    have hall := h.all_iff.mpr (by rw [hlen, hlength])
    refine ⟨_, rfl, .opens rfl (fun _ => rfl) ⟨hgathered.mu, hgathered.errm, hgathered.asksPeer, hgathered.former,
      hgathered.keys, hgathered.member⟩ hall ?_⟩
    rw [hinfos', List.nil_append]
    refine .exponential rfl (hrows'.mono fun q peer hq hrow => ?_) hjoined (h.perm_of_all hall)
    have hq' : q ∈ ids := hgathered.keys ▸ GoMap.mem_keys_of_lookup hq
    exact ⟨hrow.1 (hall q hq'), hrow.2.1, hrow.2.2⟩

/-- The roots that are sent are the hashes. -/
theorem readRoots_of_solved {fl : Flint.Library} {sums : List Field} {n : ℕ} {texts : List (List Char)} {hashes : List Field}
    {sent : Bytes} (hsolved : Flint.getRoots fl (Hex.hexStr fieldPrime) sums n = .ok (0, texts))
    (hM : (texts : Multiset (List Char)) = (hashes : Multiset Field).map fun r => Hex.hexStr r.val)
    (hsent : encodeRoots texts = .ok sent) : (fieldRoots sent).Perm hashes := by
  obtain ⟨roots, rfl, hlt⟩ := exists_printed hsolved
  rw [encodeRoots_printed hlt] at hsent
  cases hsent
  have hinj : Function.Injective Hex.hexStr := fun a b hab => by
    have hparse := congrArg Hex.ofHex hab
    rwa [Hex.ofHex_hexStr, Hex.ofHex_hexStr, Option.some_inj] at hparse
  have hperm : roots.Perm (hashes.map ZMod.val) := by
    rw [Multiset.map_coe, Multiset.coe_eq_coe] at hM
    rw [← List.map_perm_map_iff hinj, List.map_map]
    exact hM
  rw [fieldRoots, readRoots_rootPayload hlt]
  refine (hperm.map _).trans (.of_eq ?_)
  rw [List.map_map]
  exact (List.map_congr_left fun r _ => ZMod.natCast_zmod_val r).trans (List.map_id hashes)

/-- The exponential round. -/
theorem passes_exponential (h : Next queue ids done p js) (hw : w.Match pkgs ids) (hflint : pkgs.flint.Correct fieldPrime)
    (h2 : 2 ≤ ids.length) (hmarshal : ∀ site, ch.marshal site = true) (hstate : js.state = .dcExponential)
    (hrows : Every (expRow pkgs w ids done) js) (hjoined : js.joinedTx = none) {order : List ℕ} (horder : order.Perm ids)
    {data : DcVector} (hdata : data.peerId = p) (hv : Carries pkgs data (w.expVector pkgs ids p)) :
    ∃ js', dcExpVector pkgs ch data js = .ok (.next, js') ∧
      Passed pkgs w ids done queue said ch p js [.keyExchange (order.map w.info)] js' := by
  subst hdata
  have htotal := Wallets.two_le_total hw.scripts h2
  have hlen : ∀ q, (w.expVector pkgs ids q).length = w.total ids := fun q => length_honestVector ..
  have hne : ∀ q, w.expVector pkgs ids q ≠ [] := fun q =>
    List.ne_nil_of_length_pos ((Nat.lt_of_lt_of_le Nat.two_pos htotal).trans_eq (hlen q).symm)
  have hstep := dcExpVector_of_carried ch hv (hw.nonzero _ h.mem) ((hlen _).symm ▸ htotal) js h.gathered.mu h.gathered.errm
    (h.gathered.keys.symm ▸ h.mem)
  dsimp only at hstep
  generalize hjs₁ : js.setPeer data.peerId (fun peer => { peer with dcExpVector := w.expVector pkgs ids data.peerId }) = js₁
    at hstep
  have hpeers : js₁.peers =
      GoMap.modify data.peerId (fun peer => { peer with dcExpVector := w.expVector pkgs ids data.peerId }) js.peers := by
    rw [← hjs₁]
    rfl
  have hgathered : Gathered queue ids js₁ := by
    refine h.gathered.modify hpeers (fun _ => ⟨rfl, rfl⟩) ?_ ?_ ?_ ?_ <;> rw [← hjs₁]
    · exact h.gathered.mu
    · exact h.gathered.errm
    · rfl
    · rfl
  have hrows₁ : Every (expRow pkgs w ids (done ++ [data.peerId])) js₁ := by
    refine hrows.modify hpeers (fun peer hrow => ⟨hrow.1, ?_, hrow.2.2⟩) fun q hq peer hrow => ⟨hrow.1, ?_, hrow.2.2⟩
    · rw [if_pos mem_next_self]
    · rw [hrow.2.1, ite_mem_next hq]
  have hsubmitted : js₁.allSubmit (fun peer => peer.dcExpVector ≠ []) = true ↔ ∀ q ∈ ids, q ∈ done ++ [data.peerId] := by
    have hvectors := hrows₁.mono fun _ _ _ hrow => hrow.2.1
    exact allSubmit_iff (fun v => decide (v ≠ [])) hvectors hgathered.keys (fun q => decide_eq_true (hne q)) rfl
  by_cases hall : ∀ q ∈ ids, q ∈ done ++ [data.peerId]
  · rw [if_pos (hsubmitted.mpr hall), hlen] at hstep
    have hvectors : Every (fun q peer => peer.dcExpVector = w.expVector pkgs ids q) js₁ := by
      refine hrows₁.mono fun q peer hq hrow => ?_
      rw [hrow.2.1, if_pos (hall q (hgathered.keys ▸ GoMap.mem_keys_of_lookup hq))]
    have hvalues := values_of_every hvectors ch [423]
    rw [hgathered.keys] at hvalues
    have hcard : (allHashes ids (w.hashes pkgs)).card = w.total ids := by
      rw [Wallets.allHashes_eq, Multiset.coe_card, List.length_map, List.length_flatMap, Wallets.total]
    obtain ⟨texts, sent, -, hsolved, hM, hsent, hsolve⟩ := solveExponential_of_psum hflint ch { js₁ with mu := true } rfl
      htotal hw.total (fun v hv => by
        obtain ⟨q, -, rfl⟩ := List.mem_map.mp (hvalues.mem_iff.mp hv)
        exact (hlen q).le) hcard fun i hi => by
          rw [(hvalues.map _).sum_eq, List.map_map, ← sum_honestEntry hw.pad (w.hashes pkgs) i]
          refine congrArg List.sum (List.map_congr_left fun q _ => ?_)
          simp [Wallets.expVector, honestVector, hi]
    rw [hsolve, if_pos (hmarshal _)] at hstep
    rw [Wallets.allHashes_eq] at hM
    have hout : js₁.out = js.out := by
      rw [← hjs₁]
      rfl
    refine ⟨_, hstep, .opens (congrArg (· ++ _) hout) (fun _ => rfl) ⟨rfl, hgathered.errm, hgathered.asksPeer,
      hgathered.former, hgathered.keys, hgathered.member⟩ hall (.xor rfl ?_ ?_ horder (readRoots_of_solved hsolved hM hsent))⟩
    · refine Every.congr (hrows₁.mono fun q peer _ hrow => ⟨hrow.1, ?_, hrow.2.2.2⟩) rfl
      rw [if_neg List.not_mem_nil]
      exact hrow.2.2.1
    · change js₁.joinedTx = none
      rw [← hjs₁]
      exact hjoined
  · rw [if_neg (mt hsubmitted.mp hall)] at hstep
    refine ⟨_, hstep, .waits hgathered (Next.exists_late hall) (.exponential ?_ hrows₁ ?_ horder) ?_⟩ <;> rw [← hjs₁]
    · exact hstate
    · exact hjoined
    · rfl

theorem unlockAnd_of_held (d : Done) (hmu : js.mu = true) : js.unlockAnd d = .ok (d, { js with mu := false }) := by
  rw [JoinSession.unlockAnd, JoinSession.unlock_of_held hmu]
  rfl

/-- The xor round. -/
theorem passes_xor (h : Next queue ids done p js) (hw : w.Match pkgs ids) (hlaws : pkgs.XorLaws) (h2 : 2 ≤ ids.length)
    (hmarshal : ∀ site, ch.marshal site = true) (hstate : js.state = .dcXor) {n : ℕ} {msgs : Bytes}
    (hrows : Every (xorRow pkgs w ids done (fieldRoots msgs)) js) (hjoined : js.joinedTx = none) {order : List ℕ}
    (horder : order.Perm ids) (hroots : (fieldRoots msgs).Perm ((ids.flatMap w.scripts).map (scriptHash pkgs)))
    {data : DcVector} (hdata : data.peerId = p) (hv : CarriesMessages data (w.xorVector pkgs ids (fieldRoots msgs) p)) :
    ∃ js', dcXorVector pkgs ch data js = .ok (.next, js') ∧
      Passed pkgs w ids done queue said ch p js [.keyExchange (order.map w.info), .dcExpVector n msgs] js' := by
  subst hdata
  obtain ⟨roots, hfield⟩ : ∃ roots, fieldRoots msgs = roots := ⟨_, rfl⟩
  rw [hfield] at hrows hroots hv
  have hcount : roots.length = w.total ids := by
    rw [hroots.length_eq, List.length_map, List.length_flatMap, Wallets.total]
  have htotal := Wallets.two_le_total hw.scripts h2
  have hlen : ∀ q, (w.xorVector pkgs ids roots q).length = w.total ids := fun q => (List.length_map ..).trans hcount
  have hne : ∀ q, w.xorVector pkgs ids roots q ≠ [] := fun q =>
    List.ne_nil_of_length_pos ((Nat.lt_of_lt_of_le Nat.two_pos htotal).trans_eq (hlen q).symm)
  have hsize : ∀ q, ∀ msg ∈ w.xorVector pkgs ids roots q, msg.length = pkScriptSize := by
    intro q msg hmsg
    obtain ⟨root, -, rfl⟩ := List.mem_map.mp hmsg
    exact Xored.length_toList _
  have hstep : dcXorVector pkgs ch data js = _ := dcXorVector_of_carried ch hv (hsize _) ((hlen _).symm ▸ htotal) js
    h.gathered.mu (h.gathered.keys.symm ▸ h.mem)
  dsimp only at hstep
  generalize hjs₁ : JoinSession.setPeer data.peerId
    (fun peer => { peer with dcXorVector := w.xorVector pkgs ids roots data.peerId }) { js with mu := true } = js₁ at hstep
  have hmu : js₁.mu = true := by
    rw [← hjs₁]
    rfl
  have hout : js₁.out = js.out := by
    rw [← hjs₁]
    rfl
  have hpeers : js₁.peers =
      GoMap.modify data.peerId (fun peer => { peer with dcXorVector := w.xorVector pkgs ids roots data.peerId }) js.peers := by
    rw [← hjs₁]
    rfl
  have hgathered : Gathered queue ids { js₁ with mu := false } := by
    refine h.gathered.modify hpeers (fun _ => ⟨rfl, rfl⟩) rfl ?_ ?_ ?_ <;> rw [← hjs₁]
    · exact h.gathered.errm
    · rfl
    · rfl
  have hrows₁ : Every (xorRow pkgs w ids (done ++ [data.peerId]) roots) js₁ := by
    refine hrows.modify hpeers (fun peer hrow => ⟨hrow.1, ?_, hrow.2.2⟩) fun q hq peer hrow => ⟨hrow.1, ?_, hrow.2.2⟩
    · rw [if_pos mem_next_self]
    · rw [hrow.2.1, ite_mem_next hq]
  have hkeys : js₁.peers.keys = ids := hgathered.keys
  have hsubmitted : js₁.allSubmit (fun peer => peer.dcXorVector ≠ []) = true ↔ ∀ q ∈ ids, q ∈ done ++ [data.peerId] := by
    have hvectors := hrows₁.mono fun _ _ _ hrow => hrow.2.1
    exact allSubmit_iff (fun v => decide (v ≠ [])) hvectors hkeys (fun q => decide_eq_true (hne q)) rfl
  have hjoined₁ : js₁.joinedTx = none := by
    rw [← hjs₁]
    exact hjoined
  by_cases hall : ∀ q ∈ ids, q ∈ done ++ [data.peerId]
  · obtain ⟨owner, script, howner, hscript, hvec, hperm⟩ := Wallets.exists_slots hw.distinct hw.size hroots
    have hvectors : Every (fun q peer => peer.dcXorVector = Coinjoin.xorVector ids w.xorPad owner script roots.length q) js₁ := by
      refine hrows₁.mono fun q peer hq hrow => ?_
      have hmem : q ∈ ids := hkeys ▸ GoMap.mem_keys_of_lookup hq
      rw [hrow.2.1, if_pos (hall q hmem), hvec q hmem]
    have hslots := xorSlots_eq hlaws ch hkeys hw.xorPad howner hscript fun site => hkeys ▸ values_of_every hvectors ch site
    rw [if_pos (hsubmitted.mpr hall), hlen, ← hcount, hslots, ok_bind, hmarshal] at hstep
    have hheld : (scriptList ch { js₁ with allPkScripts := (List.range roots.length).map script }).unlockAnd .next = _ :=
      unlockAnd_of_held .next hmu
    refine ⟨_, hstep.trans hheld, .opens (congrArg (· ++ _) hout) (fun _ => rfl) ⟨rfl, hgathered.errm, hgathered.asksPeer,
      hgathered.former, hgathered.keys, hgathered.member⟩ hall (.inputs rfl ?_ hjoined₁ hperm)⟩
    refine Every.congr (hrows₁.mono fun q peer _ hrow => ⟨hrow.1, ?_, hrow.2.2.2⟩) rfl
    rw [if_neg List.not_mem_nil]
    exact hrow.2.2.1
  · rw [if_neg (mt hsubmitted.mp hall)] at hstep
    have hheld : JoinSession.unlockAnd .next { js₁ with
        allPkScripts := List.replicate (w.xorVector pkgs ids roots data.peerId).length [] } = _ := unlockAnd_of_held .next hmu
    refine ⟨_, hstep.trans hheld, .waits ⟨rfl, hgathered.errm, hgathered.asksPeer, hgathered.former, hgathered.keys,
      hgathered.member⟩ (Next.exists_late hall) (.xor ?_ ?_ hjoined₁ horder (hfield.symm ▸ hroots)) hout⟩
    · rw [← hjs₁]
      exact hstate
    · rw [hfield]
      exact hrows₁.congr rfl

/-- The inputs of the peers lie one after the other. -/
theorem Wallets.placed (w : Wallets) {order : List ℕ} (hnodup : order.Nodup) (scripts : List Bytes) :
    w.Placed order scripts (positions 0 (order.map fun p => (p, (w.tx p).txIn))) := by
  have hkeys : ((order.map fun p => (p, (w.tx p).txIn)).map Prod.fst).Nodup := by
    rw [List.map_map]
    exact (List.map_id order).symm ▸ hnodup
  have hinputs : (order.map fun p => (p, (w.tx p).txIn)).flatMap Prod.snd = (w.joined order scripts).txIn := by
    rw [List.flatMap_map]
    rfl
  have hblock : ∀ p ∈ order, (p, (w.tx p).txIn) ∈ order.map fun p => (p, (w.tx p).txIn) := fun p hp =>
    List.mem_map_of_mem (f := fun p => (p, (w.tx p).txIn)) hp
  constructor
  · have hrange := flatMap_positions hkeys 0
    rw [hinputs, List.flatMap_map] at hrange
    rw [List.range_eq_range', ← hrange]
  · exact fun p hp => length_positions hkeys (hblock p hp) 0
  · intro p hp i idx hi
    rw [← hinputs]
    exact getElem?_positions hkeys (hblock p hp) [] hi

/-- The transactions of all are joined. -/
theorem exists_joined (ch : Choices) (hgathered : Gathered queue ids js) (hp : p ∈ ids)
    (hrows : Every (fun q peer => peer.txIns = some (w.tx q) ∧ peer.inputIndex = [] ∧ peer.signedTx = none) js) :
    ∃ order js', order.Perm ids ∧ buildJoinedTx ch w.ticketPrice js = .ok (w.joined order js.allPkScripts, js') ∧
      Gathered queue ids js' ∧ js'.joinedTx = js.joinedTx ∧ js'.out = js.out ∧
      Every (signRow [] (positions 0 (order.map fun p => (p, (w.tx p).txIn))) (w.joined order js.allPkScripts) w.tx) js' := by
  have hsome : ∀ q peer, js.peers.lookup q = some peer → peer.txIns.isSome = true := fun q peer hq => by
    rw [(hrows q peer hq).1]
    rfl
  have hall : js.allSubmit (fun peer => peer.txIns.isSome) = true :=
    List.all_eq_true.mpr fun e he => hsome e.1 e.2 (GoMap.mem_toList.mp he)
  obtain ⟨peer, hpeer⟩ := GoMap.lookup_of_mem_keys (hgathered.keys.symm ▸ hp)
  obtain ⟨⟨joinedtx, js'⟩, hbuild⟩ := @exists_buildJoinedTx ch js w.ticketPrice p peer hpeer hall
  have howning := owning_of_buildJoinedTx hbuild hsome fun q peer hq => (hrows q peer hq).2.1
  obtain ⟨first, tx, rest, hvisited, hjoined, hjs'⟩ := buildJoinedTx_eq_ok hbuild
  have hkeys := keys_submittedTxs ch hsome
  rw [hgathered.keys] at hkeys
  -- everybody's transaction is its wallet's
  have hsubmitted : ∀ order, (submittedTxs ch js.peers).map Prod.fst = order →
      submittedTxs ch js.peers = order.map fun p => (p, w.tx p) := by
    intro order horder
    rw [← horder, List.map_map]
    refine (List.map_id _).symm.trans (List.map_congr_left fun e he => ?_)
    obtain ⟨peer, hpeer, htx⟩ := mem_submittedTxs.mp (show (e.1, e.2) ∈ submittedTxs ch js.peers from he)
    exact Prod.ext rfl (Option.some_inj.mp (htx.symm.trans (hrows _ peer hpeer).1))
  obtain ⟨order, horder⟩ : ∃ order, (submittedTxs ch js.peers).map Prod.fst = order := ⟨_, rfl⟩
  have hlist := hsubmitted order horder
  rw [horder] at hkeys
  have hblocks : inputBlocks ((first, tx) :: rest) = order.map fun p => (p, (w.tx p).txIn) := by
    rw [← hvisited, hlist, inputBlocks, List.map_map]
    rfl
  have hsame : joinedtx = w.joined order js.allPkScripts := by
    rw [hjoined]
    rw [hvisited] at hlist
    cases order with
    | nil => cases hlist
    | cons p order =>
      cases hlist
      simp [addScripts, appendTxs, Wallets.joined, List.flatMap_map]
  subst hsame
  refine ⟨order, js', hkeys, hbuild, ?_, ?_, ?_, fun q peer' hq => ?_⟩
  · refine hgathered.mapVal (by rw [hjs']) (fun q peer => ?_) ?_ ?_ ?_ ?_
    · rw [joinedPeer, holdJoined]
      split_ifs <;> exact ⟨rfl, rfl⟩
    · rw [hjs']
      exact hgathered.mu
    · rw [hjs']
      exact hgathered.errm
    · rw [hjs']
    · rw [hjs']
  · rw [hjs']
  · rw [hjs']
  · have hown := howning.own peer' (JoinSession.mem_members.mpr ⟨q, hq⟩)
    rw [hjs', GoMap.lookup_mapVal, Option.map_eq_some_iff] at hq
    obtain ⟨peer, hpeer, rfl⟩ := hq
    obtain ⟨-, hindex, hsigned⟩ := hrows q peer hpeer
    have hplaces : (joinedPeer first (w.joined order js.allPkScripts) ((first, tx) :: rest) q peer).inputIndex = _ :=
      inputIndex_joinedPeer hindex
    rw [hblocks] at hplaces
    refine ⟨hplaces, fun i idx hi => hown i idx (hplaces.symm ▸ hi), ?_⟩
    rw [if_neg List.not_mem_nil, joinedPeer, holdJoined]
    split_ifs <;> exact hsigned

/-- Inputs that are accepted are stored; the last ones end the round. -/
theorem txInputs_of_covered (hmu : js.mu = false) {txins : TxInputs} {peer : PeerInfo}
    (hp : js.peers.lookup txins.peerId = some peer) (hprice : 0 < txins.ticketPrice) {tx : MsgTx}
    (hdecode : pkgs.btcDecode txins.txins = some tx) {change : TxOut} {outs : List TxOut} (hout : tx.txOut = change :: outs)
    (hspend : ¬dcr (sumInputs 0 tx.txIn).1 < dcr (wrap64 (change.value + wrap64 (peer.numMsg * txins.ticketPrice)))) :
    txInputs pkgs ch txins js =
      if (storeInputs txins tx js).allSubmit (fun peer => peer.txIns.isSome) then
        sendJoinedTx pkgs ch txins.ticketPrice ((storeInputs txins tx js).withMu true)
      else .ok (.next, storeInputs txins tx js) := by
  rw [txInputs, js.lock_eq hmu, ok_bind, JoinSession.peers_withMu, hp]
  dsimp only
  rw [if_neg (not_le.mpr hprice), hdecode]
  dsimp only
  rw [hout]
  dsimp only
  rw [if_neg hspend, ← storeInputs_withMu]
  change (if (storeInputs txins tx (js.withMu true)).allSubmit (fun peer => peer.txIns.isSome) = true then
      sendJoinedTx pkgs ch txins.ticketPrice (storeInputs txins tx (js.withMu true))
    else (storeInputs txins tx (js.withMu true)).unlockAnd .next) = _
  rw [storeInputs_withMu, JoinSession.allSubmit_withMu]
  have hleave : ((storeInputs txins tx js).withMu true).unlockAnd .next = .ok (.next, storeInputs txins tx js) :=
    JoinSession.of_unlockAnd (P := (· = .ok (.next, storeInputs txins tx js))) _ (by simpa) rfl
  rw [hleave]

theorem sendJoinedTx_of_built (hmu : js.mu = false) {ticketPrice : ℤ} {joinedtx : MsgTx} {js' : JoinSession} {tx : Bytes}
    (hbuild : buildJoinedTx ch ticketPrice js = .ok (joinedtx, js')) (hencode : pkgs.btcEncode joinedtx = some tx)
    (hmarshal : ∀ site, ch.marshal site = true) :
    sendJoinedTx pkgs ch ticketPrice (js.withMu true) = .ok (.next, unsignedTx ch tx js') := by
  have hmu' : js'.mu = false := (mu_buildJoinedTx hbuild).trans hmu
  rw [sendJoinedTx, buildJoinedTx_withMu, hbuild, Except.map, ok_bind]
  dsimp only
  rw [hencode]
  dsimp only
  rw [hmarshal]
  change ((unsignedTx ch tx js').withMu true).unlockAnd .next = _
  exact JoinSession.of_unlockAnd (P := (· = .ok (.next, unsignedTx ch tx js'))) _ hmu' rfl

/-- The inputs. -/
theorem passes_inputs (h : Next queue ids done p js) (hw : w.Match pkgs ids) (hcodec : w.Encodable pkgs ids)
    (hmarshal : ∀ site, ch.marshal site = true) (hstate : js.state = .txInput) (hrows : Every (inputRow w done) js)
    (hjoined : js.joinedTx = none) (hscripts : js.allPkScripts.Perm (ids.flatMap w.scripts)) {first second : ServerMessage}
    {msgs : Bytes} {txins : TxInputs} (hpeer : txins.peerId = p) (hprice : txins.ticketPrice = w.ticketPrice)
    (hdecode : pkgs.btcDecode txins.txins = some (w.tx p)) :
    ∃ js', txInputs pkgs ch txins js = .ok (.next, js') ∧
      Passed pkgs w ids done queue said ch p js [first, second, .dcXorVector msgs] js' := by
  subst hpeer
  obtain ⟨peer, hp⟩ := h.lookup
  obtain ⟨hsigned, change, outs, hout, hspend⟩ := hw.spends h.mem
  rw [← (hrows _ peer hp).1, ← hprice] at hspend
  have hstep : txInputs pkgs ch txins js = _ := txInputs_of_covered h.gathered.mu hp (hprice ▸ hw.price) hdecode hout hspend
  have hstored : storeInputs txins (w.tx txins.peerId) js = (storePrice txins js).setPeer txins.peerId fun peer =>
      { peer with txIns := some (w.tx txins.peerId) } := by
    rw [storeInputs, hsigned]
    rfl
  have hgathered : Gathered queue ids (storeInputs txins (w.tx txins.peerId) js) := by
    have hpriced : Gathered queue ids (storePrice txins js) :=
      h.gathered.modify (f := fun peer => { peer with ticketPrice := txins.ticketPrice }) rfl (fun _ => ⟨rfl, rfl⟩)
        h.gathered.mu h.gathered.errm rfl rfl
    rw [hstored]
    exact hpriced.modify (f := fun peer => { peer with txIns := some (w.tx txins.peerId) }) rfl (fun _ => ⟨rfl, rfl⟩)
      hpriced.mu hpriced.errm rfl rfl
  have hrows₁ : Every (inputRow w (done ++ [txins.peerId])) (storeInputs txins (w.tx txins.peerId) js) := by
    have hpriced : Every (inputRow w done) (storePrice txins js) :=
      hrows.modify (f := fun peer => { peer with ticketPrice := txins.ticketPrice }) rfl (fun _ hrow => hrow) fun _ _ _ hrow => hrow
    rw [hstored]
    refine hpriced.modify (f := fun peer => { peer with txIns := some (w.tx txins.peerId) }) rfl
      (fun peer hrow => ⟨hrow.1, ?_, hrow.2.2⟩) fun q hq peer hrow => ⟨hrow.1, ?_, hrow.2.2⟩
    · rw [if_pos mem_next_self]
    · rw [hrow.2.1, ite_mem_next hq]
  have hjoined₁ : (storeInputs txins (w.tx txins.peerId) js).joinedTx = none := (joinedTx_storeInputs ..).trans hjoined
  have hsubmitted : (storeInputs txins (w.tx txins.peerId) js).allSubmit (fun peer => peer.txIns.isSome) = true ↔
      ∀ q ∈ ids, q ∈ done ++ [txins.peerId] := by
    have htxs := hrows₁.mono fun _ _ _ hrow => hrow.2.1
    exact allSubmit_iff Option.isSome htxs hgathered.keys (fun _ => rfl) rfl
  by_cases hall : ∀ q ∈ ids, q ∈ done ++ [txins.peerId]
  · have hready : Every (fun q peer => peer.txIns = some (w.tx q) ∧ peer.inputIndex = [] ∧ peer.signedTx = none)
        (storeInputs txins (w.tx txins.peerId) js) := by
      refine hrows₁.mono fun q peer hq hrow => ⟨?_, hrow.2.2⟩
      rw [hrow.2.1, if_pos (hall q (hgathered.keys ▸ GoMap.mem_keys_of_lookup hq))]
    obtain ⟨order, js', horder, hbuild, hgathered', hjoined', hout', hsigning⟩ := exists_joined ch hgathered h.mem hready
    have hallScripts : (storeInputs txins (w.tx txins.peerId) js).allPkScripts = js.allPkScripts := by
      rw [hstored]
      rfl
    rw [hallScripts] at hbuild hsigning
    obtain ⟨bytes, hencode, hback⟩ := hcodec.unsigned order js.allPkScripts horder hscripts
    rw [if_pos (hsubmitted.mpr hall), hprice, sendJoinedTx_of_built hgathered.mu hbuild hencode hmarshal] at hstep
    refine ⟨_, hstep, .opens (congrArg (· ++ _) (hout'.trans (out_storeInputs ..))) (fun _ => rfl) ⟨hgathered'.mu, hgathered'.errm,
      hgathered'.asksPeer, hgathered'.former, hgathered'.keys, hgathered'.member⟩ hall
      (.signing rfl (hsigning.congr rfl) horder hscripts (w.placed (horder.nodup_iff.mpr h.nodup_ids) _) hback (fun _ => rfl)
        (fun tx htx => ?_) fun _ hmem => (List.not_mem_nil hmem).elim)⟩
    exact (Option.some_ne_none _ (htx.symm.trans (hjoined'.trans hjoined₁))).elim
  · rw [if_neg (mt hsubmitted.mp hall)] at hstep
    refine ⟨_, hstep, .waits hgathered (Next.exists_late hall) (.inputs ?_ hrows₁ hjoined₁ ?_) (out_storeInputs ..)⟩ <;> rw [hstored]
    · exact hstate
    · exact hscripts

/-- A transaction with everybody's inputs is signed at the places of a peer. -/
theorem invalidInput_of_signs {order : List ℕ} {scripts : List Bytes} {place : ℕ → List ℕ} {tx : MsgTx} {own : List TxIn}
    (placed : w.Placed order scripts place) (hp : p ∈ order) (hsigns : w.Signs p (w.joined order scripts) tx)
    (hown : ∀ i idx : ℕ, (place p)[i]? = some idx → own[i]? = (w.joined order scripts).txIn[idx]?) :
    invalidInput tx own 0 (place p) = .ok false := by
  rw [invalidInput_false_iff]
  intro i idx hi
  have hlt : idx < (w.joined order scripts).txIn.length := by
    rw [← List.mem_range, ← placed.partition.mem_iff]
    exact List.mem_flatMap.mpr ⟨p, hp, List.mem_of_getElem? hi⟩
  have hin : idx < tx.txIn.length := (length_stripped hsigns.same).symm ▸ hlt
  have hsame := congrArg (fun tx : MsgTx => tx.txIn[idx]?) hsigns.same
  simp only [MsgTx.stripped, List.getElem?_map, List.getElem?_eq_getElem hlt, List.getElem?_eq_getElem hin, Option.map_some,
    Option.some_inj, TxIn.stripped, TxIn.mk.injEq] at hsame
  obtain ⟨hpoint, -, hvalue, -, -, -⟩ := hsame
  have hmine := placed.own p hp i idx hi
  rw [List.getElem?_eq_getElem hlt] at hmine
  refine ⟨tx.txIn[idx], (w.joined order scripts).txIn[idx], List.getElem?_eq_getElem hin, ?_, hvalue, by rw [hpoint], by rw [hpoint], ?_⟩
  · rw [Nat.zero_add, hown i idx hi, List.getElem?_eq_getElem hlt]
  · exact hsigns.own _ (List.getElem_mem hin) ⟨_, List.mem_of_getElem? hmine.symm, hpoint.symm⟩

/-- A signed transaction is merged: what is joined has what is signed so far. -/
theorem mergeSigned_of_patched {order : List ℕ} {scripts : List Bytes} {place : ℕ → List ℕ} {signed : ℕ → MsgTx} {tx : MsgTx}
    (placed : w.Placed order scripts place) (hp : p ∈ order) (hnew : p ∉ done) (hsub : ∀ q ∈ done, q ∈ order)
    (hsame : tx.stripped = (w.joined order scripts).stripped) (hnone : js.joinedTx = none → done = [])
    (patched : ∀ tx, js.joinedTx = some tx → Patched done place (w.joined order scripts) signed tx) :
    ∃ joinedTx, mergeSigned tx (place p) js = .ok { js with joinedTx := some joinedTx } ∧
      Patched (done ++ [p]) place (w.joined order scripts) (Function.update signed p tx) joinedTx := by
  have hupdate : ∀ q ∈ done, Function.update signed p tx q = signed q := fun q hq =>
    Function.update_of_ne (fun heq : q = p => hnew (heq ▸ hq)) _ _
  cases hjoined : js.joinedTx with
  | none =>
    refine ⟨tx, by rw [mergeSigned, hjoined], hsame, fun q hq idx _ => ?_⟩
    rw [hnone hjoined, List.nil_append, List.mem_singleton] at hq
    rw [hq, Function.update_self]
  | some joinedTx =>
    obtain ⟨hstripped, htaken⟩ := patched joinedTx hjoined
    have hlt : ∀ idx ∈ place p, idx < (w.joined order scripts).txIn.length := by
      intro idx hidx
      rw [← List.mem_range, ← placed.partition.mem_iff]
      exact List.mem_flatMap.mpr ⟨p, hp, hidx⟩
    have hin : ∀ idx ∈ place p, idx < tx.txIn.length := fun idx hidx => (length_stripped hsame).symm ▸ hlt idx hidx
    obtain ⟨patchedTx, hpatch⟩ : ∃ patchedTx, patchInputs tx (place p) joinedTx = .ok patchedTx :=
      (exists_patchInputs_iff hin).mpr fun idx hidx => (length_stripped hstripped).symm ▸ hlt idx hidx
    obtain ⟨-, hget⟩ := getElem?_patchInputs hpatch
    refine ⟨patchedTx, ?_, stripped_patchInputs hpatch hstripped fun idx _ => ?_, fun q hq idx hidx => ?_⟩
    · rw [mergeSigned, hjoined]
      dsimp only
      rw [hpatch]
      rfl
    · have hinputs := congrArg (fun tx : MsgTx => tx.txIn[idx]?) hsame
      simpa only [MsgTx.stripped, List.getElem?_map] using hinputs
    · rw [hget]
      rcases List.mem_append.mp hq with hq | hq
      · -- no place belongs to two peers
        have hother : idx ∉ place p := by
          intro hidx'
          have hplaces := placed.partition.nodup_iff.mpr List.nodup_range
          exact hnew (eq_of_mem_flatMap hplaces (hsub q hq) hp hidx hidx' ▸ hq)
        rw [if_neg hother, hupdate q hq]
        exact htaken q hq idx hidx
      · rw [List.mem_singleton] at hq
        subst hq
        rw [if_pos hidx, Function.update_self]

/-- With all signatures a peer is asked to publish. -/
theorem publishJoinedTx_of_joined (hgathered : Gathered queue ids js) (hids : ids ≠ []) {joinedTx : MsgTx} {tx : Bytes}
    (hjoined : js.joinedTx = some joinedTx) (hencode : pkgs.btcEncode joinedTx = some tx)
    (hmarshal : ∀ site, ch.marshal site = true) :
    ∃ publisher, js.peers.lookup publisher.id = some publisher ∧
      publishJoinedTx pkgs ch (js.withMu true) = .ok (.next, peerPublishes [] publisher.id publisher tx js) := by
  have hlen : GoMap.len js.peers ≠ 0 := by
    rw [← GoMap.length_keys, hgathered.keys]
    exact List.length_pos_iff.mpr hids |>.ne'
  obtain ⟨pubId, publisher, hrandom, hp⟩ := @randomPublisher_member ch { js with out := js.out ++ [] } hgathered.wellKeyed hlen
  obtain rfl : publisher.id = pubId := hgathered.wellKeyed pubId publisher hp
  refine ⟨publisher, hp, ?_⟩
  rw [publishJoinedTx]
  change js.encodeJoinedTx pkgs >>= _ = _
  rw [JoinSession.encodeJoinedTx, hjoined]
  dsimp only
  rw [hencode, ok_bind]
  have hposts : serverPosts ch js tx = ([], false) := by
    rw [serverPosts, hgathered.asksPeer]
    rfl
  change (if (serverPosts ch js tx).2 then
      ((serverPublished ch (serverPosts ch js tx).1 tx js).withMu true).unlockAnd ⟨none, .breakLoop⟩
    else if !ch.marshal [812] then failed .marshal { js with out := js.out ++ (serverPosts ch js tx).1 }
    else do
      let js ← (JoinSession.withMu { js with out := js.out ++ (serverPosts ch js tx).1 } true).selectPublisher ch tx
        (js.roundTimeOut / 3)
      JoinSession.unlockAnd .next { js with state := .txPublish }) = _
  have hselect : (JoinSession.withMu { js with out := js.out ++ [] } true).selectPublisher ch tx (js.roundTimeOut / 3) =
      .ok ((JoinSession.delegated publisher.id publisher tx (js.roundTimeOut / 3) { js with out := js.out ++ [] }).withMu true) := by
    rw [JoinSession.selectPublisher]
    change JoinSession.randomPublisher ch { js with out := js.out ++ [] } >>= _ = _
    rw [hrandom, ok_bind]
    dsimp only
    rw [JoinSession.peers_withMu, hp]
    rfl
  rw [hposts, hmarshal]
  dsimp only
  rw [if_neg Bool.false_ne_true, Bool.not_true, if_neg Bool.false_ne_true, hselect, ok_bind]
  exact JoinSession.of_unlockAnd (P := (· = .ok (.next, peerPublishes [] publisher.id publisher tx js)))
    (peerPublishes [] publisher.id publisher tx js) hgathered.mu rfl

/-- What is submitted has no signatures. -/
theorem Wallets.Match.stripped_joined (hw : w.Match pkgs ids) {order : List ℕ} (horder : order.Perm ids) (scripts : List Bytes) :
    (w.joined order scripts).stripped = w.joined order scripts := by
  have hinputs : (w.joined order scripts).txIn.map TxIn.stripped = (w.joined order scripts).txIn := by
    refine (List.map_congr_left fun txin hmem => ?_).trans (List.map_id _)
    obtain ⟨p, hp, htxin⟩ := List.mem_flatMap.mp hmem
    rw [TxIn.stripped, ← hw.unsigned p (horder.mem_iff.mp hp) txin htxin]
    rfl
  rw [MsgTx.stripped, hinputs]

/-- The signatures. -/
theorem passes_signing (h : Next queue ids done p js) (hw : w.Match pkgs ids) (hcodec : w.Encodable pkgs ids)
    (hmarshal : ∀ site, ch.marshal site = true) (hstate : js.state = .txSign) {order : List ℕ} {scripts : List Bytes}
    {place : ℕ → List ℕ} {signed : ℕ → MsgTx} (hrows : Every (signRow done place (w.joined order scripts) signed) js)
    (horder : order.Perm ids) (hscripts : scripts.Perm (ids.flatMap w.scripts)) (placed : w.Placed order scripts place)
    {first second third : ServerMessage} {bytes : Bytes} (hdecode : pkgs.btcDecode bytes = some (w.joined order scripts))
    (hnone : js.joinedTx = none → done = [])
    (patched : ∀ tx, js.joinedTx = some tx → Patched done place (w.joined order scripts) signed tx)
    (hsaid : ∀ p ∈ done, ∃ signedTx, said p (.txSigned signedTx) ∧ pkgs.btcDecode signedTx.tx = some (signed p) ∧
      w.Signs p (w.joined order scripts) (signed p))
    {raw signedTx : JoinTx} {tx : MsgTx} (hsay : said p (.txSigned raw)) (hpeer : signedTx.peerId = p) (hraw : raw.tx = signedTx.tx)
    (htx : pkgs.btcDecode signedTx.tx = some tx) (hsigns : w.Signs p (w.joined order scripts) tx) :
    ∃ js', txSigned pkgs ch signedTx js = .ok (.next, js') ∧
      Passed pkgs w ids done queue said ch p js [first, second, third, .joinedTx bytes] js' := by
  subst hpeer
  obtain ⟨peer, hp⟩ := h.lookup
  obtain ⟨hindex, hown, hsigned⟩ := hrows _ peer hp
  rw [if_neg h.new] at hsigned
  have hmem : signedTx.peerId ∈ order := horder.mem_iff.mpr h.mem
  obtain ⟨joinedTx, hmerge, hpatched⟩ := @mergeSigned_of_patched w done _ (storeSigned signedTx tx js) order scripts place
    signed tx placed hmem h.new (fun q hq => horder.mem_iff.mpr (h.sub q hq)) hsigns.same hnone patched
  have hstep : txSigned pkgs ch signedTx js = _ := txSigned_eq h.gathered.mu hp htx hsigned
  rw [hindex, invalidInput_of_signs placed hmem hsigns hown, ok_bind, if_neg Bool.false_ne_true, mergeSigned_withMu, hmerge,
    Except.map, ok_bind] at hstep
  generalize hjs₁ : ({ storeSigned signedTx tx js with joinedTx := some joinedTx } : JoinSession) = js₁ at hstep
  have hpeers : js₁.peers = GoMap.modify signedTx.peerId (fun peer => { peer with signedTx := some tx }) js.peers := by
    rw [← hjs₁]
    rfl
  have hjoined₁ : js₁.joinedTx = some joinedTx := by rw [← hjs₁]
  have hout : js₁.out = js.out := by
    rw [← hjs₁]
    rfl
  have hgathered : Gathered queue ids js₁ := by
    refine h.gathered.modify hpeers (fun _ => ⟨rfl, rfl⟩) ?_ ?_ ?_ ?_ <;> rw [← hjs₁]
    · exact h.gathered.mu
    · exact h.gathered.errm
    · rfl
    · rfl
  have hothers : ∀ q ≠ signedTx.peerId, Function.update signed signedTx.peerId tx q = signed q := fun q hq =>
    Function.update_of_ne hq _ _
  have hrows₁ : Every (signRow (done ++ [signedTx.peerId]) place (w.joined order scripts)
      (Function.update signed signedTx.peerId tx)) js₁ := by
    refine hrows.modify hpeers (fun peer hrow => ⟨hrow.1, hrow.2.1, ?_⟩) fun q hq peer hrow => ⟨hrow.1, hrow.2.1, ?_⟩
    · rw [if_pos mem_next_self, Function.update_self]
    · rw [hrow.2.2, hothers q hq, ite_mem_next hq]
  have hsaid₁ : ∀ q ∈ done ++ [signedTx.peerId], ∃ signedTx', said q (.txSigned signedTx') ∧
      pkgs.btcDecode signedTx'.tx = some (Function.update signed signedTx.peerId tx q) ∧
        w.Signs q (w.joined order scripts) (Function.update signed signedTx.peerId tx q) := by
    intro q hq
    by_cases heq : q = signedTx.peerId
    · subst heq
      rw [Function.update_self]
      exact ⟨raw, hsay, hraw ▸ htx, hsigns⟩
    · rw [hothers q heq]
      exact hsaid q ((mem_next_iff heq).mp hq)
  have hsubmitted : js₁.allSubmit (fun peer => peer.signedTx.isSome) = true ↔ ∀ q ∈ ids, q ∈ done ++ [signedTx.peerId] := by
    have htxs := hrows₁.mono fun _ _ _ hrow => hrow.2.2
    exact allSubmit_iff Option.isSome htxs hgathered.keys (fun _ => rfl) rfl
  rw [JoinSession.allSubmit_withMu] at hstep
  by_cases hall : ∀ q ∈ ids, q ∈ done ++ [signedTx.peerId]
  · obtain ⟨final, hencode⟩ := Option.isSome_iff_exists.mp (hcodec.signed order scripts joinedTx horder hscripts hpatched.1)
    obtain ⟨publisher, hpublisher, hpublish⟩ := @publishJoinedTx_of_joined pkgs queue ids js₁ ch hgathered
      (List.ne_nil_of_mem h.mem) joinedTx final hjoined₁ hencode hmarshal
    rw [if_pos (hsubmitted.mpr hall), hpublish] at hstep
    have hsent : (peerPublishes [] publisher.id publisher final js₁).out = js.out ++ [.send publisher.conn (.txSign final)] := by
      change js₁.out ++ [] ++ _ = _
      rw [List.append_nil, hout]
    refine ⟨_, hstep, .ends hsent ⟨hgathered.mu, hgathered.errm, hgathered.asksPeer, hgathered.former, hgathered.keys,
      hgathered.member⟩ hall rfl rfl hpublisher hjoined₁ ⟨order, scripts, place, horder, hscripts, placed, ?_, fun q hq => ?_⟩⟩
    · rw [hpatched.1, hw.stripped_joined horder]
    · obtain ⟨signedTx', hsay', hdecode', hsigns'⟩ := hsaid₁ q (hall q hq)
      exact ⟨signedTx', _, hsay', hdecode', hsigns', hpatched.2 q (hall q hq)⟩
  · rw [if_neg (mt hsubmitted.mp hall)] at hstep
    have hleave : (js₁.withMu true).unlockAnd .next = .ok (.next, js₁) :=
      JoinSession.of_unlockAnd (P := (· = .ok (.next, js₁))) js₁ hgathered.mu rfl
    refine ⟨js₁, hstep.trans hleave, .waits hgathered (Next.exists_late hall) (.signing ?_ hrows₁ horder hscripts placed hdecode
      (fun hjoined => ?_) (fun tx' htx' => ?_) hsaid₁) hout⟩
    · rw [← hjs₁]
      exact hstate
    · exact (Option.some_ne_none _ (hjoined₁.symm.trans hjoined)).elim
    · cases hjoined₁.symm.trans htx'
      exact hpatched

/-- **One more answer** is accepted, whatever the round. -/
theorem passes (h : Next queue ids done p js) (hw : w.Match pkgs ids) (hflint : pkgs.flint.Correct fieldPrime)
    (hlaws : pkgs.XorLaws) (hcodec : w.Encodable pkgs ids) (h2 : 2 ≤ ids.length) (hmarshal : ∀ site, ch.marshal site = true)
    {asked : List ServerMessage} (hbarrier : Barrier pkgs w ids done said js asked) {msg : ClientMessage}
    (hanswers : w.Answers pkgs p asked msg) (hsay : said p msg) :
    ∃ js', handle pkgs ch js (msg.withPeerId p) = .ok (.next, js') ∧ Passed pkgs w ids done queue said ch p js asked js' := by
  cases msg with
  | keyExchange req =>
    obtain ⟨rfl, hpk, hnum⟩ := hanswers
    cases hbarrier with
    | keys hstate hrows hjoined hinfos => exact passes_keys h hw hmarshal hstate hrows hjoined hinfos rfl hpk hnum
  | dcExpVector data =>
    obtain ⟨peers, rfl, hv⟩ := hanswers
    cases hbarrier with
    | exponential hstate hrows hjoined horder =>
      rw [Wallets.map_peerId_info, Wallets.sum_numMsg_info horder, honestVector_perm horder] at hv
      exact passes_exponential h hw hflint h2 hmarshal hstate hrows hjoined horder rfl ⟨hv.len, hv.size, hv.entry⟩
  | dcXorVector data =>
    obtain ⟨peers, len, msgs, rfl, hv⟩ := hanswers
    cases hbarrier with
    | xor hstate hrows hjoined horder hroots =>
      rw [Wallets.map_peerId_info, Wallets.xorVector_perm horder] at hv
      exact passes_xor h hw hlaws h2 hmarshal hstate hrows hjoined horder hroots rfl ⟨hv.len, hv.vector⟩
  | txInputs txins =>
    obtain ⟨first, second, msgs, rfl, hprice, hdecode⟩ := hanswers
    cases hbarrier with
    | inputs hstate hrows hjoined hscripts => exact passes_inputs h hw hcodec hmarshal hstate hrows hjoined hscripts rfl hprice hdecode
  | txSigned signedTx =>
    obtain ⟨first, second, third, bytes, unsigned, tx, rfl, hunsigned, htx, hsigns⟩ := hanswers
    cases hbarrier with
    | signing hstate hrows horder hscripts placed hdecode hnone patched hsaid =>
      obtain rfl := Option.some_inj.mp (hunsigned.symm.trans hdecode)
      exact passes_signing h hw hcodec hmarshal hstate hrows horder hscripts placed hdecode hnone patched hsaid hsay rfl rfl htx hsigns
  | _ => exact hanswers.elim

end Passing

end Dcrtxmatcher.Coinjoin
