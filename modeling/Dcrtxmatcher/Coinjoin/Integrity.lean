import Dcrtxmatcher.Coinjoin.Spending
import Dcrtxmatcher.Coinjoin.TxBounds
import Dcrtxmatcher.Lib.Runs

/-! What is signed is what was agreed on.

The members are sent an unsigned transaction and send it back with signatures. The
first one's transaction is kept as a whole, of the others' only their own inputs, and
an input is compared in its value and in what it spends. The history of a session
keeps the unsigned transaction, whose inputs are where, and what each member sent. -/
namespace Dcrtxmatcher.Coinjoin
open Lib

/-! ### What is to hold -/

/-- An input without its signature script. -/
def TxIn.stripped (txin : TxIn) : TxIn := { txin with signatureScript := [] }

/-- A transaction without signature scripts. -/
def MsgTx.stripped (tx : MsgTx) : MsgTx := { tx with txIn := tx.txIn.map TxIn.stripped }

/-- What the members of a session have agreed on: the transaction they were sent, who
they were with the places of their inputs, and the first transaction that each has
sent back. -/
structure Deal where
  unsigned : MsgTx
  roster : List PeerInfo
  signed : ℕ → Option MsgTx

/-- A member sends a transaction back; a second one does not count. -/
def Deal.record (peerId : ℕ) (tx : MsgTx) (deal : Deal) : Deal :=
  { deal with signed := Function.update deal.signed peerId ((deal.signed peerId).or (some tx)) }

/-- The transaction is the unsigned one, and each input has an owner and the signature
script that its owner has sent. -/
structure Deal.Honoured (deal : Deal) (tx : MsgTx) : Prop where
  same : tx.stripped = deal.unsigned.stripped
  signed : ∀ idx < tx.txIn.length, ∃ peer ∈ deal.roster, idx ∈ peer.inputIndex ∧
    ∃ sent txin, deal.signed peer.id = some sent ∧ sent.txIn[idx]? = some txin ∧
      (tx.txIn[idx]?).map (·.signatureScript) = some txin.signatureScript

/-- What the joined transaction takes over from an accepted one, everything of the first
and the sender's inputs of another, is the unsigned transaction's but for the signature
scripts. -/
def Deal.Agrees (deal : Deal) (tx : MsgTx) (inputIndex : List ℕ) (js : JoinSession) : Prop :=
  if js.joinedTx = none then tx.stripped = deal.unsigned.stripped
  else ∀ idx ∈ inputIndex, (tx.txIn[idx]?).map TxIn.stripped = (deal.unsigned.txIn[idx]?).map TxIn.stripped

instance (deal : Deal) (tx : MsgTx) (inputIndex : List ℕ) (js : JoinSession) :
    Decidable (deal.Agrees tx inputIndex js) := by
  unfold Deal.Agrees
  infer_instance

/-! ### The history -/

/-- Whether the output asks for signatures. -/
def Output.isUnsigned : Output → Bool
  | .send _ (.joinedTx _) => true
  | _ => false

/-- The transaction that goes out after signing. -/
def Output.finalTx : Output → Option Bytes
  | .send _ (.txSign tx) | .send _ (.txPublishResult tx) | .post tx => some tx
  | _ => none

/-- A session with what its members have agreed on since it was last started, and the
transactions that went out after signing, each with the agreement of the time. -/
structure Tracked where
  system : System
  deal : Option Deal
  finals : List (Option Deal × Bytes)

namespace Tracked

def start (js : JoinSession) : Tracked where
  system := .start js
  deal := none
  finals := []

/-- The transaction that an event sends to be signed. -/
def announced (pkgs : Packages) (ch : Choices) (s : System) (ev : Event) (sent : List Output) : Option MsgTx :=
  if sent.any Output.isUnsigned then
    match s.handed ev with
    | some (.txInputs txins) => do
      let tx ← pkgs.btcDecode txins.txins
      let (joinedtx, _) ← (buildJoinedTx ch txins.ticketPrice (storeInputs txins tx s.session)).toOption
      some joinedtx
    | _ => none
  else none

/-- The agreement with what a member sends back in an event. -/
def heard (pkgs : Packages) (t : Tracked) (ev : Event) : Option Deal :=
  match t.system.handed ev with
  | some (.txSigned signedTx) =>
    match t.system.session.peers.lookup signedTx.peerId, pkgs.btcDecode signedTx.tx with
    | some _, some tx => t.deal.map (Deal.record signedTx.peerId tx)
    | _, _ => t.deal
  | _ => t.deal

/-- The agreement after an event that leads to `s'`. -/
def nextDeal (pkgs : Packages) (ch : Choices) (t : Tracked) (ev : Event) (s' : System) (sent : List Output) :
    Option Deal :=
  match announced pkgs ch t.system ev sent with
  | some tx => some ⟨tx, s'.session.members, fun _ => none⟩
  | none => if s'.session.state = .keyExchange then none else heard pkgs t ev

def step (pkgs : Packages) (t : Tracked) (e : Choices × Event) : Option Tracked :=
  (t.system.step pkgs e.1 e.2).map fun s' =>
    let sent := s'.session.out.drop t.system.session.out.length
    let deal := nextDeal pkgs e.1 t e.2 s' sent
    { system := s', deal := deal, finals := t.finals ++ (sent.filterMap Output.finalTx).map (deal, ·) }

/-- The message belongs to the round, or comes from somebody who is not a member. -/
def Timely (js : JoinSession) (msg : ClientMessage) : Prop :=
  msg.kind.validIn js.state = true ∨ msg.kind ≠ .txPublishResult ∧ msg.peerId ∉ js.peers.keys

/-- An accepted transaction agrees with the unsigned one, and a published one is the joined one. -/
def Faithful (pkgs : Packages) (t : Tracked) : ClientMessage → Prop
  | .txSigned signedTx =>
    ∀ deal ∈ t.deal, ∀ peer ∈ t.system.session.peers.lookup signedTx.peerId, ∀ tx ∈ pkgs.btcDecode signedTx.tx,
      peer.signedTx = none → invalidInput tx peer.ownInputs 0 peer.inputIndex = .ok false →
        deal.Agrees tx peer.inputIndex t.system.session
  | .txPublishResult pubResult => t.system.session.joinedTx.bind pkgs.btcEncode = some pubResult.tx
  | _ => True

/-- Messages come in their round and are faithful, and while signatures are collected
nobody leaves without a restart who has not signed. -/
def Orderly (pkgs : Packages) (t : Tracked) (e : Choices × Event) : Prop :=
  (∀ msg ∈ t.system.handed e.2, Timely t.system.session msg ∧ Faithful pkgs t msg) ∧
    (t.system.session.state = .txSign → ∀ p ∈ t.system.leaving e.1 e.2, ∀ peer ∈ t.system.session.peers.lookup p,
      peer.signedTx.isSome = true)

instance decidableFaithful (pkgs : Packages) (t : Tracked) (msg : ClientMessage) : Decidable (Faithful pkgs t msg) := by
  cases msg <;> unfold Faithful <;> infer_instance

instance (pkgs : Packages) (t : Tracked) (e : Choices × Event) : Decidable (Orderly pkgs t e) := by
  unfold Orderly Timely
  infer_instance

end Tracked

/-! ### Merging -/

/-- What is listed once is in one of the parts. -/
theorem eq_of_mem_flatMap {ι α : Type} {l : List ι} {f : ι → List α} (h : (l.flatMap f).Nodup) {a b : ι} (ha : a ∈ l)
    (hb : b ∈ l) {x : α} (hxa : x ∈ f a) (hxb : x ∈ f b) : a = b := by
  rw [List.nodup_flatMap] at h
  by_contra hne
  have hsymm : Std.Symm (Function.onFun List.Disjoint f) := ⟨fun _ _ h => h.symm⟩
  exact h.2.forall ha hb hne hxa hxb

theorem length_stripped {tx tx' : MsgTx} (h : tx.stripped = tx'.stripped) : tx.txIn.length = tx'.txIn.length := by
  have hlength := congrArg (fun tx : MsgTx => tx.txIn.length) h
  simpa [MsgTx.stripped] using hlength

/-- Inputs that are taken over replace those at their places. -/
theorem getElem?_patchInputs {tx joinedTx joinedTx' : MsgTx} {inputIndex : List ℕ}
    (h : patchInputs tx inputIndex joinedTx = .ok joinedTx') :
    joinedTx' = { joinedTx with txIn := joinedTx'.txIn } ∧
      ∀ idx, joinedTx'.txIn[idx]? = if idx ∈ inputIndex then tx.txIn[idx]? else joinedTx.txIn[idx]? := by
  induction inputIndex generalizing joinedTx with
  | nil =>
    cases h
    simp
  | cons i rest ih =>
    obtain ⟨txin, hindex, h⟩ := bind_eq_ok.mp h
    split_ifs at h with hlt
    obtain ⟨hsame, hget⟩ := ih h
    refine ⟨hsame, fun idx => ?_⟩
    rw [hget idx]
    by_cases hrest : idx ∈ rest
    · rw [if_pos hrest, if_pos (List.mem_cons_of_mem _ hrest)]
    · by_cases hi : idx = i
      · subst hi
        rw [if_neg hrest, if_pos (List.mem_cons_self ..), List.getElem?_set_self hlt]
        exact (index_eq_ok.mp hindex).symm
      · rw [if_neg hrest, if_neg (by simp [hi, hrest]), List.getElem?_set_ne (Ne.symm hi)]

/-- Inputs that differ in their signature scripts only leave the transaction the same. -/
theorem stripped_patchInputs {tx joinedTx joinedTx' unsigned : MsgTx} {inputIndex : List ℕ}
    (h : patchInputs tx inputIndex joinedTx = .ok joinedTx') (hsame : joinedTx.stripped = unsigned.stripped)
    (hagree : ∀ idx ∈ inputIndex, (tx.txIn[idx]?).map TxIn.stripped = (unsigned.txIn[idx]?).map TxIn.stripped) :
    joinedTx'.stripped = unsigned.stripped := by
  obtain ⟨hrest, hget⟩ := getElem?_patchInputs h
  have hinputs : joinedTx'.txIn.map TxIn.stripped = joinedTx.txIn.map TxIn.stripped := by
    apply List.ext_getElem?
    intro idx
    rw [List.getElem?_map, List.getElem?_map, hget]
    split_ifs with hidx
    · have hunsigned := congrArg (fun tx : MsgTx => tx.txIn[idx]?) hsame
      simp only [MsgTx.stripped, List.getElem?_map] at hunsigned
      rw [hagree idx hidx, hunsigned]
    · rfl
  rw [← hsame, hrest]
  simp only [MsgTx.stripped]
  rw [hinputs]

/-- The joined transaction has what those who have signed sent for their places. -/
structure Merged (deal : Deal) (tx : MsgTx) : Prop where
  same : tx.stripped = deal.unsigned.stripped
  taken : ∀ peer ∈ deal.roster, ∀ sent, deal.signed peer.id = some sent → ∀ idx ∈ peer.inputIndex,
    tx.txIn[idx]? = sent.txIn[idx]?

/-- Every place has one owner. -/
structure Deal.Owned (deal : Deal) : Prop where
  places : (deal.roster.flatMap (·.inputIndex)).Perm (List.range deal.unsigned.txIn.length)
  ids : (deal.roster.map (·.id)).Nodup

section Merging
variable {deal : Deal} {tx : MsgTx}

/-- Once all have signed the transaction is as agreed. -/
theorem Merged.honoured (h : Merged deal tx) (hown : deal.Owned)
    (hall : ∀ peer ∈ deal.roster, (deal.signed peer.id).isSome = true) : deal.Honoured tx where
  same := h.same
  signed idx hidx := by
    have hplace : idx ∈ deal.roster.flatMap (·.inputIndex) := by
      rw [hown.places.mem_iff, List.mem_range, ← length_stripped h.same]
      exact hidx
    obtain ⟨peer, hpeer, hmem⟩ := List.mem_flatMap.mp hplace
    obtain ⟨sent, hsent⟩ := Option.isSome_iff_exists.mp (hall peer hpeer)
    have htaken := h.taken peer hpeer sent hsent idx hmem
    have htxin := List.getElem?_eq_getElem hidx
    refine ⟨peer, hpeer, hmem, sent, tx.txIn[idx], hsent, htaken ▸ htxin, ?_⟩
    rw [htxin]
    rfl

theorem record_of_signed {p : ℕ} {sent : MsgTx} (h : deal.signed p = some sent) : deal.record p tx = deal := by
  rw [Deal.record, h, Option.some_or, ← h, Function.update_eq_self]

theorem signed_record_self {p : ℕ} (h : deal.signed p = none) : (deal.record p tx).signed p = some tx := by
  simp [Deal.record, h]

theorem signed_record_ne {p q : ℕ} (hne : q ≠ p) : (deal.record p tx).signed q = deal.signed q :=
  Function.update_of_ne hne _ _

/-- No two members have a place in common. -/
theorem Deal.Owned.eq_of_mem (hown : deal.Owned) {peer peer' : PeerInfo} (hpeer : peer ∈ deal.roster)
    (hpeer' : peer' ∈ deal.roster) {idx : ℕ} (hidx : idx ∈ peer.inputIndex) (hidx' : idx ∈ peer'.inputIndex) :
    peer.id = peer'.id :=
  congrArg _ (eq_of_mem_flatMap (hown.places.nodup_iff.mpr List.nodup_range) hpeer hpeer' hidx hidx')

theorem Deal.Owned.eq_of_id (hown : deal.Owned) {peer peer' : PeerInfo} (hpeer : peer ∈ deal.roster)
    (hpeer' : peer' ∈ deal.roster) (hid : peer.id = peer'.id) : peer = peer' :=
  List.inj_on_of_nodup_map hown.ids hpeer hpeer' hid

end Merging

/-! ### Collecting signatures -/

/-- What a member has of the joined transaction. -/
def PeerInfo.share (peer : PeerInfo) : List ℕ × Option MsgTx := (peer.inputIndex, peer.signedTx)

/-- While signatures are collected: the members hold what they have sent, those who have
not sent anything are members, and what has been sent is merged. -/
structure Collecting (deal : Deal) (js : JoinSession) : Prop where
  own : ∀ p peer, js.peers.lookup p = some peer → peer.signedTx = deal.signed p
  stay : ∀ peer ∈ deal.roster, deal.signed peer.id = none → peer.id ∈ js.peers.keys
  first : js.joinedTx = none → ∀ peer ∈ deal.roster, deal.signed peer.id = none
  merged : ∀ tx, js.joinedTx = some tx → Merged deal tx

/-- The members are of those who have agreed, with their places. -/
def Deal.Binds (deal : Deal) (js : JoinSession) : Prop :=
  ∀ p peer, js.peers.lookup p = some peer → ∃ member ∈ deal.roster, member.id = p ∧ member.inputIndex = peer.inputIndex

section Collecting
variable {pkgs : Packages} {ch : Choices} {deal : Deal} {js js' : JoinSession} {signedTx : JoinTx} {peer : PeerInfo}
  {tx : MsgTx}

theorem Deal.Binds.inherits (h : deal.Binds js) (hinherits : Inherits PeerInfo.share js js') : deal.Binds js' := by
  intro p peer' hp
  obtain ⟨peer, hpeer, hshare⟩ := hinherits p peer' hp
  obtain ⟨member, hmember, hid, hindex⟩ := h p peer hpeer
  exact ⟨member, hmember, hid, hindex.trans (congrArg Prod.fst hshare).symm⟩

/-- The first signed transaction becomes the joined one, of another its own inputs are taken over. -/
theorem Merged.next (hown : deal.Owned) {member : PeerInfo} (hmember : member ∈ deal.roster)
    (hnone : deal.signed member.id = none) (hfirst : js.joinedTx = none → ∀ peer ∈ deal.roster, deal.signed peer.id = none)
    (hmerged : ∀ tx, js.joinedTx = some tx → Merged deal tx) (hagrees : deal.Agrees tx member.inputIndex js)
    (hmerge : mergeSigned tx member.inputIndex js = .ok js') {joinedTx' : MsgTx} (hjoined' : js'.joinedTx = some joinedTx') :
    Merged (deal.record member.id tx) joinedTx' := by
  rw [mergeSigned] at hmerge
  rw [Deal.Agrees] at hagrees
  cases hjoined : js.joinedTx with
  | none =>
    rw [hjoined] at hmerge hagrees
    cases hmerge
    cases hjoined'
    refine ⟨hagrees, fun other hother sent hsent idx _ => ?_⟩
    by_cases hself : other.id = member.id
    · rw [hself, signed_record_self hnone] at hsent
      cases hsent
      rfl
    · rw [signed_record_ne hself, hfirst hjoined other hother] at hsent
      cases hsent
  | some joinedTx =>
    rw [hjoined] at hmerge hagrees
    obtain ⟨patched, hpatch, hmerge⟩ := bind_eq_ok.mp hmerge
    cases hmerge
    cases hjoined'
    have hbefore := hmerged joinedTx hjoined
    obtain ⟨-, hget⟩ := getElem?_patchInputs hpatch
    refine ⟨stripped_patchInputs hpatch hbefore.same hagrees, fun other hother sent hsent idx hidx => ?_⟩
    rw [hget]
    by_cases hself : other.id = member.id
    · obtain rfl := hown.eq_of_id hother hmember hself
      rw [signed_record_self hnone] at hsent
      cases hsent
      rw [if_pos hidx]
    · rw [signed_record_ne hself] at hsent
      rw [if_neg fun hmem => hself (hown.eq_of_mem hother hmember hidx hmem)]
      exact hbefore.taken other hother sent hsent idx hidx

/-- A signed transaction that is accepted. -/
theorem Collecting.accepted (h : Collecting deal js) (hown : deal.Owned) (hbinds : deal.Binds js)
    (hp : js.peers.lookup signedTx.peerId = some peer) (hsigned : peer.signedTx = none)
    (hagrees : deal.Agrees tx peer.inputIndex js)
    (hmerge : mergeSigned tx peer.inputIndex (storeSigned signedTx tx js) = .ok js') :
    Collecting (deal.record signedTx.peerId tx) js' := by
  have hnone : deal.signed signedTx.peerId = none := (h.own _ _ hp).symm.trans hsigned
  obtain ⟨joinedTx', hjs'⟩ := mergeSigned_eq_ok hmerge
  have hpeers : js'.peers = (storeSigned signedTx tx js).peers := by rw [hjs']
  have hjoined : js'.joinedTx = some joinedTx' := by rw [hjs']
  constructor
  · intro p peer' hp'
    rw [hpeers] at hp'
    by_cases hself : p = signedTx.peerId
    · subst hself
      rw [storeSigned, JoinSession.setPeer, GoMap.lookup_modify_self, hp, Option.map_some, Option.some_inj] at hp'
      subst hp'
      exact (signed_record_self hnone).symm
    · rw [storeSigned, JoinSession.setPeer, GoMap.lookup_modify_ne hself] at hp'
      rw [signed_record_ne hself]
      exact h.own p peer' hp'
  · intro member hmember hunsigned
    have hkeys : js'.peers.keys = js.peers.keys := by
      rw [hpeers]
      exact GoMap.keys_modify ..
    rw [hkeys]
    by_cases hself : member.id = signedTx.peerId
    · rw [hself]
      exact GoMap.mem_keys_of_lookup hp
    · rw [signed_record_ne hself] at hunsigned
      exact h.stay member hmember hunsigned
  · intro hnothing
    rw [hjoined] at hnothing
    cases hnothing
  · intro tx' htx'
    obtain ⟨member, hmember, hid, hindex⟩ := hbinds _ _ hp
    rw [← hid] at hnone ⊢
    rw [← hindex] at hmerge hagrees
    exact @Merged.next deal (storeSigned signedTx tx js) js' tx hown member hmember hnone h.first h.merged hagrees hmerge
      tx' htx'

end Collecting

/-! ### The invariant -/

/-- The states in which there is an agreement. -/
def SessionState.agreed : SessionState → Bool
  | .txSign | .txPublish | .completed => true
  | _ => false

/-- Before there is an agreement: nothing is joined, nobody has signed, and nobody has a
place unless building the transaction was the last thing that was done. -/
structure Unagreed (s : System) : Prop where
  round : s.session.state.agreed = false
  joined : s.session.joinedTx = none
  unsigned : ∀ p peer, s.session.peers.lookup p = some peer → peer.signedTx = none
  unplaced : (s.session.state = .txInput → s.loop.waits = true) →
    ∀ p peer, s.session.peers.lookup p = some peer → peer.inputIndex = []

/-- With an agreement: it is kept to while signatures are collected, if anybody is left,
and it is honoured when the transaction is to be published. -/
structure Agreed (deal : Deal) (s : System) : Prop where
  round : s.session.state.agreed = true
  owned : deal.Owned
  binds : deal.Binds s.session
  signing : s.session.state = .txSign → s.loop.waits = true → GoMap.len s.session.peers ≠ 0 → Collecting deal s.session
  publishing : s.session.state = .txPublish → ∃ tx, s.session.joinedTx = some tx ∧ deal.Honoured tx

/-- A step that does not touch the joined transaction. -/
structure Untouched (js js' : JoinSession) : Prop where
  state : js'.state = js.state
  joined : js'.joinedTx = js.joinedTx
  inherits : Inherits PeerInfo.share js js'

section Untouched
variable {pkgs : Packages} {ch : Choices} {s s' : System} {ev : Event} {js js' js'' : JoinSession} {deal : Deal}

theorem Untouched.refl (js : JoinSession) : Untouched js js := ⟨rfl, rfl, .refl js⟩

theorem Unagreed.untouched (h : Unagreed s) (hstep : Untouched s.session s'.session)
    (hwaits : s'.loop.waits = true → s.loop.waits = true) : Unagreed s' where
  round := by rw [hstep.state, h.round]
  joined := hstep.joined.trans h.joined
  unsigned p peer' hp := by
    obtain ⟨peer, hpeer, hshare⟩ := hstep.inherits p peer' hp
    exact (congrArg Prod.snd hshare).trans (h.unsigned p peer hpeer)
  unplaced hloop p peer' hp := by
    obtain ⟨peer, hpeer, hshare⟩ := hstep.inherits p peer' hp
    refine (congrArg Prod.fst hshare).trans (h.unplaced (fun hstate => hwaits (hloop ?_)) p peer hpeer)
    exact hstep.state.trans hstate

/-- Nobody leaves who has not signed. -/
theorem Agreed.untouched (h : Agreed deal s) (hstep : Untouched s.session s'.session)
    (hwaits : s'.loop.waits = true → s.loop.waits = true)
    (hremoves : GoMap.len s'.session.peers ≠ 0 → Removes ch s ev s'.session)
    (hleaving : s.session.state = .txSign → ∀ p ∈ s.leaving ch ev, ∀ peer ∈ s.session.peers.lookup p,
      peer.signedTx.isSome = true) : Agreed deal s' where
  round := by rw [hstep.state, h.round]
  owned := h.owned
  binds := h.binds.inherits hstep.inherits
  signing hstate hloop hlen := by
    rw [hstep.state] at hstate
    obtain ⟨ps, hps, hkept⟩ := hremoves hlen
    have hlen' : GoMap.len s.session.peers ≠ 0 := fun hempty => hlen (Nat.eq_zero_of_le_zero (hempty ▸ hkept.len_le))
    have hbefore := h.signing hstate (hwaits hloop) hlen'
    refine ⟨fun p peer' hp => ?_, fun member hmember hunsigned => ?_, ?_, ?_⟩
    · obtain ⟨peer, hpeer, hshare⟩ := hstep.inherits p peer' hp
      exact (congrArg Prod.snd hshare).trans (hbefore.own p peer hpeer)
    · have hmem := hbefore.stay member hmember hunsigned
      obtain ⟨peer, hpeer⟩ := GoMap.lookup_of_mem_keys hmem
      have hnotin : member.id ∉ ps := by
        intro hin
        have hsigned := hleaving hstate member.id (hps _ hin hmem) peer hpeer
        rw [hbefore.own _ _ hpeer, hunsigned] at hsigned
        cases hsigned
      obtain ⟨peer', hpeer', -⟩ := hkept.kept hpeer hnotin
      exact GoMap.mem_keys_of_lookup hpeer'
    · rw [hstep.joined]
      exact hbefore.first
    · rw [hstep.joined]
      exact hbefore.merged
  publishing hstate := by
    rw [hstep.state] at hstate
    rw [hstep.joined]
    exact h.publishing hstate

/-- A restart begins anew. -/
theorem unagreed_expelled {ps : List ℕ} (hsession : s'.session = s.session.expelled ch ps)
    (hlen : GoMap.len (s.session.removePeers ps).peers ≠ 0) : Unagreed s' ∧ s'.session.state = .keyExchange := by
  have hrestart : s'.session = (s.session.removePeers ps).restart ch ps := by
    rw [hsession, JoinSession.expelled, if_neg hlen]
  have hreset : ∀ p peer, s'.session.peers.lookup p = some peer →
      ∃ old id sessionId, peer = PeerInfo.resetData old id sessionId := by
    intro p peer hp
    rw [hsession] at hp
    exact lookup_expelled hp
  refine ⟨⟨by rw [hrestart]; rfl, by rw [hrestart]; rfl, fun p peer hp => ?_, fun _ p peer hp => ?_⟩, by rw [hrestart]; rfl⟩
  · obtain ⟨old, id, sessionId, rfl⟩ := hreset p peer hp
    rfl
  · obtain ⟨old, id, sessionId, rfl⟩ := hreset p peer hp
    rfl

end Untouched

/-! ### Steps that take no message -/

section Unhanded
variable {pkgs : Packages} {ch : Choices} {s s' : System} {ev : Event} {js js' : JoinSession} {d : Done} {b : Bool}

theorem joinedTx_removePeers (ps : List ℕ) (js : JoinSession) : (js.removePeers ps).joinedTx = js.joinedTx := by
  induction ps generalizing js with
  | nil => rfl
  | cons p ps ih => exact (ih _).trans (js.joinedTx_removePeer p)

theorem JoinSession.ChangeOutcome.joinedTx {site : List ℕ} (h : JoinSession.ChangeOutcome pkgs ch site js (.ok (b, js'))) :
    js'.joinedTx = js.joinedTx := by
  cases h <;> rfl

theorem Republishing.joinedTx (h : Republishing pkgs ch js b js') : js'.joinedTx = js.joinedTx := by
  induction h with
  | done => rfl
  | emptied => exact JoinSession.joinedTx_removePeer ..
  | failed => exact JoinSession.joinedTx_removePeer ..
  | changed _ _ _ _ ih => exact ih.trans (JoinSession.joinedTx_removePeer ..)

theorem InformOutcome.joinedTx (h : InformOutcome js (.ok (d, js'))) : js'.joinedTx = js.joinedTx := by
  cases h with
  | nobody => rfl
  | dropped => exact joinedTx_removePeers ..

theorem untouched_timeout (h : timeout pkgs ch js = .ok (d, js')) : Untouched js js' := by
  refine ⟨state_timeout h, ?_, inherits_timeout h⟩
  have houtcome := timeout_outcome pkgs ch (mu_of_timeout h)
  rw [h] at houtcome
  cases houtcome with
  | returned _ _ hrep => exact hrep.joinedTx
  | republished _ _ hrep hinform => exact hinform.joinedTx.trans hrep.joinedTx
  | informed _ hinform => exact hinform.joinedTx

theorem untouched_readError {peer : PeerInfo} (h : readError pkgs ch peer js = .ok js') : Untouched js js' := by
  refine ⟨state_readError h, ?_, inherits_readError h⟩
  have houtcome := readError_outcome pkgs ch peer (mu_of_readError h)
  rw [h] at houtcome
  cases houtcome with
  | left => exact js.joinedTx_removePeer _
  | kept => rfl
  | emptied => exact js.joinedTx_removePeer _
  | changed _ _ hchange => exact hchange.joinedTx.trans (js.joinedTx_removePeer _)

theorem untouched_writeError {peer : PeerInfo} (h : writeError pkgs ch peer js = .ok js') : Untouched js js' := by
  refine ⟨state_writeError h, ?_, inherits_writeError h⟩
  have houtcome := writeError_outcome pkgs ch peer (mu_of_writeError h)
  rw [h] at houtcome
  cases houtcome with
  | left => exact js.joinedTx_removePeer _
  | kept => rfl
  | changed _ _ hchange => exact hchange.joinedTx.trans (js.joinedTx_removePeer _)
  | locked _ _ hchange => exact hchange.joinedTx.trans (js.joinedTx_removePeer _)

theorem untouched_readMessage {peer : PeerInfo} {raw : RawMessage} {pc : ReaderPc}
    (h : readMessage peer raw js = .ok (pc, js')) : Untouched js js' := by
  rcases mu_of_readMessage h with hmu | ⟨-, hsame⟩
  · have houtcome := readMessage_outcome peer raw hmu
    rw [h] at houtcome
    cases houtcome with
    | admitted =>
      split_ifs
      · exact ⟨rfl, rfl, (Inherits.refl js).congr rfl⟩
      · exact .refl js
    | _ => exact ⟨rfl, rfl, (Inherits.refl js).congr rfl⟩
  · cases hsame
    exact .refl js

/-- An event that delivers no message either starts the session anew, or touches nothing
and takes out nobody but those that leave, unless nobody is left. -/
inductive Unhanded (ch : Choices) (s : System) (ev : Event) (s' : System) : Prop
  | untouched (h : Untouched s.session s'.session) (hwaits : s'.loop.waits = true → s.loop.waits = true)
      (hremoves : GoMap.len s'.session.peers ≠ 0 → Removes ch s ev s'.session)
  | restarted {ps : List ℕ} (h : s'.session = s.session.expelled ch ps)
      (hlen : GoMap.len (s.session.removePeers ps).peers ≠ 0)

theorem unhanded_of_expelled {ps : List ℕ} (h : s'.session = s.session.expelled ch ps)
    (hwaits : GoMap.len s'.session.peers = 0 → s'.loop.waits = true → s.loop.waits = true) : Unhanded ch s ev s' := by
  by_cases hlen : GoMap.len (s.session.removePeers ps).peers = 0
  · have hremoved : s'.session = s.session.removePeers ps := by rw [h, JoinSession.expelled, if_pos hlen]
    refine .untouched ⟨?_, ?_, ?_⟩ (hwaits (hremoved ▸ hlen)) fun hsome => absurd (hremoved ▸ hlen) hsome
    · rw [hremoved]
      exact state_removePeers ..
    · rw [hremoved]
      exact joinedTx_removePeers ..
    · rw [hremoved]
      exact (Inherits.refl _).removePeers ps
  · exact .restarted h hlen

theorem unhanded_of_finish {running : Bool} (hloop : s.loop = .rest d) (h : finish ch d s.session = .ok (running, js')) :
    Unhanded ch s .rest { s with session := js', loop := System.loopTo js' running } := by
  have hwaits : d = .next → s.loop.waits = true := by
    intro hnext
    rw [hloop, hnext]
    rfl
  cases hmu : s.session.mu with
  | true =>
    rw [finish_held ch d hmu] at h
    split_ifs at h with hpush
    · cases h
      refine .untouched ⟨rfl, rfl, (Inherits.refl _).congr rfl⟩ (fun hselect => ?_) fun _ =>
        .kept ((Kept.refl _).congr rfl rfl rfl)
      cases hselect
    · cases h
      refine .untouched (.refl _) (fun hselect => ?_) fun _ => .kept (.refl _)
      have hrunning : d.exit = .next := by
        by_contra hexit
        simp [System.loopTo, hexit, LoopPc.waits] at hselect
      obtain ⟨push, exit⟩ := d
      cases hrunning
      cases push with
      | none => exact hwaits rfl
      | some => exact absurd rfl hpush
  | false =>
    rw [finish_free ch d hmu] at h
    split_ifs at h
    cases h
    obtain ⟨push, exit⟩ := d
    cases push with
    | none =>
      refine .untouched (.refl _) (fun hselect => ?_) fun _ => .kept (.refl _)
      have hrunning : exit = .next := by
        by_contra hexit
        simp [System.loopTo, hexit, LoopPc.waits] at hselect
      exact hwaits (congrArg _ hrunning)
    | some ps =>
      refine unhanded_of_expelled rfl fun hempty hselect => ?_
      change GoMap.len (s.session.expelled ch ps).peers = 0 at hempty
      simp [System.loopTo, Done.pushed, hempty, LoopPc.waits] at hselect

theorem unhanded_of_stepped (h : Stepped pkgs ch s ev s') (hev : ∀ conn, ev ≠ .deliver conn) : Unhanded ch s ev s' := by
  cases h with
  | timeout hloop _ h =>
    refine .untouched (untouched_timeout h) (fun _ => ?_) fun _ => .of_timeout h
    rw [hloop]
    rfl
  | deliver => exact absurd rfl (hev _)
  | rest hloop h => exact unhanded_of_finish hloop h
  | read _ _ h => exact .untouched (untouched_readMessage h) id fun _ => .kept (kept_readMessage h)
  | push _ h =>
    rw [JoinSession.pushMaliciousInfo_eq ch _ (mu_of_pushMaliciousInfo h)] at h
    cases h
    exact unhanded_of_expelled rfl fun _ => id
  | remove hreader =>
    refine .untouched ⟨JoinSession.state_removePeer .., JoinSession.joinedTx_removePeer .., ?_⟩ id fun _ =>
      ⟨_, by simp [System.leaving, hreader], (Kept.refl _).removePeer _⟩
    exact (Inherits.refl _).removePeer _
  | readError _ hpeer h => exact .untouched (untouched_readError h) id fun _ => .of_readError hpeer h
  | writeError _ hpeer h => exact .untouched (untouched_writeError h) id fun _ => .of_writeError hpeer h

end Unhanded

/-! ### What goes out -/

/-- A transaction that went out is as agreed at the time. -/
def Final (pkgs : Packages) (e : Option Deal × Bytes) : Prop :=
  ∃ deal tx, e.1 = some deal ∧ pkgs.btcEncode tx = some e.2 ∧ deal.Honoured tx

/-- After an event: where the session stands with the agreement, and what was sent. -/
structure Follows (pkgs : Packages) (deal : Option Deal) (s : System) (sent : List Output) : Prop where
  unagreed : deal = none → Unagreed s
  agreed : ∀ d, deal = some d → Agreed d s
  settled : ∀ o ∈ sent, ∀ bytes, o.finalTx = some bytes → Final pkgs (deal, bytes)

theorem Sends.all {P : Output → Bool} {js js' : JoinSession} (h : Sends P js js') {sent : List Output}
    (hsent : js'.out = js.out ++ sent) : ∀ o ∈ sent, P o = true := by
  intro o ho
  apply h.mem
  rwa [hsent, List.drop_left]

section Follows
variable {pkgs : Packages} {ch : Choices} {t : Tracked} {s' : System} {ev : Event} {sent : List Output}

/-- Before the joined transaction is built there is no agreement. -/
theorem none_of_round (h : Follows pkgs t.deal t.system []) (hround : t.system.session.state.agreed = false) :
    t.deal = none := by
  cases hdeal : t.deal with
  | none => rfl
  | some deal => exact absurd ((h.agreed deal hdeal).round.symm.trans hround) Bool.true_eq_false.mp

/-- From then on there is one. -/
theorem exists_of_round (h : Follows pkgs t.deal t.system []) (hround : t.system.session.state.agreed = true) :
    ∃ deal, t.deal = some deal ∧ Agreed deal t.system := by
  cases hdeal : t.deal with
  | none => exact absurd (hround.symm.trans (h.unagreed hdeal).round) Bool.true_eq_false.mp
  | some deal => exact ⟨deal, rfl, h.agreed deal hdeal⟩

/-- Without a new transaction the agreement ends with a restart, and what is heard is added to it. -/
theorem nextDeal_of_quiet (hsent : sent.any Output.isUnsigned = false) : Tracked.nextDeal pkgs ch t ev s' sent =
    if s'.session.state = .keyExchange then none else Tracked.heard pkgs t ev := by
  have hannounced : Tracked.announced pkgs ch t.system ev sent = none := by simp [Tracked.announced, hsent]
  rw [Tracked.nextDeal, hannounced]

/-- With the state as it was, nothing changes but what is heard. -/
theorem nextDeal_of_state (h : Follows pkgs t.deal t.system []) (hsent : sent.any Output.isUnsigned = false)
    (hheard : Tracked.heard pkgs t ev = t.deal) (hstate : s'.session.state = t.system.session.state) :
    Tracked.nextDeal pkgs ch t ev s' sent = t.deal := by
  rw [nextDeal_of_quiet hsent, hheard, hstate]
  split_ifs with hkey
  · exact (none_of_round h (congrArg SessionState.agreed hkey)).symm
  · rfl

theorem heard_of_unhanded (h : t.system.handed ev = none) : Tracked.heard pkgs t ev = t.deal := by
  rw [Tracked.heard, h]

theorem handed_of_not_deliver {s : System} (hev : ∀ conn, ev ≠ .deliver conn) : s.handed ev = none := by
  cases ev with
  | deliver conn => exact absurd rfl (hev conn)
  | _ => rfl

/-- An event that delivers no message. -/
theorem follows_unhanded (h : Follows pkgs t.deal t.system []) (hok : t.Orderly pkgs (ch, ev))
    (hstepped : Stepped pkgs ch t.system ev s') (hev : ∀ conn, ev ≠ .deliver conn)
    (hsent : s'.session.out = t.system.session.out ++ sent) :
    Follows pkgs (Tracked.nextDeal pkgs ch t ev s' sent) s' sent := by
  have hquiet : sent.any Output.isUnsigned = false := by
    have hsends : Sends (fun o => !o.isUnsigned) t.system.session s'.session :=
      sends_of_unhanded (fun _ => rfl) (fun _ _ _ _ => rfl) (fun _ _ _ _ _ _ => rfl) hstepped hev
    rw [List.any_eq_false]
    intro o ho
    simpa using hsends.all hsent o ho
  have hheard := @heard_of_unhanded pkgs t ev (handed_of_not_deliver hev)
  have hfinals : ∀ o ∈ sent, ∀ bytes, o.finalTx = some bytes →
      t.system.session.state = .txPublish ∧ t.system.session.joinedTx.bind pkgs.btcEncode = some bytes := by
    intro o ho bytes hbytes
    have hsends : Sends (fun o => decide (∀ bytes ∈ o.finalTx, t.system.session.state = .txPublish ∧
        t.system.session.joinedTx.bind pkgs.btcEncode = some bytes)) t.system.session s'.session := by
      refine sends_of_unhanded (fun _ => by simp [Output.finalTx]) (fun _ _ _ _ => by simp [Output.finalTx]) ?_ hstepped hev
      intro hstate joinedTx tx conn hjoined hencode
      simp [Output.finalTx, hstate, hjoined, hencode]
    exact of_decide_eq_true (hsends.all hsent o ho) bytes hbytes
  cases unhanded_of_stepped hstepped hev with
  | untouched huntouched hwaits hremoves =>
    rw [nextDeal_of_state h hquiet hheard huntouched.state]
    refine ⟨fun hdeal => (h.unagreed hdeal).untouched huntouched hwaits, fun deal hdeal => ?_, fun o ho bytes hbytes => ?_⟩
    · exact (h.agreed deal hdeal).untouched huntouched hwaits hremoves hok.2
    · obtain ⟨hstate, hencode⟩ := hfinals o ho bytes hbytes
      obtain ⟨deal, hdeal, hagreed⟩ := exists_of_round h (congrArg SessionState.agreed hstate)
      obtain ⟨tx, hjoined, hhonoured⟩ := hagreed.publishing hstate
      rw [hjoined] at hencode
      exact ⟨deal, tx, hdeal, hencode, hhonoured⟩
  | @restarted ps hexpelled hlen =>
    obtain ⟨hunagreed, hkey⟩ := unagreed_expelled hexpelled hlen
    rw [nextDeal_of_quiet hquiet, if_pos hkey]
    refine ⟨fun _ => hunagreed, fun _ hdeal => (Option.some_ne_none _ hdeal.symm).elim, fun o ho bytes hbytes => ?_⟩
    have hsends : Sends (fun o => o.finalTx.isNone) t.system.session s'.session := by
      rw [hexpelled]
      exact .expelled (fun _ => rfl) (fun _ _ _ _ => rfl) ch ps _
    have hno := hsends.all hsent o ho
    rw [hbytes] at hno
    cases hno

end Follows

/-! ### Messages -/

section Messages
variable {pkgs : Packages} {ch : Choices} {t : Tracked} {js js' : JoinSession} {d : Done} {msg : ClientMessage}

/-- Keys, vectors and secrets have nothing to do with the joined transaction. -/
def Kind.early : Kind → Bool
  | .txInputs | .txSigned | .txPublishResult => false
  | _ => true

theorem inherits_early (h : HandleOutcome pkgs ch js msg (.ok (d, js'))) (hkind : msg.kind.early = true) :
    Inherits PeerInfo.share js js' := by
  cases msg with
  | keyExchange req => exact inherits_keyExchange (fun _ _ _ => rfl) h
  | dcExpVector data => exact inherits_dcExpVector (fun _ _ => rfl) h
  | dcXorVector data => exact inherits_dcXorVector (fun _ _ => rfl) h
  | revealSecret rvSecret => exact inherits_revealSecret (fun _ _ => rfl) h
  | msgNotFound data => exact inherits_msgNotFound h
  | _ => cases hkind

theorem joinedTx_early (h : HandleOutcome pkgs ch js msg (.ok (d, js'))) (hkind : msg.kind.early = true) :
    js'.joinedTx = js.joinedTx := by
  cases msg with
  | keyExchange req =>
    change KeyExchangeOutcome pkgs ch req js _ at h
    cases h with
    | invalid => exact js.joinedTx_removePeer _
    | unmarshalled => exact JoinSession.joinedTx_removePeer ..
    | _ => rfl
  | dcExpVector data =>
    change DcExpOutcome pkgs ch data js _ at h
    cases h with
    | ended _ _ _ _ _ hsolve => cases hsolve <;> rfl
    | _ => rfl
  | dcXorVector data =>
    change DcXorOutcome pkgs ch data js _ at h
    cases h <;> rfl
  | revealSecret rvSecret =>
    change RevealOutcome pkgs ch rvSecret js _ at h
    cases h <;> rfl
  | msgNotFound data =>
    change MsgNotFoundOutcome ch data js _ at h
    cases h <;> rfl
  | _ => cases hkind

/-- They lead to no state with an agreement. -/
theorem agreed_early {kind : Kind} {state : SessionState} (hkind : kind.early = true) (hvalid : kind.validIn state = true) :
    state.agreed = false ∧ ∀ next ∈ kind.next, next.agreed = false := by
  revert hvalid hkind
  cases kind <;> cases state <;> decide

/-- The sender is not a member. -/
theorem handle_stranger (h : handle pkgs ch js msg = .ok (d, js')) (hkind : msg.kind ≠ .txPublishResult)
    (hstranger : msg.peerId ∉ js.peers.keys) : js' = js := by
  have hmu := mu_of_handle h
  have hnone : js.peers.lookup msg.peerId = none :=
    AList.lookup_eq_none.mpr fun hmem => hstranger (AList.mem_keys.mp hmem)
  by_cases hharmless : Harmless msg
  · rw [handle_of_ignored pkgs ch hmu ⟨hharmless, hstranger⟩] at h
    cases h
    rfl
  cases msg with
  | dcXorVector data =>
    have houtcome : DcXorOutcome pkgs ch data js _ := h ▸ handle_outcome pkgs ch (.dcXorVector data) hmu
    change js.peers.lookup data.peerId = none at hnone
    cases houtcome with
    | short => rfl
    | stranger => rfl
    | waiting hp => cases hnone.symm.trans hp
    | failed hp => cases hnone.symm.trans hp
    | complete hp => cases hnone.symm.trans hp
  | txPublishResult pubResult => exact absurd rfl hkind
  | _ => exact absurd trivial hharmless

/-- Only signed transactions and results are answered with a final transaction. -/
theorem finalTx_of_answers {kind : Kind} {o : Output} (h : o.answers kind = true) (hsigned : kind ≠ .txSigned)
    (hresult : kind ≠ .txPublishResult) : o.finalTx = none := by
  cases o with
  | send conn msg => cases msg <;> simp_all [Output.answers, Output.finalTx]
  | close => rfl
  | post => exact absurd (of_decide_eq_true h) hsigned

theorem isUnsigned_of_answers {kind : Kind} {o : Output} (h : o.answers kind = true) (hkind : kind ≠ .txInputs) :
    o.isUnsigned = false := by
  cases o with
  | send conn msg => cases msg <;> simp_all [Output.answers, Output.isUnsigned]
  | _ => rfl

section Deliver
variable {readers : ℕ → ReaderPc} {timer : Timer} {conn sessionId : ℕ} {state : SessionState} {sent : List Output}

/-- The session after a message, on the way to the next select. -/
def Tracked.afterMessage (t : Tracked) (js : JoinSession) (d : Done) (readers : ℕ → ReaderPc) : System :=
  { t.system with session := js, loop := .rest d, readers := readers }

/-- A message that is not taken. -/
theorem follows_stranger (h : Follows pkgs t.deal t.system []) (hwaits : t.system.loop.waits = true)
    (hheard : Tracked.heard pkgs t (.deliver conn) = t.deal) :
    Follows pkgs (Tracked.nextDeal pkgs ch t (.deliver conn) (t.afterMessage t.system.session d readers) [])
      (t.afterMessage t.system.session d readers) [] := by
  have hnext := @nextDeal_of_state pkgs ch t (t.afterMessage t.system.session d readers) (.deliver conn) [] h rfl hheard rfl
  rw [hnext]
  refine ⟨fun hdeal => (h.unagreed hdeal).untouched (.refl _) fun _ => hwaits, fun deal hdeal => ?_, by simp⟩
  have hremoves : Removes ch t.system (.deliver conn) t.system.session := .kept (.refl _)
  exact (h.agreed deal hdeal).untouched (.refl _) (fun _ => hwaits) (fun _ => hremoves) fun _ p hp =>
    (List.not_mem_nil hp).elim

theorem heard_of_handed (hhanded : t.system.handed (.deliver conn) = some msg) (hkind : msg.kind ≠ .txSigned) :
    Tracked.heard pkgs t (.deliver conn) = t.deal := by
  rw [Tracked.heard, hhanded]
  cases msg with
  | txSigned => exact absurd rfl hkind
  | _ => rfl

/-- Without an agreement, and none reached. -/
theorem follows_unagreed (hsent : sent.any Output.isUnsigned = false)
    (hheard : Tracked.heard pkgs t (.deliver conn) = none) {s' : System} (hunagreed : Unagreed s')
    (hfinal : ∀ o ∈ sent, o.finalTx = none) :
    Follows pkgs (Tracked.nextDeal pkgs ch t (.deliver conn) s' sent) s' sent := by
  have hnext : Tracked.nextDeal pkgs ch t (.deliver conn) s' sent = none := by
    rw [nextDeal_of_quiet hsent, hheard, ite_self]
  rw [hnext]
  refine ⟨fun _ => hunagreed, fun _ hdeal => (Option.some_ne_none _ hdeal.symm).elim, fun o ho bytes hbytes => ?_⟩
  rw [hfinal o ho] at hbytes
  cases hbytes

/-- A message of the rounds before the inputs. -/
theorem follows_early (h : Follows pkgs t.deal t.system []) (hwaits : t.system.loop.waits = true)
    (hhanded : t.system.handed (.deliver conn) = some msg) (hvalid : msg.kind.validIn t.system.session.state = true)
    (hkind : msg.kind.early = true) (hhandle : handle pkgs ch t.system.session msg = .ok (d, js'))
    (hsent : js'.out = t.system.session.out ++ sent) :
    Follows pkgs (Tracked.nextDeal pkgs ch t (.deliver conn) (t.afterMessage js' d readers) sent)
      (t.afterMessage js' d readers) sent := by
  have houtcome := hhandle ▸ handle_outcome pkgs ch msg (mu_of_handle hhandle)
  have hne : msg.kind ≠ .txInputs ∧ msg.kind ≠ .txSigned ∧ msg.kind ≠ .txPublishResult := by
    refine ⟨?_, ?_, ?_⟩ <;> exact fun heq => absurd (heq ▸ hkind) (by decide)
  obtain ⟨hround, hnext⟩ := agreed_early hkind hvalid
  have hnone := none_of_round h hround
  have hbefore := h.unagreed hnone
  have hanswers := (sends_handle houtcome).all hsent
  apply follows_unagreed
  · rw [List.any_eq_false]
    intro o ho
    rw [isUnsigned_of_answers (hanswers o ho) hne.1]
    exact Bool.false_ne_true
  · rw [heard_of_handed hhanded hne.2.1, hnone]
  · have hinherits := inherits_early houtcome hkind
    refine ⟨?_, (joinedTx_early houtcome hkind).trans hbefore.joined, fun p peer' hp => ?_, fun _ p peer' hp => ?_⟩
    · rcases advances_handle houtcome with ⟨hstate, -⟩ | ⟨hstate, -⟩
      · exact hnext _ hstate
      · exact (congrArg SessionState.agreed hstate).trans hround
    · obtain ⟨peer, hpeer, hshare⟩ := hinherits p peer' hp
      exact (congrArg Prod.snd hshare).trans (hbefore.unsigned p peer hpeer)
    · obtain ⟨peer, hpeer, hshare⟩ := hinherits p peer' hp
      exact (congrArg Prod.fst hshare).trans (hbefore.unplaced (fun _ => hwaits) p peer hpeer)
  · intro o ho
    exact finalTx_of_answers (hanswers o ho) hne.2.1 hne.2.2

/-- What inputs leave alone in the members. -/
theorem inherits_storeInputs (txins : TxInputs) (tx : MsgTx) (js : JoinSession) :
    Inherits PeerInfo.share js (storeInputs txins tx js) := by
  have hprice : Inherits PeerInfo.share js (storePrice txins js) := (Inherits.refl js).setPeer fun _ => rfl
  have hset : Inherits PeerInfo.share js
      ((storePrice txins js).setPeer txins.peerId fun peer => { peer with txIns := some tx }) := hprice.setPeer fun _ => rfl
  apply hset.congr
  simp only [storeInputs]
  split <;> rfl

theorem joinedTx_storeInputs (txins : TxInputs) (tx : MsgTx) (js : JoinSession) :
    (storeInputs txins tx js).joinedTx = js.joinedTx := by
  simp only [storeInputs]
  split <;> rfl

/-- The members sign what they are sent: each has its places, and nobody has signed. -/
theorem agreed_of_buildJoinedTx {ticketPrice : ℤ} {joinedtx : MsgTx} (s' : System)
    (hbuild : buildJoinedTx ch ticketPrice js = .ok (joinedtx, js')) (hkeyed : JoinSession.WellKeyed js'.peers)
    (hall : js.allSubmit (fun peer => peer.txIns.isSome) = true) (hjoined : js.joinedTx = none)
    (hfresh : ∀ p peer, js.peers.lookup p = some peer → peer.share = ([], none)) (hstate : s'.session.state = .txSign)
    (hpeers : s'.session.peers = js'.peers) (hsame : s'.session.joinedTx = js'.joinedTx) :
    Agreed ⟨joinedtx, s'.session.members, fun _ => none⟩ s' := by
  have hmembers : s'.session.members = js'.members := by rw [JoinSession.members, hpeers, JoinSession.members]
  have hsubmitted : ∀ p peer, js.peers.lookup p = some peer → peer.txIns.isSome = true := fun p peer hp =>
    List.all_eq_true.mp hall (p, peer) (GoMap.mem_toList.mpr hp)
  have hown := owning_of_buildJoinedTx hbuild hsubmitted fun p peer hp => congrArg Prod.fst (hfresh p peer hp)
  obtain ⟨first, tx, rest, -, -, hjs'⟩ := buildJoinedTx_eq_ok hbuild
  have hids : js'.members.map (·.id) = js'.peers.keys := by
    rw [GoMap.keys_eq, JoinSession.members, List.map_map]
    refine List.map_congr_left fun e he => ?_
    exact hkeyed e.1 e.2 (GoMap.mem_toList.mp he)
  refine ⟨by rw [hstate]; rfl, ⟨?_, ?_⟩, fun p peer hp => ?_, fun _ _ _ => ⟨fun p peer' hp => ?_, ?_, ?_, ?_⟩, ?_⟩
  · rw [hmembers]
    exact hown.partition
  · rw [hmembers, hids]
    exact js'.peers.keys_nodup
  · rw [hpeers] at hp
    refine ⟨peer, ?_, hkeyed p peer hp, rfl⟩
    rw [hmembers]
    exact JoinSession.mem_members.mpr ⟨p, hp⟩
  · rw [hpeers, hjs', GoMap.lookup_mapVal, Option.map_eq_some_iff] at hp
    obtain ⟨peer, hpeer, rfl⟩ := hp
    have hunsigned : peer.signedTx = none := congrArg Prod.snd (hfresh p peer hpeer)
    rw [joinedPeer, holdJoined]
    split_ifs <;> exact hunsigned
  · intro member hmember _
    rw [hmembers] at hmember
    obtain ⟨p, hp⟩ := JoinSession.mem_members.mp hmember
    rw [hkeyed p member hp, hpeers]
    exact GoMap.mem_keys_of_lookup hp
  · exact fun _ _ _ => rfl
  · intro tx htx
    rw [hsame, hjs'] at htx
    exact (Option.some_ne_none _ (htx.symm.trans hjoined)).elim
  · intro hpublish
    rw [hstate] at hpublish
    cases hpublish

/-- The transaction that is built is the one that is announced. -/
theorem announced_of_built {txins : TxInputs} {tx joinedtx : MsgTx} (hhanded : t.system.handed (.deliver conn) = some (.txInputs txins))
    (hdecode : pkgs.btcDecode txins.txins = some tx)
    (hbuild : buildJoinedTx ch txins.ticketPrice (storeInputs txins tx t.system.session) = .ok (joinedtx, js'))
    (hsent : sent.any Output.isUnsigned = true) :
    Tracked.announced pkgs ch t.system (.deliver conn) sent = some joinedtx := by
  rw [Tracked.announced, if_pos hsent, hhanded]
  simp [hdecode, hbuild, Except.toOption]

/-- Inputs. -/
theorem follows_txInputs (h : Follows pkgs t.deal t.system []) (hkeyed : JoinSession.WellKeyed t.system.session.peers)
    (hwaits : t.system.loop.waits = true) {txins : TxInputs} (hhanded : t.system.handed (.deliver conn) = some (.txInputs txins))
    (hstate : t.system.session.state = .txInput) (hhandle : handle pkgs ch t.system.session (.txInputs txins) = .ok (d, js'))
    (hsent : js'.out = t.system.session.out ++ sent) :
    Follows pkgs (Tracked.nextDeal pkgs ch t (.deliver conn) (t.afterMessage js' d readers) sent)
      (t.afterMessage js' d readers) sent := by
  have hround : t.system.session.state.agreed = false := by
    rw [hstate]
    rfl
  have hnone := none_of_round h hround
  have hbefore := h.unagreed hnone
  have hheard : Tracked.heard pkgs t (.deliver conn) = none :=
    (heard_of_handed hhanded (by simp [ClientMessage.kind])).trans hnone
  have hfresh : ∀ {js}, Inherits PeerInfo.share t.system.session js → ∀ p peer, js.peers.lookup p = some peer →
      peer.share = ([], none) := by
    intro js hinherits p peer' hp
    obtain ⟨peer, hpeer, hshare⟩ := hinherits p peer' hp
    rw [hshare]
    exact Prod.ext (hbefore.unplaced (fun _ => hwaits) p peer hpeer) (hbefore.unsigned p peer hpeer)
  -- no transaction goes out
  have hkept : ∀ js d, Inherits PeerInfo.share t.system.session js → js.joinedTx = none → js.state.agreed = false →
      js.out = t.system.session.out ++ sent → js.out = t.system.session.out →
      Follows pkgs (Tracked.nextDeal pkgs ch t (.deliver conn) (t.afterMessage js d readers) sent)
        (t.afterMessage js d readers) sent := by
    intro js d hinherits hjoined hagreed hsent hout
    obtain rfl : sent = [] := List.append_right_eq_self.mp (hsent.symm.trans hout)
    refine follows_unagreed rfl hheard ⟨hagreed, hjoined, fun p peer hp => ?_, fun _ p peer hp => ?_⟩ (by simp)
    · exact congrArg Prod.snd (hfresh hinherits p peer hp)
    · exact congrArg Prod.fst (hfresh hinherits p peer hp)
  have hstored : ∀ tx b, (∀ js, js = (storeInputs txins tx t.system.session).withMu b →
      Inherits PeerInfo.share t.system.session js ∧ js.joinedTx = none ∧ js.state.agreed = false ∧
        js.out = t.system.session.out) := by
    intro tx b js hjs
    rw [hjs]
    refine ⟨(inherits_storeInputs txins tx _).congr rfl, (joinedTx_storeInputs txins tx _).trans hbefore.joined, ?_,
      out_storeInputs txins tx _⟩
    exact (congrArg SessionState.agreed (state_storeInputs txins tx _)).trans hround
  have houtcome : TxInputsOutcome pkgs ch txins t.system.session (.ok (d, js')) :=
    hhandle ▸ handle_outcome pkgs ch (.txInputs txins) (mu_of_handle hhandle)
  cases houtcome with
  | stranger => exact hkept _ _ (.refl _) hbefore.joined hround hsent rfl
  | unpriced => exact hkept _ _ ((Inherits.refl _).setPeer fun _ => rfl) hbefore.joined hround hsent rfl
  | undecodable =>
    have hprice : Inherits PeerInfo.share t.system.session (storePrice txins t.system.session) :=
      (Inherits.refl _).setPeer fun _ => rfl
    exact hkept _ _ (hprice.congr rfl) hbefore.joined hround hsent rfl
  | overspent =>
    obtain ⟨hinherits, hjoined, hagreed, hout⟩ := hstored _ true _ rfl
    exact hkept _ _ hinherits hjoined hagreed hsent hout
  | waiting =>
    obtain ⟨hinherits, hjoined, hagreed, hout⟩ := hstored _ _ _ (JoinSession.withMu_self _ _ rfl).symm
    exact hkept _ _ hinherits hjoined hagreed hsent hout
  | @joined _ tx _ _ hp _ hdecode _ _ hall _ hjoined =>
    obtain ⟨hinherits, hnothing, hagreed, hout⟩ := hstored tx _ _ (JoinSession.withMu_self _ _ rfl).symm
    cases hjoined with
    | @failed joinedtx js'' hbuild err =>
      have hout' : js''.out = t.system.session.out := (out_buildJoinedTx hbuild).trans hout
      obtain rfl : sent = [] := List.append_right_eq_self.mp (hsent.symm.trans hout')
      obtain ⟨first, own, rest, -, -, hjs''⟩ := buildJoinedTx_eq_ok hbuild
      refine follows_unagreed rfl hheard ⟨?_, ?_, fun p peer' hp => ?_, fun hloop => ?_⟩ (by simp)
      · exact (congrArg SessionState.agreed (state_buildJoinedTx hbuild)).trans hagreed
      · exact (congrArg JoinSession.joinedTx hjs'').trans hnothing
      · change js''.peers.lookup p = some peer' at hp
        rw [hjs'', GoMap.lookup_mapVal, Option.map_eq_some_iff] at hp
        obtain ⟨peer, hpeer, rfl⟩ := hp
        have hunsigned : peer.signedTx = none := congrArg Prod.snd (hfresh hinherits p peer hpeer)
        rw [joinedPeer, holdJoined]
        split_ifs <;> exact hunsigned
      · -- the loop ends here
        have hstate' := ((state_buildJoinedTx hbuild).trans (state_storeInputs ..)).trans hstate
        cases hloop hstate'
    | @sent joinedtx js'' bytes hbuild hencode =>
      have hout' : js''.out = t.system.session.out := (out_buildJoinedTx hbuild).trans hout
      change js''.out ++ _ = _ at hsent
      rw [hout'] at hsent
      obtain rfl := List.append_cancel_left hsent
      have hkept' : Kept [] t.system.session js'' := (kept_storeInputs txins tx _).trans (kept_buildJoinedTx hbuild)
      have hkeyed' : JoinSession.WellKeyed js''.peers := by
        intro q peer' hq
        obtain ⟨peer, hpeer, hsame⟩ := hkept'.member hq
        exact hsame.id.trans (hkeyed q peer hpeer)
      -- the sender is among those who are sent the transaction
      obtain ⟨peer', hpeer', -⟩ := hkept'.kept hp List.not_mem_nil
      have hany : ((GoMap.values ch.order [688] js''.peers).map fun peer =>
          Output.send peer.conn (.joinedTx bytes)).any Output.isUnsigned = true := by
        rw [List.any_eq_true]
        exact ⟨_, List.mem_map_of_mem (GoMap.mem_values.mpr ⟨_, hpeer'⟩), rfl⟩
      have hnext : Tracked.nextDeal pkgs ch t (.deliver conn) (t.afterMessage (unsignedTx ch bytes js'') .next readers)
          ((GoMap.values ch.order [688] js''.peers).map fun peer => Output.send peer.conn (.joinedTx bytes)) =
            some ⟨joinedtx, (unsignedTx ch bytes js'').members, fun _ => none⟩ := by
        rw [Tracked.nextDeal, announced_of_built hhanded hdecode hbuild hany]
        rfl
      rw [hnext]
      refine ⟨fun hdeal => (Option.some_ne_none _ hdeal).elim, fun deal hdeal => ?_, fun o ho bytes' hbytes => ?_⟩
      · cases hdeal
        exact agreed_of_buildJoinedTx (t.afterMessage (unsignedTx ch bytes js'') .next readers) hbuild hkeyed' hall hnothing (hfresh hinherits) rfl rfl rfl
      · obtain ⟨peer, -, rfl⟩ := List.mem_map.mp ho
        cases hbytes

/-- A message that reaches no final transaction and leaves the loop on its way out. -/
theorem Agreed.after {deal : Deal} (h : Agreed deal t.system) (hbinds : deal.Binds js') (hstate : js'.state = .txSign)
    (hsigning : d = .next → GoMap.len js'.peers ≠ 0 → Collecting deal js') : Agreed deal (t.afterMessage js' d readers) where
  round := (congrArg SessionState.agreed hstate).trans rfl
  owned := h.owned
  binds := hbinds
  signing _ hloop hlen := hsigning (of_decide_eq_true hloop) hlen
  publishing hpublish := by
    change js'.state = .txPublish at hpublish
    rw [hstate] at hpublish
    cases hpublish

/-- With the signed transaction of a member heard. -/
theorem heard_of_signed {signedTx : JoinTx} (hhanded : t.system.handed (.deliver conn) = some (.txSigned signedTx)) {deal : Deal}
    (hdeal : t.deal = some deal) {peer : PeerInfo} {tx : MsgTx} (hp : t.system.session.peers.lookup signedTx.peerId = some peer)
    (hdecode : pkgs.btcDecode signedTx.tx = some tx) :
    Tracked.heard pkgs t (.deliver conn) = some (deal.record signedTx.peerId tx) := by
  rw [Tracked.heard, hhanded]
  simp [hp, hdecode, hdeal]

theorem binds_storeSigned {deal : Deal} {signedTx : JoinTx} {tx : MsgTx} (h : deal.Binds js) :
    deal.Binds (storeSigned signedTx tx js) := by
  intro p peer' hp
  have hindex : Inherits PeerInfo.inputIndex js (storeSigned signedTx tx js) := (Inherits.refl js).setPeer fun _ => rfl
  obtain ⟨peer, hpeer, hsame⟩ := hindex p peer' hp
  obtain ⟨member, hmember, hid, hplaces⟩ := h p peer hpeer
  exact ⟨member, hmember, hid, hplaces.trans hsame.symm⟩

/-- Once all that are left have signed the joined transaction is as agreed. -/
theorem Collecting.honoured {deal : Deal} {tx : MsgTx} (h : Collecting deal js) (hown : deal.Owned)
    (hjoined : js.joinedTx = some tx) (hall : js.allSubmit (fun peer => peer.signedTx.isSome) = true) : deal.Honoured tx := by
  refine (h.merged tx hjoined).honoured hown fun member hmember => ?_
  by_contra hunsigned
  have hnone : deal.signed member.id = none := by simpa using hunsigned
  obtain ⟨peer, hpeer⟩ := GoMap.lookup_of_mem_keys (h.stay member hmember hnone)
  have hsigned : peer.signedTx.isSome = true := List.all_eq_true.mp hall (member.id, peer) (GoMap.mem_toList.mpr hpeer)
  rw [h.own _ _ hpeer, hnone] at hsigned
  cases hsigned

/-- The agreement goes on, and what goes out is as agreed. -/
theorem follows_agreed {deal : Deal} {s' : System} (hquiet : sent.any Output.isUnsigned = false)
    (hheard : Tracked.heard pkgs t (.deliver conn) = some deal) (hagreed : Agreed deal s')
    (hfinal : ∀ o ∈ sent, ∀ bytes, o.finalTx = some bytes → ∃ tx, pkgs.btcEncode tx = some bytes ∧ deal.Honoured tx) :
    Follows pkgs (Tracked.nextDeal pkgs ch t (.deliver conn) s' sent) s' sent := by
  have hkey : s'.session.state ≠ .keyExchange := by
    intro hkey
    have hround := hagreed.round
    rw [hkey] at hround
    cases hround
  rw [nextDeal_of_quiet hquiet, if_neg hkey, hheard]
  refine ⟨fun hdeal => (Option.some_ne_none _ hdeal).elim, fun deal' hdeal => ?_, fun o ho bytes hbytes => ?_⟩
  · cases hdeal
    exact hagreed
  · obtain ⟨tx, hencode, hhonoured⟩ := hfinal o ho bytes hbytes
    exact ⟨deal, tx, rfl, hencode, hhonoured⟩

/-- The end of the signing round. -/
theorem follows_published {deal : Deal} {js'' : JoinSession} (hcollecting : Collecting deal js'') (hown : deal.Owned)
    (hbinds : deal.Binds js'') (hall : js''.allSubmit (fun peer => peer.signedTx.isSome) = true)
    (hstate : js''.state = .txSign) (hquiet : sent.any Output.isUnsigned = false)
    (hheard : Tracked.heard pkgs t (.deliver conn) = some deal) (hpublish : PublishOutcome pkgs ch js'' (.ok (d, js')))
    (hsent : js'.out = js''.out ++ sent) :
    Follows pkgs (Tracked.nextDeal pkgs ch t (.deliver conn) (t.afterMessage js' d readers) sent)
      (t.afterMessage js' d readers) sent := by
  have hencoded : ∀ joinedTx tx, js''.joinedTx = some joinedTx → pkgs.btcEncode joinedTx = some tx →
      (∀ o ∈ sent, ∀ bytes, o.finalTx = some bytes → bytes = tx) →
        ∀ o ∈ sent, ∀ bytes, o.finalTx = some bytes → ∃ tx, pkgs.btcEncode tx = some bytes ∧ deal.Honoured tx := by
    intro joinedTx tx hjoined hencode hsame o ho bytes hbytes
    rw [hsame o ho bytes hbytes]
    exact ⟨joinedTx, hencode, hcollecting.honoured hown hjoined hall⟩
  have hposted : ∀ tx, ∀ o ∈ (serverPosts ch js'' tx).1, ∀ bytes, o.finalTx = some bytes → bytes = tx := by
    intro tx o ho bytes hbytes
    rw [post_of_mem_serverPosts ho] at hbytes
    exact (Option.some_inj.mp hbytes).symm
  cases hpublish with
  | unencodable =>
    obtain rfl : sent = [] := List.append_right_eq_self.mp hsent.symm
    refine follows_agreed hquiet hheard ⟨?_, hown, hbinds, fun _ hloop => ?_, fun hpublish => ?_⟩ (by simp)
    · exact (congrArg SessionState.agreed hstate).trans rfl
    · cases hloop
    · cases hstate.symm.trans hpublish
  | @published joinedTx tx hjoined hencode hpost =>
    change js''.out ++ (serverPosts ch js'' tx).1 ++ _ = _ at hsent
    rw [List.append_assoc] at hsent
    obtain rfl := List.append_cancel_left hsent
    refine follows_agreed hquiet hheard ⟨rfl, hown, hbinds, fun hsign => ?_, fun hpublish => ?_⟩
      (hencoded joinedTx tx hjoined hencode fun o ho bytes hbytes => ?_)
    · cases hsign
    · cases hpublish
    · rcases List.mem_append.mp ho with hfirst | hlast
      · exact hposted tx o hfirst bytes hbytes
      · obtain ⟨peer, -, rfl⟩ := List.mem_map.mp hlast
        exact (Option.some_inj.mp hbytes).symm
  | @unmarshalled joinedTx tx hjoined hencode hpost =>
    obtain rfl : (serverPosts ch js'' tx).1 = sent := List.append_cancel_left hsent
    refine follows_agreed hquiet hheard ⟨?_, hown, hbinds, fun _ hloop => ?_, fun hpublish => ?_⟩
      (hencoded joinedTx tx hjoined hencode (hposted tx))
    · exact (congrArg SessionState.agreed hstate).trans rfl
    · cases hloop
    · cases hstate.symm.trans hpublish
  | @delegated joinedTx tx pubId publisher hjoined hencode hpost hp =>
    change js''.out ++ (serverPosts ch js'' tx).1 ++ _ = _ at hsent
    rw [List.append_assoc] at hsent
    obtain rfl := List.append_cancel_left hsent
    refine follows_agreed hquiet hheard ⟨rfl, hown, hbinds, fun hsign => ?_, fun _ => ?_⟩
      (hencoded joinedTx tx hjoined hencode fun o ho bytes hbytes => ?_)
    · cases hsign
    · exact ⟨joinedTx, hjoined, hcollecting.honoured hown hjoined hall⟩
    · rcases List.mem_append.mp ho with hfirst | hlast
      · exact hposted tx o hfirst bytes hbytes
      · rw [List.mem_singleton.mp hlast] at hbytes
        exact (Option.some_inj.mp hbytes).symm

/-- A signed transaction. -/
theorem follows_txSigned (h : Follows pkgs t.deal t.system []) (hwaits : t.system.loop.waits = true) {signedTx : JoinTx}
    (hhanded : t.system.handed (.deliver conn) = some (.txSigned signedTx)) (hstate : t.system.session.state = .txSign)
    (hfaithful : t.Faithful pkgs (.txSigned signedTx))
    (hhandle : handle pkgs ch t.system.session (.txSigned signedTx) = .ok (d, js'))
    (hsent : js'.out = t.system.session.out ++ sent) :
    Follows pkgs (Tracked.nextDeal pkgs ch t (.deliver conn) (t.afterMessage js' d readers) sent)
      (t.afterMessage js' d readers) sent := by
  obtain ⟨deal, hdeal, hagreed⟩ := exists_of_round h (congrArg SessionState.agreed hstate)
  have hcollecting : ∀ {p peer}, t.system.session.peers.lookup p = some peer → Collecting deal t.system.session :=
    fun hp => hagreed.signing hstate hwaits (GoMap.len_ne_zero_iff.mpr ⟨_, _, hp⟩)
  have houtcome : TxSignedOutcome pkgs ch signedTx t.system.session (.ok (d, js')) :=
    hhandle ▸ handle_outcome pkgs ch (.txSigned signedTx) (mu_of_handle hhandle)
  have hquiet : sent.any Output.isUnsigned = false := by
    rw [List.any_eq_false]
    intro o ho
    rw [isUnsigned_of_answers ((sends_handle (hhandle ▸ handle_outcome pkgs ch (.txSigned signedTx) (mu_of_handle hhandle))).all hsent o ho)
      (by simp [ClientMessage.kind])]
    exact Bool.false_ne_true
  -- nothing goes out before all have signed
  have hsilent : ∀ {js : JoinSession}, js.out = t.system.session.out → js.out = t.system.session.out ++ sent → sent = [] :=
    fun hout hsent => List.append_right_eq_self.mp (hsent.symm.trans hout)
  have haccept : ∀ {peer tx js''}, t.system.session.peers.lookup signedTx.peerId = some peer →
      pkgs.btcDecode signedTx.tx = some tx → ¬ peer.signedTx.isSome = true →
      invalidInput tx peer.ownInputs 0 peer.inputIndex = .ok false →
      mergeSigned tx peer.inputIndex (storeSigned signedTx tx t.system.session) = .ok js'' →
      Collecting (deal.record signedTx.peerId tx) js'' ∧ (deal.record signedTx.peerId tx).Binds js'' ∧ js''.state = .txSign := by
    intro peer tx js'' hp hdecode hsigned hvalid hmerge
    have hunsigned : peer.signedTx = none := by simpa using hsigned
    have hagrees := hfaithful deal hdeal peer hp tx hdecode hunsigned hvalid
    obtain ⟨_, hjs''⟩ := mergeSigned_eq_ok hmerge
    refine ⟨(hcollecting hp).accepted hagreed.owned hagreed.binds hp hunsigned hagrees hmerge, ?_, ?_⟩
    · rw [hjs'']
      exact @binds_storeSigned t.system.session deal signedTx tx hagreed.binds
    · rw [hjs'']
      exact hstate
  cases houtcome with
  | stranger hp =>
    obtain rfl := hsilent rfl hsent
    refine follows_agreed hquiet ?_ (hagreed.after hagreed.binds hstate fun _ hlen => hagreed.signing hstate hwaits hlen) (by simp)
    rw [Tracked.heard, hhanded]
    simp [hp, hdeal]
  | undecodable hp hdecode =>
    obtain rfl := hsilent rfl hsent
    refine follows_agreed hquiet ?_ (hagreed.after hagreed.binds hstate fun hnext => ?_) (by simp)
    · rw [Tracked.heard, hhanded]
      simp [hp, hdecode, hdeal]
    · cases hnext
  | @again peer tx hp hdecode hsigned =>
    obtain rfl := hsilent rfl hsent
    obtain ⟨own, hown⟩ := Option.isSome_iff_exists.mp hsigned
    have hsame : deal.record signedTx.peerId tx = deal :=
      record_of_signed (((hcollecting hp).own _ _ hp).symm.trans hown)
    refine follows_agreed hquiet ?_ (hagreed.after hagreed.binds hstate fun _ hlen => hagreed.signing hstate hwaits hlen) (by simp)
    rw [heard_of_signed hhanded hdeal hp hdecode, hsame]
  | @invalid peer tx hp hdecode _ _ =>
    obtain rfl := hsilent rfl hsent
    refine follows_agreed hquiet (heard_of_signed hhanded hdeal hp hdecode) ⟨?_, ⟨hagreed.owned.places, hagreed.owned.ids⟩,
      binds_storeSigned hagreed.binds, fun _ hloop => ?_, fun hpublish => ?_⟩ (by simp)
    · exact (congrArg SessionState.agreed hstate).trans rfl
    · cases hloop
    · cases hstate.symm.trans hpublish
  | @waiting peer tx _ hp hdecode hsigned hvalid hmerge _ =>
    obtain rfl := hsilent ((out_mergeSigned hmerge).trans rfl) hsent
    obtain ⟨haccepted, hbinds, hsign⟩ := haccept hp hdecode hsigned hvalid hmerge
    refine follows_agreed hquiet (heard_of_signed hhanded hdeal hp hdecode) ⟨?_, ⟨hagreed.owned.places, hagreed.owned.ids⟩,
      hbinds, fun _ _ _ => haccepted, fun hpublish => ?_⟩ (by simp)
    · exact (congrArg SessionState.agreed hsign).trans rfl
    · cases hsign.symm.trans hpublish
  | @ended peer tx js'' hp hdecode hsigned hvalid hmerge hall _ hpublish =>
    obtain ⟨haccepted, hbinds, hsign⟩ := haccept hp hdecode hsigned hvalid hmerge
    have hout : js''.out = t.system.session.out := (out_mergeSigned hmerge).trans rfl
    exact follows_published haccepted ⟨hagreed.owned.places, hagreed.owned.ids⟩ hbinds hall hsign hquiet
      (heard_of_signed hhanded hdeal hp hdecode) hpublish (hout ▸ hsent)

/-- A result. -/
theorem follows_txPublishResult (h : Follows pkgs t.deal t.system []) {pubResult : PublishResult}
    (hhanded : t.system.handed (.deliver conn) = some (.txPublishResult pubResult)) (hstate : t.system.session.state = .txPublish)
    (hfaithful : t.Faithful pkgs (.txPublishResult pubResult))
    (hhandle : handle pkgs ch t.system.session (.txPublishResult pubResult) = .ok (d, js'))
    (hsent : js'.out = t.system.session.out ++ sent) :
    Follows pkgs (Tracked.nextDeal pkgs ch t (.deliver conn) (t.afterMessage js' d readers) sent)
      (t.afterMessage js' d readers) sent := by
  obtain ⟨deal, hdeal, hagreed⟩ := exists_of_round h (congrArg SessionState.agreed hstate)
  obtain ⟨joinedTx, hjoined, hhonoured⟩ := hagreed.publishing hstate
  have hencode : pkgs.btcEncode joinedTx = some pubResult.tx := by
    have hbind : t.system.session.joinedTx.bind pkgs.btcEncode = some pubResult.tx := hfaithful
    rwa [hjoined] at hbind
  have hresult : handle pkgs ch t.system.session (.txPublishResult pubResult) =
      .ok (⟨none, .breakLoop⟩, resultSent ch pubResult.tx t.system.session) :=
    txPublishResult_eq ch pubResult (mu_of_handle hhandle)
  cases hresult.symm.trans hhandle
  obtain rfl := List.append_cancel_left hsent
  refine follows_agreed ?_ ?_ ⟨rfl, hagreed.owned, hagreed.binds, fun hsign => ?_, fun hpublish => ?_⟩ fun o ho bytes hbytes => ?_
  · rw [List.any_eq_false]
    intro o ho
    obtain ⟨peer, -, rfl⟩ := List.mem_map.mp ho
    exact Bool.false_ne_true
  · rw [heard_of_handed hhanded (by simp [ClientMessage.kind]), hdeal]
  · cases hsign
  · cases hpublish
  · obtain ⟨peer, -, rfl⟩ := List.mem_map.mp ho
    cases hbytes
    exact ⟨joinedTx, hencode, hhonoured⟩

/-- A message through the handler. -/
theorem follows_message (h : Follows pkgs t.deal t.system []) (hkeyed : JoinSession.WellKeyed t.system.session.peers)
    (hwaits : t.system.loop.waits = true) (hhanded : t.system.handed (.deliver conn) = some msg)
    (htimely : Tracked.Timely t.system.session msg) (hfaithful : t.Faithful pkgs msg)
    (hhandle : handle pkgs ch t.system.session msg = .ok (d, js')) (hsent : js'.out = t.system.session.out ++ sent) :
    Follows pkgs (Tracked.nextDeal pkgs ch t (.deliver conn) (t.afterMessage js' d readers) sent)
      (t.afterMessage js' d readers) sent := by
  rcases htimely with hvalid | ⟨hkind, hstranger⟩
  · cases msg with
    | keyExchange => exact follows_early h hwaits hhanded hvalid rfl hhandle hsent
    | dcExpVector => exact follows_early h hwaits hhanded hvalid rfl hhandle hsent
    | dcXorVector => exact follows_early h hwaits hhanded hvalid rfl hhandle hsent
    | revealSecret => exact follows_early h hwaits hhanded hvalid rfl hhandle hsent
    | msgNotFound => exact follows_early h hwaits hhanded hvalid rfl hhandle hsent
    | txInputs => exact follows_txInputs h hkeyed hwaits hhanded (of_decide_eq_true hvalid) hhandle hsent
    | txSigned => exact follows_txSigned h hwaits hhanded (of_decide_eq_true hvalid) hfaithful hhandle hsent
    | txPublishResult => exact follows_txPublishResult h hhanded (of_decide_eq_true hvalid) hfaithful hhandle hsent
  · obtain rfl := handle_stranger hhandle hkind hstranger
    obtain rfl : sent = [] := List.append_right_eq_self.mp hsent.symm
    refine follows_stranger h hwaits ?_
    by_cases hsigned : msg.kind = .txSigned
    · cases msg with
      | txSigned signedTx =>
        have hnone : t.system.session.peers.lookup signedTx.peerId = none := AList.lookup_eq_none.mpr hstranger
        rw [Tracked.heard, hhanded]
        simp [hnone]
      | _ => cases hsigned
    · exact heard_of_handed hhanded hsigned

end Deliver

end Messages

/-! ### Runs -/

section Runs
variable {pkgs : Packages} {t t' : Tracked}

/-- Where a run stands. -/
structure Standing (pkgs : Packages) (t : Tracked) : Prop where
  reachable : Reachable pkgs t.system
  follows : Follows pkgs t.deal t.system []
  finals : ∀ e ∈ t.finals, Final pkgs e

theorem standing_step {e : Choices × Event} (h : Standing pkgs t) (hok : t.Orderly pkgs e) (hstep : t.step pkgs e = some t') :
    Standing pkgs t' := by
  obtain ⟨ch, ev⟩ := e
  obtain ⟨s', hsystem, rfl⟩ := Option.map_eq_some_iff.mp hstep
  have hstepped := stepped_of_step hsystem
  obtain ⟨sent, hsent⟩ : ∃ sent, s'.session.out = t.system.session.out ++ sent := by
    rcases sends_of_stepped hstepped with ⟨_, _, _, _, _, _, sent, hsent, _⟩ | ⟨sent, hsent, _⟩
    · exact ⟨sent, hsent⟩
    · exact ⟨sent, hsent⟩
  have hdrop : s'.session.out.drop t.system.session.out.length = sent := by rw [hsent, List.drop_left]
  have hfollows : Follows pkgs (Tracked.nextDeal pkgs ch t ev s' sent) s' sent := by
    by_cases hev : ∃ conn, ev = .deliver conn
    · obtain ⟨conn, rfl⟩ := hev
      cases hstepped with
      | @deliver _ sessionId state msg timer d js hloop hreader hhandle =>
        have hhanded : t.system.handed (.deliver conn) = some msg := by
          rw [System.handed, hreader]
        obtain ⟨htimely, hfaithful⟩ := hok.1 msg hhanded
        have hwaits : t.system.loop.waits = true := by
          rw [hloop]
          rfl
        exact follows_message h.follows h.reachable.wellFormed.keyed hwaits hhanded htimely hfaithful hhandle hsent
    · exact follows_unhanded h.follows hok hstepped (not_exists.mp hev) hsent
  rw [hdrop]
  refine ⟨h.reachable.step hsystem, ⟨hfollows.unagreed, hfollows.agreed, by simp⟩, fun e he => ?_⟩
  rcases List.mem_append.mp he with hold | hnew
  · exact h.finals e hold
  · obtain ⟨bytes, hbytes, rfl⟩ := List.mem_map.mp hnew
    obtain ⟨o, ho, hfinal⟩ := List.mem_filterMap.mp hbytes
    exact hfollows.settled o ho bytes hfinal

theorem standing_start (sessionId roundTimeOut : ℕ) (serverPublish : Bool) {queue : List (ℕ × ℕ)}
    (hconn : (queue.map Prod.fst).Nodup) (hid : (queue.map Prod.snd).Nodup) :
    Standing pkgs (.start (newJoinSession sessionId roundTimeOut serverPublish (queuePeers queue))) where
  reachable := .start sessionId roundTimeOut serverPublish queue hconn hid
  follows := by
    refine ⟨fun _ => ⟨rfl, rfl, fun p peer hp => ?_, fun _ p peer hp => ?_⟩, fun _ hdeal => ?_, by simp⟩
    · obtain ⟨conn, -, rfl⟩ := lookup_newJoinSession sessionId roundTimeOut serverPublish hp
      rfl
    · obtain ⟨conn, -, rfl⟩ := lookup_newJoinSession sessionId roundTimeOut serverPublish hp
      rfl
    · exact (Option.some_ne_none _ hdeal.symm).elim
  finals := fun _ he => (List.not_mem_nil he).elim

/-- **What goes out after signing is what was agreed on.** -/
theorem transaction_integrity (sessionId roundTimeOut : ℕ) (serverPublish : Bool) (queue : List (ℕ × ℕ))
    (hconn : (queue.map Prod.fst).Nodup) (hid : (queue.map Prod.snd).Nodup)
    (hrun : RunsTo (Tracked.step pkgs) (Tracked.Orderly pkgs)
      (.start (newJoinSession sessionId roundTimeOut serverPublish (queuePeers queue))) t) :
    ∀ e ∈ t.finals, ∃ deal tx, e.1 = some deal ∧ pkgs.btcEncode tx = some e.2 ∧ deal.Honoured tx :=
  (hrun.invariant (standing_start sessionId roundTimeOut serverPublish hconn hid)
    fun _ _ _ hs hok hstep => standing_step hs hok hstep).finals

end Runs

/-! ### Two wallets -/

def twoStart : Tracked := .start (newJoinSession 7 60 false (queuePeers [(1, 1), (2, 2)]))

/-- Packages under which the wallets send `signed` back. -/
def dealPackages (signed : MsgTx) : Packages :=
  { walletPackages with
    btcEncode := fun tx => if tx = tradedTx (walletTx 1) then some [9] else if tx = signed then some [10] else none
    btcDecode := fun bytes =>
      if bytes = [1] then some (walletTx 1) else if bytes = [2] then some (walletTx 2) else some signed }

/-- The transaction of the two, signed. -/
def signedDeal : MsgTx :=
  { tradedTx (walletTx 1) with
    txIn := (tradedTx (walletTx 1)).txIn.map fun txin => { txin with signatureScript := [7] } }

/-- Both sign, and the second publishes `result`. -/
def dealRun (result : Bytes) : List (Choices × Event) :=
  tradeRun ++ turn 1 (.txSigned ⟨0, [3]⟩) ++ turn 2 (.txSigned ⟨0, [3]⟩) ++ turn 2 (.txPublishResult ⟨0, result⟩)

/-- A step of the two, if it is orderly. -/
def dealStep (t : Tracked) (e : Choices × Event) : Option Tracked :=
  if decide (Tracked.Orderly (dealPackages signedDeal) t e) then t.step (dealPackages signedDeal) e else none

/-- Where the two are after the run. -/
def dealt : Tracked := after dealStep twoStart (dealRun [10])

theorem transaction_integrity_wallets : dealt.finals.map Prod.snd = [[10], [10], [10]] ∧
    ∀ e ∈ dealt.finals, ∃ deal tx, e.1 = some deal ∧ (dealPackages signedDeal).btcEncode tx = some e.2 ∧ deal.Honoured tx := by
  have hrun : (dealRun [10]).foldlM dealStep twoStart = some dealt := foldlM_eq_after (by decide +kernel)
  refine ⟨by decide +kernel, ?_⟩
  exact transaction_integrity 7 60 false [(1, 1), (2, 2)] (by decide) (by decide)
    (.of_checked (fun t e => decide (Tracked.Orderly (dealPackages signedDeal) t e)) (fun _ _ => of_decide_eq_true) hrun)

/-- The same without the outputs. -/
def forgedDeal : MsgTx := { signedDeal with txOut := [] }

/-- A final transaction that differs from the unsigned one in more than scripts. -/
theorem not_final {pkgs : Packages} {finals : List (Option Deal × Bytes)} (unsigned : MsgTx) (bytes : Bytes)
    (hmem : (some unsigned, bytes) ∈ finals.map fun e => (e.1.map Deal.unsigned, e.2))
    (hother : ∀ tx, pkgs.btcEncode tx = some bytes → tx.stripped ≠ unsigned.stripped) : ∃ e ∈ finals, ¬ Final pkgs e := by
  obtain ⟨e, he, heq⟩ := List.mem_map.mp hmem
  rw [Prod.mk.injEq] at heq
  refine ⟨e, he, fun hfinal => ?_⟩
  obtain ⟨deal, tx, hdeal, hencode, hhonoured⟩ := hfinal
  rw [hdeal, Option.map_some, Option.some_inj] at heq
  rw [heq.2] at hencode
  exact hother tx hencode (heq.1 ▸ hhonoured.same)

/-- A transaction that spends the inputs without the outputs is sent to be published, and a
result that encodes no transaction is passed on. -/
theorem outputs_dropped :
    (∃ t, RunsTo (Tracked.step (dealPackages forgedDeal)) (fun _ _ => True) twoStart t ∧
      ∃ e ∈ t.finals, ¬ Final (dealPackages forgedDeal) e) ∧
    ∃ t, RunsTo (Tracked.step (dealPackages signedDeal)) (fun _ _ => True) twoStart t ∧
      ∃ e ∈ t.finals, ¬ Final (dealPackages signedDeal) e := by
  constructor
  · refine ⟨_, .of_events (dealRun [10]) (foldlM_eq_after (by decide +kernel)), ?_⟩
    refine not_final (tradedTx (walletTx 1)) [10] (by decide +kernel) fun tx htx => ?_
    simp only [dealPackages] at htx
    split_ifs at htx with htraded hforged
    · exact absurd (Option.some_inj.mp htx) (by decide)
    · rw [hforged]
      decide +kernel
  · refine ⟨_, .of_events (dealRun [11]) (foldlM_eq_after (by decide +kernel)), ?_⟩
    refine not_final (tradedTx (walletTx 1)) [11] (by decide +kernel) fun tx htx => ?_
    simp only [dealPackages] at htx
    split_ifs at htx with htraded hsigned
    · exact absurd (Option.some_inj.mp htx) (by decide)
    · exact absurd (Option.some_inj.mp htx) (by decide)

end Dcrtxmatcher.Coinjoin
