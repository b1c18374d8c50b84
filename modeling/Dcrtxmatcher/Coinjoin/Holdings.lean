import Dcrtxmatcher.Coinjoin.Pending

/-! What the members hold after a step.

A step takes members out or starts the session anew; what is left of them in between
holds what it held, but for the datum of a message. -/
namespace Dcrtxmatcher.Coinjoin
open Lib

/-- Every member was one before, and holds the same by `f`. -/
def Inherits {α : Type} (f : PeerInfo → α) (js js' : JoinSession) : Prop :=
  ∀ p peer', js'.peers.lookup p = some peer' → ∃ peer, js.peers.lookup p = some peer ∧ f peer' = f peer

namespace Inherits
variable {α : Type} {f : PeerInfo → α} {js js' js'' : JoinSession}

theorem refl (js : JoinSession) : Inherits f js js := fun _ peer hp => ⟨peer, hp, rfl⟩

theorem trans (h : Inherits f js js') (h' : Inherits f js' js'') : Inherits f js js'' := by
  intro p peer'' hp
  obtain ⟨peer', hp', hsame'⟩ := h' p peer'' hp
  obtain ⟨peer, hp, hsame⟩ := h p peer' hp'
  exact ⟨peer, hp, hsame'.trans hsame⟩

/-- The rest of the session does not matter. -/
theorem congr (h : Inherits f js js') (hpeers : js''.peers = js'.peers) : Inherits f js js'' := by
  intro p peer hp
  rw [hpeers] at hp
  exact h p peer hp

theorem setPeer (h : Inherits f js js') {q : ℕ} {g : PeerInfo → PeerInfo} (hg : ∀ peer, f (g peer) = f peer) :
    Inherits f js (js'.setPeer q g) := by
  apply h.trans
  intro p peer' hp
  rw [JoinSession.setPeer, GoMap.modify, GoMap.lookup_mapVal, Option.map_eq_some_iff] at hp
  obtain ⟨peer, hp, rfl⟩ := hp
  refine ⟨peer, hp, ?_⟩
  split_ifs
  · exact hg peer
  · rfl

theorem removePeers (h : Inherits f js js') (ps : List ℕ) : Inherits f js (js'.removePeers ps) := by
  apply h.trans
  intro p peer hp
  rw [lookup_removePeers] at hp
  split_ifs at hp
  exact ⟨peer, hp, rfl⟩

theorem removePeer (h : Inherits f js js') (p : ℕ) : Inherits f js (js'.removePeer p) := h.removePeers [p]

theorem comp (h : Inherits f js js') {β : Type} (g : α → β) : Inherits (g ∘ f) js js' := by
  intro p peer' hp
  obtain ⟨peer, hpeer, hsame⟩ := h p peer' hp
  exact ⟨peer, hpeer, congrArg g hsame⟩

end Inherits

/-! ### Steps that take no message -/

section Steps
variable {α : Type} {f : PeerInfo → α} {pkgs : Packages} {ch : Choices} {js js' js'' : JoinSession}

theorem JoinSession.ChangeOutcome.inherits {site : List ℕ} {b : Bool}
    (h : JoinSession.ChangeOutcome pkgs ch site js' (.ok (b, js''))) (hinherits : Inherits f js js') : Inherits f js js'' := by
  cases h with
  | failed => exact hinherits.congr rfl
  | changed => exact hinherits.congr rfl

theorem Republishing.inherits {b : Bool} (h : Republishing pkgs ch js' b js'') (hinherits : Inherits f js js') :
    Inherits f js js'' := by
  induction h with
  | done => exact hinherits
  | emptied => exact hinherits.removePeer _
  | failed => exact (hinherits.removePeer _).congr rfl
  | changed _ _ _ _ ih => exact ih ((hinherits.removePeer _).congr rfl)

theorem InformOutcome.inherits {d : Done} (h : InformOutcome js' (.ok (d, js''))) (hinherits : Inherits f js js') :
    Inherits f js js'' := by
  cases h with
  | nobody => exact hinherits
  | dropped => exact hinherits.removePeers _

theorem inherits_timeout {d : Done} (h : timeout pkgs ch js = .ok (d, js')) : Inherits f js js' := by
  have hlate : Inherits f js (js.timedOut ch) := (Inherits.refl js).congr rfl
  have houtcome := timeout_outcome pkgs ch (mu_of_timeout h)
  rw [h] at houtcome
  cases houtcome with
  | returned _ _ hrep => exact (hrep.inherits (hlate.congr rfl)).congr rfl
  | republished _ _ hrep hinform =>
    apply hinform.inherits
    exact (hrep.inherits (hlate.congr rfl)).congr rfl
  | informed _ hinform => exact hinform.inherits hlate

theorem inherits_readError {peer : PeerInfo} (h : readError pkgs ch peer js = .ok js') : Inherits f js js' := by
  have hremove : Inherits f js (js.removePeer peer.id) := (Inherits.refl js).removePeer _
  have houtcome := readError_outcome pkgs ch peer (mu_of_readError h)
  rw [h] at houtcome
  cases houtcome with
  | left => exact hremove
  | kept => exact .refl js
  | emptied => exact hremove
  | changed _ _ hchange => exact (hchange.inherits (hremove.congr rfl)).congr rfl

theorem inherits_writeError {peer : PeerInfo} (h : writeError pkgs ch peer js = .ok js') : Inherits f js js' := by
  have hremove : Inherits f js (js.removePeer peer.id) := (Inherits.refl js).removePeer _
  have houtcome := writeError_outcome pkgs ch peer (mu_of_writeError h)
  rw [h] at houtcome
  cases houtcome with
  | left => exact hremove
  | kept => exact .refl js
  | changed _ _ hchange => exact (hchange.inherits (hremove.congr rfl)).congr rfl
  | locked _ _ hchange => exact hchange.inherits (hremove.congr rfl)

/-- A restarted session has nobody but peers that are reset. -/
theorem lookup_expelled {ps : List ℕ} {p : ℕ} {peer : PeerInfo} (h : (js.expelled ch ps).peers.lookup p = some peer) :
    ∃ old id sessionId, peer = PeerInfo.resetData old id sessionId := by
  rw [JoinSession.expelled] at h
  split at h
  · rename_i hempty
    exact absurd hempty (GoMap.len_ne_zero_iff.mpr ⟨p, peer, h⟩)
  · obtain ⟨new, hmem, heq⟩ := List.mem_map.mp (GoMap.mem_of_lookup_ofList h)
    cases heq
    obtain ⟨⟨old, i⟩, -, rfl⟩ := List.mem_map.mp hmem
    exact ⟨old, _, _, rfl⟩

end Steps

/-! ### Messages -/

/-- The transaction of a member, its messages and what it pays for each. -/
def PeerInfo.bid (peer : PeerInfo) : Option MsgTx × ℕ × ℤ := (peer.txIns, peer.numMsg, peer.ticketPrice)

section Messages
variable {α : Type} {f : PeerInfo → α} {pkgs : Packages} {ch : Choices} {js js' : JoinSession} {d : Done}

theorem inherits_keyExchange (hf : ∀ peer pk numMsg, f { peer with pk := pk, numMsg := numMsg } = f peer)
    {req : KeyExchangeReq} (h : KeyExchangeOutcome pkgs ch req js (.ok (d, js'))) : Inherits f js js' := by
  have hannounce : ∀ peer, Inherits f js (announce req peer js) := by
    intro peer
    have hset : Inherits f js (js.setPeer req.peerId fun peer => { peer with pk := req.pk, numMsg := req.numMsg }) :=
      (Inherits.refl js).setPeer fun _ => hf ..
    exact hset.congr rfl
  cases h with
  | stranger => exact .refl js
  | invalid => exact (Inherits.refl js).removePeer _
  | waiting => exact hannounce _
  | unmarshalled => exact (hannounce _).removePeer _
  | @complete peer => exact (hannounce peer).congr rfl

theorem inherits_dcExpVector (hf : ∀ peer vector, f { peer with dcExpVector := vector } = f peer) {data : DcVector}
    (h : DcExpOutcome pkgs ch data js (.ok (d, js'))) : Inherits f js js' := by
  have hstore : ∀ vector, Inherits f js (storeExp data vector js) := fun _ => (Inherits.refl js).setPeer fun _ => hf ..
  cases h with
  | stranger => exact .refl js
  | short => exact .refl js
  | rejected => exact (Inherits.refl js).congr rfl
  | waiting => exact hstore _
  | ended _ _ _ _ _ hsolve =>
    cases hsolve with
    | unsolved => exact (hstore _).congr rfl
    | failed => exact (hstore _).congr rfl
    | solved => exact (hstore _).congr rfl

theorem inherits_dcXorVector (hf : ∀ peer vector, f { peer with dcXorVector := vector } = f peer) {data : DcVector}
    (h : DcXorOutcome pkgs ch data js (.ok (d, js'))) : Inherits f js js' := by
  have hstore : ∀ dcXor, Inherits f js (storeXor data dcXor js) := fun _ => (Inherits.refl js).setPeer fun _ => hf ..
  cases h with
  | short => exact .refl js
  | stranger => exact .refl js
  | waiting => exact (hstore _).congr rfl
  | failed => exact (hstore _).congr rfl
  | complete => exact (hstore _).congr rfl

theorem inherits_txSigned (hf : ∀ peer tx, f { peer with signedTx := tx } = f peer) {signedTx : JoinTx}
    (h : TxSignedOutcome pkgs ch signedTx js (.ok (d, js'))) : Inherits f js js' := by
  have hstore : ∀ tx, Inherits f js (storeSigned signedTx tx js) := fun _ => (Inherits.refl js).setPeer fun _ => hf ..
  cases h with
  | stranger => exact .refl js
  | undecodable => exact (Inherits.refl js).congr rfl
  | again => exact .refl js
  | invalid => exact hstore _
  | waiting _ _ _ _ hmerge =>
    obtain ⟨_, rfl⟩ := mergeSigned_eq_ok hmerge
    exact (hstore _).congr rfl
  | ended _ _ _ _ hmerge _ hpublish =>
    obtain ⟨_, rfl⟩ := mergeSigned_eq_ok hmerge
    cases hpublish with
    | unencodable => exact (hstore _).congr rfl
    | published => exact (hstore _).congr rfl
    | unmarshalled => exact (hstore _).congr rfl
    | delegated => exact (hstore _).congr rfl

theorem inherits_revealSecret (hf : ∀ peer vk, f { peer with vk := vk } = f peer) {rvSecret : RevealSecret}
    (h : RevealOutcome pkgs ch rvSecret js (.ok (d, js'))) : Inherits f js js' := by
  have hstore : Inherits f js (storeSecret rvSecret js) := (Inherits.refl js).setPeer fun _ => hf ..
  cases h with
  | stranger => exact .refl js
  | failed => exact hstore.congr rfl
  | found => exact hstore.congr rfl
  | waiting => exact hstore.congr rfl

theorem inherits_msgNotFound {data : MsgNotFound} (h : MsgNotFoundOutcome ch data js (.ok (d, js'))) :
    Inherits f js js' := by
  cases h with
  | stranger => exact .refl js
  | asked => exact (Inherits.refl js).congr rfl

/-- Only keys and inputs change what a member bids. -/
theorem inherits_handle {msg : ClientMessage} (h : HandleOutcome pkgs ch js msg (.ok (d, js'))) :
    (∃ req, msg = .keyExchange req ∧ Inherits (·.txIns) js js') ∨ (∃ txins, msg = .txInputs txins) ∨
      Inherits PeerInfo.bid js js' := by
  cases msg with
  | keyExchange req => exact .inl ⟨req, rfl, inherits_keyExchange (fun _ _ _ => rfl) h⟩
  | txInputs txins => exact .inr (.inl ⟨txins, rfl⟩)
  | dcExpVector data => exact .inr (.inr (inherits_dcExpVector (fun _ _ => rfl) h))
  | dcXorVector data => exact .inr (.inr (inherits_dcXorVector (fun _ _ => rfl) h))
  | txSigned signedTx => exact .inr (.inr (inherits_txSigned (fun _ _ => rfl) h))
  | txPublishResult pubResult =>
    cases h
    exact .inr (.inr ((Inherits.refl js).congr rfl))
  | revealSecret rvSecret => exact .inr (.inr (inherits_revealSecret (fun _ _ => rfl) h))
  | msgNotFound data => exact .inr (.inr (inherits_msgNotFound h))

end Messages

end Dcrtxmatcher.Coinjoin
