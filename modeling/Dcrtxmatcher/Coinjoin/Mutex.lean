import Dcrtxmatcher.Coinjoin.Reference
import Dcrtxmatcher.Coinjoin.Steps

/-! The discipline of the session's mutex.

A goroutine that wakes up with the mutex free is disciplined when it neither locks
what it holds nor unlocks what it does not hold, and leaves the mutex free. There
are three ways not to be: `pushMaliciousInfo` called with the mutex held, an exit
that forgets `Unlock`, and a `break LOOP` after `Unlock` while `errm` is set, as the
end of `run` then unlocks once more (`Offending`). -/
namespace Dcrtxmatcher.Coinjoin
open Lib

/-- What wakes up a goroutine of the session. -/
inductive Wakeup where
  | timeout
  | message (msg : ClientMessage)
  | read (peer : PeerInfo) (raw : RawMessage)
  | readError (peer : PeerInfo)
  | writeError (peer : PeerInfo)

/-- From the select to the next one, or out of the loop. -/
def throughLoop (ch : Choices) (r : Handled) : Except Fault JoinSession := do
  let (d, js) ← r
  let (_, js) ← finish ch d js
  .ok js

/-- What a goroutine does until it waits again. -/
def Wakeup.run (pkgs : Packages) (ch : Choices) (js : JoinSession) : Wakeup → Except Fault JoinSession
  | .timeout => throughLoop ch (Coinjoin.timeout pkgs ch js)
  | .message msg => throughLoop ch (handle pkgs ch js msg)
  | .read peer raw => do
    let (pc, js) ← readMessage peer raw js
    match pc with
    | .pushing peerId => js.pushMaliciousInfo ch [peerId]
    | _ => .ok js
  | .readError peer => Coinjoin.readError pkgs ch peer js
  | .writeError peer => Coinjoin.writeError pkgs ch peer js

/-- It never locks what it holds nor unlocks what it does not hold, and the mutex is
free in the end. A panic ends the process, whoever holds the mutex. -/
def Disciplined : Except Fault JoinSession → Prop
  | .ok js => js.mu = false
  | .error f => f = .panic

/-! ### Through the loop -/

section Loop
variable {ch : Choices} {js : JoinSession}

theorem disciplined_panic : Disciplined (throughLoop ch (.error .panic)) := rfl

/-- Leaving a case with the mutex free goes wrong only by breaking with an error. -/
theorem disciplined_free {d : Done} (hmu : js.mu = false) :
    Disciplined (throughLoop ch (.ok (d, js))) ↔ ¬(d.exit = .breakLoop ∧ js.errm.isSome = true) := by
  rw [throughLoop, ok_bind]
  dsimp only
  rw [finish_free ch d hmu]
  split_ifs with hbreak
  · simp [Disciplined, hbreak]
  · simpa [Disciplined, hmu] using hbreak

/-- Breaking with an error and the mutex is what the end of `run` is made for. -/
theorem disciplined_failed (err : Errm) : Disciplined (throughLoop ch (failed err js)) := by
  rw [failed, throughLoop, ok_bind]
  dsimp only
  rw [finish_held ch _ rfl]
  rfl

/-- Going on with the mutex held is never right. -/
theorem not_disciplined_held : ¬Disciplined (throughLoop ch (.ok (.next, js.withMu true))) := by
  rw [throughLoop, ok_bind]
  dsimp only
  rw [finish_held ch _ rfl]
  simp [Done.next, Disciplined]

theorem disciplined_next {push : Option (List ℕ)} (hmu : js.mu = false) :
    Disciplined (throughLoop ch (.ok (⟨push, .next⟩, js))) :=
  (disciplined_free hmu).mpr fun h => by cases h.1

end Loop

/-! ### Who offends -/

section Offending
variable (pkgs : Packages) (ch : Choices) (js : JoinSession)

/-- The inputs spend less than what goes out. -/
def Overspent (txins : TxInputs) : Prop :=
  ∃ peer tx change outs, js.peers.lookup txins.peerId = some peer ∧ pkgs.btcDecode txins.txins = some tx ∧
    tx.txOut = change :: outs ∧
    dcr (sumInputs 0 tx.txIn).1 < dcr (wrap64 (change.value + wrap64 (peer.numMsg * txins.ticketPrice)))

/-- The signed transaction is the last one, and the server publishes the result. -/
def ServerPublishes (signedTx : JoinTx) : Prop :=
  ∃ peer tx js' joinedTx bytes, js.peers.lookup signedTx.peerId = some peer ∧
    pkgs.btcDecode signedTx.tx = some tx ∧ ¬peer.signedTx.isSome = true ∧
    invalidInput tx peer.ownInputs 0 peer.inputIndex = .ok false ∧
    mergeSigned tx peer.inputIndex (storeSigned signedTx tx js) = .ok js' ∧
    js'.allSubmit (fun peer => peer.signedTx.isSome) = true ∧ js'.joinedTx = some joinedTx ∧
    pkgs.btcEncode joinedTx = some bytes ∧ (serverPosts ch js' bytes).2 = true

/-- `break LOOP` after `Unlock`. -/
def BreaksUnlocked : ClientMessage → Prop
  | .dcExpVector data =>
    (∃ peer, js.peers.lookup data.peerId = some peer) ∧ data.vector.length < pkScriptHashSize * 2
  | .dcXorVector data => data.vector.length < pkScriptSize * 2
  | .txInputs txins => (∃ peer, js.peers.lookup txins.peerId = some peer) ∧ txins.ticketPrice ≤ 0
  | .txSigned signedTx => ServerPublishes pkgs ch js signedTx
  | .txPublishResult _ => True
  | _ => False

/-- What the loop does wrong with a message: it breaks after `Unlock` with `errm` set,
or goes on with the mutex held when the inputs spend too little. -/
def OffendingMessage (msg : ClientMessage) : Prop :=
  js.errm.isSome = true ∧ BreaksUnlocked pkgs ch js msg ∨
    ∃ txins, msg = .txInputs txins ∧ 0 < txins.ticketPrice ∧ Overspent pkgs js txins

/-- Where the code is not disciplined. A timeout is not when peers are late, or have
been late once in this session, and the session is past the key exchange; of the
connections that fail those of members are not in the rounds that restart, and the
publisher's when the joined transaction cannot be encoded. -/
def Offending : Wakeup → Prop
  | .timeout =>
    js.state ≠ .keyExchange ∧ (js.timedOut ch).missedPeers ≠ [] ∧
      (js.state = .txPublish → ∃ js', changePublishers pkgs ch (GoMap.range ch.order [229] js.peers)
        ((js.timedOut ch).withMu true) = .ok (true, js'))
  | .message msg => OffendingMessage pkgs ch js msg
  | .read peer raw =>
    raw = .unknown ∨ raw.kind = some .msgNotFound ∧ admission .msgNotFound peer.id js = .refusedLocked
  | .readError peer => js.state.restarts = true ∧ peer.id ∈ js.peers.keys
  | .writeError peer =>
    js.state.restarts = true ∨ js.state = .txPublish ∧ js.publisher = peer.id ∧
      ∃ joinedTx, js.joinedTx = some joinedTx ∧ (pkgs.btcEncode joinedTx = none ∨ ch.marshal [354] = false)

end Offending

/-! ### Messages -/

section Messages
variable {pkgs : Packages} {ch : Choices} {js : JoinSession}

theorem disciplined_keyExchange {req : KeyExchangeReq} {r : Handled} (hmu : js.mu = false)
    (h : KeyExchangeOutcome pkgs ch req js r) : Disciplined (throughLoop ch r) := by
  cases h with
  | stranger => exact disciplined_next hmu
  | invalid => exact disciplined_next (by simpa)
  | waiting => exact disciplined_next (by simpa)
  | unmarshalled => exact disciplined_next (by simpa)
  | complete => exact disciplined_next hmu

/-- Only inputs can leave the mutex held. -/
theorem offendingMessage_iff {msg : ClientMessage} (hmsg : msg.kind ≠ .txInputs) :
    OffendingMessage pkgs ch js msg ↔ js.errm.isSome = true ∧ BreaksUnlocked pkgs ch js msg := by
  refine ⟨fun h => h.resolve_right ?_, .inl⟩
  rintro ⟨txins, rfl, -⟩
  exact hmsg rfl

/-- A case that ends in another way than by breaking unlocked is disciplined. -/
theorem disciplined_iff_of {msg : ClientMessage} {r : Handled} (hmsg : msg.kind ≠ .txInputs)
    (h : Disciplined (throughLoop ch r)) (hno : ¬BreaksUnlocked pkgs ch js msg) :
    Disciplined (throughLoop ch r) ↔ ¬OffendingMessage pkgs ch js msg := by
  rw [offendingMessage_iff hmsg]
  exact iff_of_true h fun hoff => hno hoff.2

/-- A case that breaks unlocked is disciplined when there is no error. -/
theorem disciplined_iff_break {msg : ClientMessage} {push : Option (List ℕ)} {js' : JoinSession} (hmsg : msg.kind ≠ .txInputs)
    (hmu : js'.mu = false) (herrm : js'.errm = js.errm) (hyes : BreaksUnlocked pkgs ch js msg) :
    Disciplined (throughLoop ch (.ok (⟨push, .breakLoop⟩, js'))) ↔ ¬OffendingMessage pkgs ch js msg := by
  rw [offendingMessage_iff hmsg, disciplined_free hmu, herrm]
  simp [hyes]

theorem disciplined_dcExpVector {data : DcVector} {r : Handled} (hmu : js.mu = false)
    (h : DcExpOutcome pkgs ch data js r) :
    Disciplined (throughLoop ch r) ↔ ¬OffendingMessage pkgs ch js (.dcExpVector data) := by
  have hkind : (ClientMessage.dcExpVector data).kind ≠ .txInputs := by simp [ClientMessage.kind]
  have hno : ¬data.vector.length < pkScriptHashSize * 2 → ¬BreaksUnlocked pkgs ch js (.dcExpVector data) :=
    fun hsize hbreak => hsize hbreak.2
  cases h with
  | stranger hp =>
    refine disciplined_iff_of hkind (disciplined_next hmu) ?_
    rintro ⟨⟨peer, hpeer⟩, -⟩
    rw [hp] at hpeer
    cases hpeer
  | short hp hshort => exact disciplined_iff_break hkind hmu rfl ⟨⟨_, hp⟩, hshort⟩
  | panic _ hsize => exact disciplined_iff_of hkind disciplined_panic (hno hsize)
  | rejected _ hsize =>
    exact disciplined_iff_of hkind (disciplined_next hmu) (hno hsize)
  | waiting _ hsize => exact disciplined_iff_of hkind (disciplined_next hmu) (hno hsize)
  | ended _ hsize _ _ _ hsolve =>
    refine disciplined_iff_of hkind ?_ (hno hsize)
    cases hsolve with
    | panic => exact disciplined_panic
    | unsolved => exact disciplined_next hmu
    | failed err => exact disciplined_failed err
    | solved => exact disciplined_next hmu

theorem disciplined_dcXorVector {data : DcVector} {r : Handled} (hmu : js.mu = false)
    (h : DcXorOutcome pkgs ch data js r) :
    Disciplined (throughLoop ch r) ↔ ¬OffendingMessage pkgs ch js (.dcXorVector data) := by
  have hkind : (ClientMessage.dcXorVector data).kind ≠ .txInputs := by simp [ClientMessage.kind]
  cases h with
  | short hshort => exact disciplined_iff_break hkind hmu rfl hshort
  | panic hsize => exact disciplined_iff_of hkind disciplined_panic hsize
  | stranger _ hsize => exact disciplined_iff_of hkind (disciplined_next hmu) hsize
  | waiting _ hsize => exact disciplined_iff_of hkind (disciplined_next hmu) hsize
  | failed _ hsize => exact disciplined_iff_of hkind (disciplined_failed _) hsize
  | complete _ hsize => exact disciplined_iff_of hkind (disciplined_next hmu) hsize

theorem disciplined_txInputs {txins : TxInputs} {r : Handled} (hmu : js.mu = false)
    (h : TxInputsOutcome pkgs ch txins js r) :
    Disciplined (throughLoop ch r) ↔ ¬OffendingMessage pkgs ch js (.txInputs txins) := by
  have hpriced : ¬txins.ticketPrice ≤ 0 → ¬Overspent pkgs js txins →
      ¬OffendingMessage pkgs ch js (.txInputs txins) := by
    rintro hprice hspend (⟨-, -, hle⟩ | ⟨txins', heq, -, hover⟩)
    · exact hprice hle
    · cases heq
      exact hspend hover
  cases h with
  | stranger hp =>
    refine iff_of_true (disciplined_next hmu) ?_
    rintro (⟨-, ⟨peer, hpeer⟩, -⟩ | ⟨txins', heq, -, peer, _, _, _, hpeer, -⟩)
    · rw [hp] at hpeer
      cases hpeer
    · cases heq
      rw [hp] at hpeer
      cases hpeer
  | unpriced hp hprice =>
    rw [disciplined_free (show (storePrice txins js).mu = false from hmu)]
    refine not_congr ⟨fun h => .inl ⟨h.2, ⟨_, hp⟩, hprice⟩, ?_⟩
    rintro (⟨herrm, -⟩ | ⟨txins', heq, hpos, -⟩)
    · exact ⟨rfl, herrm⟩
    · cases heq
      omega
  | undecodable _ hprice hdecode =>
    refine iff_of_true (disciplined_failed _) (hpriced hprice ?_)
    rintro ⟨_, _, _, _, -, htx, -⟩
    rw [hdecode] at htx
    cases htx
  | panic hprice hdecode hout =>
    refine iff_of_true disciplined_panic (hpriced hprice ?_)
    rintro ⟨_, _, _, _, -, htx, hcons, -⟩
    cases hdecode.symm.trans htx
    rw [hout] at hcons
    cases hcons
  | overspent hp hprice hdecode hout hspend =>
    refine iff_of_false not_disciplined_held (not_not.mpr (.inr ⟨txins, rfl, ?_, _, _, _, _, hp, hdecode, hout, hspend⟩))
    omega
  | waiting hp hprice hdecode hout hspend =>
    refine iff_of_true (disciplined_next (by simpa)) (hpriced hprice ?_)
    rintro ⟨_, _, _, _, hpeer, htx, hcons, hover⟩
    cases hp.symm.trans hpeer
    cases hdecode.symm.trans htx
    cases hout.symm.trans hcons
    exact hspend hover
  | joined hp hprice hdecode hout hspend _ hjoined =>
    refine iff_of_true ?_ (hpriced hprice ?_)
    · cases hjoined with
      | panic => exact disciplined_panic
      | failed hbuild err => exact disciplined_failed err
      | sent hbuild => exact disciplined_next (by simpa [mu_buildJoinedTx hbuild, unsignedTx])
    · rintro ⟨_, _, _, _, hpeer, htx, hcons, hover⟩
      cases hp.symm.trans hpeer
      cases hdecode.symm.trans htx
      cases hout.symm.trans hcons
      exact hspend hover

theorem disciplined_txSigned {signedTx : JoinTx} {r : Handled} (hmu : js.mu = false)
    (h : TxSignedOutcome pkgs ch signedTx js r) :
    Disciplined (throughLoop ch r) ↔ ¬OffendingMessage pkgs ch js (.txSigned signedTx) := by
  have hkind : (ClientMessage.txSigned signedTx).kind ≠ .txInputs := by simp [ClientMessage.kind]
  cases h with
  | stranger hp =>
    refine disciplined_iff_of hkind (disciplined_next hmu) ?_
    rintro ⟨_, _, _, _, _, hpeer, -⟩
    rw [hp] at hpeer
    cases hpeer
  | undecodable _ hdecode =>
    refine disciplined_iff_of hkind (disciplined_failed _) ?_
    rintro ⟨_, _, _, _, _, -, htx, -⟩
    rw [hdecode] at htx
    cases htx
  | again hp _ hsigned =>
    refine disciplined_iff_of hkind (disciplined_next hmu) ?_
    rintro ⟨_, _, _, _, _, hpeer, -, hunsigned, -⟩
    cases hp.symm.trans hpeer
    exact hunsigned hsigned
  | panic hp hdecode hpanic =>
    refine disciplined_iff_of hkind disciplined_panic ?_
    rintro ⟨_, _, _, _, _, hpeer, htx, -, hvalid, hmerge, -⟩
    cases hp.symm.trans hpeer
    cases hdecode.symm.trans htx
    exact (hpanic _ hvalid).2 _ hmerge
  | invalid hp hdecode _ hinvalid =>
    refine disciplined_iff_of hkind (disciplined_next hmu) ?_
    rintro ⟨_, _, _, _, _, hpeer, htx, -, hvalid, -⟩
    cases hp.symm.trans hpeer
    cases hdecode.symm.trans htx
    cases hinvalid.symm.trans hvalid
  | waiting hp hdecode _ _ hmerge hall =>
    obtain ⟨joinedTx, rfl⟩ := mergeSigned_eq_ok hmerge
    refine disciplined_iff_of hkind (disciplined_next hmu) ?_
    rintro ⟨_, _, _, _, _, hpeer, htx, -, -, hmerge', hall', -⟩
    cases hp.symm.trans hpeer
    cases hdecode.symm.trans htx
    cases hmerge.symm.trans hmerge'
    rw [hall] at hall'
    cases hall'
  | @ended peer tx js' hp hdecode hsigned hvalid hmerge hall r hpublish =>
    -- the session that is published is the one that was merged
    have hbreaks : BreaksUnlocked pkgs ch js (.txSigned signedTx) ↔ ∃ joinedTx bytes, js'.joinedTx = some joinedTx ∧
        pkgs.btcEncode joinedTx = some bytes ∧ (serverPosts ch js' bytes).2 = true := by
      constructor
      · rintro ⟨_, _, _, joinedTx, bytes, hpeer, htx, -, -, hmerge', -, hpost⟩
        cases hp.symm.trans hpeer
        cases hdecode.symm.trans htx
        cases hmerge.symm.trans hmerge'
        exact ⟨joinedTx, bytes, hpost⟩
      · rintro ⟨joinedTx, bytes, hpost⟩
        exact ⟨peer, tx, js', joinedTx, bytes, hp, hdecode, hsigned, hvalid, hmerge, hall, hpost⟩
    obtain ⟨mu, errm⟩ : js'.mu = false ∧ js'.errm = js.errm := by
      obtain ⟨_, rfl⟩ := mergeSigned_eq_ok hmerge
      exact ⟨hmu, rfl⟩
    have hno : (∀ joinedTx bytes, js'.joinedTx = some joinedTx → pkgs.btcEncode joinedTx = some bytes →
        (serverPosts ch js' bytes).2 = false) → ¬BreaksUnlocked pkgs ch js (.txSigned signedTx) := by
      intro hfalse h
      obtain ⟨joinedTx, bytes, hjoined, hencode, hpost⟩ := hbreaks.mp h
      rw [hfalse joinedTx bytes hjoined hencode] at hpost
      cases hpost
    cases hpublish with
    | panic hpanic => exact disciplined_iff_of hkind disciplined_panic (hno hpanic)
    | unencodable hjoined hencode =>
      refine disciplined_iff_of hkind (disciplined_failed _) (hno fun other bytes hother hbytes => ?_)
      cases hjoined.symm.trans hother
      rw [hencode] at hbytes
      cases hbytes
    | published hjoined hencode hpost =>
      exact disciplined_iff_break hkind mu errm (hbreaks.mpr ⟨_, _, hjoined, hencode, hpost⟩)
    | unmarshalled hjoined hencode hpost =>
      refine disciplined_iff_of hkind (disciplined_failed _) (hno fun other bytes hother hbytes => ?_)
      cases hjoined.symm.trans hother
      cases hencode.symm.trans hbytes
      exact hpost
    | delegated hjoined hencode hpost =>
      refine disciplined_iff_of hkind (disciplined_next mu) (hno fun other bytes hother hbytes => ?_)
      cases hjoined.symm.trans hother
      cases hencode.symm.trans hbytes
      exact hpost

theorem disciplined_handle {msg : ClientMessage} {r : Handled} (hmu : js.mu = false) (h : HandleOutcome pkgs ch js msg r) :
    Disciplined (throughLoop ch r) ↔ ¬OffendingMessage pkgs ch js msg := by
  cases msg with
  | keyExchange req => exact disciplined_iff_of (by simp [ClientMessage.kind]) (disciplined_keyExchange hmu h) id
  | dcExpVector data => exact disciplined_dcExpVector hmu h
  | dcXorVector data => exact disciplined_dcXorVector hmu h
  | txInputs txins => exact disciplined_txInputs hmu h
  | txSigned signedTx => exact disciplined_txSigned hmu h
  | txPublishResult pubResult =>
    cases h
    exact disciplined_iff_break (by simp [ClientMessage.kind]) hmu rfl trivial
  | revealSecret rvSecret =>
    refine disciplined_iff_of (by simp [ClientMessage.kind]) ?_ id
    change RevealOutcome pkgs ch rvSecret js r at h
    cases h with
    | stranger => exact disciplined_next hmu
    | panic => exact disciplined_panic
    | failed err => exact disciplined_failed err
    | found => exact disciplined_next hmu
    | waiting => exact disciplined_next hmu
  | msgNotFound data =>
    refine disciplined_iff_of (by simp [ClientMessage.kind]) ?_ id
    change MsgNotFoundOutcome ch data js r at h
    cases h with
    | stranger => exact disciplined_next hmu
    | asked => exact disciplined_next hmu

end Messages

/-! ### The other goroutines -/

section Goroutines
variable {pkgs : Packages} {ch : Choices} {js : JoinSession}

theorem disciplined_timeout {r : Handled} (hmu : js.mu = false) (h : TimeoutOutcome pkgs ch js r) :
    Disciplined (throughLoop ch r) ↔ ¬Offending pkgs ch js .timeout := by
  cases h with
  | panic hstate hchange =>
    refine iff_of_true disciplined_panic ?_
    rintro ⟨-, -, hcompleted⟩
    obtain ⟨js', hok⟩ := hcompleted hstate
    rw [hchange] at hok
    cases hok
  | returned hstate hchange =>
    refine iff_of_true ((disciplined_free rfl).mpr fun h => by cases h.1) ?_
    rintro ⟨-, -, hcompleted⟩
    obtain ⟨js', hok⟩ := hcompleted hstate
    rw [hchange] at hok
    cases hok
  | republished hstate hchange hrep hinform =>
    have hmissed : (JoinSession.withMu _ false).missedPeers = (js.timedOut ch).missedPeers := hrep.missedPeers
    cases hinform with
    | nobody hnone => exact iff_of_true (disciplined_next rfl) fun h => h.2.1 (hmissed ▸ hnone)
    | dropped _ hkey =>
      have hsame : (JoinSession.withMu _ false).state = .txPublish := hrep.state.trans hstate
      rw [hsame] at hkey
      cases hkey
    | deadlock hsome =>
      refine iff_of_false (fun h => by cases h) (not_not.mpr ⟨?_, hmissed ▸ hsome, fun _ => ⟨_, hchange⟩⟩)
      rw [hstate]
      decide
  | informed hstate hinform =>
    cases hinform with
    | nobody hnone => exact iff_of_true (disciplined_next hmu) fun h => h.2.1 hnone
    | dropped _ hkey => exact iff_of_true (disciplined_next ((JoinSession.mu_removePeers ..).trans hmu)) fun h => h.1 hkey
    | deadlock hsome hkey =>
      exact iff_of_false (fun h => by cases h) (not_not.mpr ⟨hkey, hsome, fun h => absurd h hstate⟩)

theorem disciplined_readMessage {peer : PeerInfo} {raw : RawMessage} (hmu : js.mu = false)
    {r : Except Fault (ReaderPc × JoinSession)} (h : ReadOutcome peer js raw r) (hr : readMessage peer raw js = r) :
    Disciplined ((Wakeup.read peer raw).run pkgs ch js) ↔ ¬Offending pkgs ch js (.read peer raw) := by
  have hno : ∀ {kind}, raw.kind = some kind → admission kind peer.id js ≠ .refusedLocked →
      ¬Offending pkgs ch js (.read peer raw) := by
    rintro kind hkind hadmission (rfl | ⟨hraw, hlocked⟩)
    · cases hkind
    · cases hkind.symm.trans hraw
      exact hadmission hlocked
  rw [Wakeup.run, hr]
  cases h with
  | ignored =>
    refine iff_of_true hmu ?_
    rintro (h | ⟨h, -⟩) <;> cases h
  | unknown => exact iff_of_false (by simp [Disciplined]) (not_not.mpr (.inl rfl))
  | refused hraw hrefused => exact iff_of_true hmu (hno hraw (by rw [hrefused]; decide))
  | locked hraw hlocked => exact iff_of_false (by simp [Disciplined]) (not_not.mpr (.inr ⟨hraw, hlocked⟩))
  | @malformed kind haccepted =>
    refine iff_of_true ?_ (hno rfl (by rw [haccepted]; decide))
    rw [ok_bind]
    split_ifs
    · exact hmu
    · dsimp only
      rw [JoinSession.pushMaliciousInfo_eq ch _ hmu]
      exact (js.mu_expelled ch _).trans hmu
  | @admitted msg haccepted =>
    refine iff_of_true ?_ (hno rfl (by rw [haccepted]; decide))
    rw [ok_bind]
    dsimp only
    split_ifs <;> exact hmu

theorem disciplined_readError {peer : PeerInfo} {r : Except Fault JoinSession} (hmu : js.mu = false)
    (h : ReadErrorOutcome pkgs ch peer js r) : Disciplined r ↔ ¬Offending pkgs ch js (.readError peer) := by
  have hpublish : js.state = .txPublish → ¬Offending pkgs ch js (.readError peer) := by
    rintro hstate ⟨hround, -⟩
    rw [hstate] at hround
    cases hround
  cases h with
  | left hstate =>
    refine iff_of_true (by simpa [Disciplined]) ?_
    rintro ⟨hround, -⟩
    rw [hstate] at hround
    cases hround
  | deadlock hround hp => exact iff_of_false (fun h => by cases h) (not_not.mpr ⟨hround, hp⟩)
  | kept _ hstranger => exact iff_of_true hmu fun h => hstranger h.1 h.2
  | emptied hstate => exact iff_of_true (by simpa [Disciplined]) (hpublish hstate)
  | panic hstate => exact iff_of_true rfl (hpublish hstate)
  | changed hstate => exact iff_of_true rfl (hpublish hstate)

theorem disciplined_writeError {peer : PeerInfo} {r : Except Fault JoinSession} (hmu : js.mu = false)
    (h : WriteErrorOutcome pkgs ch peer js r) : Disciplined r ↔ ¬Offending pkgs ch js (.writeError peer) := by
  have hjoined : (JoinSession.withMu (js.removePeer peer.id) true).joinedTx = js.joinedTx :=
    JoinSession.joinedTx_removePeer ..
  cases h with
  | left hstate =>
    refine iff_of_true (by simpa [Disciplined]) ?_
    rintro (hround | ⟨hpublish, -⟩)
    · rw [hstate] at hround
      cases hround
    · rw [hstate] at hpublish
      cases hpublish
  | deadlock hround => exact iff_of_false (fun h => by cases h) (not_not.mpr (.inl hround))
  | kept _ hround hpub =>
    refine iff_of_true hmu ?_
    rintro (hyes | ⟨hpublish, hpublisher, -⟩)
    · rw [hround] at hyes
      cases hyes
    · exact hpub hpublish hpublisher
  | panic hstate hchange =>
    refine iff_of_true rfl ?_
    cases hchange with
    | panic hpanic =>
      rintro (hround | ⟨-, -, joinedTx, hsome, hfail⟩)
      · rw [hstate] at hround
        cases hround
      · obtain ⟨hencode, hmarshal⟩ := hpanic joinedTx (hjoined.trans hsome)
        rcases hfail with hnone | hfalse
        · rw [hnone] at hencode
          cases hencode
        · rw [hmarshal] at hfalse
          cases hfalse
  | changed hstate _ hchange =>
    refine iff_of_true rfl ?_
    cases hchange with
    | changed hsome hencode hmarshal =>
      rintro (hround | ⟨-, -, other, hother, hfail⟩)
      · rw [hstate] at hround
        cases hround
      · cases hsome.symm.trans (hjoined.trans hother)
        rcases hfail with hnone | hfalse
        · rw [hnone] at hencode
          cases hencode
        · rw [hmarshal] at hfalse
          cases hfalse
  | locked hstate hpub hchange =>
    refine iff_of_false ?_ (not_not.mpr ?_)
    · rw [Disciplined, hchange.mu]
      simp
    · cases hchange with
      | failed hsome hfail => exact .inr ⟨hstate, hpub, _, hjoined.symm.trans hsome, hfail⟩

end Goroutines

/-- **Mutex discipline.** Whatever wakes up a goroutine with the mutex free, it keeps
the discipline except where it offends. -/
theorem mutex_discipline_iff (pkgs : Packages) (ch : Choices) {js : JoinSession} (hmu : js.mu = false) (w : Wakeup) :
    Disciplined (w.run pkgs ch js) ↔ ¬Offending pkgs ch js w := by
  cases w with
  | timeout => exact disciplined_timeout hmu (timeout_outcome pkgs ch hmu)
  | message msg => exact disciplined_handle hmu (handle_outcome pkgs ch msg hmu)
  | read peer raw => exact disciplined_readMessage hmu (readMessage_outcome peer raw hmu) rfl
  | readError peer => exact disciplined_readError hmu (readError_outcome pkgs ch peer hmu)
  | writeError peer => exact disciplined_writeError hmu (writeError_outcome pkgs ch peer hmu)

/-- A message of an unknown type leaves the mutex held. -/
theorem mutex_discipline_iff_unknown :
    ¬Disciplined ((Wakeup.read (newPeer 1 1) .unknown).run plainPackages (plainChoices id)
      (newJoinSession 7 60 false (queuePeers [(1, 1), (2, 2)]))) := by
  rw [mutex_discipline_iff plainPackages (plainChoices id) rfl]
  exact not_not.mpr (.inl rfl)

/-- **A lost connection freezes the session**: two peers exchange their keys, and the
reader of the first then waits for itself. -/
theorem lostConnection_deadlocks : ∃ s peer, Reachable plainPackages s ∧ s.session.mu = false ∧
    s.session.peerOf 1 = some peer ∧
    ¬Disciplined ((Wakeup.readError peer).run plainPackages (plainChoices id) s.session) := by
  refine ⟨_, _, (Reachable.start 7 60 false [(1, 1), (2, 2)] (by decide) (by decide)).run
    (l := [(plainChoices id, .read 1 (.message (.keyExchange ⟨0, [5], 1⟩))), (plainChoices id, .deliver 1),
      (plainChoices id, .rest), (plainChoices id, .read 2 (.message (.keyExchange ⟨0, [6], 2⟩))),
      (plainChoices id, .deliver 2)]) rfl, rfl, rfl, fun h => ?_⟩
  have hfault : Fault.selfDeadlock = .panic := h
  cases hfault

end Dcrtxmatcher.Coinjoin
