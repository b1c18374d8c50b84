import Dcrtxmatcher.Lib.Gathering
import Dcrtxmatcher.Coinjoin.Bounds

/-! Whether the order of arrival matters in the rounds of the DC-net.

A vector is stored whatever its length; the one that comes last gives the number of
entries that are combined. So who comes last decides, unless all vectors are as long. -/
namespace Dcrtxmatcher.Coinjoin
open Lib

variable {pkgs : Packages} {ch : Choices} {js : JoinSession}

/-- Everybody's message, the one of `last` at the end. -/
def arriving (pkgs : Packages) (ch : Choices) (msg : ℕ → ClientMessage) (js : JoinSession) (early : List (Choices × ℕ)) (last : ℕ) :
    Except Fault (Bool × JoinSession) :=
  deliverAll pkgs (early.map (fun a => (a.1, msg a.2)) ++ [(ch, msg last)]) js

/-- In every order of the members the same comes out. -/
def OrdersAgree (pkgs : Packages) (ch : Choices) (msg : ℕ → ClientMessage) (js : JoinSession) : Prop :=
  ∀ early last early' last', (early.map Prod.snd ++ [last]).Perm js.peers.keys → (early'.map Prod.snd ++ [last']).Perm js.peers.keys →
    arriving pkgs ch msg js early last = arriving pkgs ch msg js early' last'

/-! ### Messages that are stored -/

theorem deliverAll_single (ch : Choices) (msg : ClientMessage) (js : JoinSession) :
    deliverAll pkgs [(ch, msg)] js = deliver pkgs ch msg js := by
  rw [deliverAll]
  rcases deliver pkgs ch msg js with fault | ⟨running, js'⟩
  · rfl
  · rw [ok_bind]
    cases running <;> rfl

/-- While somebody is missing the messages are stored; then the last one decides. -/
theorem arriving_eq {msg : ℕ → ClientMessage} (stored : List ℕ → JoinSession → Prop) (final : ℕ → Except Fault (Bool × JoinSession))
    (hstart : stored [] js)
    (hwaits : ∀ ch done p s, stored done s → p ∈ js.peers.keys → (∃ q ∈ js.peers.keys, q ∉ done ++ [p]) →
      ∃ s', deliver pkgs ch (msg p) s = .ok (true, s') ∧ stored (done ++ [p]) s')
    (hends : ∀ done p s, stored done s → (done ++ [p]).Perm js.peers.keys → deliver pkgs ch (msg p) s = final p)
    {early : List (Choices × ℕ)} {last : ℕ} (hperm : (early.map Prod.snd ++ [last]).Perm js.peers.keys) :
    arriving pkgs ch msg js early last = final last := by
  have hrun : ∀ (early : List (Choices × ℕ)) done s, stored done s → (done ++ (early.map Prod.snd ++ [last])).Perm js.peers.keys →
      deliverAll pkgs (early.map (fun a => (a.1, msg a.2)) ++ [(ch, msg last)]) s = final last := by
    intro early
    induction early with
    | nil =>
      intro done s hs hperm
      rw [List.map_nil, List.nil_append, deliverAll_single]
      exact hends done last s hs hperm
    | cons a early ih =>
      obtain ⟨ch', p⟩ := a
      intro done s hs hperm
      have hshift : done ++ (((ch', p) :: early).map Prod.snd ++ [last]) = (done ++ [p]) ++ (early.map Prod.snd ++ [last]) := by simp
      rw [hshift] at hperm
      have hp : p ∈ js.peers.keys := hperm.mem_iff.mp (by simp)
      have hlast : last ∈ js.peers.keys := hperm.mem_iff.mp (by simp)
      have hnodup := hperm.nodup_iff.mpr js.peers.keys_nodup
      have hmissing : last ∉ done ++ [p] := fun hmem => (List.nodup_append.mp hnodup).2.2 last hmem last (by simp) rfl
      obtain ⟨s', hdeliver, hs'⟩ := hwaits ch' done p s hs hp ⟨last, hlast, hmissing⟩
      rw [List.map_cons, List.cons_append, deliverAll, hdeliver, ok_bind]
      dsimp only
      rw [if_pos rfl]
      exact ih (done ++ [p]) s' hs' hperm
  exact hrun early [] js hstart hperm

theorem deliver_of_next {msg : ClientMessage} {js' : JoinSession} (h : handle pkgs ch js msg = .ok (.next, js'))
    (hmember : js'.peers.keys ≠ []) : deliver pkgs ch msg js = .ok (true, js') := by
  have hlen : GoMap.len js'.peers ≠ 0 := by
    rw [← GoMap.length_keys]
    exact (List.length_pos_of_ne_nil hmember).ne'
  rw [deliver, h, ok_bind]
  simp [finish, Done.next, hlen]

/-- A case is left without a panic. -/
theorem finish_ne_panic (ch : Choices) (d : Done) (js : JoinSession) : finish ch d js ≠ .error .panic := by
  cases hmu : js.mu with
  | false =>
    rw [finish_free ch d hmu]
    split_ifs <;> simp
  | true =>
    rw [finish_held ch d hmu]
    split_ifs <;> simp

theorem bind_finish_panic_iff {r : Handled} : (r >>= fun x => finish ch x.1 x.2) = .error .panic ↔ r = .error .panic := by
  rcases r with fault | ⟨d, js'⟩
  · simp [error_bind]
  · rw [ok_bind]
    exact iff_of_false (finish_ne_panic ch d js') (by simp)

/-! ### The exponential round -/

/-- A vector that is stored: it has entries, all of them in the bytes and none of them zero. -/
structure DcVector.ExpStored (pkgs : Packages) (data : DcVector) : Prop where
  size : ¬data.vector.length < pkScriptHashSize * 2
  some : data.len ≠ 0
  entries : ∀ i < data.len, data.entry pkgs i ≠ 0 ∧ (i + 1) * pkScriptHashSize ≤ (data.vector ++ data.spare).length

theorem DcVector.ExpStored.exists_read {data : DcVector} (h : data.ExpStored pkgs) (peerId : ℕ) :
    ∃ v, readEntries pkgs peerId (data.vector ++ data.spare) 0 data.len = .ok (v, none) := by
  refine readEntries_ok_iff.mpr fun i hi => ?_
  rw [Nat.zero_add]
  exact h.entries i hi

/-- Vectors are combined when none is longer than it is said. -/
theorem length_le_of_combine {n : ℕ} {vectors : List (List Field)} {sums : List Field} (h : combine n vectors = .ok sums) :
    ∀ v ∈ vectors, v.length ≤ n := by
  have hfold : ∀ acc : List Field, vectors.foldlM addVector acc = .ok sums → ∀ v ∈ vectors, v.length ≤ acc.length := by
    clear h
    induction vectors with
    | nil => exact fun _ _ _ hv => absurd hv List.not_mem_nil
    | cons w vectors ih =>
      intro acc h v hv
      rw [List.foldlM_cons] at h
      obtain ⟨acc', hadd, h⟩ := bind_eq_ok.mp h
      rw [addVector] at hadd
      split_ifs at hadd with hlong
      cases hadd
      rcases List.mem_cons.mp hv with rfl | hv
      · exact not_lt.mp hlong
      · simpa using ih _ h v hv
  simpa using hfold _ h

section Exponential
variable {vec : ℕ → List Field}

/-- The end of the round when the last vector has `n` entries. -/
def expEnd (pkgs : Packages) (ch : Choices) (js : JoinSession) (n : ℕ) : Except Fault (Bool × JoinSession) :=
  solveExponential pkgs ch n (js.withMu true) >>= fun x => finish ch x.1 x.2

/-- It ends badly when somebody's vector is longer. -/
theorem expEnd_panic_iff {n : ℕ} (hn : n ≠ 0) : expEnd pkgs ch (js.withVectors vec js.peers.keys) n = .error .panic ↔
    ∃ q ∈ js.peers.keys, n < (vec q).length := by
  have hvectors : ((GoMap.values ch.order [423] (js.withVectors vec js.peers.keys).peers).map (·.dcExpVector)).Perm
      (js.peers.keys.map vec) :=
    js.values_withData (fun p peer => { peer with dcExpVector := vec p }) (fun _ _ => rfl) (fun _ hp => hp) ch [423]
  rw [expEnd, bind_finish_panic_iff]
  constructor
  · intro hpanic
    by_contra hshort
    push Not at hshort
    refine solveExponential_in_bounds hn rfl (fun p peer hp => ?_) hpanic
    change (js.withVectors vec js.peers.keys).peers.lookup p = some peer at hp
    have hmem : peer.dcExpVector ∈ js.peers.keys.map vec :=
      hvectors.mem_iff.mp (List.mem_map_of_mem (GoMap.mem_values.mpr ⟨p, hp⟩))
    obtain ⟨q, hq, heq⟩ := List.mem_map.mp hmem
    rw [← heq]
    exact hshort q hq
  · intro ⟨q, hq, hlong⟩
    rw [solveExponential, JoinSession.peers_withMu]
    cases hcombine : combine n ((GoMap.values ch.order [423] (js.withVectors vec js.peers.keys).peers).map (·.dcExpVector)) with
    | ok sums =>
      have hle := length_le_of_combine hcombine (vec q) (hvectors.mem_iff.mpr (List.mem_map_of_mem hq))
      exact absurd hlong (not_lt.mpr hle)
    | error fault =>
      obtain rfl := combine_onlyPanics _ _ fault hcombine
      rfl

theorem withVectors_all {done : List ℕ} (hdone : ∀ p ∈ js.peers.keys, p ∈ done) :
    js.withVectors vec done = js.withVectors vec js.peers.keys :=
  congrArg (fun peers => { js with peers := peers }) (js.peers_withVectors_congr vec hdone fun _ hp => hp)

/-- One more vector, while somebody is missing and after. -/
theorem deliver_exp (ch : Choices) {data : DcVector} {p : ℕ} {peer : PeerInfo} (hmu : js.mu = false) (herrm : js.errm = none)
    (hfresh : ∀ p peer, js.peers.lookup p = some peer → peer.dcExpVector = []) (hne : ∀ p, vec p ≠ [])
    (hid : data.peerId = p) (hstored : data.ExpStored pkgs) (hp : js.peers.lookup p = some peer)
    (hread : readEntries pkgs peer.id (data.vector ++ data.spare) 0 data.len = .ok (vec p, none)) (done : List ℕ) :
    ((∃ q ∈ js.peers.keys, q ∉ done ++ [p]) →
        deliver pkgs ch (.dcExpVector data) (js.withVectors vec done) = .ok (true, js.withVectors vec (done ++ [p]))) ∧
      ((∀ q ∈ js.peers.keys, q ∈ done ++ [p]) →
        deliver pkgs ch (.dcExpVector data) (js.withVectors vec done) = expEnd pkgs ch (js.withVectors vec js.peers.keys) data.len) := by
  subst hid
  have hstore : storeExp data (vec data.peerId) (js.withVectors vec done) = js.withVectors vec (done ++ [data.peerId]) :=
    js.setPeer_withVectors vec done data.peerId
  have hall : (js.withVectors vec (done ++ [data.peerId])).allSubmit (fun peer => peer.dcExpVector ≠ []) = true ↔
      ∀ q ∈ js.peers.keys, q ∈ done ++ [data.peerId] := js.allSubmit_withVectors vec hfresh hne
  obtain ⟨peer', hp', hid⟩ : ∃ peer', (js.withVectors vec done).peers.lookup data.peerId = some peer' ∧ peer'.id = peer.id := by
    refine ⟨_, by rw [JoinSession.withVectors, GoMap.lookup_mapVal, hp]; rfl, ?_⟩
    split_ifs <;> rfl
  rw [← hid] at hread
  constructor
  · intro hmissing
    have hopen : ¬(js.withVectors vec (done ++ [data.peerId])).allSubmit (fun peer => peer.dcExpVector ≠ []) = true := by
      rw [hall]
      push Not
      exact hmissing
    refine deliver_of_next ?_ ?_
    · have houtcome : DcExpOutcome pkgs ch data (js.withVectors vec done) (dcExpVector pkgs ch data (js.withVectors vec done)) :=
        dcExpVector_outcome pkgs ch data hmu
      generalize hr : dcExpVector pkgs ch data (js.withVectors vec done) = r at houtcome
      show dcExpVector pkgs ch data (js.withVectors vec done) = _
      rw [hr]
      cases houtcome with
      | stranger hnone => rw [hp'] at hnone; cases hnone
      | short _ hshort => exact absurd hshort hstored.size
      | panic hsome _ hpanic =>
        cases hp'.symm.trans hsome
        rw [hread] at hpanic
        cases hpanic
      | rejected hsome _ hother herr =>
        cases hp'.symm.trans hsome
        rw [hread] at hother
        cases hother
        rw [Option.none_or, show (js.withVectors vec done).errm = none from herrm] at herr
        cases herr
      | waiting hsome _ hother =>
        cases hp'.symm.trans hsome
        rw [hread] at hother
        cases hother
        rw [hstore]
      | ended hsome _ hother _ hclosed =>
        cases hp'.symm.trans hsome
        rw [hread] at hother
        cases hother
        rw [hstore] at hclosed
        exact absurd hclosed hopen
    · obtain ⟨q, hq, -⟩ := hmissing
      rw [JoinSession.keys_withVectors]
      exact List.ne_nil_of_mem hq
  · intro hlast
    have hclosed : (storeExp data (vec data.peerId) (js.withVectors vec done)).allSubmit (fun peer => peer.dcExpVector ≠ []) = true := by
      rw [hstore]
      exact hall.mpr hlast
    have hmu' : (js.withVectors vec done).mu = false := hmu
    have hended := @dcExpVector_ended pkgs ch _ hmu' _ _ hp' hstored.size _ hread herrm hclosed
    rw [deliver, handle, hended, hstore, withVectors_all hlast, length_of_readEntries hread]
    rfl

end Exponential

/-- Some orders of the members stop the process, and some do not. -/
def OrdersDiffer (pkgs : Packages) (ch : Choices) (msg : ℕ → ClientMessage) (js : JoinSession) : Prop :=
  (∃ early last, (early.map Prod.snd ++ [last]).Perm js.peers.keys ∧ arriving pkgs ch msg js early last = .error .panic) ∧
    ∃ early last, (early.map Prod.snd ++ [last]).Perm js.peers.keys ∧ arriving pkgs ch msg js early last ≠ .error .panic

/-- **The order of the exponential vectors** does not matter exactly when they have the same number of entries. The
process is stopped when somebody's vector is longer than that of the last one; so with two lengths it
depends on the order whether it is. -/
theorem exponential_orders_agree_iff (pkgs : Packages) (ch : Choices) {js : JoinSession} (hmu : js.mu = false)
    (herrm : js.errm = none) (hfresh : ∀ p peer, js.peers.lookup p = some peer → peer.dcExpVector = []) {msgs : ℕ → DcVector}
    (hmsgs : ∀ p ∈ js.peers.keys, (msgs p).peerId = p ∧ (msgs p).ExpStored pkgs) :
    (OrdersAgree pkgs ch (fun p => .dcExpVector (msgs p)) js ↔
        ∀ p ∈ js.peers.keys, ∀ q ∈ js.peers.keys, (msgs p).len = (msgs q).len) ∧
      (∀ early last, (early.map Prod.snd ++ [last]).Perm js.peers.keys →
        (arriving pkgs ch (fun p => .dcExpVector (msgs p)) js early last = .error .panic ↔
          ∃ q ∈ js.peers.keys, (msgs last).len < (msgs q).len)) ∧
      ((∃ p ∈ js.peers.keys, ∃ q ∈ js.peers.keys, (msgs p).len ≠ (msgs q).len) →
        OrdersDiffer pkgs ch (fun p => .dcExpVector (msgs p)) js) := by
  have hvec : ∀ p, ∃ v : List Field, v ≠ [] ∧ ∀ peer, js.peers.lookup p = some peer →
      readEntries pkgs peer.id ((msgs p).vector ++ (msgs p).spare) 0 (msgs p).len = .ok (v, none) := by
    intro p
    rcases hp : js.peers.lookup p with _ | peer
    · exact ⟨[0], List.cons_ne_nil _ _, fun _ h => by cases h⟩
    · obtain ⟨-, hstored⟩ := hmsgs p (GoMap.mem_keys_of_lookup hp)
      obtain ⟨v, hread⟩ := hstored.exists_read peer.id
      refine ⟨v, fun hnil => hstored.some ?_, fun _ h => by cases h; exact hread⟩
      rw [← length_of_readEntries hread, hnil]
      rfl
  choose vec hne hread using hvec
  have hlength : ∀ p ∈ js.peers.keys, (vec p).length = (msgs p).len := by
    intro p hp
    obtain ⟨peer, hpeer⟩ := GoMap.lookup_of_mem_keys hp
    exact length_of_readEntries (hread p peer hpeer)
  have hdeliver := fun (ch : Choices) (done : List ℕ) (p : ℕ) (peer : PeerInfo) (hp : js.peers.lookup p = some peer) =>
    deliver_exp ch hmu herrm hfresh hne (hmsgs p (GoMap.mem_keys_of_lookup hp)).1 (hmsgs p (GoMap.mem_keys_of_lookup hp)).2
      hp (hread p peer hp) done
  have houtcome : ∀ early last, (early.map Prod.snd ++ [last]).Perm js.peers.keys →
      arriving pkgs ch (fun p => .dcExpVector (msgs p)) js early last =
        expEnd pkgs ch (js.withVectors vec js.peers.keys) (msgs last).len := by
    intro early last hperm
    refine arriving_eq (fun done s => s = js.withVectors vec done)
      (fun p => expEnd pkgs ch (js.withVectors vec js.peers.keys) (msgs p).len) (js.withVectors_nil vec).symm ?_ ?_ hperm
    · rintro ch done p s rfl hp hmissing
      obtain ⟨peer, hpeer⟩ := GoMap.lookup_of_mem_keys hp
      exact ⟨_, (hdeliver ch done p peer hpeer).1 hmissing, rfl⟩
    · rintro done p s rfl hall
      obtain ⟨peer, hpeer⟩ := GoMap.lookup_of_mem_keys (hall.mem_iff.mp (List.mem_append_right _ (List.mem_singleton_self p)))
      exact (hdeliver ch done p peer hpeer).2 fun q hq => hall.mem_iff.mpr hq
  have hbad : ∀ p ∈ js.peers.keys, expEnd pkgs ch (js.withVectors vec js.peers.keys) (msgs p).len = .error .panic ↔
      ∃ q ∈ js.peers.keys, (msgs p).len < (msgs q).len := by
    intro p hp
    rw [expEnd_panic_iff (hmsgs p hp).2.some]
    constructor
    · intro ⟨q, hq, hlong⟩
      exact ⟨q, hq, hlength q hq ▸ hlong⟩
    · intro ⟨q, hq, hlong⟩
      exact ⟨q, hq, (hlength q hq).symm ▸ hlong⟩
  exact ⟨orders_agree_iff _ _ ch houtcome hbad, fun early last hperm => order_bad_iff _ _ houtcome hbad hperm,
    exists_orders _ _ ch houtcome hbad⟩

/-- Two entries after three are too few to combine in. -/
theorem exponential_orders_agree_two : ¬OrdersAgree plainPackages (plainChoices id)
    (fun p => .dcExpVector (if p = 1 then ⟨1, 2, toBigEndian 5 16 ++ toBigEndian 95 16, []⟩
      else ⟨2, 3, toBigEndian 9 16 ++ toBigEndian 21 16 ++ toBigEndian 7 16, []⟩))
    { newJoinSession 7 60 false (queuePeers [(0, 1), (1, 2)]) with state := .dcExponential } := by
  intro hagree
  have hlen := (exponential_orders_agree_iff plainPackages (plainChoices id) rfl rfl
    (fun p peer h => by
      obtain ⟨conn, _, rfl⟩ := lookup_newJoinSession 7 60 false h
      rfl)
    (fun p hp => by
      have hp' : p ∈ [1, 2] := (show List.Perm _ [1, 2] by decide).mem_iff.mp hp
      rcases List.mem_pair.mp hp' with rfl | rfl
      · exact ⟨rfl, by decide, by decide, by decide⟩
      · exact ⟨rfl, by decide, by decide, by decide⟩)).1.mp hagree
  exact absurd (hlen 1 (by decide) 2 (by decide)) (by decide)

/-! ### The xor round -/

/-- A vector that is stored: it has entries, all of them in the bytes. -/
structure DcVector.XorStored (data : DcVector) : Prop where
  size : ¬data.vector.length < pkScriptSize * 2
  some : data.len ≠ 0
  entries : data.len * pkScriptSize ≤ (data.vector ++ data.spare).length

/-- A slot is combined when everybody has an entry for it. -/
theorem lt_length_of_xorSlot {i : ℕ} {vectors : List (List Bytes)} {slot : Bytes} (h : xorSlot pkgs i vectors = .ok slot) :
    ∀ v ∈ vectors, i < v.length := by
  have hfold : ∀ acc : Bytes, vectors.foldlM (fun acc vector => do
      let msg ← index vector i
      .ok (pkgs.xorBytes acc msg)) acc = Except.ok (ε := Fault) slot → ∀ v ∈ vectors, i < v.length := by
    clear h
    induction vectors with
    | nil => exact fun _ _ _ hv => absurd hv List.not_mem_nil
    | cons w vectors ih =>
      intro acc h v hv
      rw [List.foldlM_cons] at h
      obtain ⟨acc', hxor, h⟩ := bind_eq_ok.mp h
      obtain ⟨msg, hmsg, -⟩ := bind_eq_ok.mp hxor
      rcases List.mem_cons.mp hv with rfl | hv
      · exact (List.getElem?_eq_some_iff.mp (index_eq_ok.mp hmsg)).1
      · exact ih acc' h v hv
  exact hfold [] h

section Xor
variable {vec : ℕ → List Bytes}

/-- The end of the round when the last vector has `n` entries. -/
def xorEnd (pkgs : Packages) (ch : Choices) (js : JoinSession) (n : ℕ) : Except Fault (Bool × JoinSession) :=
  (xorSlots pkgs ch js.peers n >>= fun allPkScripts =>
    if !ch.marshal [551] then failed .marshal { js with allPkScripts := allPkScripts }
    else ((scriptList ch { js with allPkScripts := allPkScripts }).withMu true).unlockAnd .next) >>= fun x => finish ch x.1 x.2

/-- It ends badly when somebody's vector is shorter. -/
theorem xorEnd_panic_iff {n : ℕ} : xorEnd pkgs ch (js.withXorVectors vec js.peers.keys []) n = .error .panic ↔
    ∃ q ∈ js.peers.keys, (vec q).length < n := by
  have hvectors : ∀ site, ((GoMap.values ch.order site (js.withXorVectors vec js.peers.keys []).peers).map (·.dcXorVector)).Perm
      (js.peers.keys.map vec) :=
    js.values_withData (fun p peer => { peer with dcXorVector := vec p }) (fun _ _ => rfl) (fun _ hp => hp) ch
  rw [xorEnd, bind_finish_panic_iff]
  constructor
  · intro hpanic
    by_contra hlong
    push Not at hlong
    obtain ⟨allPkScripts, hslots⟩ : ∃ r, xorSlots pkgs ch (js.withXorVectors vec js.peers.keys []).peers n = .ok r := by
      apply exists_mapM
      intro i hi
      apply exists_xorSlot
      intro v hv
      obtain ⟨q, hq, rfl⟩ := List.mem_map.mp ((hvectors _).mem_iff.mp hv)
      exact lt_of_lt_of_le (List.mem_range.mp hi) (hlong q hq)
    rw [hslots, ok_bind] at hpanic
    split_ifs at hpanic
    · exact absurd hpanic (by simp [failed])
    · exact unlockAnd_ne_panic rfl hpanic
  · rintro ⟨q, hq, hshort⟩
    cases hslots : xorSlots pkgs ch (js.withXorVectors vec js.peers.keys []).peers n with
    | ok allPkScripts =>
      -- the slot behind the end of the short vector
      obtain ⟨hlen, hget⟩ := List.forall₂_iff_get.mp (mapM_eq_ok.mp hslots)
      rw [List.length_range] at hlen
      have hslot := hget (vec q).length (by rw [List.length_range]; exact hshort) (hlen ▸ hshort)
      rw [List.get_eq_getElem, List.getElem_range] at hslot
      exact absurd (lt_length_of_xorSlot hslot (vec q) ((hvectors _).mem_iff.mpr (List.mem_map_of_mem hq))) (lt_irrefl _)
    | error fault =>
      obtain rfl := xorSlots_onlyPanics _ _ _ _ fault hslots
      rfl

/-- The slots are as many as the last vector has entries. -/
theorem length_of_xorEnd {n : ℕ} {running : Bool} {js' : JoinSession} (h : xorEnd pkgs ch js n = .ok (running, js')) :
    js'.allPkScripts.length = n := by
  obtain ⟨⟨d, s⟩, hslots, hfinish⟩ := bind_eq_ok.mp h
  obtain ⟨allPkScripts, hread, hrest⟩ := bind_eq_ok.mp hslots
  have hlen : allPkScripts.length = n := by
    rw [← (mapM_eq_ok.mp hread).length_eq, List.length_range]
  obtain ⟨hpush, hsame⟩ : d.push = none ∧ s.allPkScripts = allPkScripts := by
    split_ifs at hrest
    · cases hrest
      exact ⟨rfl, rfl⟩
    · obtain ⟨s', hunlock, hdone⟩ := bind_eq_ok.mp hrest
      obtain ⟨-, rfl⟩ := JoinSession.unlock_eq_ok.mp hunlock
      cases hdone
      exact ⟨rfl, rfl⟩
  have hkept : js'.allPkScripts = s.allPkScripts := by
    obtain ⟨push, exit⟩ := d
    cases hpush
    cases hmu : s.mu with
    | true =>
      rw [finish_held ch _ hmu] at hfinish
      split_ifs at hfinish
      · cases hfinish
        rfl
      · cases hfinish
        rfl
    | false =>
      rw [finish_free ch _ hmu] at hfinish
      split_ifs at hfinish
      cases hfinish
      rfl
  rw [hkept, hsame, hlen]

/-- One more vector, while somebody is missing and after. -/
theorem deliver_xor (ch : Choices) {data : DcVector} {p : ℕ} {peer : PeerInfo} (hmu : js.mu = false)
    (hfresh : ∀ p peer, js.peers.lookup p = some peer → peer.dcXorVector = []) (hne : ∀ p, vec p ≠ [])
    (hid : data.peerId = p) (hsize : ¬data.vector.length < pkScriptSize * 2) (hp : js.peers.lookup p = some peer)
    (hread : readMessages (data.vector ++ data.spare) 0 data.len = .ok (vec p)) (done : List ℕ) (scripts : List Bytes) :
    ((∃ q ∈ js.peers.keys, q ∉ done ++ [p]) →
        deliver pkgs ch (.dcXorVector data) (js.withXorVectors vec done scripts) =
          .ok (true, js.withXorVectors vec (done ++ [p]) (List.replicate (vec p).length []))) ∧
      ((∀ q ∈ js.peers.keys, q ∈ done ++ [p]) →
        deliver pkgs ch (.dcXorVector data) (js.withXorVectors vec done scripts) =
          xorEnd pkgs ch (js.withXorVectors vec js.peers.keys []) data.len) := by
  subst hid
  let s := js.withXorVectors vec done scripts
  have hstore : storeXor data (vec data.peerId) s = js.withXorVectors vec (done ++ [data.peerId]) scripts :=
    congrArg (fun js : JoinSession => { js with allPkScripts := scripts })
      (js.setPeer_withData (fun p peer => { peer with dcXorVector := vec p }) (fun _ _ => rfl) done data.peerId)
  have hall : (storeXor data (vec data.peerId) s).allSubmit (fun peer => peer.dcXorVector ≠ []) = true ↔
      ∀ q ∈ js.peers.keys, q ∈ done ++ [data.peerId] := by
    rw [hstore]
    exact js.allSubmit_withData (fun p peer => { peer with dcXorVector := vec p })
      (fun p peer hp => decide_eq_false (not_not.mpr (hfresh p peer hp))) (fun p _ => decide_eq_true (hne p))
  obtain ⟨peer', hp'⟩ : ∃ peer', s.peers.lookup data.peerId = some peer' := by
    apply GoMap.lookup_of_mem_keys
    rw [JoinSession.keys_withXorVectors]
    exact GoMap.mem_keys_of_lookup hp
  have hstep : dcXorVector pkgs ch data s = if (storeXor data (vec data.peerId) s).allSubmit (fun peer => peer.dcXorVector ≠ []) then
      xorSlots pkgs ch (storeXor data (vec data.peerId) s).peers (vec data.peerId).length >>= fun allPkScripts =>
        if !ch.marshal [551] then failed .marshal { storeXor data (vec data.peerId) s with allPkScripts := allPkScripts }
        else ((scriptList ch { storeXor data (vec data.peerId) s with allPkScripts := allPkScripts }).withMu true).unlockAnd .next
      else (JoinSession.withMu { storeXor data (vec data.peerId) s with
        allPkScripts := List.replicate (vec data.peerId).length [] } true).unlockAnd .next := by
    rw [dcXorVector, s.lock_eq hmu, ok_bind, if_neg hsize, hread, ok_bind, JoinSession.peers_withMu, hp']
    rfl
  constructor
  · intro hmissing
    refine deliver_of_next ?_ ?_
    · have hopen : ¬(storeXor data (vec data.peerId) s).allSubmit (fun peer => peer.dcXorVector ≠ []) = true := by
        rw [hall]
        push Not
        exact hmissing
      have hfree : (js.withXorVectors vec (done ++ [data.peerId]) (List.replicate (vec data.peerId).length [])).mu = false := hmu
      rw [handle, hstep, if_neg hopen, hstore]
      change ((js.withXorVectors vec (done ++ [data.peerId]) (List.replicate (vec data.peerId).length [])).withMu true).unlockAnd
        .next = .ok (.next, _)
      rw [JoinSession.unlockAnd, JoinSession.unlock_withMu _ hfree, ok_bind]
    · obtain ⟨q, hq, -⟩ := hmissing
      rw [JoinSession.keys_withXorVectors]
      exact List.ne_nil_of_mem hq
  · intro hlast
    have hpeers : (js.withXorVectors vec (done ++ [data.peerId]) scripts).peers =
        (js.withXorVectors vec js.peers.keys []).peers :=
      js.peers_withData_congr (fun p peer => { peer with dcXorVector := vec p }) hlast fun _ hq => hq
    have hlists : ∀ A : List Bytes, { js.withXorVectors vec (done ++ [data.peerId]) scripts with allPkScripts := A } =
        { js.withXorVectors vec js.peers.keys [] with allPkScripts := A } :=
      fun A => congrArg (fun peers => { js with peers := peers, allPkScripts := A }) hpeers
    rw [deliver, handle, hstep, if_pos (hall.mpr hlast), hstore, hpeers, xorEnd, length_of_readMessages_ok hread]
    simp only [hlists]

end Xor

/-- **The order of the xor vectors** does not matter exactly when they have the same number
of entries, though here it is a shorter one that may not come before the last: the process is
stopped when somebody's vector is shorter than that of the last one, and where it is not the
slots are as many as the last one has entries, whatever the others have. -/
theorem xor_orders_agree_iff (pkgs : Packages) (ch : Choices) {js : JoinSession} (hmu : js.mu = false)
    (hfresh : ∀ p peer, js.peers.lookup p = some peer → peer.dcXorVector = []) {msgs : ℕ → DcVector}
    (hmsgs : ∀ p ∈ js.peers.keys, (msgs p).peerId = p ∧ (msgs p).XorStored) :
    (OrdersAgree pkgs ch (fun p => .dcXorVector (msgs p)) js ↔
        ∀ p ∈ js.peers.keys, ∀ q ∈ js.peers.keys, (msgs p).len = (msgs q).len) ∧
      (∀ early last, (early.map Prod.snd ++ [last]).Perm js.peers.keys →
        (arriving pkgs ch (fun p => .dcXorVector (msgs p)) js early last = .error .panic ↔
            ∃ q ∈ js.peers.keys, (msgs q).len < (msgs last).len) ∧
          ∀ running js', arriving pkgs ch (fun p => .dcXorVector (msgs p)) js early last = .ok (running, js') →
            js'.allPkScripts.length = (msgs last).len) ∧
      ((∃ p ∈ js.peers.keys, ∃ q ∈ js.peers.keys, (msgs p).len ≠ (msgs q).len) →
        OrdersDiffer pkgs ch (fun p => .dcXorVector (msgs p)) js) := by
  have hvec : ∀ p, ∃ v : List Bytes, v ≠ [] ∧ (p ∈ js.peers.keys →
      readMessages ((msgs p).vector ++ (msgs p).spare) 0 (msgs p).len = .ok v) := by
    intro p
    by_cases hp : p ∈ js.peers.keys
    · obtain ⟨-, hstored⟩ := hmsgs p hp
      obtain ⟨v, hread⟩ := exists_readMessages_iff_le.mpr hstored.entries
      refine ⟨v, fun hnil => hstored.some ?_, fun _ => hread⟩
      rw [← length_of_readMessages_ok hread, hnil]
      rfl
    · exact ⟨[[]], List.cons_ne_nil _ _, fun h => absurd h hp⟩
  choose vec hne hread using hvec
  have hlength : ∀ p ∈ js.peers.keys, (vec p).length = (msgs p).len := fun p hp => length_of_readMessages_ok (hread p hp)
  have hdeliver := fun (ch : Choices) (done : List ℕ) (scripts : List Bytes) (p : ℕ) (hp : p ∈ js.peers.keys) (peer : PeerInfo)
      (hpeer : js.peers.lookup p = some peer) =>
    @deliver_xor pkgs js vec ch _ _ _ hmu hfresh hne (hmsgs p hp).1 (hmsgs p hp).2.size hpeer (hread p hp) done scripts
  -- a vector is the greater for the round's end, the shorter it is
  let F : ℕᵒᵈ → Except Fault (Bool × JoinSession) := fun n => xorEnd pkgs ch (js.withXorVectors vec js.peers.keys []) (OrderDual.ofDual n)
  let size : ℕ → ℕᵒᵈ := fun p => OrderDual.toDual (msgs p).len
  have houtcome : ∀ early last, (early.map Prod.snd ++ [last]).Perm js.peers.keys →
      arriving pkgs ch (fun p => .dcXorVector (msgs p)) js early last = F (size last) := by
    intro early last hperm
    refine arriving_eq (fun done s => ∃ scripts, s = js.withXorVectors vec done scripts)
      (fun p => xorEnd pkgs ch (js.withXorVectors vec js.peers.keys []) (msgs p).len)
      ⟨_, (js.withXorVectors_nil vec).symm⟩ ?_ ?_ hperm
    · rintro ch done p s ⟨scripts, rfl⟩ hp hmissing
      obtain ⟨peer, hpeer⟩ := GoMap.lookup_of_mem_keys hp
      exact ⟨_, (hdeliver ch done scripts p hp peer hpeer).1 hmissing, _, rfl⟩
    · rintro done p s ⟨scripts, rfl⟩ hall
      have hp := hall.mem_iff.mp (List.mem_append_right _ (List.mem_singleton_self p))
      obtain ⟨peer, hpeer⟩ := GoMap.lookup_of_mem_keys hp
      exact (hdeliver ch done scripts p hp peer hpeer).2 fun q hq => hall.mem_iff.mpr hq
  have hbad : ∀ p ∈ js.peers.keys, F (size p) = .error .panic ↔ ∃ q ∈ js.peers.keys, size p < size q := by
    intro p hp
    change xorEnd pkgs ch (js.withXorVectors vec js.peers.keys []) (msgs p).len = .error .panic ↔
      ∃ q ∈ js.peers.keys, (msgs q).len < (msgs p).len
    rw [xorEnd_panic_iff]
    constructor
    · intro ⟨q, hq, hshort⟩
      exact ⟨q, hq, hlength q hq ▸ hshort⟩
    · intro ⟨q, hq, hshort⟩
      exact ⟨q, hq, (hlength q hq).symm ▸ hshort⟩
  refine ⟨orders_agree_iff F _ ch houtcome hbad, fun early last hperm => ⟨?_, fun running js' hend => ?_⟩,
    exists_orders F _ ch houtcome hbad⟩
  · exact order_bad_iff F _ houtcome hbad hperm
  · rw [houtcome early last hperm] at hend
    exact length_of_xorEnd hend

/-- Three entries after two are too many to combine. -/
theorem xor_orders_agree_two : ¬OrdersAgree plainPackages (plainChoices id)
    (fun p => .dcXorVector ⟨p, p + 1, List.replicate ((p + 1) * 25) 6, []⟩)
    { newJoinSession 7 60 false (queuePeers [(0, 1), (1, 2)]) with state := .dcXor } := by
  intro hagree
  have hlen := (xor_orders_agree_iff plainPackages (plainChoices id) rfl
    (fun p peer h => by
      obtain ⟨conn, _, rfl⟩ := lookup_newJoinSession 7 60 false h
      rfl)
    (fun p hp => by
      have hp' : p ∈ [1, 2] := (show List.Perm _ [1, 2] by decide).mem_iff.mp hp
      rcases List.mem_pair.mp hp' with rfl | rfl
      · exact ⟨rfl, by decide, by decide, by decide⟩
      · exact ⟨rfl, by decide, by decide, by decide⟩)).1.mp hagree
  exact absurd (hlen 1 (by decide) 2 (by decide)) (by decide)

end Dcrtxmatcher.Coinjoin
