import Dlep.Peer.Owners
import Dlep.Peer.Session

/-!
# One owner for each address

Some handlers store addresses, or drop them, without asking for the owner first. That no address has
two owners, and that a message which asks for an owned address changes nothing, survives a message
exactly if none of these handlers is given such a message and has something to change.
-/

namespace Dlep

open Std Calls Ownership

namespace Peer

section

variable [AddressText] {d : DlepView} {s : Surroundings} {pm : ProtocolMessage} {p : Peer}

/-- The handler of a message of this name replaces addresses without asking, and leaves `ks`. -/
inductive Unchecked (d : DlepView) (s : Surroundings) (pm : ProtocolMessage) (p : Peer) :
    String → Option DlepMac → List Address → Prop where
  /-- A destination that is announced to a modem is added (`Peer.cpp:1572`). -/
  | announce {name responseName : String} {mac : DlepMac}
      (hname : name = "Destination_Announce" ∨ name = "Destination_Up" ∧ d.modem = true)
      (hmac : pm.getMac d.cfg = .ok mac) (hsignal : pm.getSignalName d.cfg = .ok name)
      (hresponse : d.cfg.getMessageResponseName name = .ok responseName) (hne : responseName ≠ "")
      (hnew : p.peerPdp.validDestination mac = false) :
      Unchecked d s pm p name (some mac)
        (applyAll (p.peerPdp.addresses (some mac)) (requests d.cfg pm.dataItems))
  /-- The response to a Session Initialization is accepted, and its metrics are known
  (`Peer.cpp:1313`). -/
  | initializationResponse {q r : Peer} (haccept : handleResponse d s pm p = .ok true q)
      (hproperties : (do storePeerProperties d pm; setMutualExtensions d pm : PeerM Unit) q =
        .ok () r)
      (hmetrics : PeerData.hasUnknownMetric d.cfg p.peerPdp.metricDataItems pm.dataItems =
        .ok false)
      (hstatus : ∃ id, d.cfg.getDataItemId "Status" none = .ok id) :
      Unchecked d s pm p "Session_Initialization_Response" none
        (applyAll (p.peerPdp.addresses none) (requests d.cfg pm.dataItems))
  /-- The response to a Link Characteristics Request is accepted (`Peer.cpp:1799`). -/
  | linkCharacteristicsResponse {q : Peer} {mac : DlepMac} {items : DataItems}
      (hmac : pm.getMac d.cfg = .ok mac) (haccept : handleResponse d s pm p = .ok true q)
      (hdest : p.peerPdp.validDestination mac = true)
      (hitems : pm.getDataItemsNoMac d.cfg = .ok items) :
      Unchecked d s pm p "Link_Characteristics_Response" (some mac)
        (applyAll (p.peerPdp.addresses (some mac)) (requests d.cfg items))
  /-- A destination that is down loses its addresses (`Peer.cpp:1684`). -/
  | down {mac : DlepMac} (hmac : pm.getMac d.cfg = .ok mac)
      (hdest : p.peerPdp.validDestination mac = true) :
      Unchecked d s pm p "Destination_Down" (some mac) []

/-! ## What the unchecked handlers write -/

/-- An announcement that is accepted stores the addresses of its destination without asking. -/
theorem writes_handleDestinationAnnounce {name responseName : String} {mac : DlepMac}
    (h : pm.dataItems.Known d.cfg) (hmac : pm.getMac d.cfg = .ok mac)
    (hsignal : pm.getSignalName d.cfg = .ok name)
    (hresponse : d.cfg.getMessageResponseName name = .ok responseName) (hne : responseName ≠ "")
    (hnew : p.peerPdp.validDestination mac = false) :
    Writes (some mac) (applyAll (p.peerPdp.addresses (some mac)) (requests d.cfg pm.dataItems)) p
      (after (handleDestinationAnnounce d s pm) p) := by
  refine (wp_after (P := Writes _ _ p)).1 ?_
  simp only [handleDestinationAnnounce, hmac, hsignal, hresponse, wp_bind, wp_lift_ok, assertThat,
    hne, ne_eq, not_false_eq_true, decide_true, if_true, wp_get, hnew, Bool.false_eq_true, if_false,
    regainInterest, wp_modify]
  obtain ⟨q, hq⟩ : ∃ q : Peer, q = { p with
    notInterestedDestinations := p.notInterestedDestinations.erase mac } := ⟨_, rfl⟩
  have hpdp : q.peerPdp = p.peerPdp := by rw [hq]
  rw [← hq]
  refine (wp_addDestinationChecked h (hpdp ▸ hnew)).mono (fun _ r hr => ?_) fun _ _ h => h.elim
  rw [hpdp] at hr
  have hr := (show KeepsPdp p q from hpdp).same.writes hr
  split
  · refine wp_of_same ?_ fun _ h => hr.same h
    exact within_bind same_setNeedsResponse fun _ => same_destinationUp
  · refine wp_of_same ?_ fun _ h => hr.same h
    exact within_bind (same_of_keeps keeps_askClient) fun _ => same_answerAnnounce

/-- Unless the destination is added, nothing happens to the addresses. -/
theorem same_handleDestinationAnnounce
    (hno : ∀ mac name responseName, pm.getMac d.cfg = .ok mac → pm.getSignalName d.cfg = .ok name →
      d.cfg.getMessageResponseName name = .ok responseName → responseName ≠ "" →
      p.peerPdp.validDestination mac = true) :
    SameAddresses p (after (handleDestinationAnnounce d s pm) p) := by
  refine (wp_after (P := SameAddresses p)).1 ?_
  rw [handleDestinationAnnounce, wp_bind]
  refine wp_lift (fun mac hmac => ?_) fun _ _ => rfl
  rw [wp_bind]
  refine wp_lift (fun name hname => ?_) fun _ _ => rfl
  rw [wp_bind]
  refine wp_lift (fun responseName hresponse => ?_) fun _ _ => rfl
  rw [wp_bind]
  refine wp_lift (fun _ hne => ?_) fun _ _ => rfl
  rw [wp_bind, wp_get, hno mac name responseName hmac hname hresponse (by simpa using hne),
    if_pos rfl]
  exact same_answerAnnounce.wp p

omit [AddressText] in
/-- A call that keeps the data keeps them when it returns. -/
theorem keeps_of_ok {α : Type} {m : PeerM α} (hm : Within KeepsPdp m) {q : Peer} {a : α}
    (h : m p = .ok a q) : KeepsPdp p q := by
  have hwp := hm.wp p
  rw [wp, h] at hwp
  exact hwp

omit [AddressText] in
/-- A call that keeps the data keeps them when it throws. -/
theorem keeps_of_error {α : Type} {m : PeerM α} (hm : Within KeepsPdp m) {q : Peer} {e : Exn}
    (h : m p = .error e q) : KeepsPdp p q := by
  have hwp := hm.wp p
  rw [wp, h] at hwp
  exact hwp

/-- The data of a response is stored if its metrics are known, and no address changes before. -/
theorem writes_initializationResponse {r : Peer} (h : pm.dataItems.Known d.cfg)
    (hpdp : r.peerPdp = p.peerPdp)
    (hmetrics : PeerData.hasUnknownMetric d.cfg p.peerPdp.metricDataItems pm.dataItems = .ok false)
    (hstatus : ∃ id, d.cfg.getDataItemId "Status" none = .ok id) :
    wp (onPdp (PeerData.updateDataItems d.cfg pm.dataItems))
      (fun _ q => Writes none (applyAll (p.peerPdp.addresses none)
        (requests d.cfg pm.dataItems)) p q)
      (fun _ _ => False) r := by
  rw [onPdp, wp_zoom, hpdp]
  exact (PeerData.wp_updateDataItems_addresses h hmetrics).mono (fun _ _ hpd => hpd.2)
    fun _ _ hpd => hpd.2 hstatus

/-- An answer that is accepted stores the addresses of the peer without asking. -/
theorem writes_handlePeerInitializationResponse {q r : Peer} (h : pm.dataItems.Known d.cfg)
    (haccept : handleResponse d s pm p = .ok true q)
    (hproperties : (do storePeerProperties d pm; setMutualExtensions d pm : PeerM Unit) q =
      .ok () r)
    (hmetrics : PeerData.hasUnknownMetric d.cfg p.peerPdp.metricDataItems pm.dataItems = .ok false)
    (hstatus : ∃ id, d.cfg.getDataItemId "Status" none = .ok id) :
    Writes none (applyAll (p.peerPdp.addresses none) (requests d.cfg pm.dataItems)) p
      (after (handlePeerInitializationResponse d s pm) p) := by
  obtain ⟨_, q', hstore, hset⟩ := bind_run_eq_ok.1 hproperties
  have hpdp : r.peerPdp = p.peerPdp := by
    rw [keeps_of_ok keeps_setMutualExtensions hset, keeps_of_ok keeps_storePeerProperties hstore,
      keeps_of_ok keeps_handleResponse haccept]
  refine (wp_after (P := Writes _ _ p)).1 ?_
  rw [handlePeerInitializationResponse, wp_bind]
  refine wp_of_ok haccept ?_
  rw [if_pos rfl, wp_bind]
  refine wp_of_ok hstore ?_
  rw [wp_bind]
  refine wp_of_ok hset ?_
  rw [wp_bind]
  refine (writes_initializationResponse h hpdp hmetrics hstatus).mono (fun _ _ hq => ?_)
    fun _ _ h => h.elim
  exact wp_of_same same_enterSession fun _ h => hq.same h

/-- An answer that is not accepted, or whose metrics are unknown, stores no address. -/
theorem same_handlePeerInitializationResponse (h : pm.dataItems.Known d.cfg)
    (hno : ∀ q r, handleResponse d s pm p = .ok true q →
      (do storePeerProperties d pm; setMutualExtensions d pm : PeerM Unit) q = .ok () r →
      (∃ id, d.cfg.getDataItemId "Status" none = .ok id) →
      PeerData.hasUnknownMetric d.cfg p.peerPdp.metricDataItems pm.dataItems ≠ .ok false) :
    SameAddresses p (after (handlePeerInitializationResponse d s pm) p) := by
  refine (wp_after (P := SameAddresses p)).1 ?_
  rw [handlePeerInitializationResponse, wp_bind]
  refine wp_of_run (fun ok q haccept => ?_) fun e q herror =>
    (keeps_of_error keeps_handleResponse herror).same
  have hq := keeps_of_ok keeps_handleResponse haccept
  cases ok with
  | false => exact hq.same
  | true =>
    rw [if_pos rfl, wp_bind]
    refine wp_of_run (fun _ q' hstore => ?_) fun e q' herror =>
      (hq.trans (keeps_of_error keeps_storePeerProperties herror)).same
    have hq' := hq.trans (keeps_of_ok keeps_storePeerProperties hstore)
    rw [wp_bind]
    refine wp_of_run (fun _ r hset => ?_) fun e r herror =>
      (hq'.trans (keeps_of_error keeps_setMutualExtensions herror)).same
    have hr : r.peerPdp = p.peerPdp := hq'.trans (keeps_of_ok keeps_setMutualExtensions hset)
    have hproperties : (do storePeerProperties d pm; setMutualExtensions d pm : PeerM Unit)
        q = .ok () r :=
      bind_run_eq_ok.2 ⟨(), q', hstore, hset⟩
    -- a metric is unknown, or the status is: nothing is stored
    obtain ⟨unknown, hunknown⟩ := PeerData.hasUnknownMetric_ok h p.peerPdp.metricDataItems
    rw [wp_bind, onPdp, wp_zoom, hr]
    refine (PeerData.wp_updateDataItems_addresses h hunknown).mono (fun _ pd hpd => ?_)
      fun _ pd hpd => congrArg PeerData.addresses hpd.1
    cases unknown with
    | true =>
      obtain rfl : pd = p.peerPdp := hpd
      exact same_enterSession.wp { r with peerPdp := p.peerPdp }
    | false => exact absurd hunknown (hno q r haccept hproperties hpd.1)

/-- A response about a link that is accepted stores the addresses of its destination without
asking. -/
theorem writes_handleLinkCharacteristicsResponse {q : Peer} {mac : DlepMac} {items : DataItems}
    (h : pm.dataItems.Known d.cfg) (hmac : pm.getMac d.cfg = .ok mac)
    (haccept : handleResponse d s pm p = .ok true q)
    (hdest : p.peerPdp.validDestination mac = true)
    (hitems : pm.getDataItemsNoMac d.cfg = .ok items) :
    Writes (some mac) (applyAll (p.peerPdp.addresses (some mac)) (requests d.cfg items)) p
      (after (handleLinkCharacteristicsResponse d s pm) p) := by
  have hq := keeps_of_ok keeps_handleResponse haccept
  have hpdp : q.peerPdp = p.peerPdp := hq
  obtain ⟨dd, hdd⟩ : ∃ dd, q.peerPdp.getDestinationData mac = some dd := by
    rw [hpdp, ← Option.isSome_iff_exists, ← PeerData.validDestination_eq_isSome]
    exact hdest
  have hknown : items.Known d.cfg := by
    obtain ⟨_, _, hret⟩ := bind_eq_ok.1 hitems
    obtain rfl := Except.ok.inj hret
    exact fun di hdi => h di (List.mem_of_mem_filter hdi)
  refine (wp_after (P := Writes _ _ p)).1 ?_
  rw [handleLinkCharacteristicsResponse, hmac, wp_bind, wp_lift_ok, wp_bind]
  refine wp_of_ok haccept ?_
  rw [if_pos rfl, wp_bind, wp_get, hdd]
  simp only [hitems, wp_bind, wp_lift_ok]
  have hupdate : wp (do DestinationData.update d.cfg items; (← get).log d.cfg : EStateM Exn _ Unit)
      (fun _ dd' => addressesOf dd'.ipDataItems =
        applyAll (addressesOf dd.ipDataItems) (requests d.cfg items))
      (fun _ dd' => addressesOf dd'.ipDataItems =
        applyAll (addressesOf dd.ipDataItems) (requests d.cfg items)) dd := by
    rw [wp_bind]
    refine (DestinationData.wp_update hknown.classified dd).mono (fun _ dd' hdd' => ?_)
      fun _ _ h => h.elim
    rw [wp_bind, wp_get]
    exact wp_lift (fun _ _ => hdd'.ips.addresses) fun _ _ => hdd'.ips.addresses
  have hwrites : ∀ r, Writes (some mac) (applyAll (q.peerPdp.addresses (some mac))
      (requests d.cfg items)) q r →
      Writes (some mac) (applyAll (p.peerPdp.addresses (some mac)) (requests d.cfg items)) p r := by
    intro r hr
    rw [hpdp] at hr
    exact hq.same.writes hr
  refine (writes_onDestination hdd hupdate).mono (fun _ r hr => ?_) fun _ r hr => hwrites r hr
  refine wp_of_same (same_of_keeps keeps_emit) fun _ h => (hwrites r hr).same h

/-- A response about a link that is not accepted stores no address. -/
theorem same_handleLinkCharacteristicsResponse
    (hno : ∀ q mac items, pm.getMac d.cfg = .ok mac → handleResponse d s pm p = .ok true q →
      pm.getDataItemsNoMac d.cfg = .ok items → p.peerPdp.validDestination mac = false) :
    SameAddresses p (after (handleLinkCharacteristicsResponse d s pm) p) := by
  refine (wp_after (P := SameAddresses p)).1 ?_
  rw [handleLinkCharacteristicsResponse, wp_bind]
  refine wp_lift (fun mac hmac => ?_) fun _ _ => rfl
  rw [wp_bind]
  refine wp_of_run (fun ok q haccept => ?_) fun e q herror =>
    (keeps_of_error keeps_handleResponse herror).same
  have hq := keeps_of_ok keeps_handleResponse haccept
  have hpdp : q.peerPdp = p.peerPdp := hq
  cases ok with
  | false => exact hq.same
  | true =>
    rw [if_pos rfl, wp_bind, wp_get]
    cases hdd : q.peerPdp.getDestinationData mac with
    | none => exact wp_of_same (same_of_keeps keeps_terminate) fun _ h => h.trans hq.same
    | some dd =>
      simp only [wp_bind]
      refine wp_lift (fun items hitems => ?_) fun _ _ => hq.same
      have hvalid := hno q mac items hmac haccept hitems
      rw [PeerData.validDestination_eq_isSome, ← hpdp, hdd] at hvalid
      cases hvalid

/-- A destination that goes down loses its addresses. -/
theorem writes_handleDestinationDown {mac : DlepMac} (hmac : pm.getMac d.cfg = .ok mac) :
    Writes (some mac) [] p (after (handleDestinationDown d s pm) p) := by
  refine (wp_after (P := Writes (some mac) [] p)).1 ?_
  rw [handleDestinationDown, hmac, wp_bind, wp_lift_ok, wp_bind, dropDestination, wp_bind, onPdp,
    wp_zoom]
  refine (PeerData.wp_removeDestination p.peerPdp).mono (fun ok pd hpd => ?_) fun _ _ h => h.elim
  have hwrites : Writes (some mac) [] p { p with peerPdp := pd } := hpd.2
  have hanswer : Within SameAddresses (do
      let items ← pm.getDataItemsNoMac d.cfg
      callClient (.destinationDown (← get).peerId mac items)
      sendSimpleResponse d s "Destination_Down_Response" "Success" [] (some mac) : PeerM Unit) := by
    refine within_bind within_lift fun _ => within_bind within_get fun _ => ?_
    exact within_bind (same_of_keeps keeps_emit) fun _ => same_of_keeps keeps_sendSimpleResponse
  cases ok with
  | true => exact wp_of_same hanswer fun _ h => hwrites.same h
  | false =>
    rw [if_neg Bool.false_ne_true]
    split
    · have hinterest : KeepsPdp { p with peerPdp := pd } _ :=
        (show Within KeepsPdp (notInterested mac) from keeps_modify fun _ => rfl)
          { p with peerPdp := pd }
      exact wp_of_same hanswer fun _ h => (hwrites.same hinterest.same).same h
    · exact wp_of_same (same_of_keeps keeps_terminate) fun _ h => hwrites.same h

/-- A destination that is not there has no addresses to lose. -/
theorem same_handleDestinationDown
    (hno : ∀ mac, pm.getMac d.cfg = .ok mac → p.peerPdp.validDestination mac = false) :
    SameAddresses p (after (handleDestinationDown d s pm) p) := by
  refine (wp_after (P := SameAddresses p)).1 ?_
  rw [handleDestinationDown, wp_bind]
  refine wp_lift (fun mac hmac => ?_) fun _ _ => rfl
  have hwrites := (wp_after (P := Writes (some mac) [] p)).2
      (writes_handleDestinationDown (s := s) hmac)
  rw [handleDestinationDown, hmac, wp_bind, wp_lift_ok] at hwrites
  have hsame : ∀ q, Writes (some mac) [] p q → SameAddresses p q := by
    intro q hq
    rw [Writes, ← PeerData.addresses_of_not_valid (hno mac hmac), Function.update_eq_self] at hq
    exact hq
  exact hwrites.mono (fun _ q hq => hsame q hq) fun _ q hq => hsame q hq

/-! ## Messages -/

/-- The handlers that do not ask write what `Unchecked` says. -/
theorem writes_dispatch {name : String} {dest : Option DlepMac} {ks : List Address}
    (h : pm.dataItems.Known d.cfg) (hun : Unchecked d s pm p name dest ks) :
    Writes dest ks p (after (dispatch d s name pm) p) := by
  cases hun with
  | announce hname hmac hsignal hresponse hne hnew =>
    rcases hname with rfl | ⟨rfl, hmodem⟩
    · exact writes_handleDestinationAnnounce h hmac hsignal hresponse hne hnew
    · have hdispatch : dispatch d s "Destination_Up" pm = handleDestinationAnnounce d s pm := by
        rw [dispatch_destinationUp, if_pos hmodem]
      rw [hdispatch]
      exact writes_handleDestinationAnnounce h hmac hsignal hresponse hne hnew
  | initializationResponse haccept hproperties hmetrics hstatus =>
    exact writes_handlePeerInitializationResponse h haccept hproperties hmetrics hstatus
  | linkCharacteristicsResponse hmac haccept hdest hitems =>
    exact writes_handleLinkCharacteristicsResponse h hmac haccept hdest hitems
  | down hmac hdest => exact writes_handleDestinationDown hmac

/-- Every other message asks. -/
theorem asks_dispatch {name : String} (h : pm.dataItems.Known d.cfg)
    (htyped : Typed d.cfg pm.dataItems) (hsignal : pm.getSignalName d.cfg = .ok name)
    (hno : ∀ dest ks, ¬ Unchecked d s pm p name dest ks) :
    Asks d pm.dataItems p (after (dispatch d s name pm) p) := by
  have hannounce : (name = "Destination_Announce" ∨ name = "Destination_Up" ∧ d.modem = true) →
      SameAddresses p (after (handleDestinationAnnounce d s pm) p) := by
    intro hname
    refine same_handleDestinationAnnounce fun mac name' responseName hmac hname' hresponse hne => ?_
    obtain rfl := Except.ok.inj (hsignal.symm.trans hname')
    by_contra hnew
    exact hno _ _ (.announce hname hmac hsignal hresponse hne (by simpa using hnew))
  have hresponse : Within SameAddresses (do let _ ← handleResponse d s pm : PeerM Unit) :=
    same_of_keeps (within_bind keeps_handleResponse fun _ => within_pure)
  have hasks : ∀ {m : PeerM Unit},
      wp m (fun _ q => Asks d pm.dataItems p q) (fun _ q => Asks d pm.dataItems p q) p →
      Asks d pm.dataItems p (after m p) := fun hm => wp_after.1 hm
  unfold dispatch
  split
  · exact .inl rfl
  · exact hasks (asks_handleDestinationUpdate h htyped p)
  · split
    · next hmodem => exact .inl (hannounce (.inr ⟨rfl, hmodem⟩))
    · exact hasks (asks_handleDestinationUp h p)
  · exact hasks (asks_handleDestinationUpResponse h p)
  · exact .inl (hannounce (.inl rfl))
  · exact hasks (asks_handleDestinationUpResponse h p)
  · refine .inl (same_handleDestinationDown fun mac hmac => ?_)
    by_contra hdest
    exact hno _ _ (.down hmac (by simpa using hdest))
  · exact .inl (within_bind within_lift (fun _ => hresponse) p)
  · refine .inl (same_of_keeps ?_ p)
    refine within_bind within_lift fun _ => within_bind within_lift fun _ => ?_
    split
    · exact keeps_terminate
    · refine within_ite (fun _ => within_bind within_lift fun _ => ?_) fun _ => ?_
      · exact within_ite (fun _ => within_bind within_lift fun _ => keeps_emit) fun _ => within_pure
      · exact within_bind within_get fun _ => keeps_emit
  · refine .inl (same_handleLinkCharacteristicsResponse fun q mac items hmac haccept hitems => ?_)
    by_contra hdest
    exact hno _ _ (.linkCharacteristicsResponse hmac haccept (by simpa using hdest) hitems)
  · exact asks_handlePeerUpdate h p
  · exact .inl (hresponse p)
  · exact .inl (same_handlePeerInitialization p)
  · refine .inl (same_handlePeerInitializationResponse h fun q r haccept hproperties
      hstatus hmetrics => ?_)
    exact hno _ _ (.initializationResponse haccept hproperties hmetrics hstatus)
  · exact .inl (same_of_keeps (within_bind keeps_sendSimpleResponse fun _ => keeps_stopPeer) p)
  · refine .inl (same_of_keeps ?_ p)
    refine within_bind within_get fun _ => within_ite (fun _ => ?_) fun _ => within_pure
    exact within_bind keeps_handleResponse fun _ => keeps_stopPeer
  · exact .inl rfl

/-- The status does not end the session, and then nothing has changed. -/
theorem keeps_checkStatusCodeFailure :
    wp (checkStatusCodeFailure d s pm) (fun ended q => KeepsPdp p q ∧ (ended = false → q = p))
      (fun _ q => KeepsPdp p q) p := by
  rw [checkStatusCodeFailure, wp_bind]
  refine wp_lift (fun _ _ => ?_) fun _ _ => rfl
  split
  · exact ⟨rfl, fun _ => rfl⟩
  · rw [wp_bind]
    refine wp_lift (fun status _ => ?_) fun _ _ => rfl
    cases status with
    | none => exact ⟨rfl, fun _ => rfl⟩
    | some status =>
      rw [wp_bind]
      refine wp_lift (fun info _ => ?_) fun _ _ => rfl
      split
      · rw [wp_bind]
        exact (keeps_terminate.wp p).mono (fun _ q hq => ⟨hq, fun h => by cases h⟩) fun _ _ hq => hq
      · exact ⟨rfl, fun _ => rfl⟩

/-- A message that is not handled changes no address. -/
theorem same_handlePeerSignal {buf : Bytes}
    (hno : ∀ pm name, received d buf = .ok ([], pm) →
      checkStatusCodeFailure d s pm p = .ok false p →
      pm.getSignalName d.cfg ≠ .ok name) :
    SameAddresses p (after (handlePeerSignal d s buf) p) := by
  refine (wp_after (P := SameAddresses p)).1 ?_
  rw [handlePeerSignal, wp_bind]
  refine wp_lift (fun r hr => ?_) fun _ _ => rfl
  obtain ⟨err, pm⟩ := r
  dsimp only
  split
  · exact (same_of_keeps keeps_terminate).wp p
  · next herr =>
    obtain rfl := not_not.1 herr
    rw [wp_bind]
    refine wp_of_run (fun ended q hrun => ?_) fun e q hrun => ?_
    · have hcheck := @keeps_checkStatusCodeFailure _ d s pm p
      rw [wp, hrun] at hcheck
      cases ended with
      | true => exact hcheck.1.same
      | false =>
        obtain rfl := hcheck.2 rfl
        rw [if_neg Bool.false_ne_true, wp_bind]
        exact wp_lift (fun name hname => absurd hname (hno pm name hr hrun)) fun _ _ => rfl
    · have hcheck := @keeps_checkStatusCodeFailure _ d s pm p
      rw [wp, hrun] at hcheck
      exact hcheck.same

/-! ## One owner -/

/-- What is expected of the handling of a message: no address is owned twice afterwards, and if the
message asks to add an address that is owned, everyone has what they had. -/
def KeepsOwners (d : DlepView) (s : Surroundings) (buf : Bytes) (p : Peer) : Prop :=
  Unique (owners d (after (handlePeerSignal d s buf) p)) ∧
    ∀ err pm, received d buf = .ok (err, pm) → AddsOwned d p pm.dataItems →
      SameOwners (owners d p) (owners d (after (handlePeerSignal d s buf) p))

/-- The message is handled by a handler that does not ask, it asks to add an address that is
owned, and what the handler writes is not what was there. -/
def Breaks (d : DlepView) (s : Surroundings) (buf : Bytes) (p : Peer) : Prop :=
  ∃ pm name dest ks, received d buf = .ok ([], pm) ∧ checkStatusCodeFailure d s pm p = .ok false p ∧
    pm.getSignalName d.cfg = .ok name ∧ Unchecked d s pm p name dest ks ∧
    AddsOwned d p pm.dataItems ∧ ¬ ∀ k, k ∈ ks ↔ k ∈ p.peerPdp.addresses dest

omit [AddressText] in
/-- Where no address changes, everyone has what they had. -/
theorem keeps_of_sameAddresses {q : Peer} {items : DataItems} (hunique : Unique (owners d p))
    (h : SameAddresses p q) : Keeps (addsOf d.cfg items) (owners d p) (owners d q) := by
  rw [owners_congr h]
  exact keeps_refl hunique

omit [AddressText] in
/-- An owner whose addresses are replaced. -/
theorem keeps_of_writes_iff {q : Peer} {i : Nat} {dest : Option DlepMac} {ks : List Address}
    {items : DataItems} (hself : SelfAt d i) (hunique : Unique (owners d p))
    (h : Writes dest ks p q) (hnodup : ks.Nodup)
    (hks : ∀ k ∈ ks, k ∈ p.peerPdp.addresses dest ∨ k ∈ addsOf d.cfg items) :
    Keeps (addsOf d.cfg items) (owners d p) (owners d q) ↔
      (AddsOwned d p items → ∀ k, k ∈ ks ↔ k ∈ p.peerPdp.addresses dest) := by
  rw [← owners_self hself] at hks ⊢
  rw [owners_update hself h]
  exact keeps_update_iff hunique hnodup hks

/-- The requests of a message leave a list without duplicates, of what was there and what was
added. -/
theorem Unchecked.spec {name : String} {dest : Option DlepMac} {ks : List Address}
    (htyped : Typed d.cfg pm.dataItems) (hun : Unchecked d s pm p name dest ks)
    (hnodup : ∀ dest, (p.peerPdp.addresses dest).Nodup) :
    ks.Nodup ∧ ∀ k ∈ ks, k ∈ p.peerPdp.addresses dest ∨ k ∈ addsOf d.cfg pm.dataItems := by
  have hspec : ∀ {items dest}, addsOf d.cfg items = addsOf d.cfg pm.dataItems →
      (applyAll (p.peerPdp.addresses dest) (requests d.cfg items)).Nodup ∧
        ∀ k ∈ applyAll (p.peerPdp.addresses dest) (requests d.cfg items),
          k ∈ p.peerPdp.addresses dest ∨ k ∈ addsOf d.cfg pm.dataItems := by
    intro items dest hadds
    refine ⟨nodup_applyAll (hnodup dest) _, fun k hk => ?_⟩
    rcases mem_applyAll hk with hold | hnew
    · exact .inl hold
    · exact .inr (hadds ▸ mem_addsOf_of_add_mem_requests hnew)
  cases hun with
  | announce => exact hspec rfl
  | initializationResponse => exact hspec rfl
  | linkCharacteristicsResponse hmac _ _ hitems =>
    exact hspec (addsOf_getDataItemsNoMac htyped hmac hitems)
  | down => exact ⟨List.nodup_nil, by simp⟩

omit [AddressText] in
/-- Requests that were checked keep what is expected. -/
theorem keeps_of_asks {q : Peer} {i : Nat} {items : DataItems} (hself : SelfAt d i)
    (hunique : Unique (owners d p)) (h : Asks d items p q) :
    Keeps (addsOf d.cfg items) (owners d p) (owners d q) := by
  rcases h with hsame | ⟨hfree, dest, ops, hops, hwrites⟩
  · exact keeps_of_sameAddresses hunique hsame
  · refine (keeps_of_writes_iff hself hunique hwrites (nodup_applyAll ?_ ops) fun k hk => ?_).2
      fun howned => absurd howned hfree
    · rw [← owners_self hself]
      exact hunique.once _
    · rcases mem_applyAll hk with hold | hnew
      · exact .inl hold
      · exact .inr (hops k hnew)

/-- Whatever the node and its peers own, as long as no address is owned twice, whatever the client
says: a message from a peer keeps the owners exactly if it does not break them. -/
theorem keepsOwners_iff {i : Nat} (hself : SelfAt d i) (hunique : Unique (owners d p))
    (buf : Bytes) :
    KeepsOwners d s buf p ↔ ¬ Breaks d s buf p := by
  by_cases hhandled : ∃ pm name, received d buf = .ok ([], pm) ∧
      checkStatusCodeFailure d s pm p = .ok false p ∧ pm.getSignalName d.cfg = .ok name
  · obtain ⟨pm, name, hreceived, hpass, hname⟩ := hhandled
    have hknown := known_of_received hreceived
    have htyped := typed_of_received hreceived
    have hafter : after (handlePeerSignal d s buf) p = after (dispatch d s name pm) p :=
      (wp_after (P := (· = after (dispatch d s name pm) p))).1
        (wp_handlePeerSignal_of_pass hreceived hpass hname (wp_after.2 rfl))
    have hkeeps : KeepsOwners d s buf p ↔
        Keeps (addsOf d.cfg pm.dataItems) (owners d p)
          (owners d (after (dispatch d s name pm) p)) := by
      rw [KeepsOwners, hafter, Keeps]
      refine and_congr_right fun _ => ⟨fun h => h [] pm hreceived, fun h err pm' hreceived' => ?_⟩
      obtain ⟨_, rfl⟩ := Prod.mk.inj (Except.ok.inj (hreceived.symm.trans hreceived'))
      exact h
    have hbreaks : Breaks d s buf p ↔ ∃ dest ks, Unchecked d s pm p name dest ks ∧
        AddsOwned d p pm.dataItems ∧ ¬ ∀ k, k ∈ ks ↔ k ∈ p.peerPdp.addresses dest := by
      constructor
      · rintro ⟨pm', name', dest, ks, hreceived', _, hname', hun, howned, hchanged⟩
        obtain ⟨_, rfl⟩ := Prod.mk.inj (Except.ok.inj (hreceived.symm.trans hreceived'))
        obtain rfl := Except.ok.inj (hname.symm.trans hname')
        exact ⟨dest, ks, hun, howned, hchanged⟩
      · rintro ⟨dest, ks, hun, howned, hchanged⟩
        exact ⟨pm, name, dest, ks, hreceived, hpass, hname, hun, howned, hchanged⟩
    have hnodup : ∀ dest, (p.peerPdp.addresses dest).Nodup := fun dest => by
      rw [← owners_self hself]
      exact hunique.once _
    have hwrites : ∀ {dest ks}, Unchecked d s pm p name dest ks →
        (Keeps (addsOf d.cfg pm.dataItems) (owners d p)
            (owners d (after (dispatch d s name pm) p)) ↔
          (AddsOwned d p pm.dataItems → ∀ k, k ∈ ks ↔ k ∈ p.peerPdp.addresses dest)) := fun hun =>
      keeps_of_writes_iff hself hunique (writes_dispatch hknown hun) (hun.spec htyped hnodup).1
        (hun.spec htyped hnodup).2
    rw [hkeeps, hbreaks]
    constructor
    · rintro hk ⟨dest, ks, hun, howned, hchanged⟩
      exact hchanged ((hwrites hun).1 hk howned)
    · intro hnot
      by_cases hun : ∃ dest ks, Unchecked d s pm p name dest ks
      · obtain ⟨dest, ks, hun⟩ := hun
        refine (hwrites hun).2 fun howned => ?_
        by_contra hchanged
        exact hnot ⟨dest, ks, hun, howned, hchanged⟩
      · refine keeps_of_asks hself hunique (asks_dispatch hknown htyped hname fun dest ks h => ?_)
        exact hun ⟨dest, ks, h⟩
  · -- the message is not handled
    have hsame : SameAddresses p (after (handlePeerSignal d s buf) p) :=
      same_handlePeerSignal fun pm name hreceived hpass hname =>
        hhandled ⟨pm, name, hreceived, hpass, hname⟩
    constructor
    · rintro - ⟨pm, name, _, _, hreceived, hpass, hname, _⟩
      exact hhandled ⟨pm, name, hreceived, hpass, hname⟩
    · intro _
      rw [KeepsOwners, owners_congr hsame]
      exact ⟨hunique, fun _ _ _ _ _ _ => Iff.rfl⟩

end

/-! ## An address that is announced twice -/

/-- `10.0.0.1` -/
def someAddress : AddressV4 := ⟨[10, 0, 0, 1], rfl⟩

/-- `10.0.0.2` -/
def freeAddress : AddressV4 := .ofBytes [10, 0, 0, 2]

/-- A modem that has an address itself. -/
def modemWithAddress : DlepView :=
  { bareView true with
    localPdp := { peerId := str "local", ipDataItems := [.mk 8 (.u8Ipv4 1 someAddress)] } }

/-- The destination `0a:0b` is announced, with the address of the modem. -/
def announceWithAddress : Bytes :=
  [0, 9, 0, 15, 0, 7, 0, 2, 10, 11, 0, 8, 0, 5, 1, 10, 0, 0, 1]

/-- The sample peer stands in the map of the sample modem. -/
theorem selfAt_modemWithAddress : SelfAt modemWithAddress 0 := by
  refine ⟨rfl, fun j hj => ?_⟩
  cases j with
  | zero => rfl
  | succ j => cases hj

/-- The address of the modem is the only one that anyone has. -/
theorem mem_owners_modemWithAddress {o : Owner} {k : Address}
    (hk : k ∈ owners modemWithAddress barePeer o) : o = (none, none) ∧ k = .v4 someAddress := by
  obtain ⟨who, dest⟩ := o
  cases who with
  | none =>
    cases dest with
    | none => exact ⟨rfl, List.mem_singleton.1 hk⟩
    | some mac => cases hk
  | some j =>
    cases j with
    | zero => cases dest <;> cases hk
    | succ j => cases hk

/-- Before the message no address is owned twice. -/
theorem unique_modemWithAddress : Unique (owners modemWithAddress barePeer) := by
  refine ⟨fun o => ?_, fun hk hk' => ?_⟩
  · by_cases ho : o = (none, none)
    · rw [ho]
      exact List.nodup_singleton _
    · have hnone : owners modemWithAddress barePeer o = [] :=
        List.eq_nil_iff_forall_not_mem.2 fun k hk => ho (mem_owners_modemWithAddress hk).1
      rw [hnone]
      exact List.nodup_nil
  · exact (mem_owners_modemWithAddress hk).1.trans (mem_owners_modemWithAddress hk').1.symm

attribute [local instance] plainText

/-- The destination `0a:0b` is announced, with an address that nobody has. -/
def announceWithFreeAddress : Bytes :=
  [0, 9, 0, 15, 0, 7, 0, 2, 10, 11, 0, 8, 0, 5, 1, 10, 0, 0, 2]

/-- The address is given to the destination, and the modem keeps its own. -/
theorem keepsOwners_iff_announceWithFreeAddress :
    KeepsOwners modemWithAddress bareSurroundings announceWithFreeAddress barePeer ∧
      .v4 freeAddress ∈ owners modemWithAddress
        (after
          (handlePeerSignal modemWithAddress bareSurroundings announceWithFreeAddress) barePeer)
        (some 0, some [10, 11]) := by
  refine ⟨?_, by decide +kernel⟩
  refine (@keepsOwners_iff plainText modemWithAddress bareSurroundings barePeer 0
    selfAt_modemWithAddress unique_modemWithAddress announceWithFreeAddress).2 ?_
  rintro ⟨pm, _, _, _, hreceived, _, _, _, ⟨k, hk, howned⟩, _⟩
  have hadds : ((received modemWithAddress announceWithFreeAddress).toOption.map fun r =>
      addsOf rfc8175 r.2.dataItems) = some [.v4 freeAddress] := by decide +kernel
  rw [hreceived] at hadds
  have honly : addsOf rfc8175 pm.dataItems = [.v4 freeAddress] := Option.some.inj hadds
  -- the address that is to be added is not the one that is owned
  have hnew : k = .v4 freeAddress := List.mem_singleton.1 (honly ▸ hk)
  obtain ⟨o, ho⟩ := howned
  have hold : k = .v4 someAddress := (mem_owners_modemWithAddress ho).2
  exact absurd (hnew.symm.trans hold) (by decide)

/-- The destination is stored before anyone is asked, and its address is that of the modem. -/
theorem announce_takes_owned_address :
    SelfAt modemWithAddress 0 ∧ Unique (owners modemWithAddress barePeer) ∧
      ¬ KeepsOwners modemWithAddress bareSurroundings announceWithAddress barePeer := by
  refine ⟨selfAt_modemWithAddress, unique_modemWithAddress, fun h => ?_⟩
  obtain ⟨hlocal, hdest⟩ :
      .v4 someAddress ∈ owners modemWithAddress
        (after (handlePeerSignal modemWithAddress bareSurroundings announceWithAddress) barePeer)
        (none, none) ∧
      .v4 someAddress ∈ owners modemWithAddress
        (after (handlePeerSignal modemWithAddress bareSurroundings announceWithAddress) barePeer)
        (some 0, some [10, 11]) := by decide +kernel
  exact absurd (h.1.one hlocal hdest) (by decide)

end Peer

end Dlep
