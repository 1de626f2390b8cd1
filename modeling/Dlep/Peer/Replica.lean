import Dlep.InfoBase.LastWriter
import Dlep.Lib.Replay
import Dlep.Peer.Owners
import Dlep.Peer.Session
import Dlep.ProtocolMessage.Checked

/-!
# What the client can know of a peer

The client is called about the peer and its destinations, and answers whether it takes a
destination. A client that takes its calls for changes of a copy has, after every step, all that
the router has stored of the peer: nothing is stored, changed or dropped behind its back, and it
is told of nothing that is not stored.
-/

namespace Dlep

open Std Calls Replay Runs

/-- The message, if there is one of the name, is none that a modem may send. -/
def ProtocolConfig.OnlyRoutersSend (cfg : ProtocolConfig) (name : String) : Prop :=
  ∀ siginfo, cfg.getSignalInfo name = .ok siginfo → siginfo.flags &&& SignalInfo.modemSendsFlag = 0

/-- Whether only routers send a message is read off its flags. -/
theorem ProtocolConfig.onlyRoutersSend_of_flags {cfg : ProtocolConfig} {name : String}
    {siginfo : SignalInfo} (hinfo : cfg.getSignalInfo name = .ok siginfo)
    (hflag : siginfo.flags &&& SignalInfo.modemSendsFlag = 0) : cfg.OnlyRoutersSend name := by
  intro other hother
  obtain rfl := Except.ok.inj (hinfo.symm.trans hother)
  exact hflag

/-! ## Data that can be printed -/

/-- All that is stored of the destination can be printed, and no response is owed for it. -/
structure DestinationData.Plain (cfg : ProtocolConfig) (dd : DestinationData) : Prop where
  metrics : ∀ (id : DataItemIdType) (di : DataItem), dd.metricDataItems[id]? = some di →
    di.Resolves cfg none
  ips : ∀ di ∈ dd.ipDataItems, di.Resolves cfg none
  owes : dd.needsResponse = ""

namespace DestinationData

variable [AddressText] {cfg : ProtocolConfig} {items : DataItems} {dd dd' : DestinationData}

omit [AddressText] in
/-- A destination without data is plain. -/
theorem plain_empty {mac : DlepMac} : Plain cfg { macAddress := mac } where
  metrics id di h := by simp at h
  ips di h := by simp at h
  owes := rfl

omit [AddressText] in
/-- An update with known data items. -/
theorem Updated.plain (h : Updated cfg items dd dd') (hitems : items.Known cfg)
    (hdd : dd.Plain cfg) :
    dd'.Plain cfg where
  metrics id di hdi := by
    rw [h.metrics id] at hdi
    rcases Option.or_eq_some_iff.1 hdi with hlast | ⟨_, hold⟩
    · exact hitems di (LastWrite.last_eq_some hlast).1
    · exact hdd.metrics id di hold
  ips di hdi := by
    rcases h.ips.stored di hdi with hold | ⟨hnew, _⟩
    · exact hdd.ips di hold
    · exact hitems di hnew
  owes := h.needsResponse.trans hdd.owes

/-- What can be printed is printed. -/
theorem Plain.log (h : dd.Plain cfg) : dd.log cfg = .ok () := by
  have hall : ∀ items : DataItems, (∀ di ∈ items, di.Resolves cfg none) →
      (items.forM fun di => do let _ ← di.toString cfg none : Except Exn Unit) = .ok () := by
    intro items hitems
    induction items with
    | nil => rfl
    | cons di items ih =>
      obtain ⟨hdi, hrest⟩ := List.forall_mem_cons.1 hitems
      obtain ⟨text, htext⟩ := DataItem.toString_ok_iff_resolves.2 hdi
      rw [List.forM, htext, ok_bind]
      exact ih hrest
  refine hall dd.getAllDataItems fun di hdi => ?_
  rcases Holds.mem_getAllDataItems.1 hdi with ⟨id, hid⟩ | hip
  · exact h.metrics id di hid
  · exact h.ips di hip

end DestinationData

namespace PeerData

/-- All that is stored of the destinations can be printed, and no response is owed. -/
def Plain (cfg : ProtocolConfig) (pd : PeerData) : Prop :=
  ∀ (mac : DlepMac) (dd : DestinationData), pd.destinationData[mac]? = some dd → dd.Plain cfg

variable [AddressText] {cfg : ProtocolConfig} {items : DataItems} {pd : PeerData} {mac : DlepMac}

omit [AddressText] in
/-- A destination that is plain may be stored. -/
theorem Plain.insert (h : pd.Plain cfg) {dd : DestinationData} (hdd : dd.Plain cfg) :
    Plain cfg { pd with destinationData := pd.destinationData.insert mac dd } := by
  intro key dd' hdd'
  rw [ExtTreeMap.getElem?_insert] at hdd'
  split at hdd'
  · obtain rfl := Option.some.inj hdd'
    exact hdd
  · exact h key dd' hdd'

omit [AddressText] in
/-- Where all is plain, nothing is owed. -/
theorem Plain.owes (h : pd.Plain cfg) : pd.getNeedsResponse mac = "" := by
  unfold getNeedsResponse
  split
  · rfl
  · next dd hdd => exact (h mac dd hdd).owes

/-- A new destination with known data items is plain, and storing it does not throw. -/
theorem plain_addDestination (h : pd.Plain cfg) (hitems : items.Known cfg)
    (hnew : pd.validDestination mac = false) :
    wp (addDestination cfg mac items) (fun ok pd' => ok = true ∧ pd'.Plain cfg)
      (fun _ _ => False) pd := by
  refine (wp_addDestination_created hitems.classified hnew).mono (fun ok pd' hpd' => ?_)
    fun _ _ h => h
  obtain ⟨hok, dd, hupdated, rfl⟩ := hpd'
  exact ⟨hok, h.insert (hupdated.plain hitems DestinationData.plain_empty)⟩

omit [AddressText] in
/-- Removing a destination leaves the others plain, and does not throw. -/
theorem plain_removeDestination (h : pd.Plain cfg) :
    wp (removeDestination mac) (fun ok pd' => ok = pd.validDestination mac ∧ pd'.Plain cfg)
      (fun _ _ => False) pd := by
  simp only [removeDestination, wp_bind, wp_get]
  cases hvalid : pd.validDestination mac with
  | true =>
    refine ⟨rfl, fun key dd hdd => ?_⟩
    change (pd.destinationData.erase mac)[key]? = some dd at hdd
    rw [ExtTreeMap.getElem?_erase] at hdd
    split at hdd
    · cases hdd
    · exact h key dd hdd
  | false => exact ⟨rfl, h⟩

omit [AddressText] in
/-- A call on a destination that keeps it plain keeps all plain. -/
theorem plain_onDestination (h : pd.Plain cfg) {m : EStateM Exn DestinationData Unit}
    (hm : ∀ dd : DestinationData, dd.Plain cfg →
      wp m (fun _ dd' => dd'.Plain cfg) (fun _ _ => False) dd) :
    wp (onDestination mac m) (fun _ pd' => pd'.Plain cfg) (fun _ _ => False) pd := by
  simp only [onDestination, wp_bind, wp_get]
  cases hdd : pd.destinationData[mac]? with
  | none => exact h
  | some dd =>
    exact wp_zoom.2 ((hm dd (h mac dd hdd)).mono (fun _ _ hdd' => h.insert hdd') fun _ _ h => h)

/-- An update with known data items keeps all plain. -/
theorem plain_updateDataItems (h : pd.Plain cfg) (hitems : items.Known cfg) :
    wp (updateDataItems cfg items) (fun _ pd' => pd'.Plain cfg) (fun _ pd' => pd' = pd) pd := by
  obtain ⟨unknown, hunknown⟩ := hasUnknownMetric_ok hitems pd.metricDataItems
  refine (wp_updateDataItems_updated hitems.classified hunknown).mono (fun status pd' hpd' => ?_)
    fun _ _ hpd' => hpd'.2.1
  cases unknown with
  | true =>
    rw [hpd'.2]
    exact h
  | false =>
    obtain ⟨_, id, _, hupdated⟩ := hpd'
    intro mac dd' hdd'
    cases hdd : pd.destinationData[mac]? with
    | none =>
      rw [hupdated.absent mac hdd] at hdd'
      cases hdd'
    | some dd =>
      obtain ⟨dd₁, hdd₁, hone⟩ := hupdated.destination mac dd hdd
      obtain rfl := Option.some.inj (hdd₁.symm.trans hdd')
      exact hone.plain (fun di hdi => hitems di (List.mem_of_mem_filter hdi)) (h mac dd hdd)

end PeerData

namespace Peer

/-! ## The copy -/

/-- Does the client take the destination? An empty answer is a yes (`Peer.cpp:1434`). -/
def takes (s : Surroundings) (peerId : PeerId) (mac : DlepMac) (items : DataItems) : Bool :=
  s.destinationUp peerId mac items = "" || s.destinationUp peerId mac items = "Success"

section

variable [AddressText]

/-- The change of the copy that a call stands for. -/
def heard (cfg : ProtocolConfig) (s : Surroundings) (pd : PeerData) : ClientCall → PeerData
  | .peerUp info => after (PeerData.updateDataItems cfg info.dataItems) pd
  | .peerUpdate _ items => after (PeerData.updateDataItems cfg items) pd
  | .destinationUp peerId mac items =>
    if takes s peerId mac items then after (PeerData.addDestination cfg mac items) pd else pd
  | .destinationUpdate _ mac items =>
    after (PeerData.onDestination mac (DestinationData.update cfg items)) pd
  | .destinationDown _ mac _ => after (PeerData.removeDestination mac) pd
  | .linkcharReply _ mac items =>
    after (PeerData.onDestination mac (DestinationData.update cfg items)) pd
  | _ => pd

/-- The client reads its calls, and knows which destinations it has taken away itself. -/
def clientReader : Reader Peer Step PeerData Event where
  data := peerPdp
  log := trace
  own st pd :=
    match st.input with
    | .removeDestination mac => after (PeerData.removeDestination mac) pd
    | _ => pd
  note st pd e :=
    match e with
    | .client call => heard st.d.cfg st.s pd call
    | _ => pd

/-- The messages that bring up a destination at a router. -/
def upNames : List String :=
  ["Destination_Up", "Destination_Up_Response", "Destination_Announce_Response"]

/-- The call is about a destination, and so is the message, with the same data items. -/
def ReportsOn (cfg : ProtocolConfig) (name : String) (msg : Option (String × ProtocolMessage))
    (mac : DlepMac) (items : DataItems) : Prop :=
  ∃ pm, (name, pm) ∈ msg ∧ pm.getMac cfg = .ok mac ∧ pm.getDataItemsNoMac cfg = .ok items

/-- The call says what the message says, unless it does not tell of a message. -/
def Reports (cfg : ProtocolConfig) (msg : Option (String × ProtocolMessage)) : ClientCall → Prop
  | .peerUp info =>
    ∃ pm, ("Session_Initialization_Response", pm) ∈ msg ∧ pm.dataItems = info.dataItems
  | .peerUpdate _ items => ∃ pm, ("Session_Update", pm) ∈ msg ∧ pm.dataItems = items
  | .destinationUp _ mac items =>
    ∃ name ∈ upNames, ∃ pm, (name, pm) ∈ msg ∧ pm.getMac cfg = .ok mac ∧ pm.dataItems = items
  | .destinationUpdate _ mac items => ReportsOn cfg "Destination_Update" msg mac items
  | .destinationDown _ mac items => ReportsOn cfg "Destination_Down" msg mac items
  | .linkcharRequest _ mac items => ReportsOn cfg "Link_Characteristics_Request" msg mac items
  | .linkcharReply _ mac items => ReportsOn cfg "Link_Characteristics_Response" msg mac items
  | _ => True

/-- Calls to the client report the message, and other events need not. -/
def EventReports (cfg : ProtocolConfig) (msg : Option (String × ProtocolMessage)) : Event → Prop
  | .client call => Reports cfg msg call
  | _ => True

/-- The calls that a call on a peer makes stand for what it does to the data, if the data can be
printed, and they say what the message says that is handled. -/
def Copies (st : Step) (msg : Option (String × ProtocolMessage)) (p q : Peer) : Prop :=
  p.QueueOk → p.peerPdp.Plain st.d.cfg →
    q.QueueOk ∧ q.peerPdp.Plain st.d.cfg ∧ Replays clientReader (EventReports st.d.cfg msg) st p q

variable {st : Step} {msg : Option (String × ProtocolMessage)}

instance instReflCopies : Std.Refl (Copies st msg) := ⟨fun p hp hplain => ⟨hp, hplain, .refl p⟩⟩

instance instTransCopies : IsTrans Peer (Copies st msg) where
  trans p q r h h' hp hplain := by
    obtain ⟨hq, hqplain, hreplays⟩ := h hp hplain
    obtain ⟨hr, hrplain, hreplays'⟩ := h' hq hqplain
    exact ⟨hr, hrplain, hreplays.trans hreplays'⟩

/-- The kinds of moves that neither write the data of the peer nor tell the client of it. -/
def asideKinds : Finset Kind := {.quiet, .send, .queue, .interest, .init, .down}

/-- A move aside of the data needs no call. -/
theorem Move.copies {k : Kind} {p q : Peer} (h : Move k p q) (hk : k ∈ asideKinds) :
    Copies st msg p q := by
  intro hp hplain
  have hstore : k ≠ .store := by
    rintro rfl
    simp [asideKinds] at hk
  have hpdp : q.peerPdp = p.peerPdp := h.peerPdp hstore
  refine ⟨h.queueOk hp, hpdp ▸ hplain, ?_⟩
  cases h with
  | quiet _ _ _ _ _ htrace =>
    exact .ignored (htrace.trans (List.append_nil _).symm) hpdp (by simp)
  | send _ => exact .ignored rfl rfl (by simp [clientReader, EventReports])
  | advertise _ => exact .ignored rfl rfl (by simp [clientReader, EventReports])
  | enqueue _ => exact .ignored rfl rfl (by simp [clientReader, EventReports])
  | transmit _ => exact .ignored rfl rfl (by simp [clientReader, EventReports])
  | accept _ _ _ => exact .ignored rfl rfl (by simp [clientReader, EventReports])
  | interest _ => exact .ignored (List.append_nil _).symm rfl (by simp)
  | store _ => exact absurd rfl hstore
  | init _ => exact .ignored rfl rfl (by simp [clientReader, EventReports, heard, Reports])
  | callback _ => simp [asideKinds] at hk
  | up _ => simp [asideKinds] at hk
  | @down _ rest _ hrest =>
    refine .ignored rfl rfl ?_
    rcases hrest with rfl | rfl
    · simp [clientReader, EventReports, heard, Reports]
    · simp [clientReader, EventReports, heard, Reports]

/-- Moves aside of the data need no call. -/
theorem Moves.copies {ks : Finset Kind} {p q : Peer} (h : Moves ks p q) (hks : ks ⊆ asideKinds) :
    Copies st msg p q := by
  induction h with
  | refl => exact Std.Refl.refl p
  | tail _ hlast ih =>
    obtain ⟨k, hk, hm⟩ := hlast
    exact IsTrans.trans _ _ _ ih (hm.copies (hks hk))

/-- Moves aside of the data need no call. -/
theorem Evolves.copies {ks : Finset Kind} {p q : Peer} (h : Evolves ks p q)
    (hks : ks ⊆ asideKinds) :
    Copies st msg p q := fun hp => (h hp).copies hks hp

/-- A call that only moves aside of the data tells the client nothing of them. -/
theorem copies_of_evolves {α : Type} {ks : Finset Kind} {m : PeerM α} (h : Within (Evolves ks) m)
    (hks : ks ⊆ asideKinds) : Within (Copies st msg) m :=
  h.mono fun _ _ hm => hm.copies hks

/-- The data is written, and the client is told what was written. -/
theorem Copies.told {p q : Peer} {pd : PeerData} {call : ClientCall} (hpdp : q.peerPdp = pd)
    (htrace : q.trace = p.trace ++ [.client call])
    (hqueues : q.responsesPending = p.responsesPending) (hplain : pd.Plain st.d.cfg)
    (hheard : heard st.d.cfg st.s p.peerPdp call = pd) (hreports : Reports st.d.cfg msg call) :
    Copies st msg p q := by
  intro hp _
  refine ⟨?_, hpdp ▸ hplain, .single htrace (hpdp.trans hheard.symm) hreports⟩
  unfold QueueOk
  rw [hqueues]
  exact hp

/-! ## The handlers -/

section

variable {p : Peer} {pm : ProtocolMessage}

/-- What is shown of a call may use what the relation assumes of the state before. -/
theorem wp_copies {α : Type} {m : PeerM α}
    (h : p.QueueOk → p.peerPdp.Plain st.d.cfg →
      wp m (fun _ q => Copies st msg p q) (fun _ q => Copies st msg p q) p) :
    wp m (fun _ q => Copies st msg p q) (fun _ q => Copies st msg p q) p :=
  wp_after.2 fun hp hplain => wp_after.1 (h hp hplain) hp hplain

/-- A call on the data that writes nothing if it throws, and what is done then. -/
theorem wp_onPdp_copies {α β : Type} {op : EStateM Exn PeerData α} {f : α → PeerM β}
    (hop : wp op (fun _ pd => pd.Plain st.d.cfg) (fun _ pd => pd = p.peerPdp) p.peerPdp)
    (hf : ∀ a pd, after op p.peerPdp = pd → pd.Plain st.d.cfg →
      wp (f a) (fun _ q => Copies st msg p q) (fun _ q => Copies st msg p q)
        { p with peerPdp := pd }) :
    wp (onPdp op >>= f) (fun _ q => Copies st msg p q) (fun _ q => Copies st msg p q) p := by
  rw [wp_bind, onPdp, wp_zoom]
  refine wp_of_run (fun a pd hrun => ?_) fun e pd hrun => ?_
  · rw [wp, hrun] at hop
    exact hf a pd (by rw [after, hrun]) hop
  · rw [wp, hrun] at hop
    rw [show pd = p.peerPdp from hop]
    exact Std.Refl.refl p

omit [AddressText] in
/-- A call that does not throw may throw with anything. -/
theorem wp_of_false {α σ : Type} {m : EStateM Exn σ α} {Q : α → σ → Prop}
    {E : Exn → σ → Prop} {t : σ} (h : wp m Q (fun _ _ => False) t) : wp m Q E t :=
  h.mono (fun _ _ h => h) fun _ _ h => h.elim

omit [AddressText] in
/-- A message with a MAC address has data items besides it, which are known if all are. -/
theorem exists_getDataItemsNoMac {cfg : ProtocolConfig} {mac : DlepMac}
    (hmac : pm.getMac cfg = .ok mac) (hknown : pm.dataItems.Known cfg) :
    ∃ items, pm.getDataItemsNoMac cfg = .ok items ∧ items.Known cfg := by
  obtain ⟨id, hid, _⟩ := bind_eq_ok.1 hmac
  refine ⟨pm.dataItems.filter fun di => di.id ≠ id, ?_, fun di hdi => ?_⟩
  · rw [ProtocolMessage.getDataItemsNoMac, hid]
    rfl
  · exact hknown di (List.mem_of_mem_filter hdi)

/-- Ending a session changes no data. -/
theorem copies_terminate {status : String} {reason : Bytes} :
    Within (Copies st msg) (terminate st.d st.s status reason) :=
  copies_of_evolves within_terminate (by decide)

/-- Sending a response changes no data. -/
theorem copies_sendSimpleResponse {name status : String} {message : Bytes} {mac : Option DlepMac} :
    Within (Copies st msg) (sendSimpleResponse st.d st.s name status message mac) :=
  copies_of_evolves within_sendSimpleResponse (by decide)

/-- A destination that owes no response is announced by a request. -/
theorem copies_destinationUp {mac : DlepMac} {items : DataItems} :
    Within (Copies st msg) (destinationUp st.d st.s mac items) := by
  refine within_of_wp fun p => wp_copies fun _ hplain => ?_
  simp only [destinationUp, wp_bind, wp_get, hplain.owes]
  have hrequest : Within (Copies st msg) ((do
      let pm ← upMessage st.d st.s (upMessageName st.d) mac items
      sendRequest st.d.cfg st.s.now pm) : PeerM Unit) :=
    within_bind within_lift fun _ => copies_of_evolves within_sendRequest (by decide)
  exact hrequest.wp p

/-- The client is told of the update that is stored. -/
theorem copies_handlePeerUpdate (hknown : pm.dataItems.Known st.d.cfg) :
    Within (Copies st (some ("Session_Update", pm))) (handlePeerUpdate st.d st.s pm) := by
  refine within_of_wp fun p => wp_copies fun _ hplain => ?_
  simp only [handlePeerUpdate]
  rw [wp_bind, wp_get, wp_bind]
  refine wp_lift (fun err _ => ?_) fun _ _ => Std.Refl.refl p
  split
  · exact copies_terminate.wp p
  · refine wp_onPdp_copies (PeerData.plain_updateDataItems hplain hknown)
      fun status pd hpd hplain' => ?_
    rw [wp_bind, callClient, emit, wp_modify]
    exact copies_sendSimpleResponse.wp_trans (.told rfl rfl rfl hplain' hpd ⟨pm, rfl, rfl⟩)

/-- An update of a destination, and one that also prints it. -/
theorem plain_update_destination {cfg : ProtocolConfig} {items : DataItems} {pd : PeerData}
    (hplain : pd.Plain cfg) (hitems : items.Known cfg) (mac : DlepMac) :
    wp (PeerData.onDestination mac (DestinationData.update cfg items)) (fun _ pd' => pd'.Plain cfg)
      (fun _ _ => False) pd :=
  PeerData.plain_onDestination hplain fun dd hdd =>
    (DestinationData.wp_update hitems.classified dd).mono (fun _ _ h => h.plain hitems hdd)
      fun _ _ h => h

/-- Printing a destination that is plain does not throw, so that it can be left out. -/
theorem onDestination_log_run {cfg : ProtocolConfig} {items : DataItems} {pd : PeerData}
    (hplain : pd.Plain cfg) (hitems : items.Known cfg) {mac : DlepMac} :
    PeerData.onDestination mac (do
        DestinationData.update cfg items
        (← get).log cfg) pd =
      PeerData.onDestination mac (DestinationData.update cfg items) pd := by
  rw [PeerData.onDestination, PeerData.onDestination, get_bind_run, get_bind_run]
  cases hdd : pd.destinationData[mac]? with
  | none => rfl
  | some dd =>
    obtain ⟨_, dd', hrun, hupdated⟩ := (DestinationData.wp_update hitems.classified dd).exists_ok
    have hboth : (do
        DestinationData.update cfg items
        (← get).log cfg : EStateM Exn DestinationData Unit) dd = .ok () dd' := by
      refine bind_run_eq_ok.2 ⟨_, dd', hrun, ?_⟩
      rw [get_bind_run, (hupdated.plain hitems (hplain mac dd hdd)).log]
      rfl
    simp only [zoom, hboth, hrun]

/-- The client is told of the update of a destination that is stored. -/
theorem copies_handleDestinationUpdate (hknown : pm.dataItems.Known st.d.cfg) :
    Within (Copies st (some ("Destination_Update", pm)))
      (handleDestinationUpdate st.d st.s pm) := by
  refine within_of_wp fun p => wp_copies fun _ hplain => ?_
  rw [handleDestinationUpdate, wp_bind]
  refine wp_lift (fun mac hmac => ?_) fun _ _ => Std.Refl.refl p
  rw [wp_bind, wp_get]
  cases p.peerPdp.getDestinationData mac with
  | none => exact copies_terminate.wp p
  | some dd =>
    obtain ⟨items, hitems, hitemsKnown⟩ := exists_getDataItemsNoMac hmac hknown
    rw [wp_bind, hitems, wp_lift_ok, wp_bind]
    refine wp_lift (fun err _ => ?_) fun _ _ => Std.Refl.refl p
    split
    · exact copies_terminate.wp p
    · have hupdate := plain_update_destination hplain hitemsKnown mac
      refine wp_onPdp_copies (wp_of_false hupdate) fun _ pd hpd hplain' => ?_
      rw [callClient, emit, wp_modify]
      exact .told rfl rfl rfl hplain' hpd ⟨pm, rfl, hmac, hitems⟩

/-- The first part of the handlers of responses changes no data. -/
theorem copies_handleResponse : Within (Copies st msg) (handleResponse st.d st.s pm) := by
  refine within_bind within_lift fun name => within_bind within_lift fun destination => ?_
  refine within_bind (within_of_wp fun p => wp_copies fun hp _ => ?_) fun ok => ?_
  · refine (wp_acceptResponse hp).mono (fun ok q hq => ?_) fun _ q hq => ?_
    · obtain ⟨_, hmoves⟩ := hq
      cases ok with
      | true => exact Moves.copies hmoves (by decide)
      | false =>
        rw [show q = p from hmoves]
        exact Std.Refl.refl p
    · exact hq.copies (by decide)
  · exact within_ite (fun _ => within_pure) fun _ => within_bind copies_terminate fun _ =>
      within_pure

/-- The client is told of the response about a link that is stored. -/
theorem copies_handleLinkCharacteristicsResponse (hknown : pm.dataItems.Known st.d.cfg) :
    Within (Copies st (some ("Link_Characteristics_Response", pm)))
      (handleLinkCharacteristicsResponse st.d st.s pm) := by
  refine within_of_wp fun p => ?_
  rw [handleLinkCharacteristicsResponse, wp_bind]
  refine wp_lift (fun mac hmac => ?_) fun _ _ => Std.Refl.refl p
  refine Within.wp (within_bind copies_handleResponse fun _ => ?_) p
  refine within_ite (fun _ => within_of_wp fun p => ?_) fun _ => within_pure
  refine wp_copies fun _ hplain => ?_
  rw [wp_bind, wp_get]
  cases p.peerPdp.getDestinationData mac with
  | none => exact copies_terminate.wp p
  | some dd =>
    obtain ⟨items, hitems, hitemsKnown⟩ := exists_getDataItemsNoMac hmac hknown
    simp only [hitems, lift_ok_bind]
    have hlogged := @onDestination_log_run _ _ _ _ hplain hitemsKnown mac
    have hupdate := plain_update_destination hplain hitemsKnown mac
    refine wp_onPdp_copies ?_ fun _ pd hpd hplain' => ?_
    · rw [wp, hlogged]
      exact wp_of_false hupdate
    · rw [wp_bind, wp_get, callClient, emit, wp_modify]
      rw [after, hlogged] at hpd
      exact .told rfl rfl rfl hplain' hpd ⟨pm, rfl, hmac, hitems⟩

/-! ## Destinations come and go -/

/-- A destination is stored if the client takes it. -/
theorem copies_admitDestination {mac : DlepMac} {items : DataItems} (hitems : items.Known st.d.cfg)
    (hnew : p.peerPdp.validDestination mac = false)
    (hreports : Reports st.d.cfg msg (.destinationUp p.peerId mac items)) :
    wp (admitDestination st.d st.s mac items) (fun _ q => Copies st msg p q)
      (fun _ q => Copies st msg p q) p := by
  refine wp_copies fun hp hplain => ?_
  rw [admitDestination, regainInterest, wp_bind, wp_modify, wp_bind]
  simp only [askClient, callClient, emit, wp_bind, wp_get, wp_modify, wp_pure]
  have hstatus : (if st.s.destinationUp p.peerId mac items = "" then "Success"
      else st.s.destinationUp p.peerId mac items) = "Success" ↔
        takes st.s p.peerId mac items = true := by
    unfold takes
    split
    · next h => simp [h]
    · next h => simp [h]
  by_cases htaken : takes st.s p.peerId mac items = true
  · have hadd := PeerData.plain_addDestination hplain hitems hnew
    rw [if_pos (hstatus.2 htaken)]
    simp only [addDestinationChecked, wp_bind, onPdp, wp_zoom]
    refine wp_of_run (fun ok pd hrun => ?_) fun e pd hrun => ?_
    · rw [wp, hrun] at hadd
      obtain ⟨rfl, hplain'⟩ := hadd
      refine .told rfl rfl rfl hplain' ?_ hreports
      rw [heard, if_pos htaken, after, hrun]
    · rw [wp, hrun] at hadd
      exact hadd.elim
  · rw [if_neg (mt hstatus.1 htaken)]
    refine .told rfl rfl rfl hplain ?_ hreports
    rw [heard, if_neg htaken]

/-- The client is told of the destination that is stored. -/
theorem copies_handleDestinationUp {name : String} (hup : name ∈ upNames)
    (hknown : pm.dataItems.Known st.d.cfg) :
    Within (Copies st (some (name, pm))) (handleDestinationUp st.d st.s pm) := by
  refine within_of_wp fun p => ?_
  rw [handleDestinationUp, wp_bind]
  refine wp_lift (fun mac hmac => ?_) fun _ _ => Std.Refl.refl p
  refine Within.wp ?_ p
  refine within_bind within_lift fun _ => ?_
  refine within_bind (within_of_wp fun p => ?_) fun status => ?_
  · rw [upStatus, wp_bind, wp_get]
    cases hvalid : p.peerPdp.validDestination mac with
    | true => exact within_pure.wp p
    | false =>
      simp only [Bool.false_eq_true, if_false, takeDestination, wp_bind, wp_get]
      refine wp_lift (fun err _ => ?_) fun _ _ => Std.Refl.refl p
      split
      · exact (within_bind copies_terminate fun _ => within_pure).wp p
      · rw [wp_bind]
        exact copies_admitDestination hknown hvalid ⟨name, hup, pm, rfl, hmac, rfl⟩
  · cases status with
    | none => exact within_pure
    | some status =>
      refine within_bind within_lift fun _ => within_ite (fun _ => ?_) fun _ => within_pure
      exact copies_sendSimpleResponse

/-- A router takes the answer to its own announcement for a destination that is up. -/
theorem copies_handleDestinationUpResponse {name : String} (hup : name ∈ upNames)
    (hknown : pm.dataItems.Known st.d.cfg) :
    Within (Copies st (some (name, pm))) (handleDestinationUpResponse st.d st.s pm) := by
  refine within_bind within_lift fun mac => within_bind within_lift fun _ => ?_
  refine within_bind copies_handleResponse fun _ => within_ite (fun _ => ?_) fun _ => within_pure
  refine within_bind ?_ fun _ => within_ite (fun _ => ?_) fun _ => within_pure
  · refine within_bind within_lift fun status => ?_
    cases status with
    | none => exact within_pure
    | some status =>
      refine within_ite (fun _ => ?_) fun _ => within_pure
      exact within_bind (copies_of_evolves within_notInterested (by decide)) fun _ => within_pure
  · exact within_ite (fun _ => within_pure) fun _ => copies_handleDestinationUp hup hknown

/-- A destination that is down is dropped, and the client is told even if it was not there. -/
theorem copies_handleDestinationDown (hknown : pm.dataItems.Known st.d.cfg) :
    Within (Copies st (some ("Destination_Down", pm))) (handleDestinationDown st.d st.s pm) := by
  refine within_of_wp fun p => wp_copies fun _ hplain => ?_
  rw [handleDestinationDown, wp_bind]
  refine wp_lift (fun mac hmac => ?_) fun _ _ => Std.Refl.refl p
  obtain ⟨items, hitems, _⟩ := exists_getDataItemsNoMac hmac hknown
  have htold : ∀ q : Peer, q.peerPdp = after (PeerData.removeDestination mac) p.peerPdp →
      q.trace = p.trace → q.responsesPending = p.responsesPending → q.peerPdp.Plain st.d.cfg →
      wp (do
        let items ← pm.getDataItemsNoMac st.d.cfg
        callClient (.destinationDown (← get).peerId mac items)
        sendSimpleResponse st.d st.s "Destination_Down_Response" "Success" []
          (some mac) : PeerM Unit)
        (fun _ r => Copies st (some ("Destination_Down", pm)) p r)
        (fun _ r => Copies st (some ("Destination_Down", pm)) p r) q := by
    intro q hpdp htrace hqueues hplain'
    simp only [hitems, lift_ok_bind]
    rw [wp_bind, wp_get, wp_bind, callClient, emit, wp_modify]
    refine copies_sendSimpleResponse.wp_trans
      (.told hpdp (congrArg (· ++ _) htrace) hqueues ?_ ?_ ?_)
    · exact hpdp ▸ hplain'
    · rfl
    · exact ⟨pm, rfl, hmac, hitems⟩
  have hremove := @PeerData.plain_removeDestination _ _ mac hplain
  rw [wp_bind, dropDestination, wp_bind, onPdp, wp_zoom]
  refine wp_of_run (fun ok pd hrun => ?_) fun e pd hrun => ?_
  · rw [wp, hrun] at hremove
    obtain ⟨hok, hplain'⟩ := hremove
    have hafter : pd = after (PeerData.removeDestination mac) p.peerPdp := by rw [after, hrun]
    cases ok with
    | true => exact htold _ hafter rfl rfl hplain'
    | false =>
      -- nothing was there to be dropped
      have hsame : pd = p.peerPdp := by
        simp only [PeerData.removeDestination, get_bind_run, ← hok] at hrun
        cases hrun
        rfl
      simp only [Bool.false_eq_true, if_false]
      split
      · rw [wp_bind, notInterested, wp_modify, wp_pure]
        exact htold _ hafter rfl rfl hplain'
      · rw [wp_pure]
        simp only [Bool.false_eq_true, if_false, hsame]
        exact copies_terminate.wp p
  · rw [wp, hrun] at hremove
    exact hremove.elim

/-! ## The session -/

/-- What a router stores of the answer to its opening message is what it tells its client. -/
theorem copies_handlePeerInitializationResponse (hknown : pm.dataItems.Known st.d.cfg) :
    Within (Copies st (some ("Session_Initialization_Response", pm)))
      (handlePeerInitializationResponse st.d st.s pm) := by
  have hquiet : ({.quiet} : Finset Kind) ⊆ asideKinds := by decide
  refine within_bind copies_handleResponse fun _ => within_ite (fun _ => ?_) fun _ => within_pure
  refine within_bind (copies_of_evolves within_storePeerProperties hquiet) fun _ => ?_
  refine within_bind (copies_of_evolves within_setMutualExtensions hquiet) fun _ => ?_
  refine within_of_wp fun p => wp_copies fun _ hplain => ?_
  refine wp_onPdp_copies (PeerData.plain_updateDataItems hplain hknown) fun _ pd hpd hplain' => ?_
  simp only [enterSession, setState, callClient, emit, wp_bind, wp_modify, wp_get]
  have hsend : Within (Copies st (some ("Session_Initialization_Response", pm)))
      (sendAllDestinations st.d st.s) := within_forM fun _ _ => copies_destinationUp
  exact hsend.wp_trans (.told rfl rfl rfl hplain' hpd ⟨pm, rfl, rfl⟩)

/-- Nothing is stored of a request for link characteristics. -/
theorem copies_handleLinkCharacteristicsRequest :
    Within (Copies st (some ("Link_Characteristics_Request", pm)))
      (handleLinkCharacteristicsRequest st.d st.s pm) := by
  refine within_of_wp fun p => ?_
  rw [handleLinkCharacteristicsRequest, wp_bind]
  refine wp_lift (fun mac hmac => ?_) fun _ _ => Std.Refl.refl p
  rw [wp_bind]
  refine wp_lift (fun items hitems => ?_) fun _ _ => Std.Refl.refl p
  refine Within.wp ?_ p
  split
  · exact copies_terminate
  · refine within_ite (fun _ => within_bind within_lift fun metrics => ?_) fun _ => ?_
    · exact copies_of_evolves within_linkCharacteristicsResponse (by decide)
    · refine within_bind within_get fun p => within_modify fun q hq hplain => ⟨hq, hplain, ?_⟩
      refine .ignored rfl rfl (List.forall_mem_singleton.2 ⟨?_, fun _ => rfl⟩)
      exact ⟨pm, rfl, hmac, hitems⟩

/-- The messages that a router handles, except for those that only routers send. -/
theorem copies_dispatch {name : String} (hrouter : st.d.modem = false)
    (hknown : pm.dataItems.Known st.d.cfg) (hannounce : name ≠ "Destination_Announce")
    (hopening : name ≠ "Session_Initialization") :
    Within (Copies st (some (name, pm))) (dispatch st.d st.s name pm) := by
  have hstop : Within (Copies st (some (name, pm))) (stopPeer st.d) :=
    copies_of_evolves within_stopPeer (by decide)
  unfold dispatch
  split
  · exact within_pure
  · exact copies_handleDestinationUpdate hknown
  · rw [hrouter]
    exact copies_handleDestinationUp (by decide) hknown
  · exact copies_handleDestinationUpResponse (by decide) hknown
  · exact absurd rfl hannounce
  · exact copies_handleDestinationUpResponse (by decide) hknown
  · exact copies_handleDestinationDown hknown
  · exact within_bind within_lift fun _ => within_bind copies_handleResponse fun _ => within_pure
  · exact copies_handleLinkCharacteristicsRequest
  · exact copies_handleLinkCharacteristicsResponse hknown
  · exact copies_handlePeerUpdate hknown
  · exact within_bind copies_handleResponse fun _ => within_pure
  · exact absurd rfl hopening
  · exact copies_handlePeerInitializationResponse hknown
  · exact within_bind copies_sendSimpleResponse fun _ => hstop
  · refine within_bind within_get fun _ => within_ite (fun _ => ?_) fun _ => within_pure
    exact within_bind copies_handleResponse fun _ => hstop
  · exact within_pure

/-! ## Runs -/

/-- A message that is received without an error is one that the other side may send. -/
theorem sender_of_received {d : DlepView} {buf : Bytes} {name : String}
    (h : received d buf = .ok ([], pm)) (hname : pm.getSignalName d.cfg = .ok name) :
    ∃ siginfo, d.cfg.getSignalInfo name = .ok siginfo ∧
      siginfo.flags &&& SignalInfo.senderFlag (!d.modem) ≠ 0 := by
  have htext : str "cannot be sent by " ≠ [] := str_ne_nil (by simp)
  obtain ⟨_, hvalid⟩ := ProtocolMessage.parseAndValidate_eq_nil_iff.1 h
  rw [ProtocolMessage.validate, hname, ok_bind] at hvalid
  obtain ⟨siginfo, hinfo, hvalid⟩ := bind_eq_ok.1 hvalid
  refine ⟨siginfo, hinfo, fun hflag => ?_⟩
  have hcontent := labelError_eq_nil.1 hvalid
  rw [ProtocolMessage.validateContent] at hcontent
  change (if siginfo.flags &&& SignalInfo.senderFlag (!d.modem) = 0 then _ else _) = _ at hcontent
  rw [if_pos hflag] at hcontent
  simp [htext] at hcontent

/-- A step of a router, unless the client takes a destination away. -/
theorem copies_step (hrouter : st.d.modem = false)
    (hannounce : st.d.cfg.OnlyRoutersSend "Destination_Announce")
    (hopening : st.d.cfg.OnlyRoutersSend "Session_Initialization")
    (hown : ∀ mac, st.input ≠ .removeDestination mac) :
    Copies st (st.handled p) p (p.step st) := by
  have haside : ∀ {ks : Finset Kind} {m : PeerM Unit}, Within (Evolves ks) m → ks ⊆ asideKinds →
      st.call = m → Copies st (st.handled p) p (p.step st) := by
    rintro ks m hm hks rfl
    exact copies_of_evolves hm hks p
  by_cases hmsg : st.input = .message
  · cases hnext : nextMessage st.d p with
    | none =>
      rw [step_of_nextMessage_none hmsg hnext]
      exact Std.Refl.refl p
    | some buf =>
      have hhandled : st.handled p = handledOf st.d st.s p buf := by rw [Step.handled, hmsg, hnext]
      rw [hhandled]
      refine step_of_nextMessage (P := fun q =>
        Copies st (handledOf st.d st.s p buf) p q) hmsg hnext
          (fun q n hq => IsTrans.trans _ _ _ hq ?_) ?_
      · have hdrop : Move .quiet q { q with signalRecv := q.signalRecv.drop n } :=
          .quiet rfl rfl rfl rfl le_rfl rfl
        exact hdrop.copies (by decide)
      · refine wp_handlePeerSignal_of_handled (Std.Refl.refl p)
          (fun status reason => copies_terminate p) fun name pm hpm => ?_
        obtain ⟨hreceived, hname⟩ := received_of_handledOf hpm
        have hother : ∀ name', st.d.cfg.OnlyRoutersSend name' → name ≠ name' := by
          rintro _ honly rfl
          obtain ⟨siginfo, hinfo, hflag⟩ := sender_of_received hreceived hname
          rw [hrouter] at hflag
          exact hflag (honly siginfo hinfo)
        rw [hpm]
        exact copies_dispatch hrouter (known_of_received hreceived) (hother _ hannounce)
          (hother _ hopening) p
  · obtain ⟨d, s, input⟩ := st
    cases input with
    | start => exact haside within_startPeer (by decide) rfl
    | receive bytes =>
      have hfill : Within (Evolves {.quiet}) (fillBuffer s bytes) :=
        within_modify fun _ => .single (.quiet rfl rfl rfl rfl le_rfl rfl) (by simp)
      exact haside hfill (by decide) rfl
    | message => exact absurd rfl hmsg
    | acktivityTimeout => exact haside within_handleAcktivityTimeout (by decide) rfl
    | heartbeatTimeout => exact haside within_handleHeartbeatTimeout (by decide) rfl
    | eof => exact haside within_stopPeer (by decide) rfl
    | terminate status reason => exact haside within_terminate (by decide) rfl
    | destinationUp mac items => exact copies_destinationUp p
    | destinationDown mac items => exact haside within_destinationDown (by decide) rfl
    | destinationUpdate mac items => exact haside within_destinationUpdate (by decide) rfl
    | peerUpdate items =>
      exact haside (within_bind within_peerUpdate fun _ => within_pure) (by decide) rfl
    | linkCharacteristicsRequest mac items =>
      exact haside within_linkCharacteristicsRequest (by decide) rfl
    | linkCharacteristicsResponse mac items =>
      exact haside within_linkCharacteristicsResponse (by decide) rfl
    | removeDestination mac => exact absurd rfl (hown mac)

/-- A step follows its calls, from where the client has left its copy, and they report the message
that is handled. -/
theorem replays_step (hrouter : st.d.modem = false)
    (hannounce : st.d.cfg.OnlyRoutersSend "Destination_Announce")
    (hopening : st.d.cfg.OnlyRoutersSend "Session_Initialization") (hp : p.QueueOk)
    (hplain : p.peerPdp.Plain st.d.cfg) :
    (p.step st).QueueOk ∧ (p.step st).peerPdp.Plain st.d.cfg ∧
      ∃ events, (p.step st).trace = p.trace ++ events ∧
        (p.step st).peerPdp = events.foldl (clientReader.note st) (clientReader.own st p.peerPdp) ∧
        ∀ e ∈ events, EventReports st.d.cfg (st.handled p) e := by
  by_cases hown : ∃ mac, st.input = .removeDestination mac
  · obtain ⟨d, s, input⟩ := st
    obtain ⟨mac, rfl⟩ := hown
    obtain ⟨ok, pd, hrun, _, hplain'⟩ :=
      (@PeerData.plain_removeDestination _ _ mac hplain).exists_ok
    have hpd : after (PeerData.removeDestination mac) p.peerPdp = pd := by rw [after, hrun]
    have hstep : p.step ⟨d, s, .removeDestination mac⟩ = { p with peerPdp := pd } := by
      rw [step, Step.call]
      dsimp only
      rw [after_bind_pure, after, onPdp, zoom, hrun]
    rw [hstep]
    exact ⟨hp, hplain', [], (List.append_nil _).symm, hpd.symm, by simp⟩
  · have hown : ∀ mac, st.input ≠ .removeDestination mac := fun mac h => hown ⟨mac, h⟩
    obtain ⟨hqueues, hplain', events, hlog, hdata, hreports⟩ :=
      copies_step hrouter hannounce hopening hown hp hplain
    refine ⟨hqueues, hplain', events, hlog, ?_, hreports⟩
    have hsame : clientReader.own st p.peerPdp = p.peerPdp := by
      simp only [clientReader]
    rw [hsame]
    exact hdata

/-- After every run of a router, a client that reads its calls has all that the router has stored
of the peer. -/
theorem copy_of_run {cfg : ProtocolConfig} {peerId : PeerId} {now : Nat}
    (hannounce : cfg.OnlyRoutersSend "Destination_Announce")
    (hopening : cfg.OnlyRoutersSend "Session_Initialization")
    (hp : Peer.create cfg peerId now = .ok p) {steps : List Step}
    (hsteps : ∀ st ∈ steps, st.d.cfg = cfg ∧ st.d.modem = false) :
    run (watch clientReader step) (p, { peerId }) steps =
      (run step p steps, (run step p steps).peerPdp) := by
  have hrun : Along step (fun _ st => True ∧ st.d.cfg = cfg ∧ st.d.modem = false) p steps :=
    along_true.and_inputs hsteps
  obtain rfl := create_ok hp
  refine Prod.ext (run_watch_fst _ _) (run_watch_snd (I := fun q => q.QueueOk ∧ q.peerPdp.Plain cfg)
    (fun q st hq hst => ?_) hrun ⟨?_, ?_⟩)
  · obtain ⟨_, rfl, hrouter⟩ := hst
    obtain ⟨hqueues, hplain, events, hlog, hdata, _⟩ :=
      replays_step hrouter hannounce hopening hq.1 hq.2
    exact ⟨⟨hqueues, hplain⟩, events, hlog, hdata⟩
  · intro mac queue hqueue
    simp at hqueue
  · intro mac dd hdd
    simp at hdd

end

end

def destinationUpBytes : Bytes := [0, 7, 0, 6, 0, 7, 0, 2, 10, 11]

def destinationDownBytes : Bytes := [0, 11, 0, 6, 0, 7, 0, 2, 10, 11]

/-- A destination goes up and down, and up again, and then the client takes it away. -/
def takenAway : List Input :=
  [.receive destinationUpBytes, .message, .receive destinationDownBytes, .message,
    .receive destinationUpBytes, .message, .removeDestination [10, 11]]

attribute [local instance] plainText

/-- In the sample run the copy has what the peer has. -/
theorem copy_of_run_takenAway :
    run (watch clientReader step) (barePeer, { peerId := str "peer" }) (bareSteps false takenAway) =
      (run step barePeer (bareSteps false takenAway),
        (run step barePeer (bareSteps false takenAway)).peerPdp) := by
  have hsteps : ∀ st ∈ bareSteps false takenAway, st.d.cfg = rfc8175 ∧ st.d.modem = false := by
    intro st hst
    obtain ⟨input, _, rfl⟩ := List.mem_map.1 hst
    exact ⟨rfl, rfl⟩
  have hannounce : rfc8175.OnlyRoutersSend "Destination_Announce" :=
    ProtocolConfig.onlyRoutersSend_of_flags rfl (by decide)
  have hopening : rfc8175.OnlyRoutersSend "Session_Initialization" :=
    ProtocolConfig.onlyRoutersSend_of_flags rfl (by decide)
  exact @copy_of_run _ _ _ _ 0 hannounce hopening rfl _ hsteps

example :
    ((run step barePeer (bareSteps false (takenAway.take 6))).peerPdp.validDestination [10, 11]) =
    true := by decide +kernel

end Peer

end Dlep
