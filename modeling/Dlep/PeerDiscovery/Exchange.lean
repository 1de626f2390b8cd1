import Dlep.Peer.Names
import Dlep.Peer.Termination
import Dlep.PeerDiscovery.Offer

/-!
# The exchange of the discovery signals

A router sends a Peer Discovery, a modem without a session answers it with a Peer Offer, and the
router connects to the endpoint of the offer. The offer has the port of the configuration and an
address, in a Port and an address item or in a connection point, whatever the protocol
configuration has. It is shown which endpoint the router takes from an offer that a modem has
composed; so, whatever the network does to the signals, a router connects to nothing but what a
modem has offered.
-/

namespace Dlep

open Std Calls ProtocolMessage

/-- The data items that an offer may have are of the types that their getters ask for, and the
signals of discovery are signals. -/
structure ProtocolConfig.Discovers (cfg : ProtocolConfig) : Prop where
  types : ∀ item ∈ [("Port", DataItemValueType.u16), ("IPv4_Address", .u8Ipv4),
    ("IPv4_Connection_Point", .u8Ipv4U16), ("IPv6_Address", .u8Ipv6),
    ("IPv6_Connection_Point", .u8Ipv6U16)], ∀ id, cfg.getDataItemId item.1 none = .ok id →
      cfg.getDataItemValueType item.1 = .ok item.2
  signals : ∀ name ∈ ["Peer_Discovery", "Peer_Offer"], ∃ id, cfg.signalMap.right name = some id

namespace PeerDiscovery

/-- The parameters of the client that discovery reads, and the address of its interface. A
parameter that does not exist is `none`. -/
structure SessionParameters where
  sessionPort : UInt32
  sessionAddress : Option IpAddress
  interfaceAddress : IpAddress
  udpPort : UInt16

/-- What is done about a signal. -/
inductive Action where
  | ignored
  | offer (sendEndpoint : Endpoint) (buf : Bytes)
  | connect (endpoint : Endpoint)
  deriving DecidableEq

/-! ## Composing -/

section

variable [AddressText]

/-- A signal with a header, to which `build` adds the data items. A freshly built signal should be
parseable: `assert(err == "")`. -/
def compose (n : Node) (name func : String) (build : ProtocolMessage → Except Exn ProtocolMessage) :
    Except Exn ProtocolMessage := do
  let pm ← ProtocolMessage.addHeader n.cfg name {}
  let pm ← build pm
  let (err, pm) ← ProtocolMessage.parseAndValidate n.cfg n.modem (str func) pm
  assertThat (err = []) "err == \"\""
  return pm

/-- Source: `PeerDiscovery::get_message_to_send` (`PeerDiscovery.cpp:109`). -/
def getMessageToSend (n : Node) (params : ClientParameters) : Except Exn Bytes := do
  let pm ← compose n "Peer_Discovery" "get_message_to_send"
    (ProtocolMessage.addCommonDataItems n.cfg params)
  return pm.msgbuf

end

section

variable (cfg : ProtocolConfig) (sp : SessionParameters)

/-- A data item is made by its name and added to the message. -/
def addItem (item : String × DataItemValue) : EStateM Exn ProtocolMessage Unit := do
  let di ← DataItem.ofName cfg item.1 item.2
  let pm ← get
  set (← ProtocolMessage.addDataItem cfg di pm)

/-- Of an address: `IPv4_Address` or `IPv6_Address`, with the flag for an address that is added. -/
def addressItem : IpAddress → String × DataItemValue
  | .v4 address => ("IPv4_Address", .u8Ipv4 1 address)
  | .v6 address => ("IPv6_Address", .u8Ipv6 1 address)

def connPointItem (port : UInt16) : IpAddress → String × DataItemValue
  | .v4 address => ("IPv4_Connection_Point", .u8Ipv4U16 0 address port)
  | .v6 address => ("IPv6_Connection_Point", .u8Ipv6U16 0 address port)

def addAddress : Option IpAddress → EStateM Exn ProtocolMessage Unit
  | none => pure ()
  | some address => addItem cfg (addressItem address)

/-- The port and the address, or a connection point if the configuration has no data items for
them. What was added before the exception stays (`PeerDiscovery.cpp:521`). -/
def addEndpoint : EStateM Exn ProtocolMessage Unit :=
  tryCatch
    (do
      addItem cfg ("Port", .u16 sp.sessionPort.toUInt16)
      addAddress cfg sp.sessionAddress)
    fun
      | .std .badDataItemName _ =>
        addItem cfg (connPointItem sp.sessionPort.toUInt16
          (sp.sessionAddress.getD sp.interfaceAddress))
      | e => throw e

end

/-- What a call leaves of the message, unless it throws. -/
def built (m : EStateM Exn ProtocolMessage Unit) (pm : ProtocolMessage) :
    Except Exn ProtocolMessage :=
  match m pm with
  | .ok _ pm => .ok pm
  | .error e _ => .error e

section

variable [AddressText] (n : Node) (params : ClientParameters) (sp : SessionParameters)

/-- Source: `PeerDiscovery::send_peer_offer` (`PeerDiscovery.cpp:486`). -/
def sendPeerOffer (toEndpoint : Endpoint) : Except Exn Action := do
  let pm ← compose n "Peer_Offer" "send_peer_offer" fun pm => do
    let pm ← ProtocolMessage.addCommonDataItems n.cfg params pm
    built (addEndpoint n.cfg sp) pm
  return .offer { address := toEndpoint.address, port := sp.udpPort } pm.msgbuf

/-- Source: `PeerDiscovery::handle_discovery` (`PeerDiscovery.cpp:228`). -/
def handleDiscovery (fromEndpoint : Endpoint) : Except Exn Action :=
  if ¬ n.modem then .ok .ignored
  else if (n.peerState (peerIdOf fromEndpoint.address fromEndpoint.port.toUInt32)).isSome
    then .ok .ignored
  else sendPeerOffer n params sp fromEndpoint

/-- Source: `PeerDiscovery::handle_message` (`PeerDiscovery.cpp:177`). -/
def handleMessage (resolves : Endpoint → Bool) (buf : Bytes) (fromEndpoint : Endpoint) :
    Except Exn Action :=
  if buf = [] then .ok .ignored
  else do
    let (err, pm) ←
      ProtocolMessage.parseAndValidateBuffer n.cfg buf true (!n.modem) (str "handle_message") {}
    if err ≠ [] then return .ignored
    else
      let name ← pm.getSignalName n.cfg
      if name = "Peer_Discovery" then handleDiscovery n params sp fromEndpoint
      else if name = "Peer_Offer" then
        match ← handlePeerOffer n resolves sp.sessionPort pm fromEndpoint with
        | some endpoint => return .connect endpoint
        | none => return .ignored
      else return .ignored

end

/-! ## The items of an endpoint -/

/-- The address that an offer has: without a data item for the port there is always one, since a
connection point needs it. -/
def advertised (cfg : ProtocolConfig) (sp : SessionParameters) : Option IpAddress :=
  match cfg.getDataItemId "Port" none with
  | .ok _ => sp.sessionAddress
  | .error _ => some (sp.sessionAddress.getD sp.interfaceAddress)

/-- The data items with the port and, if there is one, the address. -/
inductive EndpointItems (cfg : ProtocolConfig) (port : UInt16) :
    Option IpAddress → DataItems → Prop where
  | port {id : DataItemIdType} (hid : cfg.getDataItemId "Port" none = .ok id) :
      EndpointItems cfg port none [.mk id (.u16 port)]
  | address {id id' : DataItemIdType} {a : IpAddress} (hid : cfg.getDataItemId "Port" none = .ok id)
      (hid' : cfg.getDataItemId (addressItem a).1 none = .ok id') :
      EndpointItems cfg port (some a) [.mk id (.u16 port), .mk id' (addressItem a).2]
  | both {id id' : DataItemIdType} {a : IpAddress} (hid : cfg.getDataItemId "Port" none = .ok id)
      (hid' : cfg.getDataItemId (connPointItem port a).1 none = .ok id') :
      EndpointItems cfg port (some a) [.mk id (.u16 port), .mk id' (connPointItem port a).2]
  | connPoint {id' : DataItemIdType} {a : IpAddress}
      (hid' : cfg.getDataItemId (connPointItem port a).1 none = .ok id') :
      EndpointItems cfg port (some a) [.mk id' (connPointItem port a).2]

/-! ## Exceptions about names -/

/-- The call throws nothing that the second attempt would catch. -/
def KnowsNames {α : Type} (x : Except Exn α) : Prop :=
  ∀ what, x ≠ .error (.std .badDataItemName what)

section

variable {α β : Type}

/-- A call that returns throws nothing. -/
theorem knowsNames_ok (a : α) : KnowsNames (.ok a : Except Exn α) := fun _ h => by cases h

/-- A sequence throws what its parts throw. -/
theorem KnowsNames.bind {x : Except Exn α} {f : α → Except Exn β} (hx : KnowsNames x)
    (hf : ∀ a, x = .ok a → KnowsNames (f a)) : KnowsNames (x >>= f) := by
  intro what h
  cases hrun : x with
  | ok a =>
    rw [hrun, ok_bind] at h
    exact hf a hrun what h
  | error e =>
    rw [hrun, error_bind] at h
    exact hx what (hrun.trans (by rw [Except.error.inj h]))

/-- A failed assertion is not caught by the second attempt. -/
theorem knowsNames_assertThat {cond : Bool} {text : String} :
    KnowsNames (assertThat cond text) := by
  intro what h
  unfold assertThat at h
  split at h <;> cases h

/-- A vector that is too long is not caught by the second attempt. -/
theorem knowsNames_vectorSize {buf : Bytes} : KnowsNames (vectorSize buf) := by
  intro what h
  unfold vectorSize at h
  split at h <;> cases h

/-- A value that does not fit its field is not caught by the second attempt. -/
theorem knowsNames_serializeAt {szT val fieldSize it : Nat} {buf : Bytes} :
    KnowsNames (serializeAt szT val fieldSize buf it) := by
  refine KnowsNames.bind (fun what h => ?_) fun _ _ what h => ?_
  · unfold checkFits at h
    split at h <;> cases h
  · split at h
    · cases h
    · split at h <;> cases h

/-- The name of an id that was found by its name is that name. -/
theorem getDataItemName_of_getDataItemId {cfg : ProtocolConfig} {diName : String}
    {id : DataItemIdType}
    (hid : cfg.getDataItemId diName none = .ok id) : cfg.getDataItemName id none = .ok diName := by
  simp only [ProtocolConfig.getDataItemId, ProtocolConfig.subDataItemId?, Option.bind_none] at hid
  split at hid
  · next hright =>
    obtain rfl := Except.ok.inj hid
    simp only [ProtocolConfig.getDataItemName, ProtocolConfig.subDataItemName?, Option.bind_none,
      cfg.dataItemMap.left_eq_some_iff_right.2 hright]
  · cases hid

/-- A value that can be written is put into a message, unless a length does not fit. -/
theorem knowsNames_addDataItem [AddressText] {cfg : ProtocolConfig} {name diName : String}
    {pm : ProtocolMessage} {items : DataItems} {id : DataItemIdType} {value : DataItemValue}
    {valbuf : Bytes} (hpm : Building cfg name pm items)
    (hid : cfg.getDataItemId diName none = .ok id) (hvalue : value.serialize cfg = .ok valbuf) :
    KnowsNames (addDataItem cfg (.mk id value) pm) := by
  obtain ⟨body, hframes⟩ := hpm.frames
  have hserialize : KnowsNames ((DataItem.mk id value).serialize cfg) := by
    rw [DataItem.serialize, hvalue, ok_bind]
    refine knowsNames_vectorSize.bind fun _ _ => knowsNames_serializeAt.bind fun _ _ => ?_
    exact knowsNames_serializeAt.bind fun _ _ => knowsNames_ok _
  refine hserialize.bind fun dibuf _ => KnowsNames.bind ?_ fun pm' hpm' => ?_
  · refine knowsNames_assertThat.bind fun _ _ => knowsNames_assertThat.bind fun _ _ => ?_
    exact knowsNames_vectorSize.bind fun _ _ => knowsNames_serializeAt.bind fun _ _ =>
      knowsNames_ok _
  · -- both names that are looked up for the log are there
    have hname : cfg.getDataItemName id none = .ok diName := getDataItemName_of_getDataItemId hid
    have hsignal : pm'.getSignalName cfg = .ok name := by
      obtain ⟨_, _, hpm'⟩ := bind_eq_ok.1 hpm'
      obtain ⟨_, _, hpm'⟩ := bind_eq_ok.1 hpm'
      obtain ⟨_, _, hpm'⟩ := bind_eq_ok.1 hpm'
      obtain ⟨_, _, hpm'⟩ := bind_eq_ok.1 hpm'
      obtain rfl := Except.ok.inj hpm'
      exact getSignalName_of_getSignalId hframes.signalId hframes.initialized
    simp only [DataItem.id, hname, hsignal, ok_bind]
    exact knowsNames_ok _

/-! ## What is put into an offer -/

variable [AddressText] {cfg : ProtocolConfig} {name : String} {pm : ProtocolMessage}
    {items : DataItems}
  {sp : SessionParameters}

/-- A data item is added, or the message stays as it was; and a name that is known is no reason for
that. -/
theorem wp_addItem {item : String × DataItemValue} {valbuf : Bytes}
    (hpm : Building cfg name pm items) (hvalue : item.2.serialize cfg = .ok valbuf) :
    wp (addItem cfg item)
      (fun _ pm' => ∃ id, cfg.getDataItemId item.1 none = .ok id ∧
        Building cfg name pm' (items ++ [.mk id item.2]))
      (fun e pm' => pm' = pm ∧ ∀ what, e = .std .badDataItemName what →
        ∃ e', cfg.getDataItemId item.1 none = .error e') pm := by
  rw [addItem, wp_bind]
  refine wp_lift (fun di hdi => ?_) fun e he => ⟨rfl, fun what _ => ?_⟩
  · obtain ⟨id, hid, hdi⟩ := bind_eq_ok.1 hdi
    obtain rfl := Except.ok.inj hdi
    rw [wp_bind, wp_get, wp_bind]
    refine wp_lift (fun pm' hadd => ?_) fun e he => ⟨rfl, fun what hwhat => ?_⟩
    · rw [wp_set]
      exact ⟨id, hid, hpm.addDataItem hadd⟩
    · subst hwhat
      exact absurd he (knowsNames_addDataItem hpm hid hvalue what)
  · cases hid : cfg.getDataItemId item.1 none with
    | ok id =>
      rw [DataItem.ofName, hid] at he
      cases he
    | error e' => exact ⟨e', rfl⟩

omit [AddressText] in
/-- An address can be written. -/
theorem exists_serialize_addressItem (a : IpAddress) :
    ∃ valbuf, (addressItem a).2.serialize cfg = .ok valbuf := by
  cases a <;> exact ⟨_, rfl⟩

omit [AddressText] in
/-- A connection point can be written. -/
theorem exists_serialize_connPointItem (port : UInt16) (a : IpAddress) :
    ∃ valbuf, (connPointItem port a).2.serialize cfg = .ok valbuf := by
  cases a <;> exact ⟨_, rfl⟩

/-- The connection point comes behind what was added before. -/
theorem wp_addConnPoint {more : DataItems} {a : IpAddress} {port : UInt16} {sent : Option IpAddress}
    (hpm : Building cfg name pm (items ++ more))
    (hmore : ∀ id', cfg.getDataItemId (connPointItem port a).1 none = .ok id' →
      EndpointItems cfg port sent (more ++ [.mk id' (connPointItem port a).2])) :
    wp (addItem cfg (connPointItem port a))
      (fun _ pm' => ∃ more, Building cfg name pm' (items ++ more) ∧
        EndpointItems cfg port sent more)
      (fun _ _ => True) pm := by
  obtain ⟨valbuf, hvalue⟩ : ∃ valbuf, (connPointItem port a).2.serialize cfg = .ok valbuf :=
    exists_serialize_connPointItem port a
  refine (wp_addItem hpm hvalue).mono (fun _ pm' h => ?_) fun _ _ _ => trivial
  obtain ⟨id', hid', hbuilding⟩ := h
  exact ⟨_, by simpa using hbuilding, hmore id' hid'⟩

/-- An offer gets the port and the address that it should have. -/
theorem wp_addEndpoint (hpm : Building cfg name pm items) :
    wp (addEndpoint cfg sp)
      (fun _ pm' => ∃ more, Building cfg name pm' (items ++ more) ∧
        EndpointItems cfg sp.sessionPort.toUInt16 (advertised cfg sp) more)
          (fun _ _ => True) pm := by
  have hport : (DataItemValue.u16 sp.sessionPort.toUInt16).serialize cfg =
      .ok (serialize 2 sp.sessionPort.toUInt16.toNat []) := rfl
  rw [addEndpoint, wp_tryCatch, wp_bind]
  refine (wp_addItem hpm hport).mono (fun _ pm₁ h₁ => ?_) fun e pm₁ h₁ => ?_
  · obtain ⟨id, hid, hpm₁⟩ := h₁
    have hsent : advertised cfg sp = sp.sessionAddress := by rw [advertised, hid]
    rw [hsent]
    cases haddress : sp.sessionAddress with
    | none =>
      rw [addAddress, wp_pure]
      exact ⟨_, hpm₁, .port hid⟩
    | some a =>
      obtain ⟨valbuf, hvalue⟩ : ∃ valbuf, (addressItem a).2.serialize cfg = .ok valbuf :=
        exists_serialize_addressItem a
      refine (wp_addItem hpm₁ hvalue).mono (fun _ pm₂ h₂ => ?_) fun e pm₂ h₂ => ?_
      · obtain ⟨id', hid', hpm₂⟩ := h₂
        exact ⟨_, by simpa using hpm₂, .address hid hid'⟩
      · obtain ⟨rfl, -⟩ := h₂
        split
        · exact wp_addConnPoint hpm₁ fun id' hid' => .both hid hid'
        · trivial
  · -- the port is not added, and only for want of its data item is there a second attempt
    obtain ⟨rfl, hname⟩ := h₁
    split
    · next what =>
      obtain ⟨e', hid⟩ := hname what rfl
      have hsent : advertised cfg sp = some (sp.sessionAddress.getD sp.interfaceAddress) := by
        rw [advertised, hid]
      rw [hsent]
      have hnone : Building cfg name pm₁ (items ++ []) := by rwa [List.append_nil]
      refine wp_addConnPoint hnone fun id' hid' => ?_
      rw [List.nil_append]
      exact .connPoint hid'
    · trivial

/-! ## What is read of an offer -/

omit [AddressText] in
/-- A data item without sub data items that has the type of its name is read back as it is. -/
theorem readBack_eq {diName : String} {id : DataItemIdType} {value : DataItemValue}
    {read : DataItem} (htype : cfg.getDataItemValueType diName = .ok value.getType)
    (hid : cfg.getDataItemId diName none = .ok id) (hsubs : value.subItems = [])
    (hdec : value.Decodable) (h : (DataItem.mk id value).ReadBack cfg read) :
    read = .mk id value := by
  obtain ⟨w, form, hw, hwire, rfl⟩ := h
  obtain ⟨info, hinfo, hty⟩ := cfg.info_of_getDataItemId htype hid
  have hnone : ∀ {P : DataItem → Prop}, ∀ sdi ∈ value.subItems, P sdi := by
    intro P sdi hsdi
    rw [hsubs] at hsdi
    cases hsdi
  have hwritten := DataItem.deserialize_append (.mk hinfo hty.symm hnone) (.mk hdec hnone) hw 0 []
  rw [hwire.deserialize 0 []] at hwritten
  exact (Prod.mk.inj (Except.ok.inj hwritten)).1

/-- An address as it comes out of a data item: the scope id is not in it. -/
def unscoped : IpAddress → IpAddress
  | .v4 address => .v4 address
  | .v6 address => .v6 { address with scopeId := 0 }

omit [AddressText] in
/-- The scope id does not matter for the kind of an address. -/
@[simp] theorem addressItem_unscoped (a : IpAddress) :
    (addressItem (unscoped a)).1 = (addressItem a).1 := by
  cases a <;> rfl

omit [AddressText] in
/-- The scope id does not matter for the kind of a connection point. -/
@[simp] theorem connPointItem_unscoped (port : UInt16) (a : IpAddress) :
    (connPointItem port (unscoped a)).1 = (connPointItem port a).1 := by
  cases a <;> rfl

omit [AddressText] in
/-- An address is read back without its scope id. -/
theorem readBack_addressItem {id : DataItemIdType} {a : IpAddress} {read : DataItem}
    (hdiscovers : cfg.Discovers) (hid : cfg.getDataItemId (addressItem a).1 none = .ok id)
    (h : (DataItem.mk id (addressItem a).2).ReadBack cfg read) :
    read = .mk id (addressItem (unscoped a)).2 := by
  cases a with
  | v4 address =>
    have htype := hdiscovers.types ("IPv4_Address", .u8Ipv4) (by simp) id hid
    exact readBack_eq htype hid rfl ⟨trivial, trivial⟩ h
  | v6 address =>
    have htype := hdiscovers.types ("IPv6_Address", .u8Ipv6) (by simp) id hid
    have hread : (DataItem.mk id (addressItem (unscoped (.v6 address))).2).ReadBack cfg read := h
    exact readBack_eq htype hid rfl ⟨trivial, rfl⟩ hread

omit [AddressText] in
/-- A connection point is read back without its scope id. -/
theorem readBack_connPointItem {id : DataItemIdType} {port : UInt16} {a : IpAddress}
    {read : DataItem} (hdiscovers : cfg.Discovers)
    (hid : cfg.getDataItemId (connPointItem port a).1 none = .ok id)
    (h : (DataItem.mk id (connPointItem port a).2).ReadBack cfg read) :
    read = .mk id (connPointItem port (unscoped a)).2 := by
  cases a with
  | v4 address =>
    have htype := hdiscovers.types ("IPv4_Connection_Point", .u8Ipv4U16) (by simp) id hid
    exact readBack_eq htype hid rfl ⟨trivial, trivial⟩ h
  | v6 address =>
    have htype := hdiscovers.types ("IPv6_Connection_Point", .u8Ipv6U16) (by simp) id hid
    have hread :
        (DataItem.mk id (connPointItem port (unscoped (.v6 address))).2).ReadBack cfg read := h
    exact readBack_eq htype hid rfl ⟨trivial, rfl⟩ hread

omit [AddressText] in
/-- The port and the address are read back, the address without a scope id. -/
theorem EndpointItems.readBack {port : UInt16} {sent : Option IpAddress} {more read : DataItems}
    (hdiscovers : cfg.Discovers) (hmore : EndpointItems cfg port sent more)
    (h : List.Forall₂ (DataItem.ReadBack cfg) more read) :
    EndpointItems cfg port (sent.map unscoped) read := by
  have hport : ∀ {id : DataItemIdType} {di : DataItem}, cfg.getDataItemId "Port" none = .ok id →
      (DataItem.mk id (.u16 port)).ReadBack cfg di → di = .mk id (.u16 port) := by
    intro id di hid hdi
    exact readBack_eq (hdiscovers.types ("Port", .u16) (by simp) id hid) hid rfl
      ⟨trivial, trivial⟩ hdi
  cases hmore with
  | port hid =>
    obtain ⟨_, _, hread, hnil, rfl⟩ := List.forall₂_cons_left_iff.1 h
    rw [hport hid hread, List.forall₂_nil_left_iff.1 hnil]
    exact .port hid
  | address hid hid' =>
    obtain ⟨_, _, hread, hrest, rfl⟩ := List.forall₂_cons_left_iff.1 h
    obtain ⟨_, _, hread', hnil, rfl⟩ := List.forall₂_cons_left_iff.1 hrest
    rw [hport hid hread, readBack_addressItem hdiscovers hid' hread',
      List.forall₂_nil_left_iff.1 hnil]
    exact .address hid (by simpa using hid')
  | both hid hid' =>
    obtain ⟨_, _, hread, hrest, rfl⟩ := List.forall₂_cons_left_iff.1 h
    obtain ⟨_, _, hread', hnil, rfl⟩ := List.forall₂_cons_left_iff.1 hrest
    rw [hport hid hread, readBack_connPointItem hdiscovers hid' hread',
      List.forall₂_nil_left_iff.1 hnil]
    exact .both hid (by simpa using hid')
  | connPoint hid' =>
    obtain ⟨_, _, hread', hnil, rfl⟩ := List.forall₂_cons_left_iff.1 h
    rw [readBack_connPointItem hdiscovers hid' hread', List.forall₂_nil_left_iff.1 hnil]
    exact .connPoint (by simpa using hid')

/-! ## What is chosen -/

/-- The value of the first data item of a name. -/
def firstOf (cfg : ProtocolConfig) (items : DataItems) (diName : String) : Option DataItemValue :=
  match cfg.getDataItemId diName none with
  | .ok id => (items.find? fun di => di.id = id).map DataItem.value
  | .error _ => none

section

variable {diName : String} {names : List String}

omit [AddressText] in
/-- Among no data items there is none of any name. -/
@[simp] theorem firstOf_nil : firstOf cfg [] diName = none := by
  unfold firstOf
  split <;> rfl

omit [AddressText] in
/-- The first data item of a name is the one in front, or among the rest. -/
theorem firstOf_cons {other : String} {id : DataItemIdType} {value : DataItemValue}
    (hid : cfg.getDataItemId other none = .ok id) :
    firstOf cfg (.mk id value :: items) diName =
      if diName = other then some value else firstOf cfg items diName := by
  by_cases hsame : diName = other
  · rw [if_pos hsame, firstOf, hsame, hid]
    simp [DataItem.id, DataItem.value]
  · rw [if_neg hsame]
    unfold firstOf
    split
    · next id' hid' =>
      have hne : id ≠ id' := by
        intro heq
        rw [heq] at hid
        exact hsame (Peer.getDataItemId_inj hid' hid)
      rw [List.find?_cons_of_neg]
      simp [DataItem.id, hne]
    · rfl

omit [AddressText] in
/-- The data items of other names do not matter. -/
theorem firstOf_append {before : DataItems} (hbefore : ∀ di ∈ before, Named cfg names di)
    (hname : diName ∉ names) : firstOf cfg (before ++ items) diName = firstOf cfg items diName := by
  induction before with
  | nil => rfl
  | cons di before ih =>
    obtain ⟨id, value⟩ := di
    obtain ⟨other, hother, hid⟩ : Named cfg names (.mk id value) :=
      hbefore _ (List.mem_cons_self ..)
    rw [DataItem.id] at hid
    have hne : diName ≠ other := by
      rintro rfl
      exact hname hother
    rw [List.cons_append, firstOf_cons hid, if_neg hne]
    exact ih fun di hdi => hbefore di (List.mem_cons_of_mem _ hdi)

omit [AddressText] in
/-- What a `try` block about a data item makes of the selection. -/
theorem ifPresent_eq {α : Type} {get : DataItemValue → Option α} {sel : Selection}
    {use : α → Selection} :
    ifPresent (getDataItemValue cfg diName get pm) sel use =
      (firstOf cfg pm.dataItems diName).elim (.ok sel) fun value =>
        (get value).elim (throwStd .dataItemWrongType (str diName)) fun val => .ok (use val) := by
  rw [getDataItemValue]
  cases hid : cfg.getDataItemId diName none with
  | ok id =>
    simp only [ok_bind, firstOf, hid]
    cases pm.dataItems.find? fun di => di.id = id with
    | none => rfl
    | some di =>
      simp only [Option.map_some, Option.elim_some]
      cases get di.value <;> rfl
  | error e =>
    simp only [firstOf, hid]
    simp only [ProtocolConfig.getDataItemId, ProtocolConfig.subDataItemId?, Option.bind_none] at hid
    split at hid
    · cases hid
    · obtain rfl := Except.error.inj hid
      rfl

end

/-- Can the address be a link-local one, which needs the scope id of the sender? -/
def isV6 : IpAddress → Bool
  | .v4 _ => false
  | .v6 _ => true

omit [AddressText] in
/-- The port and the address of an offer are chosen, or else the address of the sender. -/
theorem select_of_endpointItems {port : UInt16} {sent : Option IpAddress} {before after : DataItems}
    {configured : UInt32} {fromEndpoint : Endpoint}
    (hbefore : ∀ di ∈ before, Named cfg commonNames di) (hafter : EndpointItems cfg port sent after)
    (hitems : pm.dataItems = before ++ after) :
    select cfg configured fromEndpoint pm = .ok {
      sessionPort := port.toUInt32
      destIp := sent.getD fromEndpoint.address
      mayNeedScopeId := (sent.map isV6).getD false } := by
  have hfirst : ∀ diName ∉ commonNames,
      firstOf cfg pm.dataItems diName = firstOf cfg after diName := by
    intro diName hname
    rw [hitems, firstOf_append hbefore hname]
  simp only [select, getPort, getIpv4Address, getIpv4ConnPoint, getIpv6Address, getIpv6ConnPoint,
    ifPresent_eq, hfirst "Port" (by decide), hfirst "IPv4_Address" (by decide),
    hfirst "IPv4_Connection_Point" (by decide), hfirst "IPv6_Address" (by decide),
    hfirst "IPv6_Connection_Point" (by decide)]
  cases hafter with
  | port hid => simp [firstOf_cons hid, u16?, ok_bind]
  | @address id id' a hid hid' =>
    cases a <;>
      simp [firstOf_cons hid, firstOf_cons hid', addressItem, u16?, u8Ipv4?, u8Ipv6?, ok_bind, isV6]
  | @both id id' a hid hid' =>
    cases a <;>
      simp [firstOf_cons hid, firstOf_cons hid', connPointItem, u16?, u8Ipv4U16?,
        u8Ipv6U16?, ok_bind, isV6]
  | @connPoint id' a hid' =>
    cases a <;> simp [firstOf_cons hid', connPointItem, u8Ipv4U16?, u8Ipv6U16?, ok_bind, isV6]

omit [AddressText] in
/-- What is read back has the names of what was sent. -/
theorem named_of_readBack {names : List String} {sent read : DataItems}
    (h : List.Forall₂ (DataItem.ReadBack cfg) sent read) (hsent : ∀ di ∈ sent, Named cfg names di) :
    ∀ di ∈ read, Named cfg names di := by
  induction h with
  | nil => exact hsent
  | @cons di back _ _ hback _ ih =>
    intro di' hdi'
    rcases List.mem_cons.1 hdi' with rfl | hmem
    · obtain ⟨diName, hname, hid⟩ := hsent di (List.mem_cons_self ..)
      exact ⟨diName, hname, hback.id_eq ▸ hid⟩
    · exact ih (fun di hdi => hsent di (List.mem_cons_of_mem _ hdi)) di' hmem

/-! ## Signals that are received as they were composed -/

variable {n : Node} {params : ClientParameters} {sender : Bool} {buf : Bytes}

/-- The buffer has a signal with these data items, which such a sender may send. -/
structure Holds (cfg : ProtocolConfig) (sender : Bool) (name : String) (buf : Bytes)
    (items : DataItems) (pm : ProtocolMessage) : Prop where
  ne_nil : buf ≠ []
  parse : parseBuffer cfg buf true (str "handle_message") {} = .ok ([], pm)
  valid : validate cfg sender pm = .ok []
  name : pm.getSignalName cfg = .ok name
  read : List.Forall₂ (DataItem.ReadBack cfg) items pm.dataItems

/-- A signal that is composed can be received. -/
theorem exists_holds_of_compose {func : String}
    {build : ProtocolMessage → Except Exn ProtocolMessage} {Q : DataItems → Prop}
    (hname : ∃ id, n.cfg.signalMap.right name = some id)
    (hbuild : ∀ pm₀ pm₁, Building n.cfg name pm₀ [] → build pm₀ = .ok pm₁ →
      ∃ items, Building n.cfg name pm₁ items ∧ Q items)
    (h : compose n name func build = .ok pm) :
    ∃ items pm', Holds n.cfg n.modem name pm.msgbuf items pm' ∧ Q items := by
  obtain ⟨id, hname⟩ := hname
  obtain ⟨pm₀, hheader, h⟩ := bind_eq_ok.1 h
  obtain ⟨pm₁, hpm₁, h⟩ := bind_eq_ok.1 h
  obtain ⟨⟨err, pm₂⟩, hvalid, h⟩ := bind_eq_ok.1 h
  obtain ⟨_, hassert, h⟩ := bind_eq_ok.1 h
  obtain rfl := Except.ok.inj h
  obtain rfl : err = [] := of_decide_eq_true (assertThat_ok.1 hassert)
  obtain ⟨hparse, hcheck⟩ := parseAndValidate_eq_nil_iff.1 hvalid
  obtain ⟨items, hbuilding, hitems⟩ := hbuild pm₀ pm₁ (.addHeader hheader) hpm₁
  obtain ⟨body, hframes⟩ := hbuilding.frames
  have hread := ((hframes.parse_iff _).1 ⟨_, hparse, rfl⟩).1
  have hown := hframes.parse hparse
  have hids := Prod.mk.inj (Except.ok.inj (hown.signalId.symm.trans hframes.signalId))
  have hsignal : pm₁.isSignal = true := by
    have hid := hframes.signalId
    simp only [ProtocolConfig.getSignalId, hname, Except.ok.injEq, Prod.mk.injEq] at hid
    exact hid.2.symm
  have hbuf : pm₂.msgbuf = pm₁.msgbuf := by
    rw [hown.msgbuf, hframes.msgbuf, hids.1, hids.2]
  have hne : pm₂.msgbuf ≠ [] := by
    intro hnil
    have hlength := congrArg List.length hown.msgbuf
    have hpos := n.cfg.signalLengthSize.2.1
    simp only [hnil, frame, List.length_append, BigEndian.length_encode, List.length_nil] at hlength
    omega
  obtain ⟨err', pm', hbuffer, herr', hitems', hid', hinit', hsignal'⟩ :=
    hframes.exists_parseBuffer hparse (str "handle_message") {}
  obtain rfl : err' = [] := herr'.2 rfl
  -- a check looks at nothing but the name and the data items
  have hsame : pm'.getSignalName n.cfg = pm₂.getSignalName n.cfg := by
    simp only [getSignalName, hinit', hown.initialized, hsignal', hids.2, hid']
  rw [hsignal, ← hbuf] at hbuffer
  refine ⟨items, pm', ⟨hne, hbuffer, ?_, ?_, hitems' ▸ hread⟩, hitems⟩
  · rw [← hcheck]
    simp only [validate, validateContent, hsame, hitems']
  · rw [hsame]
    exact getSignalName_of_getSignalId hown.signalId hown.initialized

/-- What is done about a signal depends on who may send it, and on its name. -/
theorem handleMessage_eq {resolves : Endpoint → Bool} {fromEndpoint : Endpoint}
    (h : Holds n.cfg sender name buf items pm) :
    handleMessage n params sp resolves buf fromEndpoint =
      (validate n.cfg (!n.modem) pm >>= fun err =>
        if err ≠ [] then .ok .ignored
        else if name = "Peer_Discovery" then handleDiscovery n params sp fromEndpoint
        else if name = "Peer_Offer" then
          handlePeerOffer n resolves sp.sessionPort pm fromEndpoint >>= fun found =>
            .ok (found.elim .ignored .connect)
        else .ok .ignored) := by
  have hparsed : parseAndValidateBuffer n.cfg buf true (!n.modem) (str "handle_message") {} =
      validate n.cfg (!n.modem) pm >>= fun err => .ok (err, pm) := by
    have hparse := h.parse
    rw [parseBuffer] at hparse
    rw [parseAndValidateBuffer, ProtocolMessage.parseAndValidate, hparse, ok_bind]
    simp only [ne_eq, not_true_eq_false, if_false]
    rfl
  rw [handleMessage, if_neg h.ne_nil, hparsed]
  cases validate n.cfg (!n.modem) pm with
  | error e => rfl
  | ok err =>
    simp only [ok_bind, h.name]
    by_cases herr : err = []
    · rw [if_neg (not_not.2 herr), if_neg (not_not.2 herr)]
      by_cases hdiscovery : name = "Peer_Discovery"
      · rw [if_pos hdiscovery, if_pos hdiscovery]
      rw [if_neg hdiscovery, if_neg hdiscovery]
      by_cases hoffer : name = "Peer_Offer"
      · rw [if_pos hoffer, if_pos hoffer]
        refine congrArg _ (funext fun found => ?_)
        cases found <;> rfl
      · rw [if_neg hoffer, if_neg hoffer]
        rfl
    · rw [if_pos herr, if_pos herr]
      rfl

/-- What is put into an offer: what the configuration has for its name, and then the endpoint. -/
theorem built_offer {pm₀ pm₁ : ProtocolMessage} (hpm : Building cfg name pm₀ [])
    (h : (addCommonDataItems cfg params pm₀ >>= built (addEndpoint cfg sp)) = .ok pm₁) :
    ∃ items, Building cfg name pm₁ items ∧ ∃ common more, items = common ++ more ∧
      (∀ di ∈ common, Named cfg commonNames di) ∧
      EndpointItems cfg sp.sessionPort.toUInt16 (advertised cfg sp) more := by
  obtain ⟨pm₂, hcommon, h⟩ := bind_eq_ok.1 h
  obtain ⟨common, hpm₂, hnamed⟩ := puts_addCommonDataItems _ _ _ _ hpm hcommon
  have hadd : wp (addEndpoint cfg sp) _ _ pm₂ := wp_addEndpoint hpm₂
  unfold built at h
  unfold wp at hadd
  split at h
  · next hrun =>
    obtain rfl := Except.ok.inj h
    rw [hrun] at hadd
    obtain ⟨more, hpm₁, hmore⟩ := hadd
    exact ⟨_, hpm₁, common, more, by simp, hnamed, hmore⟩
  · cases h

omit [AddressText] in
/-- The address that an offer leads to, with the scope id of the sender where it needs one. -/
theorem addScopeId_eq {fromEndpoint : Endpoint} {sent : Option IpAddress} {port : UInt32} :
    addScopeId fromEndpoint {
      sessionPort := port
      destIp := sent.getD fromEndpoint.address
      mayNeedScopeId := (sent.map isV6).getD false } =
      .ok (if reachable fromEndpoint.address (sent.getD fromEndpoint.address) then
        some (withScopeId fromEndpoint.address (sent.getD fromEndpoint.address)) else none) := by
  cases sent with
  | none =>
    have hreach : reachable fromEndpoint.address fromEndpoint.address = true := by
      cases fromEndpoint.address <;> rfl
    simp [addScopeId, hreach, withScopeId_self, pure, Except.pure]
  | some a =>
    cases a with
    | v4 address => rfl
    | v6 address =>
      simp only [addScopeId, Option.map_some, Option.getD_some, isV6, if_true, IpAddress.toV6,
        ok_bind, reachable, withScopeId]
      rcases Bool.eq_false_or_eq_true address.isLinkLocal with hlocal | hlocal <;>
        cases fromEndpoint.address <;> simp [hlocal, pure, Except.pure]

/-- A router that gets the port and perhaps the address of a modem connects to them. -/
theorem handlePeerOffer_of_endpointItems {resolves : Endpoint → Bool} {configured : UInt32}
    {fromEndpoint : Endpoint} {port : UInt16} {sent : Option IpAddress} {before after : DataItems}
    (hrouter : n.modem = false) (hbefore : ∀ di ∈ before, Named n.cfg commonNames di)
    (hafter : EndpointItems n.cfg port sent after) (hitems : pm.dataItems = before ++ after) :
    handlePeerOffer n resolves configured pm fromEndpoint = .ok
      (let address := sent.getD fromEndpoint.address
      let endpoint : Endpoint := { address := withScopeId fromEndpoint.address address, port }
      if reachable fromEndpoint.address address = true ∧
          (n.peerState (peerIdOf endpoint.address port.toUInt32)).isSome = false ∧
          resolves endpoint = true then some endpoint else none) := by
  simp only [handlePeerOffer, hrouter, Bool.false_eq_true, if_false,
    select_of_endpointItems hbefore hafter hitems, ok_bind, addScopeId_eq]
  cases hreach : reachable fromEndpoint.address (sent.getD fromEndpoint.address) with
  | false => simp [pure, Except.pure]
  | true =>
    simp only [if_true, true_and, UInt16.toUInt16_toUInt32]
    split
    · next hsession => simp [hsession, pure, Except.pure]
    · next hsession =>
      rw [Bool.not_eq_true] at hsession
      cases hresolves : resolves
          { address := withScopeId fromEndpoint.address (sent.getD fromEndpoint.address), port } <;>
        simp_all [pure, Except.pure]

omit [AddressText] in
/-- Where a router is to find the modem whose parameters these are, if it gets the offer from an
address. -/
def offeredEndpoint (cfg : ProtocolConfig) (sp : SessionParameters) (fromAddress : IpAddress) :
    Endpoint where
  address := withScopeId fromAddress (((advertised cfg sp).map unscoped).getD fromAddress)
  port := sp.sessionPort.toUInt16

/-- Does the router connect to the endpoint? It must not have a session with it, and the address
must be one that it can connect to. -/
def Connects (n : Node) (resolves : Endpoint → Bool) (sp : SessionParameters)
    (fromAddress : IpAddress) :
    Prop :=
  reachable fromAddress (((advertised n.cfg sp).map unscoped).getD fromAddress) = true ∧
    (n.peerState (peerIdOf (offeredEndpoint n.cfg sp fromAddress).address
      (offeredEndpoint n.cfg sp fromAddress).port.toUInt32)).isSome = false ∧
    resolves (offeredEndpoint n.cfg sp fromAddress) = true

instance (n : Node) (resolves : Endpoint → Bool) (sp : SessionParameters)
    (fromAddress : IpAddress) :
    Decidable (Connects n resolves sp fromAddress) := inferInstanceAs (Decidable (_ ∧ _ ∧ _))

/-! ## The exchange -/

/-- The signal that a router sends is a Peer Discovery. -/
theorem exists_holds_of_getMessageToSend (hdiscovers : n.cfg.Discovers)
    (h : getMessageToSend n params = .ok buf) :
    ∃ items pm, Holds n.cfg n.modem "Peer_Discovery" buf items pm := by
  obtain ⟨pm, hcompose, h⟩ := bind_eq_ok.1 h
  obtain rfl := Except.ok.inj h
  have hbuild : ∀ pm₀ pm₁, Building n.cfg "Peer_Discovery" pm₀ [] →
      addCommonDataItems n.cfg params pm₀ = .ok pm₁ →
      ∃ items, Building n.cfg "Peer_Discovery" pm₁ items ∧ True := by
    intro pm₀ pm₁ hpm hadd
    obtain ⟨items, hpm₁, _⟩ := puts_addCommonDataItems _ _ _ _ hpm hadd
    exact ⟨_, hpm₁, trivial⟩
  obtain ⟨items, pm', hholds, _⟩ :=
    exists_holds_of_compose (hdiscovers.signals "Peer_Discovery" (by simp)) hbuild hcompose
  exact ⟨items, pm', hholds⟩

/-- What a router or a modem makes of a discovery: it never connects. -/
theorem handleMessage_discovery {resolves : Endpoint → Bool} {fromEndpoint : Endpoint}
    (h : Holds n.cfg sender "Peer_Discovery" buf items pm) :
    handleMessage n params sp resolves buf fromEndpoint =
      (validate n.cfg (!n.modem) pm >>= fun err =>
        if err ≠ [] then .ok .ignored else handleDiscovery n params sp fromEndpoint) := by
  rw [handleMessage_eq h]
  simp only [if_true]

/-- The signal that a modem answers with is a Peer Offer with its port and address. -/
theorem exists_holds_of_sendPeerOffer {toEndpoint sendEndpoint : Endpoint}
    (hdiscovers : n.cfg.Discovers)
    (h : sendPeerOffer n params sp toEndpoint = .ok (.offer sendEndpoint buf)) :
    ∃ common more pm, Holds n.cfg n.modem "Peer_Offer" buf (common ++ more) pm ∧
      (∀ di ∈ common, Named n.cfg commonNames di) ∧
      EndpointItems n.cfg sp.sessionPort.toUInt16 (advertised n.cfg sp) more := by
  obtain ⟨pm, hcompose, h⟩ := bind_eq_ok.1 h
  obtain ⟨rfl, rfl⟩ := Action.offer.inj (Except.ok.inj h)
  obtain ⟨_, pm', hholds, common, more, rfl, hcommon, hmore⟩ :=
    exists_holds_of_compose (hdiscovers.signals "Peer_Offer" (by simp))
      (fun pm₀ pm₁ hpm hbuild => built_offer hpm hbuild) hcompose
  exact ⟨common, more, pm', hholds, hcommon, hmore⟩

/-- The handler of a router takes the endpoint from an offer. -/
theorem handlePeerOffer_of_holds {resolves : Endpoint → Bool} {configured : UInt32}
    {fromEndpoint : Endpoint} {msp : SessionParameters} {common more : DataItems}
    (hdiscovers : n.cfg.Discovers) (hrouter : n.modem = false)
    (h : Holds n.cfg sender "Peer_Offer" buf (common ++ more) pm)
    (hcommon : ∀ di ∈ common, Named n.cfg commonNames di)
    (hmore : EndpointItems n.cfg msp.sessionPort.toUInt16 (advertised n.cfg msp) more) :
    handlePeerOffer n resolves configured pm fromEndpoint = .ok
      (if Connects n resolves msp fromEndpoint.address then
        some (offeredEndpoint n.cfg msp fromEndpoint.address) else none) := by
  have hread := h.read.flip
  have hbefore := named_of_readBack (List.forall₂_take_append _ _ _ hread).flip hcommon
  have hafter := hmore.readBack hdiscovers (List.forall₂_drop_append _ _ _ hread).flip
  exact handlePeerOffer_of_endpointItems hrouter hbefore hafter (List.take_append_drop ..).symm

/-- A discovery that reaches a modem is answered unless there is a session; and whenever the offer
reaches a router, it connects to the endpoint that the modem has been configured with, or to the
address from which the offer comes. -/
theorem exchange {m r : Node} {rparams : ClientParameters} {rsp : SessionParameters}
    {resolves resolves' : Endpoint → Bool} {discovery : Bytes}
    {routerEndpoint modemEndpoint : Endpoint} (hdiscovers : m.cfg.Discovers) (hcfg : r.cfg = m.cfg)
    (hmodem : m.modem = true) (hrouter : r.modem = false)
    (hdiscovery : getMessageToSend r rparams = .ok discovery) :
    handleMessage m params sp resolves discovery routerEndpoint =
        (if (m.peerState (peerIdOf routerEndpoint.address routerEndpoint.port.toUInt32)).isSome then
          .ok .ignored
        else sendPeerOffer m params sp routerEndpoint) ∧
      ∀ sendEndpoint offer, sendPeerOffer m params sp routerEndpoint =
        .ok (.offer sendEndpoint offer) →
        handleMessage r rparams rsp resolves' offer modemEndpoint = .ok
          (if Connects r resolves' sp modemEndpoint.address then
            .connect (offeredEndpoint m.cfg sp modemEndpoint.address) else .ignored) := by
  constructor
  · obtain ⟨items, pm, hholds⟩ := exists_holds_of_getMessageToSend (hcfg ▸ hdiscovers) hdiscovery
    rw [hcfg, hrouter] at hholds
    rw [handleMessage_discovery hholds, hmodem, Bool.not_true, hholds.valid, ok_bind,
      if_neg (not_not.2 rfl), handleDiscovery, if_neg (not_not.2 hmodem)]
  · intro sendEndpoint offer hsend
    obtain ⟨common, more, pm, hholds, hcommon, hmore⟩ :=
      exists_holds_of_sendPeerOffer hdiscovers hsend
    rw [← hcfg] at hdiscovers hholds hcommon hmore ⊢
    rw [handleMessage_eq hholds, hrouter, Bool.not_false, ← hmodem, hholds.valid, ok_bind,
      if_neg (not_not.2 rfl), if_neg (by decide), if_pos rfl,
      handlePeerOffer_of_holds hdiscovers hrouter hholds hcommon hmore, ok_bind]
    by_cases hconnects : Connects r resolves' sp modemEndpoint.address
    · rw [if_pos hconnects, if_pos hconnects, Option.elim_some]
    · rw [if_neg hconnects, if_neg hconnects, Option.elim_none]

end

/-! ## Between two nodes without a session -/

/-- The shipped configuration has the signals and the data items of discovery. -/
theorem rfc8175_discovers : rfc8175.Discovers where
  types := by
    have hall : ∀ item ∈ [("Port", DataItemValueType.u16), ("IPv4_Address", .u8Ipv4),
        ("IPv4_Connection_Point", .u8Ipv4U16), ("IPv6_Address", .u8Ipv6),
        ("IPv6_Connection_Point", .u8Ipv6U16)],
        (rfc8175.getDataItemId item.1 none).toOption.isSome = true →
          (rfc8175.getDataItemValueType item.1).toOption = some item.2 := by decide +kernel
    intro item hitem id hid
    have htype := hall item hitem (by rw [hid]; rfl)
    cases hget : rfc8175.getDataItemValueType item.1 with
    | ok ty =>
      rw [hget] at htype
      exact congrArg Except.ok (Option.some.inj htype)
    | error e =>
      rw [hget] at htype
      cases htype
  signals := by
    have hall : ∀ name ∈ ["Peer_Discovery", "Peer_Offer"],
        (rfc8175.signalMap.right name).isSome = true := by decide +kernel
    exact fun name hname => Option.isSome_iff_exists.1 (hall name hname)

/-- A modem without peers. -/
def bareModem (cfg : ProtocolConfig) : Node := { bareRouter cfg with modem := true }

def routerEndpoint : Endpoint := { address := .v4 ⟨[10, 0, 0, 2], rfl⟩, port := 854 }

def modemEndpoint : Endpoint := { address := .v4 modemAddress, port := 854 }

/-- Only the port of the session is configured. -/
def modemParameters : SessionParameters where
  sessionPort := 854
  sessionAddress := none
  interfaceAddress := .v4 modemAddress
  udpPort := 854

attribute [local instance] plainText

/-- A result that is there was returned. -/
theorem exists_ok_of_isSome {α : Type} {x : Except Exn α} (h : x.toOption.isSome = true) :
    ∃ a, x = .ok a := by
  cases x with
  | ok a => exact ⟨a, rfl⟩
  | error e => cases h

/-- The address of an offer is that of the interface, since the configuration has no data item for
the port. -/
theorem exchange_connects : ∃ discovery sendEndpoint offer,
    handleMessage (bareModem rfc8175) Peer.bareSurroundings.params modemParameters
      (fun _ => true) discovery
      routerEndpoint = .ok (.offer sendEndpoint offer) ∧
    handleMessage (bareRouter rfc8175) Peer.bareSurroundings.params modemParameters
      (fun _ => true) offer
      modemEndpoint = .ok (.connect modemEndpoint) := by
  have hdiscovery : (getMessageToSend (bareRouter rfc8175)
    Peer.bareSurroundings.params).toOption.isSome =
      true := by decide +kernel
  have hoffer : (sendPeerOffer (bareModem rfc8175) Peer.bareSurroundings.params modemParameters
      routerEndpoint).toOption.isSome = true := by decide +kernel
  obtain ⟨discovery, hdiscovery⟩ := exists_ok_of_isSome hdiscovery
  obtain ⟨action, hoffer⟩ := exists_ok_of_isSome hoffer
  obtain ⟨pm, hcompose, haction⟩ := bind_eq_ok.1 hoffer
  obtain rfl := Except.ok.inj haction
  have hexchange :=
    @exchange plainText modemParameters Peer.bareSurroundings.params (bareModem rfc8175)
    (bareRouter rfc8175) Peer.bareSurroundings.params modemParameters (fun _ => true)
      (fun _ => true)
    discovery routerEndpoint modemEndpoint rfc8175_discovers rfl rfl rfl hdiscovery
  refine ⟨discovery, { address := routerEndpoint.address, port := 854 }, pm.msgbuf, ?_, ?_⟩
  · rw [hexchange.1, if_neg (by decide +kernel)]
    exact hoffer
  · rw [hexchange.2 _ _ hoffer, if_pos (by decide +kernel)]
    rfl

end PeerDiscovery

end Dlep
