import Dlep.PeerDiscovery
import Dlep.ProtocolMessage.Checked
import Dlep.ProtocolMessage.Compose
import Dlep.ProtocolMessage.Wire

/-!
# The endpoint of an offer

The handler writes the address and the port one after the other, in the order of the data items it
looks for, and the last one that is there wins. A connection point has an optional port; one that
was left out is read as zero, and the handler takes the zero for the port. So the address is
always the one that was offered last, and the port is, unless the last connection point has none.
-/

namespace Dlep

open ProtocolMessage

/-- The last of several choices that was made, or else the default. -/
def lastChosen {α : Type} (default : α) (choices : List (Option α)) : α :=
  (choices.filterMap id).getLast?.getD default

section

variable {α : Type} {default : α} {choices : List (Option α)}

/-- Without choices the default stays. -/
@[simp] theorem lastChosen_nil : lastChosen default [] = default := rfl

/-- A choice that is made replaces the default for the later ones. -/
@[simp] theorem lastChosen_cons (choice : Option α) :
    lastChosen default (choice :: choices) = lastChosen (choice.getD default) choices := by
  cases choice with
  | none => simp [lastChosen]
  | some a => simp [lastChosen, List.getLast?_cons]

end

namespace PeerDiscovery

/-! ## What is offered -/

/-- What the data items of an offer say; of a connection point, the address and the port that it
carries, if it carries one. An address that is dropped is not offered. -/
structure Offered where
  port : Option UInt16
  ipv4Address : Option AddressV4
  ipv4ConnPoint : Option (AddressV4 × Option UInt16)
  ipv6Address : Option AddressV6
  ipv6ConnPoint : Option (AddressV6 × Option UInt16)

namespace Offered

variable (o : Offered)

/-- The address that is offered last, or else that of the sender. -/
def address (fromAddress : IpAddress) : IpAddress :=
  lastChosen fromAddress [o.ipv4Address.map .v4, o.ipv4ConnPoint.map fun p => .v4 p.1,
    o.ipv6Address.map .v6, o.ipv6ConnPoint.map fun p => .v6 p.1]

/-- The port that the last connection point with a port carries, or else that of the Port item, or
else that of the configuration. -/
def sessionPort (configured : UInt32) : UInt32 :=
  lastChosen configured [o.port.map UInt16.toUInt32,
    (o.ipv4ConnPoint.bind Prod.snd).map UInt16.toUInt32,
    (o.ipv6ConnPoint.bind Prod.snd).map UInt16.toUInt32]

/-- The port of the last connection point, if there is one, and if it carries one. -/
def lastConnPort : Option (Option UInt16) :=
  lastChosen none [o.ipv4ConnPoint.map fun p => some p.2, o.ipv6ConnPoint.map fun p => some p.2]

end Offered

/-- A link-local address gets the scope id of the sender, if the sender has one. -/
def withScopeId (fromAddress : IpAddress) : IpAddress → IpAddress
  | .v4 address => .v4 address
  | .v6 address =>
    if address.isLinkLocal then
      match fromAddress with
      | .v6 fromIpV6 => .v6 { address with scopeId := fromIpV6.scopeId }
      | .v4 _ => .v6 address
    else .v6 address

/-- The port that a connection point carries, given its bytes: a port of zero may be there or not.
-/
def carriedPort (form : Form) (port : UInt16) : Option UInt16 :=
  if port ≠ 0 ∨ form.zeroPort then some port else none

/-- The bytes of an optional port. -/
def portBytes (port : Option UInt16) : Bytes :=
  port.elim [] fun port => BigEndian.encode 2 port.toNat

/-- The bytes of a port are those of the port that is carried. -/
theorem portBytes_carriedPort {form : Form} {port : UInt16} {bs : Bytes}
    (h : PortWritten form.zeroPort port bs) : bs = portBytes (carriedPort form port) := by
  generalize hzero : form.zeroPort = zero at h
  cases h with
  | absent => simp [carriedPort, portBytes, hzero]
  | zero => simp [carriedPort, portBytes, hzero, BigEndian.encode]
  | nonzero hne => simp [carriedPort, portBytes, hne]

/-- What a connection point carries is what stands on the wire. -/
theorem bytes_connPoint {cfg : ProtocolConfig} {id : DataItemIdType} {form : Form} {f1 : UInt8}
    {f3 : UInt16} {address : Bytes} {value : DataItemValue}
    (hwire : DataItem.Wire cfg none (.mk id value) form)
    (hvalue : (∃ f2, value = .u8Ipv4U16 f1 f2 f3 ∧ address = f2.bytes) ∨
      (∃ f2, value = .u8Ipv6U16 f1 f2 f3 ∧ address = f2.bytes)) :
    form.bytes = DataItem.framed cfg id (f1 :: (address ++ portBytes (carriedPort form f3))) := by
  cases hwire with
  | mk hinfo htype hfits hport hport' hcount hsubs hid hlength =>
    rcases hvalue with ⟨f2, rfl, rfl⟩ | ⟨f2, rfl, rfl⟩
    all_goals
      obtain rfl := List.length_eq_zero_iff.1 hcount.symm
      rw [← portBytes_carriedPort (by simpa [DataItemValue.PortIs] using hport)]
      rfl

section

variable (cfg : ProtocolConfig) (pm : ProtocolMessage) (forms : List Form)

/-- The first data item of a name, with its bytes. -/
def itemOf (name : String) : Option (DataItem × Form) :=
  match cfg.getDataItemId name none with
  | .ok id => (pm.dataItems.zip forms).find? fun item => item.1.id = id
  | .error _ => none

/-- Its value, with its bytes. -/
def valueOf {α : Type} (name : String) (get : DataItemValue → Option α) : Option (α × Form) :=
  (itemOf cfg pm forms name).bind fun item => (get item.1.value).map fun val => (val, item.2)

/-- What a message offers. -/
def offeredBy : Offered where
  port := (valueOf cfg pm forms "Port" u16?).map Prod.fst
  ipv4Address := (valueOf cfg pm forms "IPv4_Address" u8Ipv4?).bind fun item =>
    if item.1.1 ≠ 0 then some item.1.2 else none
  ipv4ConnPoint := (valueOf cfg pm forms "IPv4_Connection_Point" u8Ipv4U16?).map fun item =>
    (item.1.2.1, carriedPort item.2 item.1.2.2)
  ipv6Address := (valueOf cfg pm forms "IPv6_Address" u8Ipv6?).bind fun item =>
    if item.1.1 ≠ 0 then some item.1.2 else none
  ipv6ConnPoint := (valueOf cfg pm forms "IPv6_Connection_Point" u8Ipv6U16?).map fun item =>
    (item.1.2.1, carriedPort item.2 item.1.2.2)

/-- The data item of a name, if there is one, has the type that its getter asks for. -/
def Typed {α : Type} (name : String) (get : DataItemValue → Option α) : Prop :=
  ∀ item, itemOf cfg pm forms name = some item → (get item.1.value).isSome = true

/-- All data items that the handler looks for have the types that the getters ask for. -/
structure AllTyped : Prop where
  port : Typed cfg pm forms "Port" u16?
  ipv4Address : Typed cfg pm forms "IPv4_Address" u8Ipv4?
  ipv4ConnPoint : Typed cfg pm forms "IPv4_Connection_Point" u8Ipv4U16?
  ipv6Address : Typed cfg pm forms "IPv6_Address" u8Ipv6?
  ipv6ConnPoint : Typed cfg pm forms "IPv6_Connection_Point" u8Ipv6U16?

/-- A Peer Offer that was received from a modem and is valid, with the bytes of its data items. -/
structure Received [AddressText] (buf : Bytes) : Prop where
  valid : ∃ logPrefix pm₀, parseAndValidateBuffer cfg buf true true logPrefix pm₀ = .ok ([], pm)
  name : pm.getSignalName cfg = .ok "Peer_Offer"
  wire : Forms cfg pm.dataItems forms
  bytes : ∃ id length, buf = idBytes cfg true id ++
    (BigEndian.encode cfg.signalLengthSize length ++ bodyOf forms)

/-- On a router, the handler does not throw; and if it starts a connect, then to the address and
the port that were offered last. -/
def ConnectsAsOffered [AddressText] (sessionPort : UInt32) (fromEndpoint : Endpoint) : Prop :=
  ∀ (n : Node) (resolves : Endpoint → Bool), n.cfg = cfg → n.modem = false →
    ∃ r, handlePeerOffer n resolves sessionPort pm fromEndpoint = .ok r ∧
      ∀ endpoint, r = some endpoint →
      endpoint.address = withScopeId fromEndpoint.address
        ((offeredBy cfg pm forms).address fromEndpoint.address) ∧
      endpoint.port.toNat = ((offeredBy cfg pm forms).sessionPort sessionPort).toNat

end

/-! ## The chain of choices -/

section

variable {cfg : ProtocolConfig} {pm : ProtocolMessage} {forms : List Form} {sel : Selection}

/-- A data item is found together with its bytes. -/
theorem find?_dataItems (hforms : Forms cfg pm.dataItems forms) (p : DataItem → Bool) :
    pm.dataItems.find? p = ((pm.dataItems.zip forms).find? fun item => p item.1).map Prod.fst := by
  have hfst : (pm.dataItems.zip forms).map Prod.fst = pm.dataItems :=
    List.map_fst_zip hforms.length_eq.le
  have hfind : ((pm.dataItems.zip forms).map Prod.fst).find? p = _ := List.find?_map
  rw [hfst] at hfind
  exact hfind

/-- A `try` block ends exactly if the data item has the right type, and then it has made its
choice. -/
theorem ifPresent_eq_ok_iff {α : Type} {name : String} {get : DataItemValue → Option α}
    (hforms : Forms cfg pm.dataItems forms) {use : α → Selection} {sel' : Selection} :
    ifPresent (getDataItemValue cfg name get pm) sel use = .ok sel' ↔
      Typed cfg pm forms name get ∧
        (valueOf cfg pm forms name get).elim sel (fun item => use item.1) = sel' := by
  have hid : (∃ id, cfg.getDataItemId name none = .ok id) ∨
      cfg.getDataItemId name none = throwStd .badDataItemName (str name) := by
    simp only [ProtocolConfig.getDataItemId, ProtocolConfig.subDataItemId?, Option.bind_none]
    cases cfg.dataItemMap.right name with
    | none => exact .inr rfl
    | some id => exact .inl ⟨id, rfl⟩
  rcases hid with ⟨id, hid⟩ | hnone
  · simp only [getDataItemValue, hid, ok_bind, find?_dataItems hforms, Typed, valueOf, itemOf]
    cases (pm.dataItems.zip forms).find? fun item => item.1.id = id with
    | none => simp [ifPresent, throwStd]
    | some item =>
      simp only [Option.map_some, Option.bind_some, Option.some.injEq, forall_eq']
      cases get item.1.value with
      | none => simp [ifPresent, throwStd]
      | some val => simp [ifPresent, pure, Except.pure]
  · simp [getDataItemValue, hnone, throwStd, ifPresent, Typed, valueOf, itemOf]

/-- The port that the handler chooses: of a connection point without a port it takes a zero. -/
def Offered.takenPort (o : Offered) (configured : UInt32) : UInt32 :=
  lastChosen configured [o.port.map UInt16.toUInt32,
    o.ipv4ConnPoint.map fun p => (p.2.getD 0).toUInt32,
    o.ipv6ConnPoint.map fun p => (p.2.getD 0).toUInt32]

/-- A port that is not carried counts as zero. -/
theorem getD_carriedPort {form : Form} {port : UInt16} : (carriedPort form port).getD 0 = port := by
  unfold carriedPort
  split
  · rfl
  · next hnot => exact (not_not.1 (not_or.1 hnot).1).symm

/-- What a `try` block leaves of a selection: it may choose a port and an address. -/
def Selection.choose (sel : Selection) (port : Option UInt32) (ip : Option IpAddress)
    (isV6 : Bool) :
    Selection where
  sessionPort := port.getD sel.sessionPort
  destIp := ip.getD sel.destIp
  mayNeedScopeId := ip.isSome && isV6 || sel.mayNeedScopeId

/-- What the `try` block of an address data item leaves of a selection. -/
theorem elim_address {Address : Type} {item : Option ((UInt8 × Address) × Form)}
    {toIp : Address → IpAddress} {isV6 : Bool} :
    (item.elim sel fun item => if item.1.1 ≠ 0 then
        { sel with destIp := toIp item.1.2, mayNeedScopeId := isV6 || sel.mayNeedScopeId }
          else sel) =
      sel.choose none
        ((item.bind fun item => if item.1.1 ≠ 0 then some item.1.2 else none).map toIp) isV6 := by
  cases item with
  | none => rfl
  | some item =>
    simp only [Option.elim_some, Option.bind_some]
    split <;> rfl

/-- What the `try` block of a connection point leaves of a selection. -/
theorem elim_connPoint {Address : Type} {item : Option ((UInt8 × Address × UInt16) × Form)}
    {toIp : Address → IpAddress} {isV6 : Bool} :
    (item.elim sel fun item =>
        { sessionPort := item.1.2.2.toUInt32, destIp := toIp item.1.2.1
          mayNeedScopeId := isV6 || sel.mayNeedScopeId }) =
      sel.choose
        ((item.map fun item => (item.1.2.1, carriedPort item.2 item.1.2.2)).map fun p =>
          (p.2.getD 0).toUInt32)
        ((item.map fun item => (item.1.2.1, carriedPort item.2 item.1.2.2)).map fun p => toIp p.1)
        isV6 := by
  cases item with
  | none => rfl
  | some item => simp [Selection.choose, getD_carriedPort]

/-- The selection after all `try` blocks. -/
def Offered.selection (o : Offered) (configured : UInt32) (fromAddress : IpAddress) :
    Selection where
  sessionPort := o.takenPort configured
  destIp := o.address fromAddress
  mayNeedScopeId := o.ipv6Address.isSome || o.ipv6ConnPoint.isSome

/-- The `try` blocks one after the other make the selection that the offer calls for. -/
theorem choose_all (o : Offered) (configured : UInt32) (fromAddress : IpAddress) :
    (((({ sessionPort := o.port.elim configured UInt16.toUInt32, destIp := fromAddress } :
      Selection).choose none (o.ipv4Address.map .v4) false).choose
        (o.ipv4ConnPoint.map fun p => (p.2.getD 0).toUInt32)
        (o.ipv4ConnPoint.map fun p => .v4 p.1) false).choose
          none (o.ipv6Address.map .v6) true).choose
            (o.ipv6ConnPoint.map fun p => (p.2.getD 0).toUInt32)
            (o.ipv6ConnPoint.map fun p => .v6 p.1) true =
      o.selection configured fromAddress := by
  have hport : o.port.elim configured UInt16.toUInt32 =
      (o.port.map UInt16.toUInt32).getD configured := by
    cases o.port <;> rfl
  simp only [Selection.choose, Offered.selection, Offered.takenPort, Offered.address,
    lastChosen_cons, lastChosen_nil, Option.getD_none, Option.isSome_map, Bool.and_true,
      Bool.and_false, Bool.or_false,
    hport]
  rw [Bool.or_comm]

/-- The handler's chain of `try` blocks, as one selection. -/
theorem chain_eq (configured : UInt32) (fromAddress : IpAddress) :
    let sel₀ : Selection := { sessionPort := configured, destIp := fromAddress }
    let sel₁ := (valueOf cfg pm forms "Port" u16?).elim sel₀ fun item =>
      { sel₀ with sessionPort := item.1.toUInt32 }
    let sel₂ := (valueOf cfg pm forms "IPv4_Address" u8Ipv4?).elim sel₁ fun item =>
      if item.1.1 ≠ 0 then { sel₁ with destIp := .v4 item.1.2 } else sel₁
    let sel₃ := (valueOf cfg pm forms "IPv4_Connection_Point" u8Ipv4U16?).elim sel₂ fun item =>
      { sel₂ with sessionPort := item.1.2.2.toUInt32, destIp := .v4 item.1.2.1 }
    let sel₄ := (valueOf cfg pm forms "IPv6_Address" u8Ipv6?).elim sel₃ fun item =>
      if item.1.1 ≠ 0 then { sel₃ with destIp := .v6 item.1.2, mayNeedScopeId := true } else sel₃
    ((valueOf cfg pm forms "IPv6_Connection_Point" u8Ipv6U16?).elim sel₄ fun item =>
        { sessionPort := item.1.2.2.toUInt32, destIp := .v6 item.1.2.1, mayNeedScopeId := true }) =
      (offeredBy cfg pm forms).selection configured fromAddress := by
  intro sel₀ sel₁ sel₂ sel₃ sel₄
  have h₁ : sel₁ = { sessionPort := (offeredBy cfg pm forms).port.elim configured UInt16.toUInt32
                     destIp := fromAddress } := by
    simp only [sel₁, sel₀, offeredBy]
    cases valueOf cfg pm forms "Port" u16? <;> rfl
  have h₂ : sel₂ = _ := @elim_address sel₁ AddressV4 _ .v4 false
  have h₃ : sel₃ = _ := @elim_connPoint sel₂ AddressV4 _ .v4 false
  have h₄ : sel₄ = _ := @elim_address sel₃ AddressV6 _ .v6 true
  rw [← choose_all, ← h₁]
  calc _ = _ := @elim_connPoint sel₄ AddressV6 _ .v6 true
    _ = _ := by
      rw [h₄, h₃, h₂]
      rfl

/-- The chain ends exactly if all data items have the right types, with the last choices. -/
theorem select_eq_ok_iff (hforms : Forms cfg pm.dataItems forms) {configured : UInt32}
    {fromEndpoint : Endpoint} :
    select cfg configured fromEndpoint pm = .ok sel ↔ AllTyped cfg pm forms ∧
      (offeredBy cfg pm forms).selection configured fromEndpoint.address = sel := by
  simp only [select, getPort, getIpv4Address, getIpv4ConnPoint, getIpv6Address, getIpv6ConnPoint,
    bind_eq_ok, ifPresent_eq_ok_iff hforms]
  constructor
  · rintro ⟨_, ⟨hport, rfl⟩, _, ⟨hipv4, rfl⟩, _, ⟨hipv4Connpt, rfl⟩, _, ⟨hipv6, rfl⟩,
      hipv6Connpt, hsel⟩
    rw [← hsel]
    exact ⟨⟨hport, hipv4, hipv4Connpt, hipv6, hipv6Connpt⟩, (chain_eq _ _).symm⟩
  · rintro ⟨⟨hport, hipv4, hipv4Connpt, hipv6, hipv6Connpt⟩, rfl⟩
    exact ⟨_, ⟨hport, rfl⟩, _, ⟨hipv4, rfl⟩, _, ⟨hipv4Connpt, rfl⟩, _, ⟨hipv6, rfl⟩, hipv6Connpt,
      chain_eq _ _⟩

end

/-! ## The address and the port -/

/-- Is the address one to which the router can connect? For a link-local address it needs the
scope id of the sender. -/
def reachable (fromAddress : IpAddress) : IpAddress → Bool
  | .v4 _ => true
  | .v6 address =>
    match fromAddress with
    | .v4 _ => !address.isLinkLocal
    | .v6 _ => true

namespace Offered

variable (o : Offered)

/-- Can the router connect to the address that should be taken? -/
def reaches (fromAddress : IpAddress) : Bool := reachable fromAddress (o.address fromAddress)

/-- The last connection point, if there is one, carries a port, or the port that should be taken
is zero anyhow; and a configured port that is taken is a port. -/
def PortKept (configured : UInt32) : Prop :=
  match o.lastConnPort with
  | some (some _) => True
  | some none => o.sessionPort configured = 0
  | none => (o.sessionPort configured).toNat < 2 ^ 16

variable {o}

/-- Where an IPv6 address is offered, it is taken: it comes last. -/
theorem address_of_v6 {fromAddress : IpAddress}
    (h : (o.ipv6Address.isSome || o.ipv6ConnPoint.isSome) = true) :
    ∃ address, o.address fromAddress = .v6 address := by
  cases hconn : o.ipv6ConnPoint with
  | some p => exact ⟨p.1, by simp [address, hconn]⟩
  | none =>
    obtain ⟨a, ha⟩ := Option.isSome_iff_exists.1 (by simpa [hconn] using h)
    exact ⟨a, by simp [address, hconn, ha]⟩

/-- Where none is offered, the address is an IPv4 address or that of the sender. -/
theorem address_of_not_v6 {fromAddress : IpAddress}
    (h : (o.ipv6Address.isSome || o.ipv6ConnPoint.isSome) = false) :
    (∃ address, o.address fromAddress = .v4 address) ∨ o.address fromAddress = fromAddress := by
  obtain ⟨haddr, hconn⟩ := Bool.or_eq_false_iff.1 h
  rw [Option.isSome_eq_false_iff, Option.isNone_iff_eq_none] at haddr hconn
  cases h₄ : o.ipv4ConnPoint with
  | some p => exact .inl ⟨p.1, by simp [address, haddr, hconn, h₄]⟩
  | none =>
    cases h₄' : o.ipv4Address with
    | some a => exact .inl ⟨a, by simp [address, haddr, hconn, h₄, h₄']⟩
    | none => exact .inr (by simp [address, haddr, hconn, h₄, h₄'])

/-- The address of the sender can be connected to. -/
theorem reaches_of_eq {fromAddress : IpAddress} (h : o.address fromAddress = fromAddress) :
    o.reaches fromAddress = true := by
  unfold reaches
  rw [h]
  cases fromAddress <;> rfl

/-- The port that is taken is the one that should be exactly if the port is kept. -/
theorem takenPort_eq_iff (configured : UInt32) :
    (o.takenPort configured).toUInt16.toNat = (o.sessionPort configured).toNat ↔
      o.PortKept configured := by
  have hzero : ∀ x : UInt32, (0 : UInt16).toUInt32.toUInt16.toNat = x.toNat ↔ x = 0 := by
    intro x
    rw [← UInt32.toNat_inj]
    exact eq_comm
  have hmod : ∀ x : UInt32, x.toUInt16.toNat = x.toNat ↔ x.toNat < 2 ^ 16 := by
    intro x
    rw [UInt32.toNat_toUInt16]
    omega
  cases h₆ : o.ipv6ConnPoint with
  | some p =>
    obtain ⟨a, port⟩ := p
    cases port with
    | some port => simp [takenPort, sessionPort, PortKept, lastConnPort, h₆]
    | none =>
      simp only [takenPort, PortKept, lastConnPort, h₆, lastChosen_cons, lastChosen_nil,
        Option.map_some, Option.getD_some, Option.getD_none]
      exact hzero _
  | none =>
    cases h₄ : o.ipv4ConnPoint with
    | some p =>
      obtain ⟨a, port⟩ := p
      cases port with
      | some port => simp [takenPort, sessionPort, PortKept, lastConnPort, h₆, h₄]
      | none =>
        simp only [takenPort, PortKept, lastConnPort, h₆, h₄, lastChosen_cons, lastChosen_nil,
          Option.map_some, Option.map_none, Option.getD_some, Option.getD_none]
        exact hzero _
    | none =>
      have hsame : o.takenPort configured = o.sessionPort configured := by
        simp [takenPort, sessionPort, h₆, h₄]
      rw [hsame, hmod]
      simp [PortKept, lastConnPort, h₆, h₄]

end Offered

/-- The address of the sender has the scope id that it has. -/
theorem withScopeId_self (fromAddress : IpAddress) :
    withScopeId fromAddress fromAddress = fromAddress := by
  cases fromAddress with
  | v4 address => rfl
  | v6 address =>
    simp only [withScopeId]
    split <;> rfl

/-- The handler adds the scope id where one is needed, and gives up where there is none to add. -/
theorem addScopeId_selection {o : Offered} {configured : UInt32} {fromEndpoint : Endpoint} :
    addScopeId fromEndpoint (o.selection configured fromEndpoint.address) =
      .ok (if o.reaches fromEndpoint.address then
        some (withScopeId fromEndpoint.address (o.address fromEndpoint.address)) else none) := by
  simp only [addScopeId, Offered.selection]
  rcases Bool.eq_false_or_eq_true (o.ipv6Address.isSome || o.ipv6ConnPoint.isSome) with hmay | hmay
  · obtain ⟨a, ha⟩ := @Offered.address_of_v6 o fromEndpoint.address hmay
    simp only [hmay, if_true, ha, IpAddress.toV6, ok_bind, Offered.reaches, withScopeId]
    cases hlocal : a.isLinkLocal <;> cases fromEndpoint.address <;>
      simp [reachable, hlocal, pure, Except.pure]
  · have hreaches : o.reaches fromEndpoint.address = true ∧
        withScopeId fromEndpoint.address (o.address fromEndpoint.address) =
          o.address fromEndpoint.address := by
      rcases @Offered.address_of_not_v6 o fromEndpoint.address hmay with ⟨a, ha⟩ | hfrom
      · simp [Offered.reaches, reachable, ha, withScopeId]
      · rw [hfrom, withScopeId_self]
        exact ⟨Offered.reaches_of_eq hfrom, rfl⟩
    simp [hmay, hreaches.1, hreaches.2, pure, Except.pure]

/-! ## The handler -/

section

variable [AddressText] {cfg : ProtocolConfig} {pm : ProtocolMessage}
    {forms : List Form} {buf : Bytes}
  {n : Node} {resolves : Endpoint → Bool} {configured : UInt32} {fromEndpoint : Endpoint}

/-- A valid offer comes with the bytes of its data items. -/
theorem exists_received {logPrefix : Bytes} {pm₀ : ProtocolMessage}
    (h : parseAndValidateBuffer cfg buf true true logPrefix pm₀ = .ok ([], pm))
    (hname : pm.getSignalName cfg = .ok "Peer_Offer") : ∃ forms, Received cfg pm forms buf := by
  have haccepts : Accepts cfg true buf logPrefix pm₀ pm := (parseAndValidate_eq_nil_iff.1 h).1
  obtain ⟨length, body, ⟨id, forms, -, -, -, hforms, rfl, hbuf⟩, -⟩ :=
    accepts_iff.1 ⟨pm, haccepts, rfl⟩
  exact ⟨forms, ⟨logPrefix, pm₀, h⟩, hname, hforms, id, length, hbuf⟩

omit [AddressText] in
/-- The endpoint that the handler chooses. -/
def Offered.endpoint (o : Offered) (configured : UInt32) (fromAddress : IpAddress) : Endpoint where
  address := withScopeId fromAddress (o.address fromAddress)
  port := (o.takenPort configured).toUInt16

/-- The name of the peer that the handler looks for. -/
def Offered.peerId (o : Offered) (configured : UInt32) (fromAddress : IpAddress) : PeerId :=
  peerIdOf (withScopeId fromAddress (o.address fromAddress)) (o.takenPort configured)

/-- What the handler of a router does with an offer whose data items have the right types. -/
theorem handlePeerOffer_eq (hforms : Forms n.cfg pm.dataItems forms) (hrouter : n.modem = false)
    (htyped : AllTyped n.cfg pm forms) :
    handlePeerOffer n resolves configured pm fromEndpoint =
      .ok (if (offeredBy n.cfg pm forms).reaches fromEndpoint.address = true ∧
          (n.peerState ((offeredBy n.cfg pm forms).peerId configured fromEndpoint.address)).isSome =
            false ∧
          resolves ((offeredBy n.cfg pm forms).endpoint configured fromEndpoint.address) = true then
        some ((offeredBy n.cfg pm forms).endpoint configured fromEndpoint.address) else none) := by
  have hselect := (@select_eq_ok_iff _ _ _ _ hforms configured fromEndpoint).2 ⟨htyped, rfl⟩
  simp only [handlePeerOffer, hrouter, Bool.false_eq_true, if_false, hselect, ok_bind,
    addScopeId_selection]
  cases hreaches : (offeredBy n.cfg pm forms).reaches fromEndpoint.address with
  | false => simp [pure, Except.pure]
  | true =>
    simp only [if_true, true_and, Offered.selection]
    cases hstate : (n.peerState
        ((offeredBy n.cfg pm forms).peerId configured fromEndpoint.address)).isSome with
    | true =>
      rw [Offered.peerId] at hstate
      simp [hstate, pure, Except.pure]
    | false =>
      rw [Offered.peerId] at hstate
      cases hresolves : resolves
          ((offeredBy n.cfg pm forms).endpoint configured fromEndpoint.address) <;>
        (rw [Offered.endpoint] at hresolves; simp [hstate, hresolves, pure, Except.pure,
          Offered.endpoint])

/-- A connect that the handler starts is one that the router has under way. -/
theorem handlePeerOffer_router {r : Router} {endpoint : Endpoint} (hrouter : r.node.modem = false)
    (hforms : Forms r.node.cfg pm.dataItems forms)
    (h : handlePeerOffer r.node resolves configured pm fromEndpoint = .ok (some endpoint)) :
    r.handlePeerOffer ((offeredBy r.node.cfg pm forms).peerId configured fromEndpoint.address) =
      { r with connecting := r.connecting ++
        [(offeredBy r.node.cfg pm forms).peerId configured fromEndpoint.address] } := by
  have htyped : AllTyped r.node.cfg pm forms := by
    simp only [handlePeerOffer, hrouter, Bool.false_eq_true, if_false, bind_eq_ok] at h
    obtain ⟨sel, hsel, -⟩ := h
    exact ((select_eq_ok_iff hforms).1 hsel).1
  rw [handlePeerOffer_eq hforms hrouter htyped] at h
  split at h
  · next hall => simp [Router.handlePeerOffer, hrouter, hall.2.1]
  · cases h

omit [AddressText] in
/-- A router without peers. -/
def bareRouter (cfg : ProtocolConfig) : Node where
  cfg := cfg
  modem := false
  destAdvertEnabled := false
  localPdp := { peerId := str "local_pdp" }

/-- A router connects as offered exactly if the data items have the right types and, unless it
cannot connect to the address at all, the last connection point carries a port. -/
theorem connectsAsOffered_iff (h : Received cfg pm forms buf) :
    ConnectsAsOffered cfg pm forms configured fromEndpoint ↔ AllTyped cfg pm forms ∧
      ((offeredBy cfg pm forms).reaches fromEndpoint.address = true →
        (offeredBy cfg pm forms).PortKept configured) := by
  constructor
  · intro hconnects
    obtain ⟨r, hr, hright⟩ := hconnects (bareRouter cfg) (fun _ => true) rfl rfl
    have htyped : AllTyped cfg pm forms := by
      simp only [handlePeerOffer, bareRouter, Bool.false_eq_true, if_false, bind_eq_ok] at hr
      obtain ⟨sel, hsel, -⟩ := hr
      exact ((select_eq_ok_iff h.wire).1 hsel).1
    refine ⟨htyped, fun hreaches => ?_⟩
    have heq : handlePeerOffer (bareRouter cfg) (fun _ => true) configured pm fromEndpoint =
      .ok (some
        ((offeredBy cfg pm forms).endpoint configured fromEndpoint.address)) := by
      rw [@handlePeerOffer_eq _ pm forms (bareRouter cfg) _ _ _ h.wire rfl htyped]
      exact congrArg Except.ok (if_pos ⟨hreaches, rfl, rfl⟩)
    obtain rfl := Except.ok.inj (hr.symm.trans heq)
    exact (Offered.takenPort_eq_iff configured).1 (hright _ rfl).2
  · rintro ⟨htyped, hport⟩ n resolves rfl hrouter
    refine ⟨_, handlePeerOffer_eq h.wire hrouter htyped, fun endpoint hendpoint => ?_⟩
    split at hendpoint
    · next hall =>
      obtain rfl := Option.some.inj hendpoint
      exact ⟨rfl, (Offered.takenPort_eq_iff configured).2 (hport hall.1)⟩
    · cases hendpoint

end

/-! ## An offer with a connection point -/

attribute [local instance] plainText

/-- The sample address has four bytes. -/
theorem modemAddress_length : [(10 : UInt8), 0, 0, 1].length = 4 := rfl

/-- The address of the modem. -/
def modemAddress : AddressV4 := ⟨[10, 0, 0, 1], modemAddress_length⟩

/-- The bytes of a connection point with the address of the modem. -/
def connPointForm (port : Bytes) : Form where
  bytes := DataItem.framed rfc8175 2 (1 :: (modemAddress.bytes ++ port))
  trimmed := DataItem.framed rfc8175 2 (1 :: (modemAddress.bytes ++ port))
  zeroPort := false

/-- A Peer Offer with this connection point. -/
def offerWith (port : Bytes) : Bytes := frame rfc8175 true 2 (connPointForm port).bytes

/-- Is the connection point with this port all that the message holds? -/
def holdsConnPoint (f3 : UInt16) (pm : ProtocolMessage) : Bool :=
  match pm.dataItems with
  | [.mk id (.u8Ipv4U16 f1 f2 f3')] => id = 2 && f1 = 1 && f2 = modemAddress && f3' = f3
  | _ => false

/-- That a message holds the sample connection point can be computed. -/
theorem holdsConnPoint_iff {f3 : UInt16} {pm : ProtocolMessage} (h : holdsConnPoint f3 pm = true) :
    pm.dataItems = [.mk 2 (.u8Ipv4U16 1 modemAddress f3)] := by
  unfold holdsConnPoint at h
  split at h
  · next hitems => simp_all
  · cases h

/-- Is a buffer a valid Peer Offer with this connection point? -/
def isOfferOf (f3 : UInt16) (buf : Bytes) : Bool :=
  match parseAndValidateBuffer rfc8175 buf true true [] {} with
  | .ok ([], pm) => holdsConnPoint f3 pm && (match pm.getSignalName rfc8175 with
    | .ok name => name = "Peer_Offer"
    | .error _ => false)
  | _ => false

/-- The sample connection point on the wire. -/
theorem wire_connPointForm {f3 : UInt16} {port : Bytes} (hport : PortWritten false f3 port) :
    DataItem.Wire rfc8175 none (.mk 2 (.u8Ipv4U16 1 modemAddress f3)) (connPointForm port) := by
  have hlength : port.length ≤ 2 := by
    cases hport with
    | absent => exact Nat.zero_le _
    | nonzero hne => rw [BigEndian.length_encode]
  refine @DataItem.Wire.mk rfc8175 none 2 (.u8Ipv4U16 1 modemAddress f3) _ false
    port port [] rfl rfl
    trivial hport hport rfl (fun i sdi form hsdi => by simp [DataItemValue.subItems] at hsdi)
      (by decide) ?_
  show (1 :: (modemAddress.bytes ++ port)).length < 256 ^ rfc8175.dataItemLengthSize.1
  rw [List.length_cons, List.length_append, modemAddress.length_eq]
  exact lt_of_le_of_lt (by omega : 4 + port.length + 1 ≤ 7) (by decide)

/-- That the sample offer is valid can be computed. -/
theorem exists_received_of_isOfferOf {f3 : UInt16} {port : Bytes}
    (hport : PortWritten false f3 port) (h : isOfferOf f3 (offerWith port) = true) :
    ∃ pm, pm.dataItems = [.mk 2 (.u8Ipv4U16 1 modemAddress f3)] ∧
      Received rfc8175 pm [connPointForm port] (offerWith port) := by
  unfold isOfferOf at h
  split at h
  · next pm hparse =>
    obtain ⟨hitems, hname⟩ := Bool.and_eq_true_iff.1 h
    have hitems := holdsConnPoint_iff hitems
    split at hname
    · next name hsig =>
      refine ⟨pm, hitems, ⟨⟨_, _, hparse⟩, ?_, ?_, 2, (connPointForm port).bytes.length, ?_⟩⟩
      · rw [hsig, of_decide_eq_true hname]
      · rw [hitems]
        exact .cons (wire_connPointForm hport) .nil
      · simp [offerWith, frame, bodyOf]
    · cases hname
  · cases h

/-- What the sample offer offers. -/
theorem offeredBy_connPoint {pm : ProtocolMessage} {f3 : UInt16} {form : Form}
    (hitems : pm.dataItems = [.mk 2 (.u8Ipv4U16 1 modemAddress f3)]) :
    AllTyped rfc8175 pm [form] ∧ offeredBy rfc8175 pm [form] =
      { port := none
        ipv4Address := none
        ipv4ConnPoint := some (modemAddress, carriedPort form f3)
        ipv6Address := none
        ipv6ConnPoint := none } := by
  have hport : itemOf rfc8175 pm [form] "Port" = none := rfl
  have hother : ∀ {name id}, rfc8175.getDataItemId name none = .ok id → id ≠ 2 →
      itemOf rfc8175 pm [form] name = none := by
    intro name id hid hne
    simp [itemOf, hid, hitems, DataItem.id, Ne.symm hne]
  have hconn : itemOf rfc8175 pm [form] "IPv4_Connection_Point" =
      some (.mk 2 (.u8Ipv4U16 1 modemAddress f3), form) := by
    have hid : rfc8175.getDataItemId "IPv4_Connection_Point" none = .ok 2 := rfl
    simp [itemOf, hid, hitems, DataItem.id]
  have hipv4 := @hother "IPv4_Address" 8 rfl (by decide)
  have hipv6 := @hother "IPv6_Address" 9 rfl (by decide)
  have hconn6 := @hother "IPv6_Connection_Point" 3 rfl (by decide)
  refine ⟨⟨?_, ?_, ?_, ?_, ?_⟩, ?_⟩
  · simp [Typed, hport]
  · simp [Typed, hipv4]
  · simp [Typed, hconn, u8Ipv4U16?, DataItem.value]
  · simp [Typed, hipv6]
  · simp [Typed, hconn6]
  · simp [offeredBy, valueOf, hport, hipv4, hconn, hipv6, hconn6, u8Ipv4U16?, DataItem.value]

/-- The port of the connection point is the one that the router takes. -/
theorem connectsAsOffered_iff_port :
    ∃ pm, Received rfc8175 pm [connPointForm [19, 136]] (offerWith [19, 136]) ∧
      ConnectsAsOffered rfc8175 pm [connPointForm [19, 136]] 854 ⟨.v4 modemAddress, 854⟩ := by
  obtain ⟨pm, hitems, hreceived⟩ :=
    @exists_received_of_isOfferOf 5000 [19, 136] (.nonzero (by decide)) (by decide +kernel)
  obtain ⟨htyped, hoffered⟩ := @offeredBy_connPoint pm _ (connPointForm [19, 136]) hitems
  exact ⟨pm, hreceived, (connectsAsOffered_iff hreceived).2 ⟨htyped, fun _ => by
    rw [hoffered]
    exact True.intro⟩⟩

/-- Of a connection point without a port the router takes the port zero, and not that of the
configuration. -/
theorem not_connectsAsOffered_noPort :
    ∃ pm, Received rfc8175 pm [connPointForm []] (offerWith []) ∧
      ¬ ConnectsAsOffered rfc8175 pm [connPointForm []] 854 ⟨.v4 modemAddress, 854⟩ := by
  obtain ⟨pm, hitems, hreceived⟩ := @exists_received_of_isOfferOf 0 [] .absent (by decide +kernel)
  obtain ⟨htyped, hoffered⟩ := @offeredBy_connPoint pm _ (connPointForm []) hitems
  refine ⟨pm, hreceived, fun hconnects => ?_⟩
  obtain ⟨r, hr, hright⟩ := hconnects (bareRouter rfc8175) (fun _ => true) rfl rfl
  rw [@handlePeerOffer_eq _ pm [connPointForm []] (bareRouter rfc8175) _ _ _ hreceived.wire
    rfl htyped] at hr
  have hreaches : (offeredBy rfc8175 pm [connPointForm []]).reaches (.v4 modemAddress) = true := by
    rw [hoffered]
    rfl
  obtain rfl := Except.ok.inj (hr.symm.trans (congrArg Except.ok (if_pos ⟨hreaches, rfl, rfl⟩)))
  have hport := (hright _ rfl).2
  rw [show (bareRouter rfc8175).cfg = rfc8175 from rfl, hoffered] at hport
  exact absurd hport (by decide)

end PeerDiscovery

end Dlep
