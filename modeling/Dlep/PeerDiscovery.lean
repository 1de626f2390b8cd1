import Dlep.Node.Offers

/-!
# Peer discovery

A router that receives a Peer Offer chooses the address and the port of the modem from the offer,
from where the offer came, and from its own configuration, and connects to the modem. The
reception of the offer and the connecting itself are outside.
-/

namespace Dlep

namespace ProtocolMessage

/-! ## The data items of an offer -/

/-- The alternatives of the variant that the getters of an offer ask for. -/
def u8Ipv4? : DataItemValue → Option (UInt8 × AddressV4)
  | .u8Ipv4 f1 f2 => some (f1, f2)
  | _ => none

def u8Ipv6? : DataItemValue → Option (UInt8 × AddressV6)
  | .u8Ipv6 f1 f2 => some (f1, f2)
  | _ => none

def u8Ipv4U16? : DataItemValue → Option (UInt8 × AddressV4 × UInt16)
  | .u8Ipv4U16 f1 f2 f3 => some (f1, f2, f3)
  | _ => none

def u8Ipv6U16? : DataItemValue → Option (UInt8 × AddressV6 × UInt16)
  | .u8Ipv6U16 f1 f2 f3 => some (f1, f2, f3)
  | _ => none

section

variable (cfg : ProtocolConfig) (pm : ProtocolMessage)

/-- Source: `ProtocolMessage::get_port` (`ProtocolMessage.cpp:924`). -/
def getPort : Except Exn UInt16 := getDataItemValue cfg "Port" u16? pm

/-- Source: `ProtocolMessage::get_ipv4_address` (`ProtocolMessage.cpp:931`). -/
def getIpv4Address : Except Exn (UInt8 × AddressV4) :=
  getDataItemValue cfg "IPv4_Address" u8Ipv4? pm

/-- Source: `ProtocolMessage::get_ipv6_address` (`ProtocolMessage.cpp:938`). -/
def getIpv6Address : Except Exn (UInt8 × AddressV6) :=
  getDataItemValue cfg "IPv6_Address" u8Ipv6? pm

/-- Source: `ProtocolMessage::get_ipv4_conn_point` (`ProtocolMessage.cpp:945`). -/
def getIpv4ConnPoint : Except Exn (UInt8 × AddressV4 × UInt16) :=
  getDataItemValue cfg "IPv4_Connection_Point" u8Ipv4U16? pm

/-- Source: `ProtocolMessage::get_ipv6_conn_point` (`ProtocolMessage.cpp:952`). -/
def getIpv6ConnPoint : Except Exn (UInt8 × AddressV6 × UInt16) :=
  getDataItemValue cfg "IPv6_Connection_Point" u8Ipv6U16? pm

end

end ProtocolMessage

/-! ## Addresses -/

/-- `boost::asio::ip::address`. -/
inductive IpAddress where
  | v4 (address : AddressV4)
  | v6 (address : AddressV6)
  deriving DecidableEq

/-- `boost::asio::ip::address::to_string`. -/
def IpAddress.toString [AddressText] : IpAddress → Bytes
  | .v4 address => AddressText.v4ToString address
  | .v6 address => AddressText.v6ToString address

/-- `boost::asio::ip::address::to_v6`, which throws a `std::bad_cast` for an IPv4 address. -/
def IpAddress.toV6 : IpAddress → Except Exn AddressV6
  | .v4 _ => .error (.undefined "to_v6 of an IPv4 address")
  | .v6 address => .ok address

/-- `boost::asio::ip::address_v6::is_link_local`: the prefix is `fe80::/10`. -/
def AddressV6.isLinkLocal (address : AddressV6) : Bool :=
  match address.bytes with
  | b₀ :: b₁ :: _ => b₀ = 0xfe && b₁ &&& 0xc0 = 0x80
  | _ => false

/-- `boost::asio::ip::udp::endpoint`. -/
structure Endpoint where
  address : IpAddress
  port : UInt16
  deriving DecidableEq

namespace PeerDiscovery

/-! ## The handler -/

/-- What the handler has chosen so far. The port of the configuration is an `unsigned int`. -/
structure Selection where
  sessionPort : UInt32
  destIp : IpAddress
  mayNeedScopeId : Bool := false

/-- A `try` block about a data item, which catches that the data item is not in the message and
that the configuration does not have it. -/
def ifPresent {α : Type} (x : Except Exn α) (sel : Selection) (use : α → Selection) :
    Except Exn Selection :=
  match x with
  | .ok a => .ok (use a)
  | .error (.std .dataItemNotPresent _) => .ok sel
  | .error (.std .badDataItemName _) => .ok sel
  | .error e => .error e

/-- Source: the chain of `try` blocks in `PeerDiscovery::handle_peer_offer`
(`PeerDiscovery.cpp:294`). -/
def select (cfg : ProtocolConfig) (sessionPort : UInt32) (fromEndpoint : Endpoint)
    (pm : ProtocolMessage) :
    Except Exn Selection := do
  let sel : Selection := { sessionPort, destIp := fromEndpoint.address }
  let sel ← ifPresent (pm.getPort cfg) sel fun port => { sel with sessionPort := port.toUInt32 }
  let sel ← ifPresent (pm.getIpv4Address cfg) sel fun u8ipv4 =>
    if u8ipv4.1 ≠ 0 then { sel with destIp := .v4 u8ipv4.2 } else sel
  let sel ← ifPresent (pm.getIpv4ConnPoint cfg) sel fun ipv4Connpt =>
    { sel with sessionPort := ipv4Connpt.2.2.toUInt32, destIp := .v4 ipv4Connpt.2.1 }
  let sel ← ifPresent (pm.getIpv6Address cfg) sel fun u8ipv6 =>
    if u8ipv6.1 ≠ 0 then { sel with destIp := .v6 u8ipv6.2, mayNeedScopeId := true } else sel
  ifPresent (pm.getIpv6ConnPoint cfg) sel fun ipv6Connpt =>
    { sessionPort := ipv6Connpt.2.2.toUInt32, destIp := .v6 ipv6Connpt.2.1, mayNeedScopeId := true }

/-- The scope id of a link-local address is that of the sender; without one the handler gives up
(`PeerDiscovery.cpp:407`). -/
def addScopeId (fromEndpoint : Endpoint) (sel : Selection) : Except Exn (Option IpAddress) :=
  if sel.mayNeedScopeId then do
    let destIpV6 ← sel.destIp.toV6
    if destIpV6.isLinkLocal then
      match fromEndpoint.address with
      | .v6 fromIpV6 => return some (.v6 { destIpV6 with scopeId := fromIpV6.scopeId })
      | .v4 _ => return none
    else return some sel.destIp
  else return some sel.destIp

section

variable [AddressText]

/-- The name of the peer with an address and a port (`PeerDiscovery.cpp:440`). -/
def peerIdOf (destIp : IpAddress) (sessionPort : UInt32) : PeerId :=
  destIp.toString ++ str ":" ++ decimal sessionPort.toNat

/-- The endpoint to which a connect is started, if one is. The resolver throws for some endpoints,
which is caught; the port of an endpoint is a `std::uint16_t`. Source:
`PeerDiscovery::handle_peer_offer` (`PeerDiscovery.cpp:266`), with `Dlep::start_async_connect`
(`Dlep.cpp:371`). -/
def handlePeerOffer (n : Node) (resolves : Endpoint → Bool) (sessionPort : UInt32)
    (pm : ProtocolMessage) (fromEndpoint : Endpoint) : Except Exn (Option Endpoint) := do
  if n.modem then return none
  else
    let sel ← select n.cfg sessionPort fromEndpoint pm
    match ← addScopeId fromEndpoint sel with
    | none => return none
    | some destIp =>
      if (n.peerState (peerIdOf destIp sel.sessionPort)).isSome then return none
      else
        let endpoint : Endpoint := { address := destIp, port := sel.sessionPort.toUInt16 }
        return if resolves endpoint then some endpoint else none

end

end PeerDiscovery

end Dlep
