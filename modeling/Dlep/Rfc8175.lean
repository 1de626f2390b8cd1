import Dlep.ProtocolConfig

/-!
# The RFC 8175 configuration

The configuration the library ships: `config/protocol/dlep-rfc-8175.xml` and the two extension
modules it includes, `latency-range-03.xml` and `multi-hop-06.xml`, whose references are appended to
those of the core messages.
-/

namespace Dlep

namespace Rfc8175

/-- A data item that is not a metric and has no units. -/
def item (name : String) (id : DataItemIdType) (valueType : DataItemValueType) : DataItemInfo :=
  { name, id, valueType, flags := 0, units := .none, subDataItems := [] }

def metric (name : String) (id : DataItemIdType) (valueType : DataItemValueType) (units : Units) :
    DataItemInfo :=
  { name, id, valueType, flags := DataItemInfo.metricFlag, units, subDataItems := [] }

def dataItems : List DataItemInfo := [
  item "Status" 1 .u8String,
  item "IPv4_Connection_Point" 2 .u8Ipv4U16,
  item "IPv6_Connection_Point" 3 .u8Ipv6U16,
  item "Peer_Type" 4 .u8String,
  { item "Heartbeat_Interval" 5 .u32 with units := .milliseconds },
  item "Extensions_Supported" 6 .vExtid,
  item "MAC_Address" 7 .dlepmac,
  item "IPv4_Address" 8 .u8Ipv4,
  item "IPv6_Address" 9 .u8Ipv6,
  item "IPv4_Attached_Subnet" 10 .u8Ipv4U8,
  item "IPv6_Attached_Subnet" 11 .u8Ipv6U8,
  metric "Maximum_Data_Rate_Receive" 12 .u64 .bitsPerSecond,
  metric "Maximum_Data_Rate_Transmit" 13 .u64 .bitsPerSecond,
  metric "Current_Data_Rate_Receive" 14 .u64 .bitsPerSecond,
  metric "Current_Data_Rate_Transmit" 15 .u64 .bitsPerSecond,
  metric "Latency" 16 .u64 .microseconds,
  metric "Resources" 17 .u8 .percentage,
  metric "Relative_Link_Quality_Receive" 18 .u8 .percentage,
  metric "Relative_Link_Quality_Transmit" 19 .u8 .percentage,
  metric "Maximum_Transmission_Unit" 20 .u16 .octets,
  metric "Latency_Range" 65411 .u64U64 .microseconds,
  metric "Hop_Count" 65415 .u8U8 .count,
  item "Hop_Control" 65416 .u16]

def statusRef : SubDataItem := ⟨"Status", 1, .one⟩
def macRef : SubDataItem := ⟨"MAC_Address", 7, .one⟩
def peerTypeRef (occurs : Occurs) : SubDataItem := ⟨"Peer_Type", 4, occurs⟩
def heartbeatRef : SubDataItem := ⟨"Heartbeat_Interval", 5, .one⟩
def extensionsRef : SubDataItem := ⟨"Extensions_Supported", 6, .zeroOrOne⟩
def latencyRangeRef : SubDataItem := ⟨"Latency_Range", 65411, .zeroOrOne⟩
def hopCountRef : SubDataItem := ⟨"Hop_Count", 65415, .zeroOrOne⟩
def hopControlRef : SubDataItem := ⟨"Hop_Control", 65416, .zeroOrOne⟩

def connectionPointRefs : List SubDataItem := [
  ⟨"IPv4_Connection_Point", 2, .zeroOrMore⟩, ⟨"IPv6_Connection_Point", 3, .zeroOrMore⟩]

def addressRefs : List SubDataItem := [
  ⟨"IPv4_Address", 8, .zeroOrMore⟩, ⟨"IPv6_Address", 9, .zeroOrMore⟩]

def ipRefs : List SubDataItem := addressRefs ++ [
  ⟨"IPv4_Attached_Subnet", 10, .zeroOrMore⟩, ⟨"IPv6_Attached_Subnet", 11, .zeroOrMore⟩]

/-- The data rates and the latency, which the modem declares at the start of a session. -/
def rateRefs (occurs : Occurs) : List SubDataItem := [
  ⟨"Maximum_Data_Rate_Receive", 12, occurs⟩,
  ⟨"Maximum_Data_Rate_Transmit", 13, occurs⟩,
  ⟨"Current_Data_Rate_Receive", 14, occurs⟩,
  ⟨"Current_Data_Rate_Transmit", 15, occurs⟩,
  ⟨"Latency", 16, occurs⟩]

def linkRefs : List SubDataItem := [
  ⟨"Resources", 17, .zeroOrOne⟩,
  ⟨"Relative_Link_Quality_Receive", 18, .zeroOrOne⟩,
  ⟨"Relative_Link_Quality_Transmit", 19, .zeroOrOne⟩,
  ⟨"Maximum_Transmission_Unit", 20, .zeroOrOne⟩]

def metricRefs : List SubDataItem := rateRefs .zeroOrOne ++ linkRefs

inductive Sender where
  | modem
  | router
  | both

def Sender.flags : Sender → UInt32
  | .modem => SignalInfo.modemSendsFlag
  | .router => SignalInfo.routerSendsFlag
  | .both => SignalInfo.modemSendsFlag ||| SignalInfo.routerSendsFlag

def signals : List SignalInfo := [
  ⟨"Peer_Discovery", 1, Sender.router.flags, [peerTypeRef .zeroOrOne], 0⟩,
  ⟨"Peer_Offer", 2, Sender.modem.flags, peerTypeRef .zeroOrOne :: connectionPointRefs, 0⟩]

/-- A message; `responseId` is 0 where it has no response. -/
def message (name : String) (id : SignalIdType) (sender : Sender) (responseId : SignalIdType)
    (dataItems : List SubDataItem) : SignalInfo :=
  { name, id, flags := SignalInfo.messageFlag ||| sender.flags, dataItems, responseId }

def messages : List SignalInfo := [
  message "Session_Initialization" 1 .router 2
    ([heartbeatRef, peerTypeRef .one, extensionsRef] ++ ipRefs),
  message "Session_Initialization_Response" 2 .modem 0
    ([statusRef, peerTypeRef .one, heartbeatRef] ++ rateRefs .one ++ linkRefs ++
      [extensionsRef] ++ ipRefs ++ [latencyRangeRef]),
  message "Session_Update" 3 .both 4 (ipRefs ++ metricRefs ++ [latencyRangeRef, hopControlRef]),
  message "Session_Update_Response" 4 .both 0 [statusRef],
  message "Session_Termination" 5 .both 6 [statusRef],
  message "Session_Termination_Response" 6 .both 0 [],
  message "Destination_Up" 7 .modem 8
    ([macRef] ++ metricRefs ++ ipRefs ++ [latencyRangeRef, hopCountRef]),
  message "Destination_Up_Response" 8 .router 0 [macRef, statusRef],
  message "Destination_Announce" 9 .router 10 (macRef :: addressRefs),
  message "Destination_Announce_Response" 10 .modem 0
    ([macRef] ++ metricRefs ++ ipRefs ++ [statusRef, latencyRangeRef, hopCountRef]),
  message "Destination_Down" 11 .both 12 [macRef],
  message "Destination_Down_Response" 12 .both 0 [macRef, statusRef],
  message "Destination_Update" 13 .modem 0
    ([macRef] ++ metricRefs ++ ipRefs ++ [latencyRangeRef, hopCountRef]),
  message "Link_Characteristics_Request" 14 .router 15 [macRef,
    ⟨"Current_Data_Rate_Receive", 14, .zeroOrOne⟩, ⟨"Current_Data_Rate_Transmit", 15, .zeroOrOne⟩,
    ⟨"Latency", 16, .zeroOrOne⟩, latencyRangeRef, hopControlRef],
  message "Link_Characteristics_Response" 15 .modem 0
    ([macRef] ++ metricRefs ++ [statusRef, latencyRangeRef, hopCountRef]),
  message "Heartbeat" 16 .both 0 []]

def statusCodes : List StatusCodeInfo := [
  ⟨"Success", 0, .continue⟩,
  ⟨"Not_Interested", 1, .continue⟩,
  ⟨"Request_Denied", 2, .continue⟩,
  ⟨"Inconsistent_Data", 3, .continue⟩,
  ⟨"Unknown_Message", 128, .terminate⟩,
  ⟨"Unexpected_Message", 129, .terminate⟩,
  ⟨"Invalid_Data", 130, .terminate⟩,
  ⟨"Invalid_Destination", 131, .terminate⟩,
  ⟨"Timed_Out", 132, .terminate⟩]

def modules : List ModuleInfo := [
  ⟨"core", "", 0⟩, ⟨"Latency Range", "", 65521⟩, ⟨"Multi-Hop", "", 65524⟩]

end Rfc8175

open Rfc8175 in
/-- Source: `config/protocol/dlep-rfc-8175.xml`. -/
def rfc8175 : ProtocolConfig :=
  .ofDefinitions ⟨2, FieldSize.two_fits⟩ ⟨2, FieldSize.two_fits⟩
    { signals, messages, dataItems, statusCodes, modules } (by decide)

/-- The configuration of RFC 8175 lists no data item twice in one place. -/
theorem rfc8175_distinctReferences : rfc8175.DistinctReferences :=
  ProtocolConfig.ofDefinitions_distinctReferences (by decide) (by decide)

/-- In the configuration of RFC 8175 no signal has the name of a message. -/
theorem rfc8175_namesDisjoint : rfc8175.NamesDisjoint :=
  ProtocolConfig.ofDefinitions_namesDisjoint (by decide)

end Dlep
