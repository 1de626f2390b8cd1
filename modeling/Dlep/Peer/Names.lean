import Dlep.Peer.Permits
import Dlep.Peer.Messages

/-!
# The names of composed messages

A peer composes a message by its name, and the name can be read from the bytes that are sent. A
configuration is orderly if this is so for every message of a session, and if no message that asks
for something is the response to another one.
-/

namespace Dlep

open Std Calls ProtocolMessage

/-- The messages that a peer composes by their names. -/
def composedNames : List String := [
  "Session_Initialization", "Session_Initialization_Response", "Session_Update",
  "Session_Update_Response", "Session_Termination", "Session_Termination_Response",
  "Destination_Up", "Destination_Announce", "Destination_Down", "Destination_Down_Response",
  "Destination_Update", "Link_Characteristics_Request", "Link_Characteristics_Response",
    "Heartbeat"]

/-- The messages by which one side talks about a destination without being asked. -/
def destinationNames : List String := [
  "Destination_Up", "Destination_Announce", "Destination_Down", "Destination_Update",
  "Link_Characteristics_Request"]

/-- The messages of a session are not signals, and the responses are none of the messages by which
one side talks about a destination without being asked. -/
structure ProtocolConfig.Orderly (cfg : ProtocolConfig) : Prop where
  typesMac : cfg.TypesMac
  messages : ∀ name ∈ composedNames, cfg.signalMap.right name = none
  responses : ∀ request name, cfg.getMessageResponseName request = .ok name → name ≠ "" →
    cfg.signalMap.right name = none ∧ name ∉ destinationNames

/-- The part of `getMessageResponseName` that depends on the information only. -/
def ProtocolConfig.responseNameOf (cfg : ProtocolConfig) (siginfo : SignalInfo) :
    Except Exn String :=
  if siginfo.responseId = 0 then .ok ""
  else if siginfo.flags &&& SignalInfo.messageFlag ≠ 0 then cfg.getMessageName siginfo.responseId
  else cfg.getSignalName siginfo.responseId

/-- A response is the response to one of the messages of the configuration. -/
theorem ProtocolConfig.exists_of_getMessageResponseName {cfg : ProtocolConfig}
    {request name : String} (h : cfg.getMessageResponseName request = .ok name) :
    ∃ siginfo ∈ cfg.signalInfoMap.toList.map Prod.snd ++ cfg.messageInfoMap.toList.map Prod.snd,
      cfg.responseNameOf siginfo = .ok name := by
  obtain ⟨siginfo, hinfo, hname⟩ := bind_eq_ok.1 h
  refine ⟨siginfo, ?_, hname⟩
  unfold getSignalInfo at hinfo
  split at hinfo
  · next first rest hinfos =>
    obtain rfl := Except.ok.inj hinfo
    have hmem : first ∈ cfg.getSignalInfos request := by
      rw [hinfos]
      exact List.mem_cons_self
    rcases List.mem_append.1 hmem with hsignal | hmessage
    · exact List.mem_append_left _ (List.mem_filter.1 hsignal).1
    · exact List.mem_append_right _ (List.mem_filter.1 hmessage).1
  · cases hinfo

/-- The shipped configuration keeps signals and messages, and requests and responses, apart. -/
theorem rfc8175_orderly : rfc8175.Orderly where
  typesMac := rfl
  messages := by decide +kernel
  responses request name h hne := by
    obtain ⟨siginfo, hinfo, hname⟩ := ProtocolConfig.exists_of_getMessageResponseName h
    have hall : ∀ siginfo ∈ rfc8175.signalInfoMap.toList.map Prod.snd ++
        rfc8175.messageInfoMap.toList.map Prod.snd, ∀ name ∈
          (rfc8175.responseNameOf siginfo).toOption,
          name = "" ∨ rfc8175.signalMap.right name = none ∧ name ∉ destinationNames := by
      decide +kernel
    exact (hall siginfo hinfo name (by simp [hname, Except.toOption])).resolve_left hne

/-! ## Reading the name of a message -/

namespace Peer

section

variable [AddressText] {d : DlepView} {s : Surroundings} {name : String} {pm : ProtocolMessage}

/-- What is composed under a name goes on the wire with the id of the name. -/
theorem bufferName_of_compose {func : String} {build : ProtocolMessage → Except Exn ProtocolMessage}
    {err : Bytes} (hname : d.cfg.signalMap.right name = none) (hbuild : Adds d.cfg build)
    (h : compose d name build func = .ok (err, pm)) : bufferName d.cfg pm.msgbuf = some name := by
  obtain ⟨_, _, hframes⟩ := frames_of_compose hbuild h
  exact bufferName_of_frames hframes hname

/-- A composed message that was checked is framed. -/
theorem frames_of_composeChecked {func : String}
    {build : ProtocolMessage → Except Exn ProtocolMessage} (hbuild : Adds d.cfg build)
    (h : composeChecked d name build func = .ok pm) :
    ∃ items body, Frames d.cfg name pm items body := by
  obtain ⟨⟨err, pm'⟩, hcompose, h⟩ := bind_eq_ok.1 h
  obtain ⟨_, _, h⟩ := bind_eq_ok.1 h
  obtain rfl := Except.ok.inj h
  exact frames_of_compose hbuild hcompose

/-- What is composed and checked under a name goes on the wire with the id of the name. -/
theorem bufferName_of_composeChecked {func : String}
    {build : ProtocolMessage → Except Exn ProtocolMessage}
    (hname : d.cfg.signalMap.right name = none) (hbuild : Adds d.cfg build)
    (h : composeChecked d name build func = .ok pm) : bufferName d.cfg pm.msgbuf = some name := by
  obtain ⟨_, _, hframes⟩ := frames_of_composeChecked hbuild h
  exact bufferName_of_frames hframes hname

/-- A message about a destination goes on the wire under its name. -/
theorem bufferName_destinationMessage {mac : DlepMac} {items : DataItems} {func : String}
    (hname : d.cfg.signalMap.right name = none)
    (h : destinationMessage d name mac items func = .ok pm) :
    bufferName d.cfg pm.msgbuf = some name := by
  obtain ⟨⟨err, pm'⟩, hcompose, h⟩ := bind_eq_ok.1 h
  obtain rfl := Except.ok.inj h
  exact bufferName_of_compose hname (adds_bind adds_addNamed adds_addDataItems) hcompose

/-- A message about a destination says so on the wire. -/
theorem bufferMac_destinationMessage {mac : DlepMac} {items : DataItems} {func : String}
    (htypes : d.cfg.TypesMac) (hname : d.cfg.signalMap.right name = none)
    (h : destinationMessage d name mac items func = .ok pm) :
    bufferMac d.cfg pm.msgbuf = some mac := by
  obtain ⟨⟨err, pm'⟩, hcompose, h⟩ := bind_eq_ok.1 h
  obtain rfl := Except.ok.inj h
  exact bufferMac_of_compose htypes hname adds_addDataItems hcompose

/-- A status and an address are data items that are added. -/
theorem adds_addStatusAndMac {cfg : ProtocolConfig} {status : String} {message : Bytes}
    {mac : Option DlepMac} : Adds cfg (addStatusAndMac cfg status message mac) := by
  refine adds_bind (adds_ite adds_addStatus adds_ok) ?_
  cases mac with
  | none => exact adds_ok
  | some mac => exact adds_addNamed

/-- A list of extensions is a data item that is added. -/
theorem adds_addExtensionsIfAny {cfg : ProtocolConfig} {extensions : List ExtensionIdType} :
    Adds cfg (addExtensionsIfAny cfg extensions) :=
  adds_ite adds_ok adds_addNamed

/-- The client does not change the name of a message that opens a session. -/
theorem bufferName_of_modified {pm' : ProtocolMessage} {peerId : PeerId} {items : DataItems}
    {body : Bytes} (hname : d.cfg.signalMap.right name = none)
    (hpm : Frames d.cfg name pm items body)
    (h : modified d s peerId pm = .ok pm') : bufferName d.cfg pm'.msgbuf = some name := by
  unfold modified at h
  split at h
  · obtain rfl := Except.ok.inj h
    exact bufferName_of_frames hpm hname
  · obtain ⟨⟨err, pm''⟩, hrebuild, h⟩ := bind_eq_ok.1 h
    obtain rfl := Except.ok.inj h
    obtain ⟨body', hframes⟩ := hpm.rebuild hrebuild
    exact bufferName_of_frames hframes hname

/-- The opening goes on the wire under its name, whatever the client changes in it. -/
theorem bufferName_initializationMessage {pm' : ProtocolMessage} {peerId : PeerId}
    (hcfg : d.cfg.Orderly) (h : initializationMessage d s = .ok pm)
    (hmodified : modified d s peerId pm = .ok pm') :
    bufferName d.cfg pm'.msgbuf = some "Session_Initialization" := by
  obtain ⟨_, _, hframes⟩ :=
    frames_of_composeChecked (adds_bind adds_addCommonDataItems adds_addExtensionsIfAny) h
  exact bufferName_of_modified (hcfg.messages _ (by decide)) hframes hmodified

/-- The answer to an opening goes on the wire under its name, whatever the client changes in it.
-/
theorem bufferName_initializationResponse {p : Peer} {pm' : ProtocolMessage} {peerId : PeerId}
    (hcfg : d.cfg.Orderly) (h : initializationResponse d s p = .ok pm)
    (hmodified : modified d s peerId pm = .ok pm') :
    bufferName d.cfg pm'.msgbuf = some "Session_Initialization_Response" := by
  obtain ⟨⟨err, pm''⟩, hcompose, h⟩ := bind_eq_ok.1 h
  obtain rfl := Except.ok.inj h
  obtain ⟨_, _, hframes⟩ := frames_of_compose (adds_bind adds_addCommonDataItems
    (adds_bind adds_addExtensionsIfAny adds_addAllowedDataItems)) hcompose
  exact bufferName_of_modified (hcfg.messages _ (by decide)) hframes hmodified

omit [AddressText] in
/-- The two names of the message that brings a destination up. -/
theorem upMessageName_cases :
    upMessageName d = "Destination_Up" ∨ upMessageName d = "Destination_Announce" := by
  unfold upMessageName
  split
  · exact .inl rfl
  · split
    · exact .inr rfl
    · exact .inl rfl

end

end Peer

end Dlep
