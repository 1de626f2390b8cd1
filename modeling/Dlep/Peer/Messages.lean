import Dlep.Peer.Handlers
import Dlep.ProtocolMessage.Compose

/-!
# The messages that a peer composes

A composed message has the header of its name, whatever the check of it says, and a message about a
destination is about the destination it was composed for. Both can be read from its buffer.
-/

namespace Dlep

open Calls ProtocolMessage

/-- What the object for a message takes over from the message. -/
theorem ResponsePending.make_ok {cfg : ProtocolConfig} {pm : ProtocolMessage} {rp : ResponsePending}
    (h : ResponsePending.make cfg pm = .ok rp) :
    rp.msgBuffer = pm.msgbuf ∧ ∃ mac, ifPresent (pm.getMac cfg) = .ok mac ∧
      rp.destination = mac.getD [] := by
  simp only [ResponsePending.make, bind_eq_ok] at h
  obtain ⟨_, _, _, _, _, _, _, _, mac, hmac, hrp⟩ := h
  rw [← Except.ok.inj hrp]
  exact ⟨rfl, mac, hmac, rfl⟩

/-- The destination of a request is the one that its message is about. -/
theorem ResponsePending.destination_of_make {cfg : ProtocolConfig} {pm : ProtocolMessage}
    {rp : ResponsePending} {mac : DlepMac} (hmac : pm.getMac cfg = .ok mac)
    (h : ResponsePending.make cfg pm = .ok rp) : rp.destination = mac := by
  obtain ⟨_, mac', hmac', hdest⟩ := ResponsePending.make_ok h
  rw [hmac] at hmac'
  obtain rfl := Except.ok.inj hmac'
  exact hdest

/-! ## What stands in a buffer -/

/-- The name of the message in a buffer: its id stands in front. -/
def bufferName (cfg : ProtocolConfig) (buf : Bytes) : Option String :=
  if cfg.signalIdSize.1 ≤ buf.length then
    cfg.messageMap.left (UInt32.ofNat (BigEndian.decode (buf.take cfg.signalIdSize.1)))
  else none

/-- The destination that the message in a buffer is about. -/
def bufferMac [AddressText] (cfg : ProtocolConfig) (buf : Bytes) : Option DlepMac :=
  match parseBuffer cfg buf false [] {} with
  | .ok (_, pm) =>
    match pm.getMac cfg with
    | .ok mac => some mac
    | .error _ => none
  | .error _ => none

section

variable {cfg : ProtocolConfig} {name : String} {pm : ProtocolMessage}
    {items : DataItems} {body : Bytes}

/-- A message is not a signal. -/
theorem isSignal_of_frames (hpm : Frames cfg name pm items body)
    (hname : cfg.signalMap.right name = none) :
    pm.isSignal = false ∧ cfg.messageMap.right name = some pm.signalId := by
  have hid := hpm.signalId
  unfold ProtocolConfig.getSignalId at hid
  rw [hname] at hid
  cases hright : cfg.messageMap.right name with
  | none =>
    rw [hright] at hid
    cases hid
  | some id =>
    rw [hright] at hid
    obtain ⟨hsignal, hmsg⟩ := Prod.mk.inj (Except.ok.inj hid)
    exact ⟨hmsg.symm, by rw [hsignal]⟩

/-- A framed message has the name it was composed under. -/
theorem bufferName_of_frames (hpm : Frames cfg name pm items body)
    (hname : cfg.signalMap.right name = none) : bufferName cfg pm.msgbuf = some name := by
  obtain ⟨hmsg, hright⟩ := isSignal_of_frames hpm hname
  have hbuf := hpm.msgbuf
  rw [hmsg, frame, idBytes] at hbuf
  simp only [Bool.false_eq_true, if_false, List.nil_append] at hbuf
  have htake : pm.msgbuf.take cfg.signalIdSize.1 =
      BigEndian.encode cfg.signalIdSize.1 pm.signalId.toNat := by
    rw [hbuf, List.take_append_of_le_length (by simp), List.take_of_length_le (by simp)]
  have hlength : cfg.signalIdSize.1 ≤ pm.msgbuf.length := by
    rw [hbuf, List.length_append, BigEndian.length_encode]
    omega
  rw [bufferName, if_pos hlength, htake, BigEndian.decode_encode hpm.id_fits, UInt32.ofNat_toNat,
    cfg.messageMap.left_eq_some_iff_right.2 hright]

end

namespace Peer

variable [AddressText] {d : DlepView} {s : Surroundings} {name func : String} {pm : ProtocolMessage}
  {build : ProtocolMessage → Except Exn ProtocolMessage} {err : Bytes}

/-- What was put together is parsed and checked. -/
theorem building_of_compose (hbuild : Adds d.cfg build)
    (h : compose d name build func = .ok (err, pm)) :
    ∃ pm₀ items, Building d.cfg name pm₀ items ∧
      parseAndValidate d.cfg d.modem (str func) pm₀ = .ok (err, pm) := by
  obtain ⟨header, hheader, h⟩ := bind_eq_ok.1 h
  obtain ⟨pm₀, hpm₀, h⟩ := bind_eq_ok.1 h
  obtain ⟨items, hitems⟩ := hbuild _ _ _ _ (.addHeader hheader) hpm₀
  exact ⟨pm₀, [] ++ items, hitems, h⟩

/-- A composed message has the header of its name. -/
theorem frames_of_compose (hbuild : Adds d.cfg build)
    (h : compose d name build func = .ok (err, pm)) :
    ∃ items body, Frames d.cfg name pm items body := by
  obtain ⟨pm₀, items, hpm₀, hvalid⟩ := building_of_compose hbuild h
  obtain ⟨body, hframes⟩ := hpm₀.frames
  obtain ⟨_, hparse⟩ := parse_of_parseAndValidate hvalid
  exact ⟨items, body, hframes.parse hparse⟩

/-- A message into which a MAC address is put first, before it is parsed. -/
theorem frames_mac_of_compose {mac : DlepMac} (hbuild : Adds d.cfg build)
    (h : compose d name (fun pm => addMac d.cfg mac pm >>= build) func = .ok (err, pm)) :
    ∃ pm₀ id more body err', d.cfg.getDataItemId "MAC_Address" none = .ok id ∧
      Frames d.cfg name pm₀ (.mk id (.dlepmac mac) :: more) body ∧
      parse d.cfg (str func) pm₀ = .ok (err', pm) := by
  obtain ⟨header, hheader, h⟩ := bind_eq_ok.1 h
  obtain ⟨pm₀, hpm₀, hvalid⟩ := bind_eq_ok.1 h
  obtain ⟨pm₁, hmac, hrest⟩ := bind_eq_ok.1 hpm₀
  obtain ⟨di, hdi, hadd⟩ := bind_eq_ok.1 hmac
  obtain ⟨id, hid, hdi⟩ := bind_eq_ok.1 hdi
  obtain rfl := Except.ok.inj hdi
  obtain ⟨more, hpm₁⟩ := hbuild _ _ _ _ (.addDataItem (.addHeader hheader) hadd) hrest
  obtain ⟨body, hframes⟩ := hpm₁.frames
  obtain ⟨err', hparse⟩ := parse_of_parseAndValidate hvalid
  exact ⟨pm₀, id, more, body, err', hid, hframes, hparse⟩

/-- The MAC address that is put into a message first is the one the message is about. -/
theorem getMac_of_compose {mac : DlepMac} (htypes : d.cfg.TypesMac) (hbuild : Adds d.cfg build)
    (h : compose d name (fun pm => addMac d.cfg mac pm >>= build) func = .ok (err, pm)) :
    pm.getMac d.cfg = .ok mac := by
  obtain ⟨pm₀, id, more, body, err', hid, hframes, hparse⟩ := frames_mac_of_compose hbuild h
  exact hframes.getMac htypes hid rfl rfl hparse

/-- A message that begins with an address is about that address. -/
theorem bufferMac_of_compose {mac : DlepMac} (htypes : d.cfg.TypesMac)
    (hname : d.cfg.signalMap.right name = none) (hbuild : Adds d.cfg build)
    (h : compose d name (fun pm => addMac d.cfg mac pm >>= build) func = .ok (err, pm)) :
    bufferMac d.cfg pm.msgbuf = some mac := by
  obtain ⟨pm₀, id, more, body, err', hid, hframes, hparse⟩ := frames_mac_of_compose hbuild h
  have hpm := hframes.parse hparse
  have hids := Prod.mk.inj (Except.ok.inj (hpm.signalId.symm.trans hframes.signalId))
  have hbuf : pm.msgbuf = pm₀.msgbuf := by rw [hpm.msgbuf, hframes.msgbuf, hids.1, hids.2]
  obtain ⟨err'', pm', hagain, _⟩ := hframes.exists_parseBuffer hparse [] {}
  have hread := @Frames.getMac _ _ _ _ pm' mac id more body [] err''
    { msgbuf := pm₀.msgbuf, isSignal := pm₀.isSignal } htypes hid hframes rfl rfl hagain
  rw [(isSignal_of_frames hframes hname).1] at hagain
  simp only [bufferMac, hbuf, hagain, hread]

/-- A message that a destination is up is about it. -/
theorem getMac_upMessage {mac : DlepMac} {items : DataItems} (htypes : d.cfg.TypesMac)
    (h : upMessage d s name mac items = .ok pm) : pm.getMac d.cfg = .ok mac := by
  obtain ⟨⟨err, pm'⟩, hcompose, h⟩ := bind_eq_ok.1 h
  obtain rfl := Except.ok.inj h
  exact getMac_of_compose htypes (adds_bind adds_addDataItems adds_addCommonDataItems) hcompose

/-- A message about a destination is about it. -/
theorem getMac_destinationMessage {mac : DlepMac} {items : DataItems} (htypes : d.cfg.TypesMac)
    (h : destinationMessage d name mac items func = .ok pm) : pm.getMac d.cfg = .ok mac := by
  obtain ⟨⟨err, pm'⟩, hcompose, h⟩ := bind_eq_ok.1 h
  obtain rfl := Except.ok.inj h
  exact getMac_of_compose htypes adds_addDataItems hcompose

/-- The bytes of a message that a destination is up are about it. -/
theorem bufferMac_upMessage {mac : DlepMac} {items : DataItems} (htypes : d.cfg.TypesMac)
    (hname : d.cfg.signalMap.right name = none) (h : upMessage d s name mac items = .ok pm) :
    bufferMac d.cfg pm.msgbuf = some mac := by
  obtain ⟨⟨err, pm'⟩, hcompose, h⟩ := bind_eq_ok.1 h
  obtain rfl := Except.ok.inj h
  exact bufferMac_of_compose htypes hname
    (adds_bind adds_addDataItems adds_addCommonDataItems) hcompose

end Peer

end Dlep
