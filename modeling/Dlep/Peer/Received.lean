import Dlep.Peer.Moves
import Dlep.ProtocolMessage.Grammar

/-!
# What is known of a received message

The parser has looked up every data item of a message and has printed it for the log, so that
whatever is done with the data items later does not fail for an unknown id.
-/

namespace Dlep

open Std Calls

/-- Every data item can be looked up and printed. -/
def DataItems.Known (cfg : ProtocolConfig) (items : DataItems) : Prop :=
  ∀ di ∈ items, di.Resolves cfg none

/-- The configuration knows the id of the data item. -/
def DataItem.Configured (cfg : ProtocolConfig) (di : DataItem) : Prop :=
  ∃ info, cfg.getDataItemInfo di.id none = .ok info

/-- The configuration tells whether the data item is an address, and so whether it is a metric. -/
def DataItem.Classified (cfg : ProtocolConfig) (di : DataItem) : Prop :=
  ∃ b, cfg.isIpaddr di.id none = .ok b

section

variable {cfg : ProtocolConfig} {di : DataItem}

/-- A data item whose id is known is known to be an address or not. -/
theorem DataItem.Configured.classified (h : di.Configured cfg) : di.Classified cfg := by
  obtain ⟨info, hinfo⟩ := h
  unfold Classified ProtocolConfig.isIpaddr
  split
  · exact ⟨_, rfl⟩
  · rw [hinfo]
    exact ⟨_, rfl⟩

/-- What is classified has a known id, or none. -/
theorem DataItem.Classified.configured (h : di.Classified cfg) (hid : di.id ≠ idUndefined) :
    di.Configured cfg := by
  obtain ⟨b, hb⟩ := h
  rw [ProtocolConfig.isIpaddr, if_neg hid] at hb
  obtain ⟨info, hinfo, _⟩ := bind_eq_ok.1 hb
  exact ⟨info, hinfo⟩

/-- A data item that is known to be an address or not is known to be a metric or not. -/
theorem DataItem.Classified.isMetric (h : di.Classified cfg) :
    ∃ b, cfg.isMetric di.id none = .ok b := by
  unfold ProtocolConfig.isMetric
  split
  · exact ⟨_, rfl⟩
  · next hid =>
    obtain ⟨info, hinfo⟩ := h.configured hid
    rw [hinfo]
    exact ⟨_, rfl⟩

/-- The id of an address is known. -/
theorem DataItem.configured_of_isIpaddr (h : cfg.isIpaddr di.id none = .ok true) :
    di.Configured cfg := by
  refine DataItem.Classified.configured ⟨true, h⟩ fun hid => ?_
  rw [ProtocolConfig.isIpaddr, if_pos hid] at h
  cases h

/-- The id of a metric is known. -/
theorem DataItem.configured_of_isMetric (h : cfg.isMetric di.id none = .ok true) :
    di.Configured cfg := by
  unfold ProtocolConfig.isMetric at h
  split at h
  · cases h
  · obtain ⟨info, hinfo, _⟩ := bind_eq_ok.1 h
    exact ⟨info, hinfo⟩

/-- A data item whose id is known has a name. -/
theorem DataItem.Configured.name (h : di.Configured cfg) :
    ∃ name, cfg.getDataItemName di.id none = .ok name := by
  obtain ⟨info, hinfo⟩ := h
  obtain ⟨name, hname, _⟩ := bind_eq_ok.1 hinfo
  exact ⟨name, hname⟩

/-- A data item that can be looked up has a known id. -/
theorem DataItem.Resolves.configured (h : di.Resolves cfg none) : di.Configured cfg := by
  cases h with
  | mk hinfo _ => exact ⟨_, hinfo⟩

/-- Known data items can be told apart. -/
theorem DataItems.Known.classified {items : DataItems} (h : items.Known cfg) :
    ∀ di ∈ items, di.Classified cfg := fun di hdi => (h di hdi).configured.classified

namespace PeerData

/-- The metrics are looked for in their order, and the first new one ends the search. -/
theorem hasUnknownMetric_eq {items : DataItems} (h : ∀ di ∈ items, di.Classified cfg)
    (known : DataItemMap) :
    hasUnknownMetric cfg known items = .ok (items.any fun di =>
      decide (cfg.isMetric di.id none = .ok true) && !known.contains di.id) := by
  induction items with
  | nil => rfl
  | cons di items ih =>
    obtain ⟨hdi, hitems⟩ := List.forall_mem_cons.1 h
    obtain ⟨metric, hmetric⟩ := hdi.isMetric
    simp only [hasUnknownMetric, hmetric, ok_bind, List.any_cons]
    cases metric with
    | true =>
      obtain ⟨name, hname⟩ := (DataItem.configured_of_isMetric hmetric).name
      cases known.contains di.id with
      | true => simpa using ih hitems
      | false => simp [hname, pure, Except.pure]
    | false => simpa using ih hitems

/-- Whether a list has an unknown metric can be told of known data items. -/
theorem hasUnknownMetric_ok {items : DataItems} (h : items.Known cfg) (known : DataItemMap) :
    ∃ b, hasUnknownMetric cfg known items = .ok b := ⟨_, hasUnknownMetric_eq h.classified known⟩

end PeerData

variable [AddressText]

namespace ProtocolMessage

/-- Parsing adds known data items only. -/
theorem known_of_parseBody {pm : ProtocolMessage} {c : ByteReader.Cursor}
    (h : pm.dataItems.Known cfg) : (parseBody cfg pm c).1.dataItems.Known cfg := by
  unfold parseBody
  split
  · exact h
  · simp only
    split
    · exact h
    · split
      · exact h
      · exact fun di hdi => (parseDataItems_recorded di hdi).2

/-- What the parser has recorded is known. -/
theorem known_of_parse {logPrefix err : Bytes} {pm pm' : ProtocolMessage}
    (h : pm.parse cfg logPrefix = .ok (err, pm')) : pm'.dataItems.Known cfg := by
  have hnil : ({ pm with dataItems := [] } : ProtocolMessage).dataItems.Known cfg := by
    simp [DataItems.Known]
  unfold parse at h
  simp only at h
  generalize (if pm.isSignal = true then str cfg.signalPrefix else []) = start at h
  split at h
  · exact (Prod.mk.inj (Except.ok.inj h)).2 ▸ hnil
  · split at h
    · exact (Prod.mk.inj (Except.ok.inj h)).2 ▸ hnil
    · have hbody := known_of_parseBody
        (c := .whole start.length (pm.msgbuf.drop start.length)) hnil
      split at h
      · next heq =>
        obtain ⟨_, rfl⟩ := Prod.mk.inj (Except.ok.inj h)
        rwa [heq] at hbody
      · next heq =>
        obtain ⟨_, rfl⟩ := Prod.mk.inj (Except.ok.inj h)
        rwa [heq] at hbody
      · cases h

/-- What is parsed and validated is known. -/
theorem known_of_parseAndValidate {modemSender : Bool} {logPrefix err : Bytes}
    {pm pm' : ProtocolMessage}
    (h : pm.parseAndValidate cfg modemSender logPrefix = .ok (err, pm')) :
    pm'.dataItems.Known cfg := by
  obtain ⟨⟨err', pm₁⟩, hparse, h⟩ := bind_eq_ok.1 h
  have hknown := known_of_parse hparse
  simp only at h
  split at h
  · exact (Prod.mk.inj (Except.ok.inj h)).2 ▸ hknown
  · obtain ⟨_, _, h⟩ := bind_eq_ok.1 h
    exact (Prod.mk.inj (Except.ok.inj h)).2 ▸ hknown

end ProtocolMessage

/-- The data items of a message that was received are known. -/
theorem Peer.known_of_received {d : DlepView} {buf err : Bytes} {pm : ProtocolMessage}
    (h : received d buf = .ok (err, pm)) : pm.dataItems.Known d.cfg :=
  ProtocolMessage.known_of_parseAndValidate h

end

end Dlep
