import Dlep.ProtocolMessage.Compose
import Dlep.ProtocolMessage.Wire

/-!
# Messages between two configurations

The two ends of a session have configurations of their own: what one of them has written is read
with the tables of the other. If the fields have the same sizes, the other end finds the same data
items, one by one: the same ids, and the same bytes behind them. What it takes these bytes for is
up to the type that it has for the id.
-/

namespace Dlep

/-- The fields of both configurations have the same sizes. -/
structure ProtocolConfig.SameSizes (cfg cfg' : ProtocolConfig) : Prop where
  signalLength : cfg'.signalLengthSize = cfg.signalLengthSize
  signalId : cfg'.signalIdSize = cfg.signalIdSize
  dataItemLength : cfg'.dataItemLengthSize = cfg.dataItemLengthSize
  dataItemId : cfg'.dataItemIdSize = cfg.dataItemIdSize
  extensionId : cfg'.extensionIdSize = cfg.extensionIdSize

/-- Both configurations have a message of the name, with the same id. -/
def ProtocolConfig.SharesMessage (cfg cfg' : ProtocolConfig) (name : String) : Prop :=
  ∃ id, cfg.getSignalId name = .ok (id, false) ∧ cfg'.getSignalId name = .ok (id, false)

/-- Both configurations have a data item of the name, with the same id and the same type. -/
def ProtocolConfig.SharesDataItem (cfg cfg' : ProtocolConfig) (name : String)
    (ty : DataItemValueType) : Prop :=
  ∃ id, cfg.getDataItemId name none = .ok id ∧ cfg'.getDataItemId name none = .ok id ∧
    cfg.getDataItemValueType name = .ok ty ∧ cfg'.getDataItemValueType name = .ok ty

namespace ProtocolConfig

variable {cfg cfg' : ProtocolConfig}

/-- Fields of the same sizes are so in either direction. -/
theorem SameSizes.symm (h : cfg.SameSizes cfg') : cfg'.SameSizes cfg :=
  ⟨h.signalLength.symm, h.signalId.symm, h.dataItemLength.symm, h.dataItemId.symm,
    h.extensionId.symm⟩

/-- A message that is shared is so in either direction. -/
theorem SharesMessage.symm {name : String} (h : cfg.SharesMessage cfg' name) :
    cfg'.SharesMessage cfg name := by
  obtain ⟨id, hid, hid'⟩ := h
  exact ⟨id, hid', hid⟩

/-- A data item that is shared is so in either direction. -/
theorem SharesDataItem.symm {name : String} {ty : DataItemValueType}
    (h : cfg.SharesDataItem cfg' name ty) : cfg'.SharesDataItem cfg name ty := by
  obtain ⟨id, hid, hid', hty, hty'⟩ := h
  exact ⟨id, hid', hid, hty', hty⟩

end ProtocolConfig

namespace ProtocolMessage

variable {cfg cfg' : ProtocolConfig}

/-- The size of a message is found with the sizes of the fields alone. -/
theorem isCompleteMessage_across (hsizes : cfg.SameSizes cfg') (buf : Bytes) :
    isCompleteMessage cfg' buf = isCompleteMessage cfg buf := by
  simp only [isCompleteMessage, hsizes.signalId, hsizes.signalLength]

/-! ## Data items -/

/-- The bytes are those of the value of a data item, under the type that is configured for its id.
-/
def ReadFrom (cfg : ProtocolConfig) (valbuf : Bytes) (di : DataItem) : Prop :=
  ∃ info port subs, cfg.getDataItemInfo di.id none = .ok info ∧ di.value.getType = info.valueType ∧
    di.value.Fits cfg ∧ valbuf = di.value.wire cfg port subs

/-- What one end has written for a data item is what the other end has read as one. -/
def ReadAs (cfg cfg' : ProtocolConfig) (di di' : DataItem) : Prop :=
  di'.id = di.id ∧ ∃ valbuf, di.value.serialize cfg = .ok valbuf ∧ ReadFrom cfg' valbuf di'

/-- The first data item that is read is the first that was written. -/
theorem readAs_of_append (hsizes : cfg.SameSizes cfg') {di di' : DataItem} {w rest rest' : Bytes}
    {form : Form} (hw : di.serialize cfg = .ok w) (hform : di'.Wire cfg' none form)
    (h : w ++ rest = form.bytes ++ rest') : ReadAs cfg cfg' di di' ∧ rest = rest' := by
  obtain ⟨id, value⟩ := di
  obtain ⟨valbuf, hval, _, hid, hlen, rfl⟩ := DataItem.serialize_ok.1 hw
  cases hform with
  | @mk _ id' value' info zero port port' subs hinfo htype hfits _ _ _ _ hid' hlen' =>
    simp only [DataItem.framed, List.append_assoc] at h
    rw [hsizes.dataItemId, hsizes.dataItemLength] at h
    rw [hsizes.dataItemId] at hid'
    rw [hsizes.dataItemLength] at hlen'
    obtain ⟨hids, h⟩ := List.append_inj h (by simp)
    obtain ⟨hlens, h⟩ := List.append_inj h (by simp)
    have hsame := congrArg BigEndian.decode hids
    rw [BigEndian.decode_encode hid, BigEndian.decode_encode hid'] at hsame
    have hlength := congrArg BigEndian.decode hlens
    rw [BigEndian.decode_encode hlen, BigEndian.decode_encode hlen'] at hlength
    obtain ⟨hvals, hrest⟩ := List.append_inj h hlength
    refine ⟨⟨(UInt32.toNat_inj.1 hsame).symm, valbuf, hval, ?_⟩, hrest⟩
    exact ⟨info, port, _, hinfo, htype, hfits, hvals⟩

/-- All data items that are read are those that were written. -/
theorem readAs_of_forms (hsizes : cfg.SameSizes cfg') {items items' : DataItems} {ws : List Bytes}
    {forms : List Form} (hws : List.Forall₂ (fun di w => di.serialize cfg = .ok w) items ws)
    (hforms : Forms cfg' items' forms) (hbody : ws.flatten = bodyOf forms) :
    List.Forall₂ (ReadAs cfg cfg') items items' := by
  induction hws generalizing items' forms with
  | nil =>
    rw [forms_nil hforms hbody.symm]
    exact .nil
  | @cons di w items ws hw hws ih =>
    cases hforms with
    | nil =>
      have hempty := (List.append_eq_nil_iff.1 hbody).1
      exact absurd hempty (DataItem.serialize_ne_nil hw)
    | @cons di' form items' forms hform hforms =>
      change w ++ ws.flatten = form.bytes ++ bodyOf forms at hbody
      obtain ⟨hread, hrest⟩ := readAs_of_append hsizes hw hform hbody
      exact .cons hread (ih hforms hrest)

/-! ## Extension ids -/

/-- Ids that were written one after the other are read in one way only. -/
theorem extensionIds_inj {size : Nat} (hsize : 0 < size) {xs ys : List ExtensionIdType}
    (hxs : ∀ x ∈ xs, x.toNat < 256 ^ size) (hys : ∀ y ∈ ys, y.toNat < 256 ^ size)
    (h : (xs.map fun x => BigEndian.encode size x.toNat).flatten =
      (ys.map fun y => BigEndian.encode size y.toNat).flatten) : xs = ys := by
  have hne : ∀ (x : ExtensionIdType) (rest : Bytes),
      BigEndian.encode size x.toNat ++ rest ≠ [] := by
    intro x rest hnil
    have hlength := congrArg List.length hnil
    rw [List.length_append, BigEndian.length_encode, List.length_nil] at hlength
    omega
  induction xs generalizing ys with
  | nil =>
    cases ys with
    | nil => rfl
    | cons y ys => exact absurd h.symm (hne y _)
  | cons x xs ih =>
    cases ys with
    | nil => exact absurd h (hne x _)
    | cons y ys =>
      obtain ⟨hx, hxs⟩ := List.forall_mem_cons.1 hxs
      obtain ⟨hy, hys⟩ := List.forall_mem_cons.1 hys
      simp only [List.map_cons, List.flatten_cons] at h
      obtain ⟨hfirst, hrest⟩ := List.append_inj h (by simp)
      have hsame := congrArg BigEndian.decode hfirst
      rw [BigEndian.decode_encode hx, BigEndian.decode_encode hy] at hsame
      rw [UInt32.toNat_inj.1 hsame, ih hxs hys hrest]

/-- A list of extension ids is read as the list that was written. -/
theorem ReadAs.extensions (hsizes : cfg.SameSizes cfg') {id : DataItemIdType}
    {xs : List ExtensionIdType} {di' : DataItem} {info : DataItemInfo}
    (hinfo : cfg'.getDataItemInfo id none = .ok info) (htype : info.valueType = .vExtid)
    (h : ReadAs cfg cfg' (.mk id (.vExtid xs)) di') : di' = .mk id (.vExtid xs) := by
  obtain ⟨hid, valbuf, hval, info', port, subs, hinfo', htype', hfits, hwire⟩ := h
  obtain ⟨id', value⟩ := di'
  obtain rfl : id' = id := hid
  obtain rfl := Except.ok.inj (hinfo.symm.trans hinfo')
  obtain ⟨ys, rfl⟩ : ∃ ys, value = .vExtid ys := by
    have hvalue : value.getType = .vExtid := htype'.trans htype
    cases value with
    | vExtid ys => exact ⟨ys, rfl⟩
    | _ => cases hvalue
  obtain ⟨hxs, rfl⟩ := foldlM_serializeField hval
  have hys : ∀ y ∈ ys, y.toNat < 256 ^ cfg.extensionIdSize.1 := by
    rw [← hsizes.extensionId]
    exact hfits
  rw [List.nil_append] at hwire
  change _ = (ys.map fun y => BigEndian.encode cfg'.extensionIdSize y.toNat).flatten at hwire
  rw [hsizes.extensionId] at hwire
  rw [extensionIds_inj cfg.extensionIdSize.2.1 hxs hys hwire]

/-! ## Values without a list -/

end ProtocolMessage

/-- The numbers, and a number with a text behind it. -/
def DataItemValue.Plain : DataItemValue → Prop
  | .u8 _ | .u16 _ | .u32 _ | .u8String _ _ => True
  | _ => False

namespace ProtocolMessage

/-- A plain value is read as the value that was written, if the other end has the type for it. -/
theorem ReadAs.plain {id : DataItemIdType} {value : DataItemValue} {di' : DataItem}
    {info : DataItemInfo} (hinfo : cfg'.getDataItemInfo id none = .ok info)
    (htype : info.valueType = value.getType) (hplain : value.Plain)
    (h : ReadAs cfg cfg' (.mk id value) di') : di' = .mk id value := by
  obtain ⟨hid, valbuf, hval, info', port, subs, hinfo', htype', _, hwire⟩ := h
  obtain ⟨id', value'⟩ := di'
  obtain rfl : id' = id := hid
  obtain rfl := Except.ok.inj (hinfo.symm.trans hinfo')
  have hsame : value'.getType = value.getType := htype'.trans htype
  change value'.getType = _ at htype'
  change value.serialize cfg = .ok valbuf at hval
  change valbuf = value'.wire cfg' port subs at hwire
  -- a number is read back from as many bytes as its type has
  have hnumber : ∀ {szT m n : Nat}, m < 256 ^ szT → n < 256 ^ szT →
      fieldBytes szT szT m = BigEndian.encode szT n → m = n := by
    intro szT m n hm hn h
    rw [fieldBytes_eq_encode hm] at h
    rw [← BigEndian.decode_encode hm, h, BigEndian.decode_encode hn]
  cases value with
  | u8 v =>
    cases value' with
    | u8 v' =>
      obtain rfl := Except.ok.inj hval
      have hbyte : UInt8.ofNat (v.toNat &&& 0xff) = v' := by
        simpa [Dlep.serialize, fieldBytes, DataItemValue.wire] using hwire
      rw [show (0xff : Nat) = 2 ^ 8 - 1 from rfl, Nat.and_two_pow_sub_one_eq_mod,
        Nat.mod_eq_of_lt v.toNat_lt, UInt8.ofNat_toNat] at hbyte
      rw [hbyte]
    | _ => cases hsame
  | u16 v =>
    cases value' with
    | u16 v' =>
      obtain rfl := Except.ok.inj hval
      rw [UInt16.toNat_inj.1 (hnumber (by exact v.toNat_lt) (by exact v'.toNat_lt) hwire)]
    | _ => cases hsame
  | u32 v =>
    cases value' with
    | u32 v' =>
      obtain rfl := Except.ok.inj hval
      rw [UInt32.toNat_inj.1 (hnumber (by exact v.toNat_lt) (by exact v'.toNat_lt) hwire)]
    | _ => cases hsame
  | u8String f1 f2 =>
    cases value' with
    | u8String g1 g2 =>
      obtain rfl := Except.ok.inj hval
      have hboth : UInt8.ofNat (f1.toNat &&& 0xff) = g1 ∧ f2 = g2 := by
        simpa [Dlep.serialize, fieldBytes, DataItemValue.wire] using hwire
      obtain ⟨hbyte, rfl⟩ := hboth
      rw [show (0xff : Nat) = 2 ^ 8 - 1 from rfl, Nat.and_two_pow_sub_one_eq_mod,
        Nat.mod_eq_of_lt f1.toNat_lt, UInt8.ofNat_toNat] at hbyte
      rw [hbyte]
    | _ => cases hsame
  | _ => exact hplain.elim

/-- The first data item of an id is read as the first data item of the id. -/
theorem find?_of_readAs {id : DataItemIdType} {value : DataItemValue}
    {before after items' : DataItems} (hbefore : ∀ di ∈ before, di.id ≠ id)
    (h : List.Forall₂ (ReadAs cfg cfg') (before ++ .mk id value :: after) items') :
    ∃ di', items'.find? (fun di => di.id = id) = some di' ∧ ReadAs cfg cfg' (.mk id value) di' := by
  induction before generalizing items' with
  | nil =>
    cases h with
    | @cons _ di' _ items' hread _ =>
      have hid : di'.id = id := hread.1
      exact ⟨di', by rw [List.find?_cons_of_pos (by simpa using hid)], hread⟩
  | cons di before ih =>
    cases h with
    | @cons _ di' _ items' hread hrest =>
      obtain ⟨hdi, hbefore⟩ := List.forall_mem_cons.1 hbefore
      have hid : ¬ di'.id = id := by rwa [hread.1]
      rw [List.find?_cons_of_neg (by simpa using hid)]
      exact ih hbefore hrest

/-! ## Messages -/

section

variable [AddressText] {name : String} {pm pm' pm₀ : ProtocolMessage} {items : DataItems}
  {body logPrefix : Bytes}

omit [AddressText] in
/-- A framed message that is shared has the same id at the other end. -/
theorem Frames.shared (hshared : cfg.SharesMessage cfg' name)
    (hpm : Frames cfg name pm items body) :
    pm.isSignal = false ∧ cfg'.getSignalId name = .ok (pm.signalId, false) := by
  obtain ⟨id, hid, hid'⟩ := hshared
  obtain ⟨hsame, hmsg⟩ := Prod.mk.inj (Except.ok.inj (hpm.signalId.symm.trans hid))
  exact ⟨hmsg, by rw [hid', hsame]⟩

omit [AddressText] in
/-- The buffer is a frame for the other end, too. -/
theorem Frames.msgbuf_across (hsizes : cfg.SameSizes cfg') (hmsg : pm.isSignal = false)
    (hpm : Frames cfg name pm items body) : pm.msgbuf = frame cfg' false pm.signalId body := by
  simp only [hpm.msgbuf, hmsg, frame, idBytes, Bool.false_eq_true, if_false, hsizes.signalId,
    hsizes.signalLength]

/-- The other end reads a message of the same name. -/
theorem Frames.getSignalName_across (hsizes : cfg.SameSizes cfg')
    (hshared : cfg.SharesMessage cfg' name) (hpm : Frames cfg name pm items body)
    (h : Accepts cfg' false pm.msgbuf logPrefix pm₀ pm') : pm'.getSignalName cfg' = .ok name := by
  obtain ⟨hmsg, hid⟩ := hpm.shared hshared
  have hidfits : pm.signalId.toNat < 256 ^ cfg'.signalIdSize.1 := by
    rw [hsizes.signalId]
    exact hpm.id_fits
  have hlen : body.length < 256 ^ cfg'.signalLengthSize.1 := by
    rw [hsizes.signalLength]
    exact hpm.body_fits
  obtain ⟨pos, hparse⟩ := parse_frame_at hid hidfits hlen hpm.size
  have hread := hparse logPrefix { pm₀ with msgbuf := pm.msgbuf, isSignal := false } rfl
    (hpm.msgbuf_across hsizes hmsg)
  rw [Accepts, parseBuffer, hread] at h
  generalize parseDataItems cfg' (body.length + 1) (.whole pos body) = r at h
  obtain ⟨read, result⟩ := r
  have hpm' : pm'.signalId = pm.signalId ∧ pm'.isSignal = false ∧
      pm'.signalIdInitialized = true := by
    cases result with
    | ok _ =>
      obtain ⟨_, rfl⟩ := Prod.mk.inj (Except.ok.inj h)
      exact ⟨rfl, rfl, rfl⟩
    | error e =>
      cases e with
      | std cls what =>
        obtain ⟨_, rfl⟩ := Prod.mk.inj (Except.ok.inj h)
        exact ⟨rfl, rfl, rfl⟩
      | _ => cases h
  refine getSignalName_of_getSignalId ?_ hpm'.2.2
  rw [hpm'.1, hpm'.2.1]
  exact hid

/-- The other end reads the data items that were put into the message. -/
theorem Frames.readAs (hsizes : cfg.SameSizes cfg') (hshared : cfg.SharesMessage cfg' name)
    (hpm : Frames cfg name pm items body) (h : Accepts cfg' false pm.msgbuf logPrefix pm₀ pm') :
    List.Forall₂ (ReadAs cfg cfg') items pm'.dataItems := by
  obtain ⟨length, body', ⟨id, forms, _, _, _, hforms, rfl, hbuf⟩, _⟩ := accepts_iff.1 ⟨pm', h, rfl⟩
  obtain ⟨ws, hws, rfl⟩ := serializeSubDataItems_ok.1 hpm.body
  rw [hpm.msgbuf_across hsizes (hpm.shared hshared).1, frame] at hbuf
  obtain ⟨_, hbuf⟩ := List.append_inj hbuf (by rw [length_idBytes, length_idBytes])
  obtain ⟨_, hbody⟩ := List.append_inj hbuf (by simp)
  exact readAs_of_forms hsizes hws hforms hbody

omit [AddressText] in
/-- The lists of extensions that are read are those that were written. -/
theorem filter_of_readAs (hsizes : cfg.SameSizes cfg') {id : DataItemIdType} {info : DataItemInfo}
    (hinfo : cfg'.getDataItemInfo id none = .ok info) (htype : info.valueType = .vExtid)
    {items' : DataItems} (h : List.Forall₂ (ReadAs cfg cfg') items items')
    (hlists : ∀ di ∈ items, di.id = id → ∃ xs, di = .mk id (.vExtid xs)) :
    (items'.filter fun di => di.id = id) = items.filter fun di => di.id = id := by
  induction h with
  | nil => rfl
  | @cons di di' items items' hread _ ih =>
    obtain ⟨hdi, hrest⟩ := List.forall_mem_cons.1 hlists
    by_cases hid : di.id = id
    · obtain ⟨xs, rfl⟩ := hdi hid
      obtain rfl := hread.extensions hsizes hinfo htype
      rw [List.filter_cons, List.filter_cons, ih hrest]
    · have hid' : ¬ di'.id = id := by
        rw [hread.1]
        exact hid
      rw [List.filter_cons_of_neg (by simpa using hid'),
        List.filter_cons_of_neg (by simpa using hid), ih hrest]

/-- The lists of extensions that one end has put into a message are those that the other end finds
in it. -/
theorem Frames.extensions_across (hsizes : cfg.SameSizes cfg')
    (hshared : cfg.SharesMessage cfg' name) {id : DataItemIdType}
    (hid : cfg'.getDataItemId "Extensions_Supported" none = .ok id)
    (htype : cfg'.getDataItemValueType "Extensions_Supported" = .ok .vExtid)
    (hpm : Frames cfg name pm items body) (h : Accepts cfg' false pm.msgbuf logPrefix pm₀ pm')
    (hlists : ∀ di ∈ items, di.id = id → ∃ xs, di = .mk id (.vExtid xs)) :
    (pm'.dataItems.filter fun di => di.id = id) = items.filter fun di => di.id = id := by
  obtain ⟨info, hinfo, hty⟩ := cfg'.info_of_getDataItemId htype hid
  exact filter_of_readAs hsizes hinfo hty (hpm.readAs hsizes hshared h) hlists

/-- With one configuration on both ends, signals are read like messages. -/
theorem Frames.readAs_self (hpm : Frames cfg name pm items body)
    (h : Accepts cfg pm.isSignal pm.msgbuf logPrefix pm₀ pm') :
    List.Forall₂ (ReadAs cfg cfg) items pm'.dataItems := by
  obtain ⟨length, body', ⟨id, forms, _, _, _, hforms, rfl, hbuf⟩, _⟩ := accepts_iff.1 ⟨pm', h, rfl⟩
  obtain ⟨ws, hws, rfl⟩ := serializeSubDataItems_ok.1 hpm.body
  rw [hpm.msgbuf, frame] at hbuf
  obtain ⟨_, hbuf⟩ := List.append_inj hbuf (by rw [length_idBytes, length_idBytes])
  obtain ⟨_, hbody⟩ := List.append_inj hbuf (by simp)
  exact readAs_of_forms ⟨rfl, rfl, rfl, rfl, rfl⟩ hws hforms hbody

omit [AddressText] in
/-- A data item that is put into a message by its name stands behind those that the message has. -/
theorem Frames.addNamed {diName : String} {value : DataItemValue}
    (hpm : Frames cfg name pm items body)
    (h : ProtocolMessage.addNamed cfg diName value pm = .ok pm') :
    ∃ id body', cfg.getDataItemId diName none = .ok id ∧
      Frames cfg name pm' (items ++ [.mk id value]) body' := by
  obtain ⟨di, hdi, hadd⟩ := bind_eq_ok.1 h
  obtain ⟨id, hid, hdi⟩ := bind_eq_ok.1 hdi
  obtain rfl := Except.ok.inj hdi
  obtain ⟨w, _, hframes⟩ := hpm.addDataItem hadd
  exact ⟨id, _, hid, hframes⟩

omit [AddressText] in
/-- The value that was put into a message first for a data item is found in it. -/
theorem getDataItemValue_of_readAs {α : Type} {get : DataItemValue → Option α} {a : α}
    {diName : String} {id : DataItemIdType} {value : DataItemValue} {before after : DataItems}
    (hid : cfg'.getDataItemId diName none = .ok id)
    (htype : cfg'.getDataItemValueType diName = .ok value.getType) (hplain : value.Plain)
    (hbefore : ∀ di ∈ before, di.id ≠ id) (hget : get value = some a)
    (h : List.Forall₂ (ReadAs cfg cfg') (before ++ .mk id value :: after) pm'.dataItems) :
    getDataItemValue cfg' diName get pm' = .ok a := by
  obtain ⟨info, hinfo, hty⟩ := cfg'.info_of_getDataItemId htype hid
  obtain ⟨di', hfind, hread⟩ := find?_of_readAs hbefore h
  obtain rfl := hread.plain hinfo hty hplain
  rw [getDataItemValue, hid, ok_bind, hfind]
  simp only [DataItem.value, hget]
  rfl

end

end ProtocolMessage

end Dlep
