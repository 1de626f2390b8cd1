import Dlep.ProtocolMessage.Grammar

/-!
# Messages that can be composed

A data item can be put into a message if it can be written and the body still fits the length
field. A message whose data items are all acceptable to the configuration, in the numbers it
allows, is parsed and checked without an error. The functions that fill a message only put data
items behind those that are there, so that the message keeps its name, and a MAC address that was
put into it first is the one that is found in it.
-/

namespace Dlep

/-- A data item that is read back, printed and checked without an error. -/
structure DataItem.Acceptable (cfg : ProtocolConfig) (di : DataItem) : Prop where
  wellTyped : di.WellTyped cfg none
  decodable : di.Everywhere DataItemValue.Decodable
  resolves : di.Resolves cfg none
  conforms : di.Conforms Reading.machine cfg none

/-- For a value without sub data items, only its type and its limits count. -/
theorem DataItem.acceptable_of_plain {cfg : ProtocolConfig} {id : DataItemIdType}
    {value : DataItemValue} {info : DataItemInfo} (hinfo : cfg.getDataItemInfo id none = .ok info)
    (htype : value.getType = info.valueType) (hplain : value.isContainer = false)
    (hdec : value.Decodable) (hlimits : value.KeepsLimits Reading.machine cfg info) :
    DataItem.Acceptable cfg (.mk id value) := by
  have hsubs : value.subItems = [] := by
    cases value with
    | subDataItems items => cases hplain
    | u16SubDataItems f1 items => cases hplain
    | _ => rfl
  refine ⟨.mk hinfo htype ?_, .mk hdec ?_, .mk hinfo ?_, .mk hinfo htype hlimits ?_ ?_⟩
  · simp [hsubs]
  · simp [hsubs]
  · simp [hsubs]
  · simp [hplain]
  · simp [hsubs]

namespace ProtocolMessage

variable {cfg : ProtocolConfig} {name : String} {pm : ProtocolMessage} {items : DataItems}
  {body : Bytes}

/-- The size of the buffer, which the source holds in a `std::vector`. -/
theorem Frames.length_msgbuf (hpm : Frames cfg name pm items body) :
    pm.msgbuf.length = pm.headerLength + body.length := by
  rw [hpm.msgbuf, frame, hpm.headerLength, hpm.msgLenIndex, List.length_append, List.length_append,
    BigEndian.length_encode]
  omega

/-- A data item can be put into a message if it can be written, its name is known, and the body
still fits. -/
theorem Frames.exists_addDataItem (hpm : Frames cfg name pm items body) {di : DataItem} {w : Bytes}
    {diName : String} (hser : di.serialize cfg = .ok w)
    (hname : cfg.getDataItemName di.id none = .ok diName)
    (hfit : (body ++ w).length < 256 ^ cfg.signalLengthSize.1)
    (hsize : pm.headerLength + (body ++ w).length < 2 ^ 63) :
    ∃ pm', ProtocolMessage.addDataItem cfg di pm = .ok pm' := by
  obtain ⟨q, hq⟩ : ∃ q, q = ({ pm with msgbuf := pm.msgbuf ++ w } : ProtocolMessage) := ⟨_, rfl⟩
  have hbuf : pm.msgbuf ++ w = idBytes cfg pm.isSignal pm.signalId ++
      (BigEndian.encode cfg.signalLengthSize body.length ++ (body ++ w)) := by
    simp [hpm.msgbuf, frame]
  have hlength : (pm.msgbuf ++ w).length < 2 ^ 63 := by
    rw [List.length_append, hpm.length_msgbuf]
    rw [List.length_append] at hsize
    omega
  have hupdate := (@updateMessageLength_ok cfg q _ _ (body ++ w) body.length
    (by rw [hq]; exact hpm.msgLenIndex)
    (by rw [hq, ← hpm.msgLenIndex]; exact hpm.headerLength) (by rw [hq]; exact hbuf)).2
    ⟨by rw [hq]; exact hlength, hfit, rfl⟩
  obtain ⟨pm', hpm'⟩ : ∃ pm', pm' = ({ q with msgbuf := idBytes cfg pm.isSignal pm.signalId ++
    (BigEndian.encode cfg.signalLengthSize (body ++ w).length ++ (body ++ w)) } :
      ProtocolMessage) := ⟨_, rfl⟩
  rw [← hpm'] at hupdate
  have hsignal : pm'.getSignalName cfg = .ok name := by
    refine getSignalName_of_getSignalId ?_ ?_
    · rw [hpm', hq]
      exact hpm.signalId
    · rw [hpm', hq]
      exact hpm.initialized
  refine ⟨pm', ?_⟩
  rw [ProtocolMessage.addDataItem, hser, ok_bind, ← hq, hupdate, ok_bind, hname, ok_bind, hsignal]
  rfl

variable [AddressText]

/-- A message of acceptable data items, in the numbers that are allowed, from a sender who may send
it: it is parsed and checked without an error. -/
theorem Frames.parseAndValidate (hrefs : cfg.DistinctReferences) (hnames : cfg.NamesDisjoint)
    (hpm : Frames cfg name pm items body) {siginfo : SignalInfo} {modemSender : Bool}
    (hinfo : cfg.infoOfId pm.isSignal pm.signalId = some siginfo)
    (hsender : siginfo.flags &&& SignalInfo.senderFlag modemSender ≠ 0)
    (hoccurs : OccurrencesConform Reading.machine items siginfo.dataItems)
    (hitems : ∀ di ∈ items, di.Acceptable cfg) (logPrefix : Bytes) :
    ∃ pm', ProtocolMessage.parseAndValidate cfg modemSender logPrefix pm = .ok ([], pm') ∧
      Frames cfg name pm' items body ∧ pm'.dataItems = items := by
  obtain ⟨pm', hparse, _, hread⟩ :=
    (hpm.parseBuffer_iff (fun di hdi => (hitems di hdi).wellTyped) logPrefix pm).2 fun di hdi =>
      ⟨(hitems di hdi).decodable, (hitems di hdi).resolves⟩
  have hparse : ProtocolMessage.parse cfg logPrefix pm = .ok ([], pm') := hparse
  have hframes := hpm.parse hparse
  have hsame := Prod.mk.inj (Except.ok.inj (hframes.signalId.symm.trans hpm.signalId))
  have hvalid : validate cfg modemSender pm' = .ok [] := by
    refine (validate_eq_nil_iff hrefs hnames
      (getSignalName_of_getSignalId hframes.signalId hframes.initialized)).2 ?_
    refine ⟨siginfo, ?_, hsender, ?_, ?_⟩
    · rw [hsame.1, hsame.2]
      exact hinfo
    · rw [hread]
      exact hoccurs
    · rw [hread]
      exact fun di hdi => (hitems di hdi).conforms
  refine ⟨pm', ?_, hframes, hread⟩
  rw [ProtocolMessage.parseAndValidate, hparse, ok_bind]
  simp only [ne_eq, not_true_eq_false, if_false, hvalid, ok_bind]
  rfl

/-! ## Filling a message -/

/-- The function only puts data items into a message. -/
def Adds (cfg : ProtocolConfig) (build : ProtocolMessage → Except Exn ProtocolMessage) : Prop :=
  ∀ (name : String) (pm pm' : ProtocolMessage) (items : DataItems), Building cfg name pm items →
    build pm = .ok pm' → ∃ more, Building cfg name pm' (items ++ more)

/-- The function only puts data items into a message, and all of them have the property. -/
def Puts (cfg : ProtocolConfig) (P : DataItem → Prop)
    (build : ProtocolMessage → Except Exn ProtocolMessage) : Prop :=
  ∀ (name : String) (pm pm' : ProtocolMessage) (items : DataItems), Building cfg name pm items →
    build pm = .ok pm' → ∃ more, Building cfg name pm' (items ++ more) ∧ ∀ di ∈ more, P di

/-- The data item has one of the names. -/
def Named (cfg : ProtocolConfig) (names : List String) (di : DataItem) : Prop :=
  ∃ diName ∈ names, cfg.getDataItemId diName none = .ok di.id

/-- The data items that a message gets for its name. -/
def commonNames : List String :=
  ["Version", "Heartbeat_Interval", "Peer_Type", "Experimental_Definition", "Status"]

section

variable {P : DataItem → Prop}

/-- What puts data items with a property in only adds data items. -/
theorem Puts.adds {build : ProtocolMessage → Except Exn ProtocolMessage} (h : Puts cfg P build) :
    Adds cfg build := by
  intro name pm pm' items hpm hbuild
  obtain ⟨more, hmore, _⟩ := h name pm pm' items hpm hbuild
  exact ⟨more, hmore⟩

/-- Adding is putting without a property. -/
theorem adds_iff_puts {build : ProtocolMessage → Except Exn ProtocolMessage} :
    Adds cfg build ↔ Puts cfg (fun _ => True) build := by
  refine ⟨fun h name pm pm' items hpm hbuild => ?_, Puts.adds⟩
  obtain ⟨more, hmore⟩ := h name pm pm' items hpm hbuild
  exact ⟨more, hmore, fun _ _ => trivial⟩

/-- Leaving the message puts nothing in. -/
theorem puts_ok : Puts cfg P .ok := by
  intro name pm pm' items hpm h
  obtain rfl := Except.ok.inj h
  exact ⟨[], by simpa using hpm, by simp⟩

/-- Functions that put data items in do so in a row. -/
theorem puts_bind {f g : ProtocolMessage → Except Exn ProtocolMessage} (hf : Puts cfg P f)
    (hg : Puts cfg P g) : Puts cfg P fun pm => f pm >>= g := by
  intro name pm pm' items hpm h
  obtain ⟨pm₁, h₁, h₂⟩ := bind_eq_ok.1 h
  obtain ⟨more, hpm₁, hmore⟩ := hf _ _ _ _ hpm h₁
  obtain ⟨more', hpm', hmore'⟩ := hg _ _ _ _ hpm₁ h₂
  exact ⟨more ++ more', by simpa using hpm', List.forall_mem_append.2 ⟨hmore, hmore'⟩⟩

/-- What is looked up first does not put anything into the message. -/
theorem puts_lookup {α : Type} {x : ProtocolMessage → Except Exn α}
    {f : α → ProtocolMessage → Except Exn ProtocolMessage} (hf : ∀ a, Puts cfg P (f a)) :
    Puts cfg P fun pm => x pm >>= fun a => f a pm := by
  intro name pm pm' items hpm h
  obtain ⟨a, _, h⟩ := bind_eq_ok.1 h
  exact hf a _ _ _ _ hpm h

/-- Either branch puts data items in. -/
theorem puts_ite {c : Prop} [Decidable c] {f g : ProtocolMessage → Except Exn ProtocolMessage}
    (hf : Puts cfg P f) (hg : Puts cfg P g) : Puts cfg P fun pm => if c then f pm else g pm := by
  by_cases hc : c
  · simpa only [hc, if_true] using hf
  · simpa only [hc, if_false] using hg

/-- One data item with the property. -/
theorem puts_addDataItem {di : DataItem} (hdi : P di) : Puts cfg P (addDataItem cfg di) := by
  intro name pm pm' items hpm h
  exact ⟨[di], .addDataItem hpm h, by simpa using hdi⟩

/-- Data items with the property. -/
theorem puts_addDataItems {more : DataItems} (hmore : ∀ di ∈ more, P di) :
    Puts cfg P (addDataItems cfg more) := by
  induction more with
  | nil => exact puts_ok
  | cons di more ih =>
    obtain ⟨hdi, hmore⟩ := List.forall_mem_cons.1 hmore
    exact puts_bind (puts_addDataItem hdi) (ih hmore)

/-- A data item that is made by its name has the name. -/
theorem puts_addNamed {names : List String} {diName : String} {value : DataItemValue}
    (hname : diName ∈ names) : Puts cfg (Named cfg names) (addNamed cfg diName value) := by
  intro name pm pm' items hpm h
  obtain ⟨di, hdi, hadd⟩ := bind_eq_ok.1 h
  obtain ⟨id, hid, hdi⟩ := bind_eq_ok.1 hdi
  obtain rfl := Except.ok.inj hdi
  exact puts_addDataItem ⟨diName, hname, hid⟩ _ _ _ _ hpm hadd

/-- Of the given data items, those are put into a message that it may have. -/
theorem puts_addAllowedDataItems {more : DataItems} (hmore : ∀ di ∈ more, P di) :
    Puts cfg P (addAllowedDataItems cfg more) :=
  puts_lookup fun _ => puts_lookup fun _ => puts_addDataItems fun di hdi =>
    hmore di (List.mem_filter.1 hdi).1

/-- The heartbeat interval is one of the common data items. -/
theorem puts_addHeartbeatInterval {client : ClientParameters} :
    Puts cfg (Named cfg commonNames) (addHeartbeatInterval cfg client) := by
  refine puts_lookup fun info => ?_
  cases info.valueType with
  | u16 => exact puts_addNamed (by decide)
  | u32 => exact puts_addNamed (by decide)
  | _ => exact puts_ok

/-- The peer type is one of the common data items. -/
theorem puts_addPeerType {client : ClientParameters} :
    Puts cfg (Named cfg commonNames) (addPeerType cfg client) := by
  have hadd : ∀ value : DataItemValue, Puts cfg (Named cfg commonNames)
      (addNamed cfg "Peer_Type" value) := fun value => puts_addNamed (by decide)
  unfold addPeerType
  by_cases hknown : client.peerType.isSome
  · simp only [hknown, if_true, pure_bind, Bool.false_eq_true, if_false]
    exact puts_lookup fun _ => puts_ite (hadd _) (hadd _)
  · simp only [hknown, Bool.false_eq_true, if_false]
    refine puts_lookup fun optional => ?_
    cases optional with
    | true => exact puts_ok
    | false => exact puts_lookup fun _ => puts_ite (hadd _) (hadd _)

/-- The experiment name is one of the common data items. -/
theorem puts_addExperimentNames : Puts cfg (Named cfg commonNames) (addExperimentNames cfg) := by
  unfold addExperimentNames
  induction cfg.getExperimentNames with
  | nil => exact puts_ok
  | cons en names ih => exact puts_bind (puts_addNamed (by decide)) ih

/-- The status is one of the common data items. -/
theorem puts_addStatus {status : String} {reason : Bytes} :
    Puts cfg (Named cfg commonNames) (addStatus cfg status reason) :=
  puts_lookup fun _ => puts_lookup fun _ =>
    puts_ite (puts_addNamed (by decide)) (puts_addNamed (by decide))

/-- The common data items are among those with the common names. -/
theorem puts_addCommonDataItems {client : ClientParameters} :
    Puts cfg (Named cfg commonNames) (addCommonDataItems cfg client) := by
  refine puts_lookup fun _ => puts_lookup fun siginfo => ?_
  induction siginfo.dataItems with
  | nil => exact puts_ok
  | cons difs refs ih =>
    refine puts_lookup fun _ => puts_ite (puts_bind (puts_addNamed (by decide)) ih) ?_
    refine puts_ite (puts_bind puts_addHeartbeatInterval ih) ?_
    refine puts_ite (puts_bind puts_addPeerType ih) ?_
    refine puts_ite (puts_bind puts_addExperimentNames ih) ?_
    exact puts_ite (puts_bind puts_addStatus ih) (puts_bind puts_ok ih)

end

/-- Leaving the message adds nothing. -/
theorem adds_ok : Adds cfg .ok := adds_iff_puts.2 puts_ok

/-- Functions that add data items do so in a row. -/
theorem adds_bind {f g : ProtocolMessage → Except Exn ProtocolMessage} (hf : Adds cfg f)
    (hg : Adds cfg g) : Adds cfg fun pm => f pm >>= g :=
  adds_iff_puts.2 (puts_bind (adds_iff_puts.1 hf) (adds_iff_puts.1 hg))

/-- Either branch adds data items. -/
theorem adds_ite {c : Prop} [Decidable c] {f g : ProtocolMessage → Except Exn ProtocolMessage}
    (hf : Adds cfg f) (hg : Adds cfg g) : Adds cfg fun pm => if c then f pm else g pm :=
  adds_iff_puts.2 (puts_ite (adds_iff_puts.1 hf) (adds_iff_puts.1 hg))

/-- Data items are added. -/
theorem adds_addDataItems {more : DataItems} : Adds cfg (addDataItems cfg more) :=
  adds_iff_puts.2 (puts_addDataItems fun _ _ => trivial)

/-- Those data items that the message may have are added. -/
theorem adds_addAllowedDataItems {more : DataItems} : Adds cfg (addAllowedDataItems cfg more) :=
  adds_iff_puts.2 (puts_addAllowedDataItems fun _ _ => trivial)

/-- A data item that is made by its name is added. -/
theorem adds_addNamed {diName : String} {value : DataItemValue} :
    Adds cfg (addNamed cfg diName value) :=
  (puts_addNamed (List.mem_singleton.2 rfl)).adds

/-- A status is added. -/
theorem adds_addStatus {status : String} {reason : Bytes} :
    Adds cfg (addStatus cfg status reason) :=
  puts_addStatus.adds

/-- The common data items are added. -/
theorem adds_addCommonDataItems {client : ClientParameters} :
    Adds cfg (addCommonDataItems cfg client) :=
  puts_addCommonDataItems.adds

/-! ## The MAC address of a message -/

/-- Checking a message leaves it as it was parsed. -/
theorem parse_of_parseAndValidate {modemSender : Bool} {logPrefix err : Bytes}
    {pm' : ProtocolMessage}
    (h : ProtocolMessage.parseAndValidate cfg modemSender logPrefix pm = .ok (err, pm')) :
    ∃ err', ProtocolMessage.parse cfg logPrefix pm = .ok (err', pm') := by
  obtain ⟨⟨err', pm₁⟩, hparse, h⟩ := bind_eq_ok.1 h
  dsimp only at h
  split at h
  · obtain ⟨_, rfl⟩ := Prod.mk.inj (Except.ok.inj h)
    exact ⟨err', hparse⟩
  · obtain ⟨_, _, h⟩ := bind_eq_ok.1 h
    obtain ⟨_, rfl⟩ := Prod.mk.inj (Except.ok.inj h)
    exact ⟨err', hparse⟩

end ProtocolMessage

/-- MAC Address is a MAC address, as `get_mac` takes it to be. -/
def ProtocolConfig.TypesMac (cfg : ProtocolConfig) : Prop :=
  cfg.getDataItemValueType "MAC_Address" = .ok .dlepmac

/-- The type that is configured for a name is that of its id. -/
theorem ProtocolConfig.info_of_getDataItemId {cfg : ProtocolConfig} {name : String}
    {ty : DataItemValueType} {id : DataItemIdType} (h : cfg.getDataItemValueType name = .ok ty)
    (hid : cfg.getDataItemId name none = .ok id) :
    ∃ info, cfg.getDataItemInfo id none = .ok info ∧ info.valueType = ty := by
  have hname : cfg.getDataItemName id none = .ok name := by
    simp only [ProtocolConfig.getDataItemId, ProtocolConfig.subDataItemId?, Option.bind_none] at hid
    cases hright : cfg.dataItemMap.right name with
    | none =>
      rw [hright] at hid
      cases hid
    | some id' =>
      rw [hright] at hid
      obtain rfl := Except.ok.inj hid
      have hleft := cfg.dataItemMap.left_eq_some_iff_right.2 hright
      simp [ProtocolConfig.getDataItemName, ProtocolConfig.subDataItemName?, hleft]
  unfold ProtocolConfig.getDataItemValueType at h
  cases hinfo : cfg.dataItemInfoMap[name]? with
  | none =>
    rw [hinfo] at h
    cases h
  | some info =>
    rw [hinfo] at h
    refine ⟨info, ?_, Except.ok.inj h⟩
    rw [ProtocolConfig.getDataItemInfo, hname, ok_bind]
    exact cfg.getDataItemInfoByName_eq_ok.2 hinfo

/-- What is configured for the MAC address. -/
theorem ProtocolConfig.TypesMac.info {cfg : ProtocolConfig} (h : cfg.TypesMac) {id : DataItemIdType}
    (hid : cfg.getDataItemId "MAC_Address" none = .ok id) :
    ∃ info, cfg.getDataItemInfo id none = .ok info ∧ info.valueType = .dlepmac :=
  cfg.info_of_getDataItemId h hid

namespace ProtocolMessage

variable [AddressText] {cfg : ProtocolConfig} {name : String} {pm pm' : ProtocolMessage}

/-- The MAC address that was put into a message first is found in it, even if the message cannot be
parsed to its end. -/
theorem Frames.getMac {mac : DlepMac} {id : DataItemIdType} {more : DataItems} {body : Bytes}
    {logPrefix err : Bytes} {q : ProtocolMessage} (htypes : cfg.TypesMac)
    (hid : cfg.getDataItemId "MAC_Address" none = .ok id)
    (hpm : Frames cfg name pm (.mk id (.dlepmac mac) :: more) body)
    (hbuf : q.msgbuf = pm.msgbuf) (hsignal : q.isSignal = pm.isSignal)
    (h : ProtocolMessage.parse cfg logPrefix q = .ok (err, pm')) : pm'.getMac cfg = .ok mac := by
  obtain ⟨pos, hparse⟩ := parse_frame logPrefix (hsignal ▸ hpm.signalId) hpm.id_fits hpm.body_fits
    hpm.size (by rw [hbuf, hsignal, hpm.msgbuf])
  rw [hparse] at h
  have hread := parseEnd_ok h
  obtain ⟨ws, hws, rfl⟩ := serializeSubDataItems_ok.1 hpm.body
  obtain ⟨info, hinfo, htype⟩ := htypes.info hid
  have hfirst : ∃ rest, pm'.dataItems = .mk id (.dlepmac mac) :: rest := by
    cases hws with
    | @cons _ w _ ws hw _ =>
      have hround := parseDataItem_serialized hw
        (.mk hinfo htype.symm (by simp [DataItemValue.subItems]))
        (.mk (by simp [DataItemValue.Decodable, DataItemValue.ScopeIdZero, DataItemValue.CountFits])
          (by simp [DataItemValue.subItems]))
        (.mk hinfo (by simp [DataItemValue.subItems])) pos ws.flatten
      have hmore : ¬ (ByteReader.Cursor.whole pos (w ++ ws.flatten)).left ≤ 0 := by
        have := List.length_pos_of_ne_nil (DataItem.serialize_ne_nil hw)
        simp only [ByteReader.Cursor.whole, List.length_append]
        omega
      rw [hread, List.nil_append, List.flatten_cons, parseDataItems, if_neg hmore]
      simp only [hround]
      exact ⟨_, rfl⟩
  obtain ⟨rest, hrest⟩ := hfirst
  simp [ProtocolMessage.getMac, getDataItemValue, hid, ok_bind, hrest, DataItem.id, DataItem.value,
    dlepmac?, pure, Except.pure]

/-- A buffer is parsed to the same data items under every log prefix. -/
theorem Frames.exists_parseBuffer {items : DataItems} {body logPrefix err : Bytes}
    (hpm : Frames cfg name pm items body)
    (h : ProtocolMessage.parse cfg logPrefix pm = .ok (err, pm')) (logPrefix' : Bytes)
    (q : ProtocolMessage) : ∃ err' pm'',
      parseBuffer cfg pm.msgbuf pm.isSignal logPrefix' q = .ok (err', pm'') ∧
        (err' = [] ↔ err = []) ∧ pm''.dataItems = pm'.dataItems ∧ pm''.signalId = pm'.signalId ∧
        pm''.signalIdInitialized = true ∧ pm''.isSignal = pm.isSignal := by
  obtain ⟨pos, hparse⟩ :=
    parse_frame_at hpm.signalId hpm.id_fits hpm.body_fits hpm.size
  have hown := hparse logPrefix pm rfl hpm.msgbuf
  have hother :=
    hparse logPrefix' { q with msgbuf := pm.msgbuf, isSignal := pm.isSignal } rfl hpm.msgbuf
  rw [hown] at h
  rw [parseBuffer, hother]
  generalize parseDataItems cfg (body.length + 1) (.whole pos body) = r at h ⊢
  obtain ⟨read, result⟩ := r
  cases result with
  | ok _ =>
    obtain ⟨rfl, rfl⟩ := Prod.mk.inj (Except.ok.inj h)
    exact ⟨_, _, rfl, Iff.rfl, rfl, rfl, rfl, rfl⟩
  | error e =>
    cases e with
    | std cls what =>
      obtain ⟨rfl, rfl⟩ := Prod.mk.inj (Except.ok.inj h)
      refine ⟨_, _, rfl, ?_, rfl, rfl, rfl, rfl⟩
      rw [withLogPrefix_eq_nil, withLogPrefix_eq_nil]
    | _ => cases h

end ProtocolMessage

end Dlep
