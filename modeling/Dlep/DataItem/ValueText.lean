import Dlep.DataItem.TextRoundTrip

/-!
# The text of a value alone

The text of a data item is its name and the text of its value, and the value is read from its text
alone; but for values with sub data items neither is so. `toString` prints them in the scope of
the data item, and `valueToString` in the scope it is given, in which their ids may have other
names or none. And `valueFromString` does not come to the place where sub data items are read: it
makes an empty value.
-/

namespace Dlep

open StringStream hiding get
open ProtocolMessage (nestedItems)

/-- Source: `DataItem::name` (`DataItem.cpp:1070`). -/
def DataItem.name (cfg : ProtocolConfig) (parent : Option DataItemInfo) (di : DataItem) :
    Except Exn String :=
  cfg.getDataItemName di.id parent

section

variable [AddressSyntax]

/-- Source: `DataItem::value_to_string` (`DataItem.cpp:1076`). -/
def DataItem.valueToString (cfg : ProtocolConfig) (parent : Option DataItemInfo) (di : DataItem) :
    Except Exn Bytes :=
  di.value.toString cfg parent

/-! ## What the functions about values are for -/

/-- The text of a top-level data item is its name, a blank and the text of its value. -/
def DataItem.PrintsValue (cfg : ProtocolConfig) (di : DataItem) : Prop :=
  ∃ name text, di.name cfg none = .ok name ∧ di.valueToString cfg none = .ok text ∧
    di.toString cfg none = .ok (str name ++ str " " ++ text)

/-- The text of the value of a top-level data item is read as the value by every data item with
its id and the type of its value. -/
def DataItem.ReadsValue (cfg : ProtocolConfig) (di : DataItem) : Prop :=
  ∃ text, di.valueToString cfg none = .ok text ∧
    ∀ di' : DataItem, di'.id = di.id → di'.value.getType = di.value.getType →
      di'.valueFromString text = .ok di

variable {cfg : ProtocolConfig} {id : DataItemIdType} {value : DataItemValue}
    {parent : Option DataItemInfo}

/-! ## The scope of a text -/

/-- Only sub data items are printed in a scope. -/
theorem toString_scope {scope scope' : Option DataItemInfo}
    (h : ∀ sdi ∈ value.subItems, DataItem.toString cfg scope sdi =
      DataItem.toString cfg scope' sdi) :
    value.toString cfg scope = value.toString cfg scope' := by
  have hitems : ∀ items : DataItems,
      (∀ sdi ∈ items, DataItem.toString cfg scope sdi = DataItem.toString cfg scope' sdi) →
      subDataItemsToString cfg scope items = subDataItemsToString cfg scope' items := by
    intro items
    induction items with
    | nil => intro _; rw [subDataItemsToString, subDataItemsToString]
    | cons sdi items ih =>
      intro hall
      rw [subDataItemsToString, subDataItemsToString, hall sdi List.mem_cons_self,
        ih fun s hs => hall s (List.mem_cons_of_mem _ hs)]
  cases value with
  | subDataItems items => rw [DataItemValue.toString, DataItemValue.toString, hitems items h]
  | u16SubDataItems f1 items => rw [DataItemValue.toString, DataItemValue.toString, hitems items h]
  | _ => rfl

/-- In a scope in which it has the same name, a data item has the same text. -/
theorem DataItem.Printable.toString_none {di : DataItem} (h : di.Printable cfg parent)
    (hname : cfg.getDataItemName di.id none = cfg.getDataItemName di.id parent) :
    di.toString cfg none = di.toString cfg parent := by
  cases h with
  | @mk parent id value info hlisted hinfo htype hname' hsafe hsubs =>
    obtain ⟨name, hgetName, hbyName⟩ := bind_eq_ok.1 hinfo
    rw [DataItem.id_mk] at hname
    rw [DataItem.toString, DataItem.toString, hname, hgetName, ok_bind, ok_bind,
      hbyName, ok_bind, ok_bind]
    dsimp only
    rw [toString_scope fun sdi hsdi => ?_]
    -- with sub data items the list is not empty, and they are printed in the scope of the data item
    cases hsubs sdi hsdi with
    | mk hsub _ _ _ _ _ =>
      obtain ⟨ref, href, -⟩ := List.mem_map.1 (hsub info rfl).mem
      rw [if_pos (List.length_pos_of_mem href), if_pos (List.length_pos_of_mem href)]

/-- The text of a data item begins with its name, if all its sub data items have the same names
outside of it. -/
theorem DataItem.Printable.printsValue (haddr : AddressSyntax.Lawful)
    (h : DataItem.Printable cfg none (.mk id value))
    (hnames : ∀ info, cfg.getDataItemInfo id none = .ok info → ∀ sdi ∈ value.subItems,
      cfg.getDataItemName sdi.id none = cfg.getDataItemName sdi.id (some info)) :
    DataItem.PrintsValue cfg (.mk id value) := by
  obtain ⟨text, htext, -⟩ := h.readBack haddr
  cases h with
  | @mk _ _ _ info hlisted hinfo htype hname hsafe hsubs =>
    obtain ⟨name, hgetName, hbyName⟩ := bind_eq_ok.1 hinfo
    rw [DataItem.toString, hgetName, ok_bind, hbyName, ok_bind] at htext
    dsimp only at htext
    obtain ⟨vtext, hvalue, -⟩ := bind_eq_ok.1 htext
    have hscope : value.toString cfg none =
        value.toString cfg (if info.subDataItems.length > 0 then some info else none) := by
      refine toString_scope fun sdi hsdi => ?_
      split
      · exact (hsubs sdi hsdi).toString_none (hnames info hinfo sdi hsdi)
      · rfl
    refine ⟨name, vtext, hgetName, hscope.trans hvalue, ?_⟩
    rw [DataItem.toString, hgetName, ok_bind, hbyName, ok_bind]
    dsimp only
    rw [hvalue]
    rfl

/-! ## Reading a value -/

/-- A value without sub data items is read from its own text. -/
theorem readsValue_plain (haddr : AddressSyntax.Lawful) (hplain : value.isContainer = false)
    (hsafe : value.TextSafe) : DataItem.ReadsValue cfg (.mk id value) := by
  obtain ⟨text, htext, hread⟩ :=
    @readsAs_parseValue _ haddr cfg none value.getType.toText [] .nil value
    hplain hsafe
  refine ⟨text, htext, fun di' hid htype => ?_⟩
  obtain ⟨ss, hrun, -⟩ := hread.setHex [] (.inl rfl)
  rw [List.nil_append, List.append_nil] at hrun
  rw [DataItem.valueFromString, htype]
  show (valueFromIStringStream value.getType (ready text false) >>= _) = _
  rw [valueFromIStringStream, hrun, ok_bind, hid]
  rfl

/-- A value without any sub data items is read: the parser returns the empty list whatever it
sees. -/
theorem readsValue_empty : DataItem.ReadsValue cfg (.mk id (.subDataItems [])) := by
  refine ⟨_, rfl, fun di' hid htype => ?_⟩
  rw [DataItem.valueFromString, htype, hid]
  rfl

/-- The parser of values returns no sub data items, so that only a value without any is read. -/
theorem DataItem.ReadsValue.empty {items : DataItems}
    (h : DataItem.ReadsValue cfg (.mk id (.subDataItems items))) : items = [] := by
  obtain ⟨text, -, hread⟩ := h
  have hself := hread (.mk id (.subDataItems items)) rfl rfl
  have hempty : (DataItem.mk id (.subDataItems items)).valueFromString text =
      .ok (.mk id (.subDataItems [])) := rfl
  rw [hempty] at hself
  injection hself with heq
  injection heq with _ hvalue
  injection hvalue with hitems
  exact hitems.symm

/-- A number with sub data items is not read: the parser returns a value of another kind. -/
theorem not_readsValue_u16 {f1 : UInt16} {items : DataItems} :
    ¬ DataItem.ReadsValue cfg (.mk id (.u16SubDataItems f1 items)) := by
  rintro ⟨text, -, hread⟩
  cases hread (.mk id (.u16SubDataItems f1 items)) rfl rfl

/-- The functions about values do what they are for exactly if there are no sub data items, nor a
number in front of them. -/
theorem valueText_iff (haddr : AddressSyntax.Lawful) {di : DataItem} (h : di.Printable cfg none) :
    (di.PrintsValue cfg ∧ di.ReadsValue cfg) ↔
      di.value.isContainer = false ∨ di.value = .subDataItems [] := by
  obtain ⟨id, value⟩ := di
  rw [DataItem.value_mk]
  constructor
  · rintro ⟨-, hread⟩
    cases value with
    | subDataItems items => exact .inr (congrArg _ hread.empty)
    | u16SubDataItems f1 items => exact absurd hread not_readsValue_u16
    | _ => exact .inl rfl
  · intro hvalue
    have hnone : value.subItems = [] := by
      rcases hvalue with hplain | rfl
      · cases value with
        | subDataItems items => cases hplain
        | u16SubDataItems f1 items => cases hplain
        | _ => rfl
      · rfl
    refine ⟨h.printsValue haddr fun info _ sdi hsdi => by simp [hnone] at hsdi, ?_⟩
    rcases hvalue with hplain | rfl
    · cases h with
      | mk _ _ _ _ hsafe _ => exact readsValue_plain haddr hplain hsafe
    · exact readsValue_empty

end

/-! ## Values alone -/

attribute [local instance] plainSyntax

/-- An envelope without labels. -/
def emptyEnvelope : DataItem := .mk 1 (.subDataItems [])

/-- The sample envelope can be printed. -/
theorem printable_emptyEnvelope : emptyEnvelope.Printable nestedItems none := by
  have hinfo : nestedItems.getDataItemInfo 1 none = .ok envelopeInfo := by decide +kernel
  exact .mk (fun info hsome => by cases hsome) hinfo rfl
    (isName_of_all (by decide +kernel) (by decide +kernel)) trivial
      (by simp [DataItemValue.subItems])

/-- The value of an envelope is printed and read alone if there are no labels in it, and not if
there are. -/
theorem valueText_iff_envelope :
    (emptyEnvelope.PrintsValue nestedItems ∧ emptyEnvelope.ReadsValue nestedItems) ∧
      ¬ (labels.PrintsValue nestedItems ∧ labels.ReadsValue nestedItems) := by
  refine ⟨(valueText_iff lawful_plainSyntax printable_emptyEnvelope).2 (.inr rfl), fun h => ?_⟩
  rcases (valueText_iff lawful_plainSyntax printable_labels).1 h with hplain | hempty
  · cases hplain
  · cases hempty

/-- The labels of an envelope are groups in the text of its value, and none of them is read. -/
theorem not_valueText_labels :
    labels.Printable nestedItems none ∧ ¬ labels.PrintsValue nestedItems ∧
    ¬ labels.ReadsValue nestedItems := by
  refine ⟨printable_labels, ?_, fun hread => ?_⟩
  · rintro ⟨name, text, hname, htext, hprints⟩
    have hwhole : (labels.toString nestedItems none).toOption =
        some (str "Envelope \x7b Label 5 Label 6 \x7d ") := by decide +kernel
    have hvalue : (labels.valueToString nestedItems none).toOption =
        some (str "\x7b Group 5 Group 6 \x7d ") := by decide +kernel
    have hown : (labels.name nestedItems none).toOption = some "Envelope" := by decide +kernel
    rw [hname] at hown
    rw [htext] at hvalue
    rw [hprints, Option.some.inj hvalue, Option.some.inj hown] at hwhole
    revert hwhole
    decide +kernel
  · have := hread.empty
    cases this

end Dlep
