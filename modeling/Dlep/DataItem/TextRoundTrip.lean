import Dlep.DataItem.ParseValue

/-!
# The text of a data item is read back

A name is looked up in the scope in which it was printed, and in a list with distinct names and
ids it leads back to the id. The sub data items are read one after the other up to the closing
brace, which no name begins with. So a data item is read back whatever it holds, however deep
(`fromString_toString`).
-/

namespace Dlep

open StringStream hiding get
open ProtocolMessage (nestedItems)

/-! ## Names -/

/-- A letter of ASCII, or the first byte of another character. -/
def isLetter (c : UInt8) : Bool := (65 ≤ c && c ≤ 90) || (97 ≤ c && c ≤ 122) || 128 ≤ c

def StartsWithLetter (text : Bytes) : Prop := ∃ c rest, text = c :: rest ∧ isLetter c = true

/-- A name that is read as one word, and not taken for a number or a brace. -/
structure IsName (text : Bytes) : Prop where
  letter : StartsWithLetter text
  space : ∀ c ∈ text, isSpace c = false

/-- A letter belongs to no number, and does not close a list. -/
theorem opens_of_isLetter {c : UInt8} (h : isLetter c = true) : Opens c ∧ c ≠ 125 := by
  have hall : ∀ n < 256, isLetter (UInt8.ofNat n) = true →
      (isSpace (UInt8.ofNat n) = false ∧ isDigit false (UInt8.ofNat n) = false ∧
        UInt8.ofNat n ≠ 43 ∧ UInt8.ofNat n ≠ 45) ∧ UInt8.ofNat n ≠ 125 := by decide +kernel
  have := hall c.toNat c.toNat_lt
  rw [UInt8.ofNat_toNat] at this
  obtain ⟨⟨hspace, hdigit, hsign⟩, hbrace⟩ := this h
  exact ⟨⟨hspace, hdigit, hsign⟩, hbrace⟩

/-- A name is one word. -/
theorem IsName.isWord {text : Bytes} (h : IsName text) : IsWord text := by
  obtain ⟨c, rest, rfl, -⟩ := h.letter
  exact ⟨List.cons_ne_nil _ _, h.space⟩

/-- The text of a name is the name. -/
theorem nameOf_str (name : String) : nameOf (str name) = some name := by
  have hbytes : (str name).toByteArray = name.toUTF8 := by
    rw [str_eq]
    apply ByteArray.ext
    rw [← Array.toList_inj, List.toList_data_toByteArray]
  rw [nameOf, hbytes, String.fromUTF8?]
  simp only [Option.dite_none_right_eq_some]
  exact ⟨name.isValidUTF8, rfl⟩

/-! ## Sub data items -/

section

variable {readItem : TextParser DataItem} {items : DataItems} {texts : List Bytes}

/-- The texts of data items, each of which is read back. -/
def TextsOf (readItem : TextParser DataItem) (items : DataItems) (texts : List Bytes) : Prop :=
  List.Forall₂ (fun sdi text => ReadsAs readItem text sdi ∧ StartsWithLetter text) items texts

/-- The texts with a blank behind each. -/
def spaced (texts : List Bytes) : Bytes := (texts.map fun text => text ++ [32]).flatten

/-- Every text takes a character. -/
theorem length_le_spaced (texts : List Bytes) : texts.length ≤ (spaced texts).length := by
  induction texts with
  | nil => exact Nat.zero_le _
  | cons text texts ih =>
    simp only [spaced, List.map_cons, List.flatten_cons, List.length_append,
      List.length_cons] at ih ⊢
    omega

/-- What stands behind a blank in a list of texts is a name, or the brace that closes the list. -/
theorem spaced_opens (h : TextsOf readItem items texts) (rest : Bytes) :
    ∃ c rest', spaced texts ++ 125 :: rest = c :: rest' ∧ Opens c := by
  cases h with
  | nil => exact ⟨125, rest, rfl, rfl, rfl, by decide, by decide⟩
  | cons hhead _ =>
    obtain ⟨-, c, rest', rfl, hletter⟩ := hhead
    exact ⟨c, _, rfl, (opens_of_isLetter hletter).1⟩

/-- The items are read one after the other, up to the closing brace. -/
theorem subDataItemsUpTo_spaced (h : TextsOf readItem items texts) (rest : Bytes) :
    ∀ (n : Nat) (done : DataItems), texts.length < n →
      subDataItemsUpTo readItem n done (ready (spaced texts ++ 125 :: rest) false) =
        .ok (done ++ items, ready rest false) := by
  induction h with
  | nil =>
    intro n done hn
    obtain ⟨n, rfl⟩ := Nat.exists_eq_succ_of_ne_zero hn.ne_bot
    rw [List.append_nil]
    rfl
  | @cons sdi text items texts hhead htail ih =>
    intro n done hn
    obtain ⟨n, rfl⟩ := Nat.exists_eq_succ_of_ne_zero (by omega : n ≠ 0)
    obtain ⟨hread, c, text', rfl, hletter⟩ := hhead
    obtain ⟨c', rest', hnext, hopens⟩ := spaced_opens htail rest
    obtain ⟨ss, hrun, hleft⟩ :=
      hread (32 :: (c' :: rest')) (.inr ⟨[], c', rest', rfl, .nil, hopens⟩)
    obtain ⟨ws, hws, rfl⟩ := hleft [32] c' rest' rfl (.cons rfl .nil) hopens.space
    have hsplit : spaced ((c :: text') :: texts) ++ 125 :: rest =
        c :: (text' ++ 32 :: (c' :: rest')) := by
      rw [← hnext]
      simp [spaced]
    rw [hsplit, subDataItemsUpTo, bind_of_ok peek_cons,
      if_neg (by simp [(opens_of_isLetter hletter).2]), ← List.cons_append, bind_of_ok hrun,
        bind_of_ok (skipWhitespace_ready hws hopens.space), ← hnext,
      ih n (done ++ [sdi]) (by simpa using hn), List.append_assoc, List.singleton_append]

/-- A list in braces is read, if each of its items is. -/
theorem readsAs_subDataItems {ws : Bytes} (hws : AllSpace ws) (h : TextsOf readItem items texts) :
    ReadsAs (subDataItemsFromIStringStream readItem)
      (ws ++ (str "\x7b " ++ spaced texts ++ str "\x7d ")) items := by
  intro rest _
  have hopen : str "\x7b " = [123, 32] := by decide +kernel
  have hclose : str "\x7d " = [125, 32] := by decide +kernel
  have htoken : str "\x7b" = [123] := by decide +kernel
  have hword : (word : TextParser Bytes)
      (ready (ws ++ ([123] ++ 32 :: (spaced texts ++ 125 :: 32 :: rest))) false) = _ :=
    word_ready hws (List.cons_ne_nil _ _) (by simp [isSpace]) fun c hc => by
      obtain rfl := Option.some.inj hc
      rfl
  obtain ⟨c, rest', hnext, hopens⟩ := spaced_opens h (32 :: rest)
  have hskip : skipWhitespace Exn.outOfFuel (ready ([32] ++ c :: rest') false) = _ :=
    skipWhitespace_ready (.cons rfl .nil) hopens.space
  refine ⟨_, ?_, @left_ready rest [32] (.cons rfl .nil)⟩
  have hsplit : ws ++ (str "\x7b " ++ spaced texts ++ str "\x7d ") ++ rest =
      ws ++ ([123] ++ 32 :: (spaced texts ++ 125 :: 32 :: rest)) := by
    simp [hopen, hclose]
  rw [hsplit, subDataItemsFromIStringStream, bind_of_ok hword, behind_cons, htoken]
  simp only [ne_eq, not_true_eq_false, if_false]
  rw [hnext, ← List.singleton_append, bind_of_ok hskip, ← hnext]
  have hlength := length_le_spaced texts
  exact subDataItemsUpTo_spaced h (32 :: rest) _ [] (by simp [ready]; omega)

end

/-! ## Data items -/

/-- The names and the ids of a list of references are distinct. -/
structure DistinctRefs (refs : List SubDataItem) : Prop where
  ids : (refs.map SubDataItem.id).Nodup
  names : (refs.map SubDataItem.name).Nodup

/-- An id of a list; the loader leaves no reference without one. -/
structure Listed (refs : List SubDataItem) (id : DataItemIdType) : Prop extends
    DistinctRefs refs where
  mem : id ∈ refs.map SubDataItem.id
  defined : id ≠ idUndefined

/-- A data item, and in it sub data items from the lists of their parents, with unambiguous values
and names. -/
inductive DataItem.Printable (cfg : ProtocolConfig) : Option DataItemInfo → DataItem → Prop where
  | mk {parent : Option DataItemInfo} {id : DataItemIdType} {value : DataItemValue}
      {info : DataItemInfo}
      (hlisted : ∀ parentInfo ∈ parent, Listed parentInfo.subDataItems id)
      (hinfo : cfg.getDataItemInfo id parent = .ok info) (htype : value.getType = info.valueType)
      (hname : IsName (str info.name)) (hsafe : value.TextSafe)
      (hsubs : ∀ sdi ∈ value.subItems, Printable cfg (some info) sdi) :
      Printable cfg parent (.mk id value)

section

variable [AddressSyntax] {cfg : ProtocolConfig} {parent : Option DataItemInfo} {id : DataItemIdType}

omit [AddressSyntax] in
/-- The name of a data item leads back to its id. -/
theorem getDataItemId_of_name {name : String}
    (hlisted : ∀ parentInfo ∈ parent, Listed parentInfo.subDataItems id)
    (hname : cfg.getDataItemName id parent = .ok name) :
    cfg.getDataItemId name parent = .ok id := by
  cases parent with
  | none =>
    have hleft : cfg.dataItemMap.left id = some name := by
      simp only [ProtocolConfig.getDataItemName, ProtocolConfig.subDataItemName?,
        Option.bind_none] at hname
      split at hname
      · next hleft => rw [hleft, Except.ok.inj hname]
      · cases hname
    simp [ProtocolConfig.getDataItemId, ProtocolConfig.subDataItemId?,
      cfg.dataItemMap.left_eq_some_iff_right.1 hleft]
  | some info =>
    have hlist := hlisted info rfl
    obtain ⟨ref, href, rfl⟩ := List.mem_map.1 hlist.mem
    have huniqueId : ∀ r ∈ info.subDataItems, r.id = ref.id → r = ref := fun r hr heq =>
      List.inj_on_of_nodup_map hlist.ids hr href heq
    have huniqueName : ∀ r ∈ info.subDataItems, r.name = ref.name → r = ref := fun r hr heq =>
      List.inj_on_of_nodup_map hlist.names hr href heq
    obtain ⟨r, hr⟩ : ∃ r, info.subDataItems.find? (fun sdi => sdi.id = ref.id) = some r :=
      Option.isSome_iff_exists.1 (List.find?_isSome.2 ⟨ref, href, by simp⟩)
    obtain rfl := huniqueId r (List.mem_of_find?_eq_some hr) (by simpa using List.find?_some hr)
    obtain rfl : r.name = name := by
      simpa [ProtocolConfig.getDataItemName, ProtocolConfig.subDataItemName?, hr] using hname
    obtain ⟨r', hr'⟩ : ∃ r', info.subDataItems.find?
        (fun sdi => sdi.name = r.name ∧ sdi.id ≠ idUndefined) = some r' :=
      Option.isSome_iff_exists.1 (List.find?_isSome.2 ⟨r, href, by simpa using hlist.defined⟩)
    have hsame : r' = r := huniqueName r' (List.mem_of_find?_eq_some hr')
      (by have := List.find?_some hr'; simp_all)
    simp only [ProtocolConfig.getDataItemId, ProtocolConfig.subDataItemId?, Option.bind_some, hr',
      Option.map_some, hsame]

/-- A name, a blank and the text of a value are read as the data item. -/
theorem readsAs_item {info : DataItemInfo} {value : DataItemValue} {text : Bytes} {n : Nat}
    (hid : cfg.getDataItemId info.name parent = .ok id)
    (hinfo : cfg.getDataItemInfoByName info.name = .ok info) (hname : IsName (str info.name))
    (hvalue : ReadsAs (itemValueFromIStringStream (DataItem.fromIStringStreamUpTo cfg n (some info))
      info.valueType) (str " " ++ text) value) :
    ReadsAs (DataItem.fromIStringStreamUpTo cfg (n + 1) parent) (str info.name ++ str " " ++ text)
      (.mk id value) := by
  intro rest hrest
  obtain ⟨ss, hrun, hleft⟩ := hvalue.map (DataItem.mk id) rest hrest
  have hword : (word : TextParser Bytes)
      (ready ([] ++ (str info.name ++ 32 :: (text ++ rest))) false) = _ :=
    word_ready .nil hname.isWord.1 hname.space fun c hc => by
      obtain rfl := Option.some.inj hc
      rfl
  have hlift : ∀ {α : Type} {x : Except Exn α} {a : α} {ss : Stream}, x = .ok a →
      (liftM x : TextParser α) ss = .ok (a, ss) := by
    rintro α x a ss rfl
    rfl
  have hlookId : ProtocolConfig.lookUp (fun name => cfg.getDataItemId name parent) (str info.name) =
      .ok id := by
    rw [ProtocolConfig.lookUp, nameOf_str]
    exact hid
  have hlookInfo : ProtocolConfig.lookUp cfg.getDataItemInfoByName (str info.name) = .ok info := by
    rw [ProtocolConfig.lookUp, nameOf_str]
    exact hinfo
  refine ⟨ss, ?_, hleft⟩
  rw [str_blank] at hrun ⊢
  simp only [List.append_assoc, List.cons_append, List.nil_append] at hword hrun ⊢
  rw [DataItem.fromIStringStreamUpTo, bind_of_ok hword, behind_cons, bind_of_ok fail_ready]
  simp only [Bool.false_eq_true, if_false]
  rw [bind_of_ok (hlift hlookId), bind_of_ok (hlift hlookInfo)]
  exact hrun

/-- The data item has a text, which begins with its name, and a parser that goes deep enough reads
it. -/
def DataItem.TextReadBack (cfg : ProtocolConfig) (parent : Option DataItemInfo)
    (di : DataItem) : Prop :=
  ∃ text, di.toString cfg parent = .ok text ∧ StartsWithLetter text ∧
    ∀ n, text.length < n → ReadsAs (DataItem.fromIStringStreamUpTo cfg n parent) text di

/-- A data item is read back if its value is. -/
theorem DataItem.readBack_of_value {info : DataItemInfo} {value : DataItemValue} {text : Bytes}
    (hid : cfg.getDataItemId info.name parent = .ok id)
    (hgetName : cfg.getDataItemName id parent = .ok info.name)
    (hinfo : cfg.getDataItemInfoByName info.name = .ok info) (hname : IsName (str info.name))
    (htext : value.toString cfg (if info.subDataItems.length > 0 then some info else parent) =
      .ok text)
    (hread : ∀ n, text.length < n → ReadsAs (itemValueFromIStringStream
      (DataItem.fromIStringStreamUpTo cfg n (some info)) info.valueType) (str " " ++ text) value) :
    DataItem.TextReadBack cfg parent (.mk id value) := by
  refine ⟨str info.name ++ str " " ++ text, ?_, ?_, fun n hn => ?_⟩
  · rw [DataItem.toString, hgetName, ok_bind, hinfo, ok_bind]
    dsimp only
    rw [htext, ok_bind]
    rfl
  · obtain ⟨c, rest, hletter, hc⟩ := hname.letter
    exact ⟨c, _, by rw [hletter]; rfl, hc⟩
  · obtain ⟨n, rfl⟩ := Nat.exists_eq_succ_of_ne_zero (by omega : n ≠ 0)
    have hpos := List.length_pos_of_ne_nil hname.isWord.1
    simp only [List.length_append] at hn
    exact readsAs_item hid hinfo hname (hread n (by omega))

/-- The texts of data items that are read back, one after the other. -/
theorem exists_textsOf {items : DataItems} (h : ∀ sdi ∈ items, sdi.TextReadBack cfg parent) :
    ∃ texts, subDataItemsToString cfg parent items = .ok (spaced texts) ∧
      ∀ n, (spaced texts).length < n →
        TextsOf (DataItem.fromIStringStreamUpTo cfg n parent) items texts := by
  induction items with
  | nil => exact ⟨[], rfl, fun _ _ => .nil⟩
  | cons sdi items ih =>
    obtain ⟨text, htext, hletter, hread⟩ := h sdi List.mem_cons_self
    obtain ⟨texts, htexts, hreads⟩ := ih fun s hs => h s (List.mem_cons_of_mem _ hs)
    refine ⟨text :: texts, ?_, fun n hn => ?_⟩
    · rw [subDataItemsToString, htext, ok_bind, htexts, ok_bind, str_blank]
      simp [spaced, pure, Except.pure]
    · have hlength : (spaced (text :: texts)).length = text.length + 1 + (spaced texts).length := by
        simp only [spaced, List.map_cons, List.flatten_cons, List.length_append,
          List.length_singleton]
      exact .cons ⟨hread n (by omega), hletter⟩ (hreads n (by omega))

section

variable {readItem : TextParser DataItem} {items : DataItems} {texts : List Bytes}

/-- A value without sub data items has a text, and is read from it. -/
theorem readsAs_itemValue_plain (haddr : AddressSyntax.Lawful) {scope : Option DataItemInfo}
    {value : DataItemValue} (hplain : value.isContainer = false) (hsafe : value.TextSafe) :
    ∃ text, value.toString cfg scope = .ok text ∧ ∀ readItem : TextParser DataItem,
      ReadsAs (itemValueFromIStringStream readItem value.getType) (str " " ++ text) value := by
  obtain ⟨text, htext, hread⟩ :=
    @readsAs_parseValue _ haddr cfg scope value.getType.toText (str " ")
    allSpace_blank value hplain hsafe
  have hne : value.getType ≠ .subDataItems ∧ value.getType ≠ .u16SubDataItems := by
    cases value with
    | subDataItems items => cases hplain
    | u16SubDataItems f1 items => cases hplain
    | _ => exact ⟨by simp [DataItemValue.getType], by simp [DataItemValue.getType]⟩
  refine ⟨text, htext, fun readItem => ?_⟩
  rw [itemValueFromIStringStream, if_neg hne.1, if_neg hne.2]
  exact hread.setHex

/-- A value that is a list of data items is read, if each of them is. -/
theorem readsAs_itemValue_subDataItems (h : TextsOf readItem items texts) :
    ReadsAs (itemValueFromIStringStream readItem .subDataItems)
      (str " " ++ (str "\x7b " ++ spaced texts ++ str "\x7d ")) (.subDataItems items) := by
  rw [itemValueFromIStringStream, if_pos rfl]
  exact (readsAs_subDataItems allSpace_blank h).map DataItemValue.subDataItems

/-- A value that is a number and a list of data items is read, if each of them is. -/
theorem readsAs_itemValue_u16SubDataItems {f1 : UInt16} (h : TextsOf readItem items texts) :
    ReadsAs (itemValueFromIStringStream readItem .u16SubDataItems)
      (str " " ++ (decimal f1.toNat ++ str ";" ++ (str "\x7b " ++ spaced texts ++ str "\x7d ")))
      (.u16SubDataItems f1 items) := by
  have htail := (readsAs_subDataItems .nil h).map (DataItemValue.u16SubDataItems f1)
  rw [itemValueFromIStringStream, if_neg (by simp), if_pos rfl]
  exact (readsAs_field (k := fun f1 => do
    return DataItemValue.u16SubDataItems f1 (← subDataItemsFromIStringStream readItem))
      allSpace_blank
    (by omega : 16 ≤ 64) f1.toNat_lt UInt16.ofNat_toNat htail).setHex

end

/-- Sub data items are printed in the scope of the data item, which is where they are read. -/
theorem DataItem.Printable.scope {info : DataItemInfo} {items : DataItems}
    (h : ∀ sdi ∈ items, DataItem.Printable cfg (some info) sdi)
    (hread : ∀ sdi ∈ items, sdi.TextReadBack cfg (some info)) :
    ∃ texts, subDataItemsToString cfg
      (if info.subDataItems.length > 0 then some info else parent) items =
        .ok (spaced texts) ∧
      ∀ n, (spaced texts).length < n →
        TextsOf (DataItem.fromIStringStreamUpTo cfg n (some info)) items texts := by
  cases items with
  | nil => exact ⟨[], by rw [subDataItemsToString]; rfl, fun _ _ => .nil⟩
  | cons sdi items =>
    have hpos : info.subDataItems.length > 0 := by
      cases h sdi List.mem_cons_self with
      | mk hlisted _ _ _ _ _ =>
        obtain ⟨ref, href, -⟩ := List.mem_map.1 (hlisted info rfl).mem
        exact List.length_pos_of_mem href
    rw [if_pos hpos]
    exact exists_textsOf hread

/-- Every printable data item is read back. -/
theorem DataItem.Printable.readBack (haddr : AddressSyntax.Lawful) {di : DataItem}
    (h : di.Printable cfg parent) : di.TextReadBack cfg parent := by
  induction h with
  | @mk parent id value info hlisted hinfo htype hname hsafe hsubs ih =>
    obtain ⟨name, hgetName, hbyName⟩ := bind_eq_ok.1 hinfo
    obtain rfl : info.name = name :=
      cfg.dataItemInfo_name _ _ (cfg.getDataItemInfoByName_eq_ok.1 hbyName)
    have hid := getDataItemId_of_name hlisted hgetName
    cases hplain : value.isContainer with
    | false =>
      obtain ⟨text, htext, hread⟩ := @readsAs_itemValue_plain _ cfg haddr
        (if info.subDataItems.length > 0 then some info else parent) value hplain hsafe
      exact readBack_of_value hid hgetName hbyName hname htext fun n _ => htype ▸ hread _
    | true =>
      cases value with
      | subDataItems items =>
        obtain ⟨texts, htexts, hreads⟩ := @Printable.scope _ cfg parent info items hsubs ih
        refine @readBack_of_value _ cfg _ id info _ (str "\x7b " ++ spaced texts ++ str "\x7d ")
          hid hgetName
          hbyName hname ?_ fun n hn => ?_
        · rw [DataItemValue.toString, htexts]
          rfl
        · rw [← htype]
          simp only [List.length_append] at hn
          exact readsAs_itemValue_subDataItems (hreads n (by omega))
      | u16SubDataItems f1 items =>
        obtain ⟨texts, htexts, hreads⟩ := @Printable.scope _ cfg parent info items hsubs ih
        refine @readBack_of_value _ cfg _ id info _
          (decimal f1.toNat ++ str ";" ++ (str "\x7b " ++ spaced texts ++ str "\x7d "))
            hid hgetName hbyName
          hname ?_ fun n hn => ?_
        · rw [DataItemValue.toString, htexts]
          simp [pure, Except.pure]
        · rw [← htype]
          simp only [List.length_append] at hn
          exact readsAs_itemValue_u16SubDataItems (hreads n (by omega))
      | _ => cases hplain

/-- The text of a data item is read back as the data item. -/
theorem DataItem.fromString_toString (haddr : AddressSyntax.Lawful) {di : DataItem}
    (h : di.Printable cfg parent) :
    ∃ text, di.toString cfg parent = .ok text ∧ DataItem.fromString cfg text parent = .ok di := by
  obtain ⟨text, htext, -, hread⟩ := h.readBack haddr
  obtain ⟨ss, hrun, -⟩ := hread (text.length + 1) (Nat.lt_succ_self _) [] (.inl rfl)
  rw [List.append_nil] at hrun
  refine ⟨text, htext, ?_⟩
  rw [DataItem.fromString, DataItem.fromIStringStream]
  show (DataItem.fromIStringStreamUpTo cfg (text.length + 1) parent (ready text false) >>= _) = _
  rw [hrun]
  rfl

end

/-! ## Addresses without abbreviation -/

/-- The bytes whose numbers stand between separators. -/
def bytesOf (hex : Bool) (sep : UInt8) (text : Bytes) : Option Bytes :=
  let fields := text.splitOn sep
  if fields.all fun field => field.all (isDigit hex) && ofDigits hex field < 256 then
    some (fields.map fun field => UInt8.ofNat (ofDigits hex field))
  else none

/-- The printing without abbreviation, and its parsing. -/
abbrev plainSyntax : AddressSyntax where
  toAddressText := plainText
  v4FromString text := (bytesOf false 46 text).map AddressV4.ofBytes
  v6FromString text := (bytesOf true 58 text).map AddressV6.ofBytes

/-- A property of characters holds of a joined text if it holds of the parts and the separator. -/
theorem forall_mem_intercalate {P : UInt8 → Prop} {sep : UInt8} (hsep : P sep) :
    ∀ {fields : List Bytes}, (∀ field ∈ fields, ∀ c ∈ field, P c) →
      ∀ c ∈ [sep].intercalate fields, P c
  | [], _ => by simp
  | [field], h => by simpa using h
  | field :: field' :: fields, h => by
    have htail := @forall_mem_intercalate P sep hsep (field' :: fields)
      fun f hf => h f (List.mem_cons_of_mem _ hf)
    intro c hc
    rw [List.intercalate_cons_cons, List.append_assoc] at hc
    rcases List.mem_append.1 hc with hfirst | hrest
    · exact h field List.mem_cons_self c hfirst
    · rcases List.mem_cons.1 hrest with rfl | hlast
      · exact hsep
      · exact htail c hlast

section

variable {hex : Bool} {sep : UInt8} {digits : UInt8 → Bytes} {bs : Bytes}

/-- Bytes are read from their numbers and the separators between them. -/
theorem bytesOf_intercalate (hsep : isDigit hex sep = false)
    (hdigits : ∀ b, ∀ c ∈ digits b, isDigit hex c = true)
    (hvalue : ∀ b, ofDigits hex (digits b) = b.toNat)
    (hne : bs ≠ []) : bytesOf hex sep ([sep].intercalate (bs.map digits)) = some bs := by
  have hsplit : ([sep].intercalate (bs.map digits)).splitOn sep = bs.map digits := by
    refine List.splitOn_intercalate sep (fun field hfield hmem => ?_) (by simpa using hne)
    obtain ⟨b, -, rfl⟩ := List.mem_map.1 hfield
    rw [hdigits b sep hmem] at hsep
    cases hsep
  have hall : (bs.map digits).all
    (fun field => field.all (isDigit hex) && ofDigits hex field < 256) =
      true := by
    rw [List.all_eq_true]
    intro field hfield
    obtain ⟨b, -, rfl⟩ := List.mem_map.1 hfield
    rw [hvalue, Bool.and_eq_true_iff, List.all_eq_true, decide_eq_true_iff]
    exact ⟨hdigits b, b.toNat_lt⟩
  have hbytes : (bs.map digits).map (fun field => UInt8.ofNat (ofDigits hex field)) = bs := by
    rw [List.map_map]
    exact List.map_id'' (fun b => by simp [hvalue]) bs
  rw [bytesOf, hsplit, hall, if_pos rfl, hbytes]

/-- Numbers between separators are no white space. -/
theorem isAddressText_intercalate (hsep : isSpace sep = false ∧ isFieldSeparator (some sep) = false)
    (hdigits : ∀ b, ∀ c ∈ digits b, isDigit hex c = true) (hnil : ∀ b, digits b ≠ [])
    (hne : bs ≠ []) :
    IsAddressText ([sep].intercalate (bs.map digits)) := by
  have hsafe : ∀ c, isDigit hex c = true → isSpace c = false ∧
      isFieldSeparator (some c) = false := by
    intro c hc
    refine ⟨(isDigit_le hc).1, ?_⟩
    have hno : isDigit hex 59 = false ∧ isDigit hex 47 = false := by cases hex <;> decide
    simp only [isFieldSeparator, Option.some.injEq, Bool.or_eq_false_iff, decide_eq_false_iff_not]
    exact ⟨fun heq => by simp [heq, hno.1] at hc, fun heq => by simp [heq, hno.2] at hc⟩
  have hall : ∀ c ∈ [sep].intercalate (bs.map digits),
      isSpace c = false ∧ isFieldSeparator (some c) = false := by
    refine forall_mem_intercalate hsep fun field hfield c hc => ?_
    obtain ⟨b, -, rfl⟩ := List.mem_map.1 hfield
    exact hsafe c (hdigits b c hc)
  refine ⟨?_, fun c hc => (hall c hc).1, fun c hc => (hall c hc).2⟩
  cases bs with
  | nil => exact absurd rfl hne
  | cons b bs =>
    cases bs with
    | nil => simpa using hnil b
    | cons b' bs => simp [hnil b]

end

/-- The plain printing of addresses meets what is relied on. -/
theorem lawful_plainSyntax : @AddressSyntax.Lawful plainSyntax := by
  have hdot : str "." = [46] := by decide +kernel
  have hv4 : ∀ a : AddressV4, a.bytes ≠ [] := fun a h => by simpa [h] using a.length_eq
  have hv6 : ∀ a : AddressV6, a.bytes ≠ [] := fun a h => by simpa [h] using a.length_eq
  refine @AddressSyntax.Lawful.mk plainSyntax ?_ ?_ ?_ ?_
  · intro a
    show IsAddressText ((str ".").intercalate _)
    rw [hdot]
    exact isAddressText_intercalate (by decide) (fun b => isDigit_decimal b.toNat)
      (fun b => decimal_ne_nil b.toNat) (hv4 a)
  · intro a
    show (bytesOf false 46 ((str ".").intercalate _)).map _ = _
    rw [hdot, bytesOf_intercalate (by decide) (fun b => isDigit_decimal b.toNat)
      (fun b => ofDigits_decimal b.toNat) (hv4 a), Option.map_some, AddressV4.ofBytes_bytes]
  · intro a _
    show IsAddressText ((str ":").intercalate _)
    rw [str_colon]
    exact isAddressText_intercalate (by decide) (fun b => (hexByte_digits b).1)
      (fun b => List.cons_ne_nil _ _) (hv6 a)
  · intro a ha
    show (bytesOf true 58 ((str ":").intercalate _)).map _ = _
    rw [str_colon, bytesOf_intercalate (by decide) (fun b => (hexByte_digits b).1)
      (fun b => (hexByte_digits b).2) (hv6 a), Option.map_some, AddressV6.ofBytes_bytes ha]

/-- An envelope with two labels. -/
def labels : DataItem := .mk 1 (.subDataItems [.mk 2 (.u8 5), .mk 2 (.u8 6)])

/-- A text is a name if it begins with a letter and has no white space, which can be computed. -/
theorem isName_of_all {text : Bytes} (h : (text.head?.map isLetter).getD false = true)
    (hspace : text.all (fun c => !isSpace c) = true) : IsName text := by
  cases text with
  | nil => cases h
  | cons c rest =>
    refine ⟨⟨c, rest, rfl, by simpa using h⟩, fun c' hc' => ?_⟩
    simpa using List.all_eq_true.1 hspace c' hc'

/-- What is configured for an envelope. -/
def envelopeInfo : DataItemInfo :=
  { Rfc8175.item "Envelope" 1 .subDataItems with
    subDataItems := [⟨"Label", 2, .zeroOrMore⟩, ⟨"Box", 3, .zeroOrMore⟩] }

/-- The sample envelope can be printed. -/
theorem printable_labels : labels.Printable nestedItems none := by
  have hlisted : Listed envelopeInfo.subDataItems 2 :=
    ⟨⟨by decide, by decide⟩, by decide, by decide⟩
  have hlabel : ∀ val, (DataItem.mk 2 (.u8 val)).Printable nestedItems (some envelopeInfo) := by
    intro val
    have hinfo : nestedItems.getDataItemInfo 2 (some envelopeInfo) =
        .ok (Rfc8175.item "Label" idUndefined .u8) := by decide +kernel
    refine .mk (fun info hsome => ?_) hinfo rfl
      (isName_of_all (by decide +kernel) (by decide +kernel))
      trivial (by simp [DataItemValue.subItems])
    obtain rfl := Option.some.inj hsome
    exact hlisted
  have hinfo : nestedItems.getDataItemInfo 1 none = .ok envelopeInfo := by decide +kernel
  refine .mk (fun info hsome => by cases hsome) hinfo rfl
    (isName_of_all (by decide +kernel) (by decide +kernel)) trivial fun sdi hsdi => ?_
  simp only [DataItemValue.subItems, List.mem_cons, List.not_mem_nil, or_false] at hsdi
  rcases hsdi with rfl | rfl
  · exact hlabel 5
  · exact hlabel 6

/-- The address `10.0.0.1` is added. -/
def addedAddress : DataItem := .mk 8 (.u8Ipv4 1 (.ofBytes [10, 0, 0, 1]))

/-- The sample address can be printed. -/
theorem printable_addedAddress : addedAddress.Printable rfc8175 none := by
  have hinfo : rfc8175.getDataItemInfo 8 none = .ok (Rfc8175.item "IPv4_Address" 8 .u8Ipv4) := by
    decide +kernel
  exact .mk (fun info hsome => by cases hsome) hinfo rfl
    (isName_of_all (by decide +kernel) (by decide +kernel)) trivial
      (by simp [DataItemValue.subItems])

/-- The labels are read back, although their id has another name outside the envelope; and so is an
address. -/
theorem fromString_toString_labels :
    (∃ text, @DataItem.toString plainText nestedItems none labels = .ok text ∧
      @DataItem.fromString plainSyntax nestedItems text none = .ok labels) ∧
    ∃ text, @DataItem.toString plainText rfc8175 none addedAddress = .ok text ∧
      @DataItem.fromString plainSyntax rfc8175 text none = .ok addedAddress :=
  ⟨@DataItem.fromString_toString plainSyntax nestedItems none lawful_plainSyntax labels
    printable_labels, @DataItem.fromString_toString plainSyntax rfc8175 none
      lawful_plainSyntax addedAddress
      printable_addedAddress⟩

end Dlep
