import Dlep.DataItem.RoundTrip
import Dlep.ProtocolMessage

/-!
# Parsing what was built

A message under construction is its header, whose length field counts the bytes behind it, followed
by the data items added so far: `Frames` says so, and every building operation keeps it. From it the
framer finds the end of the message (`Frames.isCompleteMessage`), and the parser finds its data
items (`Frames.parse`). The parser prints every data item for the log, and printing looks up nested
ids in other scopes than reading does; `Resolves` says when the printing does not throw.
-/

namespace Dlep

open ByteReader

/-! ## When printing returns -/

/-- The scope in which the sub data items of a data item are printed: its own, if its configuration
lists sub data items, else the one it was printed in. -/
def printScope (info : DataItemInfo) (parent : Option DataItemInfo) : Option DataItemInfo :=
  if info.subDataItems.length > 0 then some info else parent

/-- The id of the data item, and of everything in it, is found where `toString` looks it up. -/
inductive DataItem.Resolves (cfg : ProtocolConfig) : Option DataItemInfo → DataItem → Prop where
  | mk {parent : Option DataItemInfo} {id : DataItemIdType} {value : DataItemValue}
      {info : DataItemInfo} (hinfo : cfg.getDataItemInfo id parent = .ok info)
      (hsubs : ∀ sdi ∈ value.subItems, Resolves cfg (printScope info parent) sdi) :
      Resolves cfg parent (.mk id value)

section

variable [AddressText] {cfg : ProtocolConfig}

/-- A list of data items can be printed exactly if each of them can. -/
theorem subDataItemsToString_ok {parent : Option DataItemInfo} {items : DataItems} :
    (∃ text, subDataItemsToString cfg parent items = .ok text) ↔
      ∀ di ∈ items, ∃ text, di.toString cfg parent = .ok text := by
  induction items with
  | nil => simp [subDataItemsToString]
  | cons di items ih =>
    simp only [subDataItemsToString, bind_eq_ok, pure, Except.pure, Except.ok.injEq,
      List.forall_mem_cons, ← ih]
    constructor
    · rintro ⟨_, text, htext, texts, htexts, rfl⟩
      exact ⟨⟨text, htext⟩, texts, htexts⟩
    · rintro ⟨⟨text, htext⟩, texts, htexts⟩
      exact ⟨_, text, htext, texts, htexts, rfl⟩

/-- The printing of a value only fails in its sub data items. -/
theorem DataItemValue.toString_ok {parent : Option DataItemInfo} {value : DataItemValue} :
    (∃ text, value.toString cfg parent = .ok text) ↔
      ∀ sdi ∈ value.subItems, ∃ text, sdi.toString cfg parent = .ok text := by
  cases value with
  | subDataItems items =>
    rw [DataItemValue.subItems, ← subDataItemsToString_ok]
    exact exists_bind_pure_eq_ok
  | u16SubDataItems f1 items =>
    rw [DataItemValue.subItems, ← subDataItemsToString_ok]
    exact exists_bind_pure_eq_ok
  | _ => simp [DataItemValue.toString, DataItemValue.subItems]

/-- A data item can be printed exactly if its id is found and its sub data items can be printed.
-/
theorem DataItem.toString_ok {parent : Option DataItemInfo} {id : DataItemIdType}
    {value : DataItemValue} :
    (∃ text, (DataItem.mk id value).toString cfg parent = .ok text) ↔
      ∃ info, cfg.getDataItemInfo id parent = .ok info ∧
        ∀ sdi ∈ value.subItems, ∃ text, sdi.toString cfg (printScope info parent) = .ok text := by
  simp only [DataItem.toString, bind_eq_ok, pure, Except.pure, Except.ok.injEq,
    ProtocolConfig.getDataItemInfo, ← DataItemValue.toString_ok]
  constructor
  · rintro ⟨_, name, hname, info, hinfo, text, htext, rfl⟩
    exact ⟨info, ⟨name, hname, hinfo⟩, text, htext⟩
  · rintro ⟨info, ⟨name, hname, hinfo⟩, text, htext⟩
    exact ⟨_, name, hname, info, hinfo, text, htext, rfl⟩

/-- Printing returns exactly if every id is found. -/
theorem DataItem.toString_ok_iff_resolves {parent : Option DataItemInfo} {di : DataItem} :
    (∃ text, di.toString cfg parent = .ok text) ↔ di.Resolves cfg parent := by
  induction di using DataItem.nesting_induction generalizing parent with
  | mk id value ih =>
    rw [DataItem.toString_ok]
    constructor
    · rintro ⟨info, hinfo, hsubs⟩
      exact .mk hinfo fun sdi hsdi => (ih sdi hsdi).1 (hsubs sdi hsdi)
    · rintro ⟨hinfo, hsubs⟩
      exact ⟨_, hinfo, fun sdi hsdi => (ih sdi hsdi).2 (hsubs sdi hsdi)⟩

end

/-! ## Messages under construction -/

namespace ProtocolMessage

/-- The messages that can be built for a name, with the data items that were put into them. -/
inductive Building [AddressText] (cfg : ProtocolConfig) (name : String) :
    ProtocolMessage → DataItems → Prop where
  | addHeader {pm : ProtocolMessage} (h : addHeader cfg name {} = .ok pm) : Building cfg name pm []
  | addDataItem {pm pm' : ProtocolMessage} {items : DataItems} {di : DataItem}
      (hpm : Building cfg name pm items) (h : addDataItem cfg di pm = .ok pm') :
      Building cfg name pm' (items ++ [di])
  | rebuild {pm pm' : ProtocolMessage} {items items' : DataItems} {modemSender : Bool}
      {err : Bytes} (hpm : Building cfg name pm items)
      (h : rebuildFromDataItems cfg modemSender items' pm = .ok (err, pm')) :
      Building cfg name pm' items'

/-- What stands in front of the length field: the prefix of a signal, and the id. -/
def idBytes (cfg : ProtocolConfig) (isSignal : Bool) (id : SignalIdType) : Bytes :=
  (if isSignal then str cfg.signalPrefix else []) ++ BigEndian.encode cfg.signalIdSize id.toNat

/-- The buffer of a message: its id, the length of the body, and the body. -/
def frame (cfg : ProtocolConfig) (isSignal : Bool) (id : SignalIdType) (body : Bytes) : Bytes :=
  idBytes cfg isSignal id ++ (BigEndian.encode cfg.signalLengthSize body.length ++ body)

/-- `pm` holds the header of `name` and the data items `items`, whose bytes are `body`. -/
structure Frames (cfg : ProtocolConfig) (name : String) (pm : ProtocolMessage) (items : DataItems)
    (body : Bytes) : Prop where
  signalId : cfg.getSignalId name = .ok (pm.signalId, pm.isSignal)
  initialized : pm.signalIdInitialized = true
  id_fits : pm.signalId.toNat < 256 ^ cfg.signalIdSize.1
  msgLenIndex : pm.msgLenIndex = (idBytes cfg pm.isSignal pm.signalId).length
  headerLength : pm.headerLength = pm.msgLenIndex + cfg.signalLengthSize.1
  msgbuf : pm.msgbuf = frame cfg pm.isSignal pm.signalId body
  body_fits : body.length < 256 ^ cfg.signalLengthSize.1
  size : body.length < 2 ^ 63
  body : serializeSubDataItems cfg items [] = .ok body

variable {cfg : ProtocolConfig} {name : String} {pm pm' : ProtocolMessage} {items : DataItems}
  {body : Bytes}

/-- A message with nothing but a header is framed. -/
theorem frames_addHeader (h : addHeader cfg name {} = .ok pm) : Frames cfg name pm [] [] := by
  simp only [addHeader, bind_eq_ok] at h
  obtain ⟨⟨id, isSignal⟩, hid, withId, hwith, msgbuf, hbuf, hpm⟩ := h
  obtain ⟨hfit, rfl⟩ := (serializeField_ok (by exact id.toNat_lt)).1 hwith
  obtain ⟨hlen, rfl⟩ := (serializeField_ok (by norm_num)).1 hbuf
  obtain rfl := Except.ok.inj hpm
  exact ⟨hid, rfl, hfit, by simp [idBytes], by simp [Nat.add_assoc], by simp [frame, idBytes],
    by simp, by simp, rfl⟩

/-- Writing the length field: the bytes behind the header are counted, and must fit it. -/
theorem updateMessageLength_ok {p q : ProtocolMessage} {start new : Bytes} {old : Nat}
    (hidx : p.msgLenIndex = start.length)
    (hhdr : p.headerLength = start.length + cfg.signalLengthSize.1)
    (hbuf : p.msgbuf = start ++ (BigEndian.encode cfg.signalLengthSize old ++ new)) :
    updateMessageLength cfg p = .ok q ↔
      p.msgbuf.length < 2 ^ 63 ∧ new.length < 256 ^ cfg.signalLengthSize.1 ∧
        q = { p with msgbuf :=
          start ++ (BigEndian.encode cfg.signalLengthSize new.length ++ new) } := by
  have hpos := cfg.signalLengthSize.2.1
  have hlen : p.msgbuf.length = start.length + (cfg.signalLengthSize.1 + new.length) := by
    simp [hbuf]
  have hsub : p.msgbuf.length - p.headerLength = new.length := by omega
  have hge : p.headerLength ≤ p.msgbuf.length := by omega
  have hidxlt : p.msgLenIndex < p.msgbuf.length := by omega
  have hat : start.length ≠ p.msgbuf.length := by omega
  have hroom : ¬ p.msgbuf.length < start.length + cfg.signalLengthSize.1 := by omega
  have htake : p.msgbuf.take start.length = start := by simp [hbuf]
  have hdrop : p.msgbuf.drop (start.length + cfg.signalLengthSize.1) = new := by
    rw [hbuf, ← List.drop_drop, List.drop_left]
    exact List.drop_left' (BigEndian.length_encode _ _)
  simp only [updateMessageLength, bind_eq_ok, assertThat_ok, decide_eq_true_eq, vectorSize_ok]
  constructor
  · rintro ⟨_, -, _, -, _, ⟨hsize, rfl⟩, out, hout, hpm⟩
    have hnew : new.length < 256 ^ 8 := by
      refine lt_trans ?_ (show 2 ^ 63 < 256 ^ 8 by norm_num)
      omega
    rw [hsub, hidx] at hout
    simp only [serializeAt, bind_eq_ok, checkFits_ok hnew, hat, if_false, hroom, htake, hdrop,
      fieldBytes_eq_encode hnew, pure, Except.pure, Except.ok.injEq] at hout
    obtain ⟨_, hfit, rfl⟩ := hout
    refine ⟨hsize, hfit, ?_⟩
    simpa [pure, Except.pure, eq_comm] using hpm
  · rintro ⟨hsize, hfit, rfl⟩
    have hnew : new.length < 256 ^ 8 := by
      refine lt_trans ?_ (show 2 ^ 63 < 256 ^ 8 by norm_num)
      omega
    refine ⟨(), hge, (), hidxlt, _, ⟨hsize, rfl⟩, _, ?_, rfl⟩
    rw [hsub, hidx]
    simp only [serializeAt, bind_eq_ok, checkFits_ok hnew, hat, if_false, hroom, htake, hdrop,
      fieldBytes_eq_encode hnew, pure, Except.pure, Except.ok.injEq]
    exact ⟨(), hfit, by simp⟩

/-- A data item that is added stands behind the others, and the length counts it. -/
theorem Frames.addDataItem {di : DataItem} (hpm : Frames cfg name pm items body)
    (h : ProtocolMessage.addDataItem cfg di pm = .ok pm') :
    ∃ w, di.serialize cfg = .ok w ∧ Frames cfg name pm' (items ++ [di]) (body ++ w) := by
  simp only [ProtocolMessage.addDataItem, bind_eq_ok] at h
  obtain ⟨w, hw, pm₁, hupd, _, _, _, _, hpm'⟩ := h
  obtain rfl := Except.ok.inj hpm'
  have hbuf : pm.msgbuf ++ w = idBytes cfg pm.isSignal pm.signalId ++
      (BigEndian.encode cfg.signalLengthSize body.length ++ (body ++ w)) := by
    simp [hpm.msgbuf, frame]
  obtain ⟨hsize, hfit, rfl⟩ := (updateMessageLength_ok (p := { pm with msgbuf := pm.msgbuf ++ w })
    hpm.msgLenIndex (by rw [← hpm.msgLenIndex]; exact hpm.headerLength) hbuf).1 hupd
  refine ⟨w, hw, hpm.signalId, hpm.initialized, hpm.id_fits, hpm.msgLenIndex, hpm.headerLength,
    rfl, hfit, ?_, ?_⟩
  · have : (body ++ w).length ≤ (pm.msgbuf ++ w).length := by
      simp only [hbuf, List.length_append]
      omega
    exact lt_of_le_of_lt this hsize
  · obtain ⟨ws, hws, rfl⟩ := serializeSubDataItems_ok.1 hpm.body
    refine serializeSubDataItems_ok.2 ⟨ws ++ [w], ?_, by simp⟩
    exact List.rel_append hws (.cons hw .nil)

/-- Data items that are added one after the other stand behind the others. -/
theorem Frames.addDataItems {more : DataItems} (hpm : Frames cfg name pm items body)
    (h : ProtocolMessage.addDataItems cfg more pm = .ok pm') :
    ∃ rest, Frames cfg name pm' (items ++ more) (body ++ rest) := by
  induction more generalizing pm items body with
  | nil =>
    obtain rfl := Except.ok.inj h
    exact ⟨[], by simpa using hpm⟩
  | cons di more ih =>
    rw [ProtocolMessage.addDataItems, bind_eq_ok] at h
    obtain ⟨pm₁, hadd, hrest⟩ := h
    obtain ⟨w, _, hframes⟩ := hpm.addDataItem hadd
    obtain ⟨rest, hall⟩ := ih hframes hrest
    exact ⟨w ++ rest, by simpa using hall⟩

/-- A message that is cleared has its header. -/
theorem Frames.clearDataItems (hpm : Frames cfg name pm items body)
    (h : ProtocolMessage.clearDataItems cfg pm = .ok pm') : Frames cfg name pm' [] [] := by
  simp only [ProtocolMessage.clearDataItems, bind_eq_ok] at h
  obtain ⟨_, _, pm₁, hupd, hpm'⟩ := h
  obtain rfl := Except.ok.inj hpm'
  have hbuf : padTo pm.headerLength pm.msgbuf = idBytes cfg pm.isSignal pm.signalId ++
      (BigEndian.encode cfg.signalLengthSize body.length ++ []) := by
    have hlen : (idBytes cfg pm.isSignal pm.signalId ++
        BigEndian.encode cfg.signalLengthSize body.length).length = pm.headerLength := by
      rw [hpm.headerLength, hpm.msgLenIndex, List.length_append, BigEndian.length_encode]
    rw [padTo, hpm.msgbuf, frame, ← List.append_assoc, List.append_assoc _ body,
      List.take_left' hlen, List.append_nil]
  obtain ⟨_, hfit, rfl⟩ :=
    (updateMessageLength_ok (p := { pm with msgbuf := padTo pm.headerLength pm.msgbuf })
      hpm.msgLenIndex (by rw [← hpm.msgLenIndex]; exact hpm.headerLength) hbuf).1 hupd
  exact ⟨hpm.signalId, hpm.initialized, hpm.id_fits, hpm.msgLenIndex, hpm.headerLength, rfl, hfit,
    by simp, rfl⟩

/-! ## Framing -/

/-- The size of the header of a message. -/
def headerSize (cfg : ProtocolConfig) : Nat := cfg.signalIdSize.1 + cfg.signalLengthSize.1

/-- The number in the id field of a header. -/
def idField (cfg : ProtocolConfig) (buf : Bytes) : Nat :=
  BigEndian.decode (buf.take cfg.signalIdSize)

/-- The number in the length field of a header. -/
def lengthField (cfg : ProtocolConfig) (buf : Bytes) : Nat :=
  BigEndian.decode ((buf.drop cfg.signalIdSize).take cfg.signalLengthSize)

/-- A header has a byte. -/
theorem headerSize_pos (cfg : ProtocolConfig) : 0 < headerSize cfg :=
  Nat.add_pos_left cfg.signalIdSize.2.1 _

/-- A header has at most sixteen bytes. -/
theorem headerSize_le (cfg : ProtocolConfig) : headerSize cfg ≤ 16 :=
  Nat.add_le_add cfg.signalIdSize.2.2 cfg.signalLengthSize.2.2

/-- A length is below what its field can hold. -/
theorem lengthField_lt_of_le {cfg : ProtocolConfig} {n : Nat} (h : cfg.signalLengthSize.1 ≤ n)
    (buf : Bytes) : lengthField cfg buf < 256 ^ n :=
  BigEndian.decode_lt_of_length_le ((List.length_take_le _ _).trans h)

/-- A length is below 2^64. -/
theorem lengthField_lt (cfg : ProtocolConfig) (buf : Bytes) : lengthField cfg buf < 2 ^ 64 :=
  (lengthField_lt_of_le cfg.signalLengthSize.2.2 buf).trans_eq (by norm_num)

/-- What the code finds: the size of the header and of what it announces, in 64 bits. -/
theorem isCompleteMessage_run (cfg : ProtocolConfig) (buf : Bytes) :
    isCompleteMessage cfg buf =
      if buf.length < headerSize cfg then .ok none
      else if idField cfg buf < 2 ^ 32 then
        .ok (if (headerSize cfg + lengthField cfg buf) % 2 ^ 64 ≤ buf.length then
          some ((headerSize cfg + lengthField cfg buf) % 2 ^ 64) else none)
      else throwStd .invalidArgument (decimal (idField cfg buf) ++ str " cannot fit in " ++
        decimal 4 ++ str " bytes") := by
  have hid : deserializeField 4 cfg.signalIdSize (.range 0 buf []) =
      if buf.length < cfg.signalIdSize.1 then .error endOfInput
      else if idField cfg buf < 256 ^ 4 then
        .ok (idField cfg buf, .range (0 + cfg.signalIdSize) (buf.drop cfg.signalIdSize) [])
      else throwStd .invalidArgument (decimal (idField cfg buf) ++ str " cannot fit in " ++
        decimal 4 ++ str " bytes") := deserializeField_range 4 cfg.signalIdSize.2.2 0 buf []
  have hlength : deserializeField 8 cfg.signalLengthSize
      (.range (0 + cfg.signalIdSize) (buf.drop cfg.signalIdSize) []) =
      if (buf.drop cfg.signalIdSize).length < cfg.signalLengthSize then .error endOfInput
      else if lengthField cfg buf < 256 ^ 8 then
        .ok (lengthField cfg buf, .range (0 + cfg.signalIdSize + cfg.signalLengthSize)
          ((buf.drop cfg.signalIdSize).drop cfg.signalLengthSize) [])
      else throwStd .invalidArgument (decimal (lengthField cfg buf) ++ str " cannot fit in " ++
        decimal 8 ++ str " bytes") :=
    deserializeField_range 8 cfg.signalLengthSize.2.2 _ (buf.drop cfg.signalIdSize) []
  unfold isCompleteMessage
  rw [ByteReader.Cursor.whole_eq_range]
  by_cases hshort : buf.length < headerSize cfg
  · rw [if_pos hshort]
    exact if_pos hshort
  · rw [if_neg hshort]
    refine (if_neg hshort).trans ?_
    have hsum : ¬ buf.length < cfg.signalIdSize.1 + cfg.signalLengthSize.1 := hshort
    have hlt := lengthField_lt cfg buf
    rw [if_neg (by omega)] at hid
    rw [if_neg (by rw [List.length_drop]; omega), if_pos (hlt.trans_eq (by norm_num))] at hlength
    rw [hid, show (256 ^ 4 : Nat) = 2 ^ 32 by norm_num]
    by_cases hfits : idField cfg buf < 2 ^ 32
    · rw [if_pos hfits, if_pos hfits, ok_bind]
      dsimp only
      rw [hlength]
      rfl
    · rw [if_neg hfits, if_neg hfits]
      rfl

section

variable {id : SignalIdType} (hid : id.toNat < 256 ^ cfg.signalIdSize.1)
  (hlen : body.length < 256 ^ cfg.signalLengthSize.1) (hsize : body.length < 2 ^ 63)

include hid in

/-- The id in a header is read back. -/
theorem deserialize_frameId (pos : Nat) (w : Bytes) :
    deserializeField 4 cfg.signalIdSize
        (.whole pos (BigEndian.encode cfg.signalIdSize id.toNat ++ w)) =
      .ok (id.toNat, .whole (pos + cfg.signalIdSize) w) := by
  have h := reads_deserializeField 4 cfg.signalIdSize.2.2 id.toNat_lt hid pos w
    (cfg.signalIdSize.1 + w.length) (by simp)
  simpa [Cursor.whole] using h

include hlen hsize in

/-- The length in a header is read back. -/
theorem deserialize_frameLength (pos : Nat) (w : Bytes) :
    deserializeField 8 cfg.signalLengthSize
        (.whole pos (BigEndian.encode cfg.signalLengthSize body.length ++ w)) =
      .ok (body.length, .whole (pos + cfg.signalLengthSize) w) := by
  have h := reads_deserializeField 8 cfg.signalLengthSize.2.2 (lt_trans hsize (by norm_num)) hlen
    pos w (cfg.signalLengthSize.1 + w.length) (by simp)
  simpa [Cursor.whole] using h

include hid hlen hsize in

/-- Once the header is there, a message is complete when as many bytes follow as it says. -/
theorem isCompleteMessage_header (w : Bytes) :
    isCompleteMessage cfg (BigEndian.encode cfg.signalIdSize id.toNat ++
        (BigEndian.encode cfg.signalLengthSize body.length ++ w)) =
      .ok (if body.length ≤ w.length then
        some (cfg.signalIdSize.1 + cfg.signalLengthSize.1 + body.length) else none) := by
  have hid8 := cfg.signalIdSize.2.2
  have hlen8 := cfg.signalLengthSize.2.2
  have hmod : (cfg.signalIdSize.1 + cfg.signalLengthSize.1 + body.length) % 2 ^ 64 =
      cfg.signalIdSize.1 + cfg.signalLengthSize.1 + body.length := Nat.mod_eq_of_lt (by omega)
  have hheader : ¬ cfg.signalIdSize.1 + (cfg.signalLengthSize.1 + w.length) <
      cfg.signalIdSize.1 + cfg.signalLengthSize.1 := by omega
  have hall : cfg.signalIdSize.1 + (cfg.signalLengthSize.1 + w.length) ≥
      cfg.signalIdSize.1 + cfg.signalLengthSize.1 + body.length ↔ body.length ≤ w.length := by omega
  simp only [isCompleteMessage, List.length_append, BigEndian.length_encode, if_neg hheader,
    deserialize_frameId hid, ok_bind, deserialize_frameLength hlen hsize, hmod, pure, Except.pure,
    hall]

end

/-- A message followed by any bytes is complete, and its size is found. -/
theorem Frames.isCompleteMessage_append (hpm : Frames cfg name pm items body)
    (hmsg : pm.isSignal = false) (s : Bytes) :
    isCompleteMessage cfg (pm.msgbuf ++ s) = .ok (some pm.msgbuf.length) := by
  have h := isCompleteMessage_header hpm.id_fits hpm.body_fits hpm.size (body ++ s)
  simp only [hpm.msgbuf, frame, idBytes, hmsg, Bool.false_eq_true, if_false, List.nil_append,
    List.append_assoc, h, List.length_append, BigEndian.length_encode]
  simp [Nat.add_assoc]

/-- A part of a message is not complete. -/
theorem Frames.isCompleteMessage_take (hpm : Frames cfg name pm items body)
    (hmsg : pm.isSignal = false) {n : Nat} (hn : n < pm.msgbuf.length) :
    isCompleteMessage cfg (pm.msgbuf.take n) = .ok none := by
  by_cases hheader : n < cfg.signalIdSize.1 + cfg.signalLengthSize.1
  · have hshort : (pm.msgbuf.take n).length < cfg.signalIdSize.1 + cfg.signalLengthSize.1 := by
      rw [List.length_take]
      omega
    simp only [isCompleteMessage, if_pos hshort]
  · have hbuf : pm.msgbuf = BigEndian.encode cfg.signalIdSize pm.signalId.toNat ++
        (BigEndian.encode cfg.signalLengthSize body.length ++ body) := by
      simp [hpm.msgbuf, frame, idBytes, hmsg]
    have hlen : pm.msgbuf.length =
        cfg.signalIdSize.1 + (cfg.signalLengthSize.1 + body.length) := by
      simp [hbuf]
    have htake : pm.msgbuf.take n = BigEndian.encode cfg.signalIdSize pm.signalId.toNat ++
        (BigEndian.encode cfg.signalLengthSize body.length ++
          body.take (n - cfg.signalIdSize.1 - cfg.signalLengthSize.1)) := by
      rw [hbuf, List.take_append, List.take_append, List.take_of_length_le (by simp; omega),
        List.take_of_length_le (by simp; omega), BigEndian.length_encode, BigEndian.length_encode]
    rw [htake, isCompleteMessage_header hpm.id_fits hpm.body_fits hpm.size, if_neg]
    rw [List.length_take]
    omega

/-- Where the length field of a message stands. -/
def lengthIndex (cfg : ProtocolConfig) (isSignal : Bool) : Nat :=
  (if isSignal then (str cfg.signalPrefix).length else 0) + cfg.signalIdSize.1

/-- What stands in front of the length field ends where the field is. -/
theorem length_idBytes (isSignal : Bool) (id : SignalIdType) :
    (idBytes cfg isSignal id).length = lengthIndex cfg isSignal := by
  cases isSignal <;> simp [idBytes, lengthIndex]

/-- The length field counts the bytes behind the header. -/
theorem Frames.length_field (hpm : Frames cfg name pm items body) :
    BigEndian.decode ((pm.msgbuf.drop (lengthIndex cfg pm.isSignal)).take cfg.signalLengthSize) =
      pm.msgbuf.length - (lengthIndex cfg pm.isSignal + cfg.signalLengthSize) := by
  have hdrop : pm.msgbuf.drop (lengthIndex cfg pm.isSignal) =
      BigEndian.encode cfg.signalLengthSize body.length ++ body := by
    rw [hpm.msgbuf, frame, ← length_idBytes pm.isSignal pm.signalId, List.drop_left]
  have hlen : pm.msgbuf.length =
      lengthIndex cfg pm.isSignal + (cfg.signalLengthSize.1 + body.length) := by
    simp only [hpm.msgbuf, frame, List.length_append, length_idBytes, BigEndian.length_encode]
  rw [hdrop, List.take_left' (BigEndian.length_encode _ _), BigEndian.decode_encode hpm.body_fits]
  omega

/-! ## Parsing -/

/-- How `parse` ends, when its loop has ended. -/
def parseEnd (logPrefix : Bytes) (pm : ProtocolMessage) (r : DataItems × Except Exn Unit) :
    Except Exn (Bytes × ProtocolMessage) :=
  match r with
  | (items, .ok _) => .ok ([], { pm with dataItems := items })
  | (items, .error (.std _ what)) =>
    .ok (withLogPrefix logPrefix what, { pm with dataItems := items })
  | (_, .error e) => .error e

/-- A parse that ends keeps everything of the message but its data items. -/
theorem parseEnd_ok {logPrefix err : Bytes} {r : DataItems × Except Exn Unit}
    (h : parseEnd logPrefix pm r = .ok (err, pm')) : pm' = { pm with dataItems := r.1 } := by
  unfold parseEnd at h
  split at h
  · exact (Prod.mk.inj (Except.ok.inj h)).2.symm
  · exact (Prod.mk.inj (Except.ok.inj h)).2.symm
  · simp at h

/-- A signal that begins with the prefix has no other. -/
theorem prefixMismatch_append (signalPrefix expected w : Bytes) :
    prefixMismatch signalPrefix expected (expected ++ w) = none := by
  induction expected with
  | nil => simp [prefixMismatch]
  | cons ch expected ih => simp [prefixMismatch, ih]

/-- The name of an id that was looked up for a name. -/
theorem getSignalName_of_getSignalId {p : ProtocolMessage}
    (hid : cfg.getSignalId name = .ok (p.signalId, p.isSignal))
    (hinit : p.signalIdInitialized = true) : p.getSignalName cfg = .ok name := by
  unfold ProtocolConfig.getSignalId at hid
  split at hid
  · next id hright =>
    obtain ⟨rfl, hsig⟩ := Prod.mk.inj (Except.ok.inj hid)
    have hleft := (cfg.signalMap.left_eq_some_iff_right).2 hright
    simp [getSignalName, hinit, ← hsig, ProtocolConfig.getSignalName, hleft]
  · split at hid
    · next id hright =>
      obtain ⟨rfl, hsig⟩ := Prod.mk.inj (Except.ok.inj hid)
      have hleft := (cfg.messageMap.left_eq_some_iff_right).2 hright
      simp [getSignalName, hinit, ← hsig, ProtocolConfig.getMessageName, hleft]
    · simp [throwStd] at hid

section

variable [AddressText]

/-- The header of a frame is read, and the rest is the body. -/
theorem parseBody_frame {q : ProtocolMessage} {id : SignalIdType}
    (hidfits : id.toNat < 256 ^ cfg.signalIdSize.1)
    (hlen : body.length < 256 ^ cfg.signalLengthSize.1) (hsize : body.length < 2 ^ 63)
    (hname : { q with signalId := id, signalIdInitialized := true }.getSignalName cfg = .ok name)
    (pos : Nat) {r : DataItems × Except Exn Unit}
    (hr : parseDataItems cfg (body.length + 1)
      (.whole (pos + cfg.signalIdSize + cfg.signalLengthSize) body) = r) :
    parseBody cfg q (.whole pos (BigEndian.encode cfg.signalIdSize id.toNat ++
        (BigEndian.encode cfg.signalLengthSize body.length ++ body))) =
      ({ q with signalId := id, signalIdInitialized := true, dataItems := r.1 }, r.2) := by
  simp only [parseBody, deserialize_frameId hidfits, deserialize_frameLength hlen hsize,
    UInt32.ofNat_toNat, hname]
  simp only [Cursor.whole] at hr ⊢
  simp only [hr]

/-- Parsing a frame comes down to parsing its body, which stands at the same place for every message
with this buffer. -/
theorem parse_frame_at {isSignal : Bool} {id : SignalIdType}
    (hid : cfg.getSignalId name = .ok (id, isSignal))
    (hidfits : id.toNat < 256 ^ cfg.signalIdSize.1)
    (hlen : body.length < 256 ^ cfg.signalLengthSize.1) (hsize : body.length < 2 ^ 63) :
    ∃ pos, ∀ (logPrefix : Bytes) (q : ProtocolMessage), q.isSignal = isSignal →
      q.msgbuf = frame cfg isSignal id body → parse cfg logPrefix q = parseEnd logPrefix
        { q with signalId := id, signalIdInitialized := true }
        (parseDataItems cfg (body.length + 1) (.whole pos body)) := by
  obtain ⟨start, hstart⟩ : ∃ start, (if isSignal then str cfg.signalPrefix else []) = start :=
    ⟨_, rfl⟩
  refine ⟨start.length + cfg.signalIdSize + cfg.signalLengthSize, ?_⟩
  rintro logPrefix q rfl hbuf
  have hpos := cfg.signalIdSize.2.1
  have hframe : q.msgbuf = start ++ (BigEndian.encode cfg.signalIdSize id.toNat ++
      (BigEndian.encode cfg.signalLengthSize body.length ++ body)) := by
    rw [hbuf, frame, idBytes, hstart, List.append_assoc]
  have hlong : ¬ (q.isSignal = true ∧ q.msgbuf.length ≤ start.length) := by
    simp only [hframe, List.length_append, BigEndian.length_encode]
    omega
  have hmatch : prefixMismatch start start q.msgbuf = none := by
    rw [hframe]
    exact prefixMismatch_append _ _ _
  have hdrop : q.msgbuf.drop start.length = BigEndian.encode cfg.signalIdSize id.toNat ++
      (BigEndian.encode cfg.signalLengthSize body.length ++ body) := by
    rw [hframe, List.drop_left]
  have hname := getSignalName_of_getSignalId
    (p := { q with dataItems := [], signalId := id, signalIdInitialized := true }) hid rfl
  have hbody := parseBody_frame (q := { q with dataItems := [] }) hidfits hlen hsize hname
    start.length rfl
  simp only [parse, hstart, if_neg hlong, hmatch, hdrop, hbody]
  generalize parseDataItems cfg _ _ = r
  obtain ⟨its, res⟩ := r
  cases res with
  | ok _ => rfl
  | error e => cases e <;> rfl

/-- The header of a frame is parsed, and the loop starts behind it. -/
theorem parse_frame (logPrefix : Bytes) {q : ProtocolMessage} {id : SignalIdType}
    (hid : cfg.getSignalId name = .ok (id, q.isSignal))
    (hidfits : id.toNat < 256 ^ cfg.signalIdSize.1)
    (hlen : body.length < 256 ^ cfg.signalLengthSize.1) (hsize : body.length < 2 ^ 63)
    (hbuf : q.msgbuf = frame cfg q.isSignal id body) :
    ∃ pos, parse cfg logPrefix q = parseEnd logPrefix
      { q with signalId := id, signalIdInitialized := true }
      (parseDataItems cfg (body.length + 1) (.whole pos body)) := by
  obtain ⟨pos, hparse⟩ := parse_frame_at hid hidfits hlen hsize
  exact ⟨pos, hparse logPrefix q rfl hbuf⟩

/-- One round of the loop reads a data item that was written and can be printed. -/
theorem parseDataItem_serialized {di : DataItem} {w : Bytes} (hser : di.serialize cfg = .ok w)
    (hty : di.WellTyped cfg none) (hdec : di.Everywhere DataItemValue.Decodable)
    (hres : di.Resolves cfg none) (pos : Nat) (s : Bytes) :
    parseDataItem cfg (.whole pos (w ++ s)) = .ok (di, .whole (pos + w.length) s) := by
  have hdes := DataItem.deserialize_append hty hdec hser pos s
  obtain ⟨text, htext⟩ := DataItem.toString_ok_iff_resolves.2 hres
  obtain ⟨id, value⟩ := di
  obtain ⟨valbuf, _, hlt, hid, hlen, rfl⟩ := DataItem.serialize_ok.1 hser
  -- the header is looked at before the data item is read
  have hpeek := reads_deserializeField 4 cfg.dataItemIdSize.2.2 id.toNat_lt hid pos
    (BigEndian.encode cfg.dataItemLengthSize valbuf.length ++ valbuf ++ s)
    (cfg.dataItemIdSize.1 + (cfg.dataItemLengthSize.1 + (valbuf.length + s.length))) (by simp)
  have hpeek' := reads_deserializeField 8 cfg.dataItemLengthSize.2.2
    (lt_trans hlt (by norm_num)) hlen (pos + cfg.dataItemIdSize) (valbuf ++ s)
    (cfg.dataItemLengthSize.1 + (valbuf.length + s.length)) (by simp)
  simp only [Cursor.whole, List.append_assoc, List.length_append, BigEndian.length_encode,
    Nat.cast_add, add_sub_cancel_left] at hdes hpeek hpeek' ⊢
  simp only [parseDataItem, hpeek, ok_bind, hpeek', hdes, htext, pure, Except.pure]

/-- The loop reads data items that were written one after the other and can be printed. -/
theorem parseDataItems_serialized {items : DataItems} {ws : List Bytes}
    (hws : List.Forall₂ (fun di w => di.serialize cfg = .ok w) items ws)
    (hty : ∀ di ∈ items, di.WellTyped cfg none)
    (hdec : ∀ di ∈ items, di.Everywhere DataItemValue.Decodable)
    (hres : ∀ di ∈ items, di.Resolves cfg none) {n : Nat} (hn : items.length < n) (pos : Nat) :
    parseDataItems cfg n (.whole pos ws.flatten) = (items, .ok ()) := by
  induction hws generalizing n pos with
  | nil =>
    obtain ⟨m, rfl⟩ : ∃ m, n = m + 1 := ⟨n - 1, by omega⟩
    simp [parseDataItems, Cursor.whole]
  | @cons di w items ws hw _ ih =>
    obtain ⟨m, rfl⟩ : ∃ m, n = m + 1 := ⟨n - 1, by omega⟩
    obtain ⟨htydi, hty⟩ := List.forall_mem_cons.1 hty
    obtain ⟨hdecdi, hdec⟩ := List.forall_mem_cons.1 hdec
    obtain ⟨hresdi, hres⟩ := List.forall_mem_cons.1 hres
    have hround := parseDataItem_serialized hw htydi hdecdi hresdi pos ws.flatten
    have htail := ih hty hdec hres (by simpa using hn) (pos + w.length)
    have hmore : ¬ (Cursor.whole pos (w ++ ws.flatten)).left ≤ 0 := by
      have := List.length_pos_of_ne_nil (DataItem.serialize_ne_nil hw)
      simp only [Cursor.whole, List.length_append]
      omega
    rw [List.flatten_cons, parseDataItems, if_neg hmore]
    simp only [hround, htail]

/-- What the loop has recorded when it ends was decoded and printed. -/
theorem parseDataItems_recorded {n : Nat} {c : Cursor} :
    ∀ di ∈ (parseDataItems cfg n c).1,
      di.Everywhere DataItemValue.Decodable ∧ di.Resolves cfg none := by
  induction n generalizing c with
  | zero => simp [parseDataItems]
  | succ n ih =>
    simp only [parseDataItems]
    split
    · simp
    · split
      · simp
      · next di c' hdi =>
        simp only [parseDataItem, bind_eq_ok] at hdi
        obtain ⟨_, _, _, _, ⟨di', c₂⟩, hdes, text, htext, hret⟩ := hdi
        obtain ⟨rfl, rfl⟩ := Prod.mk.inj (Except.ok.inj hret)
        refine List.forall_mem_cons.2 ⟨⟨?_, ?_⟩, ih⟩
        · exact everywhere_decodable_of_deserializeUpTo hdes
        · exact DataItem.toString_ok_iff_resolves.1 ⟨text, htext⟩

/-! ## Building and parsing -/

/-- Parsing its own buffer does not change what a message frames. -/
theorem Frames.parse {logPrefix err : Bytes} (hpm : Frames cfg name pm items body)
    (h : ProtocolMessage.parse cfg logPrefix pm = .ok (err, pm')) :
    Frames cfg name pm' items body := by
  obtain ⟨pos, hparse⟩ :=
    parse_frame logPrefix hpm.signalId hpm.id_fits hpm.body_fits hpm.size hpm.msgbuf
  rw [hparse] at h
  obtain rfl := parseEnd_ok h
  exact ⟨hpm.signalId, rfl, hpm.id_fits, hpm.msgLenIndex, hpm.headerLength, hpm.msgbuf,
    hpm.body_fits, hpm.size, hpm.body⟩

/-- A message that is built again from other data items is framed with them. -/
theorem Frames.rebuild {modemSender : Bool} {more : DataItems} {err : Bytes}
    (hpm : Frames cfg name pm items body)
    (h : rebuildFromDataItems cfg modemSender more pm = .ok (err, pm')) :
    ∃ body', Frames cfg name pm' more body' := by
  simp only [rebuildFromDataItems, hpm.initialized, not_true_eq_false, if_false, bind_eq_ok,
    parseAndValidate] at h
  obtain ⟨pm₁, hclear, pm₂, hadd, ⟨err', pm₃⟩, hparse, hvalid⟩ := h
  obtain ⟨rest, hframes⟩ := (hpm.clearDataItems hclear).addDataItems hadd
  have hpm₃ := hframes.parse hparse
  obtain rfl : pm₃ = pm' := by
    split at hvalid
    · exact (Prod.mk.inj (Except.ok.inj hvalid)).2
    · obtain ⟨_, _, hret⟩ := bind_eq_ok.1 hvalid
      exact (Prod.mk.inj (Except.ok.inj hret)).2
  exact ⟨_, by simpa using hpm₃⟩

/-- Every building operation keeps the frame. -/
theorem Building.frames (h : Building cfg name pm items) :
    ∃ body, Frames cfg name pm items body := by
  induction h with
  | addHeader h => exact ⟨[], frames_addHeader h⟩
  | addDataItem _ h ih =>
    obtain ⟨body, hframes⟩ := ih
    obtain ⟨w, _, hframes'⟩ := hframes.addDataItem h
    exact ⟨_, hframes'⟩
  | rebuild _ h ih =>
    obtain ⟨body, hframes⟩ := ih
    exact hframes.rebuild h

/-- What is expected of a message that was built from `items`: it parses to `items`, its length
field counts the bytes behind the header, and the framer finds its end. -/
structure RoundTrips (cfg : ProtocolConfig) (name : String) (pm : ProtocolMessage)
    (items : DataItems) : Prop where
  parse : ∀ (logPrefix : Bytes) (pm₀ : ProtocolMessage), ∃ pm' id,
    parseBuffer cfg pm.msgbuf pm.isSignal logPrefix pm₀ = .ok ([], pm') ∧
      cfg.getSignalId name = .ok (id, pm.isSignal) ∧ pm'.getSignalId = .ok id ∧
      pm'.dataItems = items
  length : BigEndian.decode ((pm.msgbuf.drop (lengthIndex cfg pm.isSignal)).take
      cfg.signalLengthSize) =
    pm.msgbuf.length - (lengthIndex cfg pm.isSignal + cfg.signalLengthSize)
  incomplete : pm.isSignal = false → ∀ n < pm.msgbuf.length,
    isCompleteMessage cfg (pm.msgbuf.take n) = .ok none
  complete : pm.isSignal = false → ∀ s,
    isCompleteMessage cfg (pm.msgbuf ++ s) = .ok (some pm.msgbuf.length)

/-- The body of a message parses to its data items exactly if they can be decoded and printed. -/
theorem Frames.parseBuffer_iff (hpm : Frames cfg name pm items body)
    (hty : ∀ di ∈ items, di.WellTyped cfg none) (logPrefix : Bytes) (pm₀ : ProtocolMessage) :
    (∃ pm', parseBuffer cfg pm.msgbuf pm.isSignal logPrefix pm₀ = .ok ([], pm') ∧
        pm'.getSignalId = .ok pm.signalId ∧ pm'.dataItems = items) ↔
      ∀ di ∈ items, di.Everywhere DataItemValue.Decodable ∧ di.Resolves cfg none := by
  obtain ⟨pos, hparse⟩ := parse_frame logPrefix
    (q := { pm₀ with msgbuf := pm.msgbuf, isSignal := pm.isSignal })
    hpm.signalId hpm.id_fits hpm.body_fits hpm.size hpm.msgbuf
  rw [parseBuffer, hparse]
  constructor
  · rintro ⟨pm', hend, _, hitems⟩
    rw [← hitems, parseEnd_ok hend]
    exact parseDataItems_recorded
  · intro hcond
    obtain ⟨ws, hws, rfl⟩ := serializeSubDataItems_ok.1 hpm.body
    have hcount : items.length < ([] ++ ws.flatten).length + 1 := by
      rw [List.nil_append]
      exact Nat.lt_succ_of_le (length_le_of_serialized hws)
    have hloop := parseDataItems_serialized hws hty (fun di h => (hcond di h).1)
      (fun di h => (hcond di h).2) hcount pos
    simp only [List.nil_append] at hloop ⊢
    rw [hloop]
    exact ⟨_, rfl, by simp [getSignalId], rfl⟩

/-- A message that was built parses to its data items, and is framed, exactly if no count in them is
`2 ^ 32` or more, their IPv6 addresses have scope id 0, and the ids in them are found in the scopes
in which they are printed. -/
theorem Building.roundTrips_iff (h : Building cfg name pm items)
    (hty : ∀ di ∈ items, di.WellTyped cfg none) :
    RoundTrips cfg name pm items ↔
      ∀ di ∈ items, di.Everywhere DataItemValue.Decodable ∧ di.Resolves cfg none := by
  obtain ⟨body, hpm⟩ := h.frames
  constructor
  · intro hround
    obtain ⟨pm', id, hparse, hid, hsignal, hitems⟩ := hround.parse [] {}
    obtain ⟨rfl, _⟩ := Prod.mk.inj (Except.ok.inj (hid.symm.trans hpm.signalId))
    exact (hpm.parseBuffer_iff hty [] {}).1 ⟨pm', hparse, hsignal, hitems⟩
  · intro hcond
    refine ⟨fun logPrefix pm₀ => ?_, hpm.length_field, fun hmsg n hn => ?_, fun hmsg s => ?_⟩
    · obtain ⟨pm', hparse, hsignal, hitems⟩ := (hpm.parseBuffer_iff hty logPrefix pm₀).2 hcond
      exact ⟨pm', pm.signalId, hparse, hpm.signalId, hsignal, hitems⟩
    · exact hpm.isCompleteMessage_take hmsg hn
    · exact hpm.isCompleteMessage_append hmsg s

end

/-- A message with two data items. -/
def upResponse : ProtocolMessage where
  msgLenIndex := 2
  headerLength := 4
  msgbuf := [0, 8, 0, 11, 0, 7, 0, 2, 10, 11, 0, 1, 0, 1, 0]
  signalId := 8
  signalIdInitialized := true

/-- The data items of `upResponse`. -/
def upResponseItems : DataItems := [.mk 7 (.dlepmac [10, 11]), .mk 1 (.u8String 0 [])]

/-- The sample message can be built. -/
theorem building_upResponse :
    @Building plainText rfc8175 "Destination_Up_Response" upResponse upResponseItems := by
  let := plainText
  have hbuild : Building rfc8175 "Destination_Up_Response" upResponse
      ([] ++ [.mk 7 (.dlepmac [10, 11])] ++ [.mk 1 (.u8String 0 [])]) :=
    .addDataItem (.addDataItem (.addHeader rfl) rfl) rfl
  exact hbuild

/-- The sample data items have their configured types. -/
theorem upResponseItems_wellTyped : ∀ di ∈ upResponseItems, di.WellTyped rfc8175 none := by
  simp only [upResponseItems, List.forall_mem_cons]
  exact ⟨.mk rfl rfl (by simp [DataItemValue.subItems]),
    .mk rfl rfl (by simp [DataItemValue.subItems]), by simp⟩

/-- The sample data items can be decoded and printed. -/
theorem upResponseItems_decodable : ∀ di ∈ upResponseItems,
    di.Everywhere DataItemValue.Decodable ∧ di.Resolves rfc8175 none := by
  simp only [upResponseItems, List.forall_mem_cons]
  exact ⟨⟨.mk ⟨trivial, trivial⟩ (by simp [DataItemValue.subItems]),
    .mk rfl (by simp [DataItemValue.subItems])⟩,
    ⟨.mk ⟨trivial, trivial⟩ (by simp [DataItemValue.subItems]),
    .mk rfl (by simp [DataItemValue.subItems])⟩, by simp⟩

/-- The sample message is read as it was built. -/
theorem Building.roundTrips_upResponse :
    @RoundTrips plainText rfc8175 "Destination_Up_Response" upResponse upResponseItems :=
  let := plainText
  (building_upResponse.roundTrips_iff upResponseItems_wellTyped).2 upResponseItems_decodable

/-- An envelope with a box with a group with a value. The box lists no sub data items, so that the
group is printed as if it stood in the envelope. -/
def envelope : DataItem :=
  .mk 1 (.subDataItems [.mk 3 (.subDataItems [.mk 2 (.subDataItems [.mk 9 (.u8 5)])])])

/-- The message that carries the envelope. -/
def report : ProtocolMessage where
  msgLenIndex := 2
  headerLength := 4
  msgbuf := [0, 1, 0, 17, 0, 1, 0, 13, 0, 3, 0, 9, 0, 2, 0, 5, 0, 9, 0, 1, 5]
  signalId := 1
  signalIdInitialized := true

/-- A well-typed message is built and is not parsed: the printing of the value's id fails. -/
theorem parse_report :
    @Building plainText nestedItems "Report" report [envelope] ∧
      envelope.WellTyped nestedItems none ∧
      (@parseBuffer plainText nestedItems report.msgbuf false (str "log") {}).map Prod.fst =
        .ok (str "9 log") ∧
      ¬ @RoundTrips plainText nestedItems "Report" report [envelope] := by
  let := plainText
  have hparse : (parseBuffer nestedItems report.msgbuf false (str "log") {}).map Prod.fst =
      .ok (str "9 log") := by decide +kernel
  have hbuild : Building nestedItems "Report" report ([] ++ [envelope]) :=
    .addDataItem (.addHeader rfl) rfl
  refine ⟨hbuild, ?_, hparse, fun hround => ?_⟩
  · exact .mk rfl rfl (by
      simp only [DataItemValue.subItems, List.forall_mem_singleton]
      exact .mk rfl rfl (by
        simp only [DataItemValue.subItems, List.forall_mem_singleton]
        exact .mk rfl rfl (by
          simp only [DataItemValue.subItems, List.forall_mem_singleton]
          exact .mk rfl rfl (by simp [DataItemValue.subItems]))))
  · obtain ⟨pm', _, hok, _⟩ := hround.parse (str "log") {}
    have hempty : (Except.ok [] : Except Exn Bytes) = .ok (str "9 log") := by
      rw [← hparse]
      exact (congrArg (Except.map Prod.fst) hok).symm
    exact absurd (Except.ok.inj hempty) (by decide +kernel)

end ProtocolMessage

end Dlep
