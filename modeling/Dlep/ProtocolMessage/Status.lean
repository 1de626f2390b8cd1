import Dlep.ProtocolMessage.Checked

/-!
# The status that is put into a message

`add_status` looks for a configured status by replacing the requested one again and again. The
replacements end in one of two cycles, `Unknown_Message` by itself, and `Invalid_Message` and
`Invalid_Data`; so the loop ends for every request exactly if both cycles have a configured status
(`addStatus_ends_iff`). `Finds` is the loop without a bound; five rounds are enough for it
(`finds_iff`), so the bound of the model is used up only where the loop does not end
(`addStatus_outOfFuel_iff`).
-/

namespace Dlep

/-- The configuration has the status. -/
def ProtocolConfig.HasStatus (cfg : ProtocolConfig) (name : String) : Prop :=
  ∃ id, cfg.getStatusCodeId name = .ok id

/-- All status codes fit the byte of the data item. -/
def ProtocolConfig.StatusCodesFit (cfg : ProtocolConfig) : Prop :=
  ∀ id name, cfg.statusCodeMap.left id = some name → id.toNat < 256

namespace ProtocolMessage

section

variable {cfg : ProtocolConfig} {status : String} {id : StatusCodeIdType}

/-- The loop of `add_status` ends with the id. -/
inductive Finds (cfg : ProtocolConfig) : String → StatusCodeIdType → Prop where
  | found {status : String} {id : StatusCodeIdType} (h : cfg.getStatusCodeId status = .ok id) :
      Finds cfg status id
  | remap {status : String} {id : StatusCodeIdType} {e : Exn}
      (h : cfg.getStatusCodeId status = .error e) (hnext : Finds cfg (remapStatus status) id) :
      Finds cfg status id

/-- Among statuses that are replaced by each other and are not configured, the loop does not end. -/
theorem not_finds (statuses : List String) (hclosed : ∀ s ∈ statuses, remapStatus s ∈ statuses)
    (hnone : ∀ s ∈ statuses, ¬ cfg.HasStatus s) (hstatus : status ∈ statuses) :
    ¬ Finds cfg status id := by
  intro h
  induction h with
  | found h => exact hnone _ hstatus ⟨_, h⟩
  | remap _ _ ih => exact ih (hclosed _ hstatus)

/-- A status that is configured is found, and any other is found if its replacement is. -/
theorem exists_finds (h : ¬ cfg.HasStatus status → ∃ id, Finds cfg (remapStatus status) id) :
    ∃ id, Finds cfg status id := by
  cases hstatus : cfg.getStatusCodeId status with
  | ok id => exact ⟨id, .found hstatus⟩
  | error e =>
    obtain ⟨id, hnext⟩ := h fun ⟨_, hid⟩ => by rw [hid] at hstatus; cases hstatus
    exact ⟨id, .remap hstatus hnext⟩

/-- The third replacement is the first one or the second one. -/
theorem remapStatus_cycles (status : String) :
    remapStatus (remapStatus (remapStatus status)) = remapStatus status ∨
      remapStatus (remapStatus (remapStatus status)) = remapStatus (remapStatus status) := by
  rw [remapStatus.eq_def status]
  split
  · exact .inl (by decide)
  · split
    · exact .inl (by decide)
    · split
      · exact .inl (by decide)
      · split
        · exact .inr (by decide)
        · exact .inr (by decide)

/-- What the loop returns within its bound it finds. -/
theorem finds_of_findStatusCodeId {n : Nat} (h : findStatusCodeId cfg n status = .ok id) :
    Finds cfg status id := by
  induction n generalizing status with
  | zero => cases h
  | succ n ih =>
    rw [findStatusCodeId] at h
    split at h
    · next hid =>
      obtain rfl := Except.ok.inj h
      exact .found hid
    · next hid => exact .remap hid (ih h)

/-- The loop ends within three rounds, or not at all. -/
theorem finds_iff : Finds cfg status id ↔ findStatusCodeId cfg 5 status = .ok id := by
  refine ⟨fun h => ?_, finds_of_findStatusCodeId⟩
  cases h with
  | found h₀ => rw [findStatusCodeId, h₀]
  | remap h₀ hnext =>
    rw [findStatusCodeId, h₀]
    cases hnext with
    | found h₁ => simp only [findStatusCodeId, h₁]
    | remap h₁ hnext =>
      cases hnext with
      | found h₂ => simp only [findStatusCodeId, h₁, h₂]
      | remap h₂ hnext =>
        -- neither of the first two replacements is configured, and there is no other
        refine absurd hnext (not_finds [remapStatus status, remapStatus (remapStatus status)]
          ?_ ?_ ?_)
        · refine List.forall_mem_cons.2 ⟨by simp, List.forall_mem_singleton.2 ?_⟩
          simpa using remapStatus_cycles status
        · refine List.forall_mem_cons.2 ⟨?_, List.forall_mem_singleton.2 ?_⟩
          · rintro ⟨_, hid⟩
            rw [hid] at h₁
            cases h₁
          · rintro ⟨_, hid⟩
            rw [hid] at h₂
            cases h₂
        · simpa using remapStatus_cycles status

/-- The bound of the loop is used up exactly if the loop does not end. -/
theorem findStatusCodeId_outOfFuel_iff :
    findStatusCodeId cfg 5 status = .error .outOfFuel ↔ ¬ ∃ id, Finds cfg status id := by
  have hends : ∀ (n : Nat) (status : String), (∃ id, findStatusCodeId cfg n status = .ok id) ∨
      findStatusCodeId cfg n status = .error .outOfFuel := by
    intro n
    induction n with
    | zero => exact fun _ => .inr rfl
    | succ n ih =>
      intro status
      rw [findStatusCodeId]
      split
      · next id _ => exact .inl ⟨id, rfl⟩
      · exact ih _
  constructor
  · rintro hfuel ⟨id, hfinds⟩
    rw [finds_iff.1 hfinds] at hfuel
    cases hfuel
  · intro hnone
    exact (hends 5 status).resolve_left fun ⟨id, hid⟩ => hnone ⟨id, finds_iff.2 hid⟩

/-- Every request ends if the two cycles of the replacements have a configured status. -/
theorem exists_finds_of_hasStatus (hunknown : cfg.HasStatus "Unknown_Message")
    (hinvalid : cfg.HasStatus "Invalid_Message" ∨ cfg.HasStatus "Invalid_Data") (status : String) :
    ∃ id, Finds cfg status id := by
  have hunknown : ∃ id, Finds cfg "Unknown_Message" id := exists_finds fun h => absurd hunknown h
  have hdenied : ∃ id, Finds cfg "Request_Denied" id := exists_finds fun _ => hunknown
  have hmessage : ∃ id, Finds cfg "Invalid_Message" id :=
    exists_finds fun h => exists_finds fun h' => absurd hinvalid (not_or.2 ⟨h, h'⟩)
  have hdata : ∃ id, Finds cfg "Invalid_Data" id := exists_finds fun _ => hmessage
  refine exists_finds fun _ => ?_
  rw [remapStatus.eq_def]
  split
  · exact hdata
  · split
    · exact hmessage
    · split
      · exact hmessage
      · split
        · exact hdenied
        · exact hunknown

/-- The loop ends for every status exactly if the configuration has the two it falls back on. -/
theorem finds_all_iff : (∀ status, ∃ id, Finds cfg status id) ↔
    cfg.HasStatus "Unknown_Message" ∧
      (cfg.HasStatus "Invalid_Message" ∨ cfg.HasStatus "Invalid_Data") := by
  refine ⟨fun h => ?_, fun h => exists_finds_of_hasStatus h.1 h.2⟩
  constructor
  · by_contra hnone
    obtain ⟨id, hfinds⟩ := h "Unknown_Message"
    refine not_finds ["Unknown_Message"] (by decide) ?_ (by decide) hfinds
    simpa using hnone
  · by_contra hnone
    obtain ⟨id, hfinds⟩ := h "Invalid_Message"
    refine not_finds ["Invalid_Message", "Invalid_Data"] (by decide) ?_ (by decide)
      hfinds
    simpa using not_or.1 hnone

/-- The id that is found is the id of a configured status, the requested one if that is
configured. -/
theorem Finds.name (h : Finds cfg status id) :
    ∃ name, cfg.getStatusCodeId name = .ok id ∧ (cfg.HasStatus status → name = status) := by
  induction h with
  | @found status id h => exact ⟨status, h, fun _ => rfl⟩
  | @remap status id e h _ ih =>
    obtain ⟨name, hid, _⟩ := ih
    refine ⟨name, hid, ?_⟩
    rintro ⟨_, hown⟩
    rw [hown] at h
    cases h

/-- A code that fits the byte is the code of the same status on the other end. -/
theorem getStatusCodeName_of_fit (hfit : cfg.StatusCodesFit) {name : String}
    (h : cfg.getStatusCodeId name = .ok id) :
    cfg.getStatusCodeName id.toUInt8.toUInt32 = .ok name := by
  rw [ProtocolConfig.getStatusCodeId] at h
  split at h
  · next id' hid =>
    obtain rfl := Except.ok.inj h
    have hleft := cfg.statusCodeMap.left_eq_some_iff_right.2 hid
    have hsame : id'.toUInt8.toUInt32 = id' := by
      apply UInt32.toNat_inj.1
      rw [UInt8.toNat_toUInt32, UInt32.toNat_toUInt8, Nat.mod_eq_of_lt (hfit _ _ hleft)]
    rw [hsame, ProtocolConfig.getStatusCodeName, hleft]
  · cases h

end

/-! ## Functions without a loop -/

/-- The bound of a loop is not used up. -/
def Bounded {α : Type} (x : Except Exn α) : Prop := x ≠ .error .outOfFuel

section

variable {α β : Type} {cfg : ProtocolConfig}

/-- A call that returns uses no bound up. -/
theorem bounded_ok (a : α) : Bounded (.ok a) := by
  simp [Bounded]

/-- An exception uses no bound up. -/
theorem bounded_throwStd {cls : StdException} {what : Bytes} :
    Bounded (throwStd cls what : Except Exn α) := by
  simp [Bounded, throwStd]

/-- An assertion uses no bound up. -/
theorem bounded_assertThat {cond : Bool} {text : String} : Bounded (assertThat cond text) := by
  cases cond <;> simp [Bounded, assertThat]

/-- One call after the other. -/
theorem Bounded.bind {x : Except Exn α} {f : α → Except Exn β} (hx : Bounded x)
    (hf : ∀ a, Bounded (f a)) : Bounded (x >>= f) := by
  cases x with
  | ok a => exact hf a
  | error e =>
    intro h
    exact hx (congrArg Except.error (Except.error.inj h))

/-- A choice uses no bound up if neither branch does. -/
theorem bounded_ite {c : Prop} [Decidable c] {x y : Except Exn α} (hx : Bounded x)
    (hy : Bounded y) :
    Bounded (if c then x else y) := by
  split
  · exact hx
  · exact hy

/-- Taking a size uses no bound up. -/
theorem bounded_vectorSize {buf : Bytes} : Bounded (vectorSize buf) :=
  bounded_ite (bounded_ok _) bounded_throwStd

/-- Writing a field uses no bound up. -/
theorem bounded_serializeAt {szT val fieldSize it : Nat} {buf : Bytes} :
    Bounded (serializeAt szT val fieldSize buf it) := by
  refine (bounded_ite bounded_throwStd (bounded_ok _)).bind fun _ => ?_
  exact bounded_ite (bounded_ok _) (bounded_ite bounded_throwStd (bounded_ok _))

/-- Looking up an id uses no bound up. -/
theorem bounded_getDataItemId {name : String} {parent : Option DataItemInfo} :
    Bounded (cfg.getDataItemId name parent) := by
  unfold ProtocolConfig.getDataItemId
  split
  · exact bounded_ok _
  · split
    · exact bounded_ok _
    · exact bounded_throwStd

/-- Looking up a name uses no bound up. -/
theorem bounded_getDataItemName {id : DataItemIdType} {parent : Option DataItemInfo} :
    Bounded (cfg.getDataItemName id parent) := by
  unfold ProtocolConfig.getDataItemName
  split
  · exact bounded_ok _
  · split
    · exact bounded_ok _
    · exact bounded_throwStd

/-- Looking up a type uses no bound up. -/
theorem bounded_getDataItemValueType {name : String} : Bounded (cfg.getDataItemValueType name) := by
  unfold ProtocolConfig.getDataItemValueType
  split
  · exact bounded_ok _
  · exact bounded_throwStd

/-- Looking up the name of a message uses no bound up. -/
theorem bounded_getSignalName {pm : ProtocolMessage} : Bounded (pm.getSignalName cfg) := by
  refine bounded_ite bounded_throwStd (bounded_ite ?_ ?_)
  · unfold ProtocolConfig.getSignalName
    split
    · exact bounded_ok _
    · exact bounded_throwStd
  · unfold ProtocolConfig.getMessageName
    split
    · exact bounded_ok _
    · exact bounded_throwStd

/-- Writing the length uses no bound up. -/
theorem bounded_updateMessageLength {pm : ProtocolMessage} :
    Bounded (updateMessageLength cfg pm) := by
  refine bounded_assertThat.bind fun _ => bounded_assertThat.bind fun _ => ?_
  exact bounded_vectorSize.bind fun _ => bounded_serializeAt.bind fun _ => bounded_ok _

/-- A data item whose value is written without a loop. -/
theorem bounded_addDataItem {id : DataItemIdType} {value : DataItemValue} {pm : ProtocolMessage}
    (hvalue : Bounded (value.serialize cfg)) : Bounded (addDataItem cfg (.mk id value) pm) := by
  have hserialize : Bounded ((DataItem.mk id value).serialize cfg) := by
    rw [DataItem.serialize]
    refine hvalue.bind fun _ => bounded_vectorSize.bind fun _ =>
      bounded_serializeAt.bind fun _ => ?_
    exact bounded_serializeAt.bind fun _ => bounded_ok _
  refine hserialize.bind fun _ => bounded_updateMessageLength.bind fun _ => ?_
  exact bounded_getDataItemName.bind fun _ => bounded_getSignalName.bind fun _ => bounded_ok _

end

/-! ## The message -/

/-- The value that carries a status: its code, and the reason if the type of the data item has
one. -/
def statusValue (ty : DataItemValueType) (code : StatusCodeIdType) (reason : Bytes) :
    DataItemValue :=
  if ty = .u8 then .u8 code.toUInt8 else .u8String code.toUInt8 reason

/-- The data item of the status can be encoded: it can be written, and there is room for it in the
message. -/
def CanCarry (cfg : ProtocolConfig) (pm : ProtocolMessage) (code : StatusCodeIdType)
    (reason : Bytes) :
    Prop :=
  ∃ ty id w, cfg.getDataItemValueType "Status" = .ok ty ∧ cfg.getDataItemId "Status" none = .ok id ∧
    (DataItem.mk id (statusValue ty code reason)).serialize cfg = .ok w ∧
    pm.msgbuf.length - pm.headerLength + w.length < 256 ^ cfg.signalLengthSize.1 ∧
    pm.msgbuf.length + w.length < 2 ^ 63

section

variable [AddressText] {cfg : ProtocolConfig} {name status : String} {reason body logPrefix : Bytes}
  {pm pm₁ pm₀ sent received : ProtocolMessage} {before after : DataItems}

omit [AddressText] in
/-- Where the loop ends and the type is known, a status is added like any data item. -/
theorem addStatus_eq {code : StatusCodeIdType} {ty : DataItemValueType}
    (hcode : findStatusCodeId cfg 5 status = .ok code)
    (hty : cfg.getDataItemValueType "Status" = .ok ty) (pm : ProtocolMessage) :
    addStatus cfg status reason pm = addNamed cfg "Status" (statusValue ty code reason) pm := by
  rw [addStatus, hcode, ok_bind, hty, ok_bind, statusValue]
  split
  · rfl
  · rfl

omit [AddressText] in
/-- The function runs into the bound of the model exactly if the loop does not end. -/
theorem addStatus_outOfFuel_iff (pm : ProtocolMessage) :
    addStatus cfg status reason pm = .error .outOfFuel ↔ ¬ ∃ id, Finds cfg status id := by
  rw [← findStatusCodeId_outOfFuel_iff]
  cases hcode : findStatusCodeId cfg 5 status with
  | error e =>
    have hstop : addStatus cfg status reason pm = .error e := by
      rw [addStatus, hcode]
      rfl
    rw [hstop]
    simp
  | ok code =>
    refine iff_of_false ?_ (by simp)
    cases hty : cfg.getDataItemValueType "Status" with
    | error e =>
      have hstop : addStatus cfg status reason pm = .error e := by
        rw [addStatus, hcode, ok_bind, hty]
        rfl
      rw [hstop]
      intro h
      exact bounded_getDataItemValueType (hty.trans (congrArg Except.error (Except.error.inj h)))
    | ok ty =>
      rw [addStatus_eq hcode hty, addNamed, DataItem.ofName]
      cases hid : cfg.getDataItemId "Status" none with
      | error e =>
        intro h
        exact bounded_getDataItemId (hid.trans (congrArg Except.error (Except.error.inj h)))
      | ok id =>
        refine bounded_addDataItem ?_
        rw [statusValue]
        split
        · exact bounded_ok _
        · exact bounded_ok _

omit [AddressText] in
/-- The status is put into a message exactly if it is found and can be encoded. -/
theorem exists_addStatus_iff (hpm : Frames cfg name pm before body) :
    (∃ pm₁, addStatus cfg status reason pm = .ok pm₁) ↔
      ∃ code, Finds cfg status code ∧ CanCarry cfg pm code reason := by
  have hlength := hpm.length_msgbuf
  constructor
  · rintro ⟨pm₁, hadd⟩
    obtain ⟨code, hcode, hrest⟩ := bind_eq_ok.1 hadd
    obtain ⟨ty, hty, -⟩ := bind_eq_ok.1 hrest
    rw [addStatus_eq hcode hty] at hadd
    obtain ⟨di, hdi, hadd⟩ := bind_eq_ok.1 hadd
    obtain ⟨id, hid, hdi⟩ := bind_eq_ok.1 hdi
    obtain rfl := Except.ok.inj hdi
    obtain ⟨w, hw, hframes⟩ := hpm.addDataItem hadd
    have hfits := hframes.body_fits
    rw [List.length_append] at hfits
    refine ⟨code, finds_iff.2 hcode, ty, id, w, hty, hid, hw, ?_, length_of_addDataItem hw hadd⟩
    rwa [hlength, Nat.add_sub_cancel_left]
  · rintro ⟨code, hfinds, ty, id, w, hty, hid, hw, hfits, hvector⟩
    obtain ⟨info, hinfo, -⟩ := cfg.info_of_getDataItemId hty hid
    obtain ⟨diName, hname, -⟩ := bind_eq_ok.1 hinfo
    obtain ⟨pm₁, hadd⟩ := hpm.exists_addDataItem hw hname (by rw [List.length_append]; omega)
      (by rw [List.length_append]; omega)
    refine ⟨pm₁, ?_⟩
    rw [addStatus_eq (finds_iff.1 hfinds) hty, addNamed, DataItem.ofName, hid]
    exact hadd

omit [AddressText] in
/-- The data item of a status is put behind those that the message has. -/
theorem frames_addStatus (hpm : Frames cfg name pm before body)
    (hadd : addStatus cfg status reason pm = .ok pm₁) :
    ∃ code id value body₁, Finds cfg status code ∧ cfg.getDataItemId "Status" none = .ok id ∧
      Frames cfg name pm₁ (before ++ [.mk id value]) body₁ ∧
      ((cfg.getDataItemValueType "Status" = .ok .u8 ∧ value = .u8 code.toUInt8) ∨
        (cfg.getDataItemValueType "Status" ≠ .ok .u8 ∧ value = .u8String code.toUInt8 reason)) := by
  obtain ⟨code, hcode, hadd⟩ := bind_eq_ok.1 hadd
  obtain ⟨ty, hty, hadd⟩ := bind_eq_ok.1 hadd
  split at hadd
  · next hu8 =>
    obtain ⟨id, body₁, hid, hframes⟩ := hpm.addNamed hadd
    exact ⟨code, id, _, body₁, finds_iff.2 hcode, hid, hframes, .inl ⟨by rw [hty, hu8], rfl⟩⟩
  · next hu8 =>
    obtain ⟨id, body₁, hid, hframes⟩ := hpm.addNamed hadd
    refine ⟨code, id, _, body₁, finds_iff.2 hcode, hid, hframes, .inr ⟨?_, rfl⟩⟩
    rw [hty]
    exact fun h => hu8 (Except.ok.inj h)

/-- The status that is found in a message is a configured one, the requested one if possible. -/
theorem getStatus_of_addStatus
    (htype : cfg.getDataItemValueType "Status" = .ok .u8 ∨
      cfg.getDataItemValueType "Status" = .ok .u8String)
    (hfit : cfg.StatusCodesFit) (hpm : Frames cfg name pm before body)
    (hbefore : ∀ di ∈ before, cfg.getDataItemId "Status" none ≠ .ok di.id)
    (hadd : addStatus cfg status reason pm = .ok pm₁)
    (hafter : addDataItems cfg after pm₁ = .ok sent)
    (h : Accepts cfg sent.isSignal sent.msgbuf logPrefix pm₀ received) :
    ∃ found, received.getStatus cfg = .ok found ∧ cfg.HasStatus found ∧
      (cfg.HasStatus status → found = status) := by
  obtain ⟨code, id, value, body₁, hfinds, hid, hframes, hvalue⟩ := frames_addStatus hpm hadd
  obtain ⟨found, hfound, hrequested⟩ := hfinds.name
  obtain ⟨rest, hsent⟩ := hframes.addDataItems hafter
  rw [List.append_assoc, List.singleton_append] at hsent
  have hread := hsent.readAs_self h
  have hfree : ∀ di ∈ before, di.id ≠ id := by
    rintro di hdi rfl
    exact hbefore di hdi hid
  have hname := getStatusCodeName_of_fit hfit hfound
  refine ⟨found, ?_, ⟨code, hfound⟩, hrequested⟩
  rcases hvalue with ⟨hu8, rfl⟩ | ⟨hu8, rfl⟩
  · have hget := getDataItemValue_of_readAs hid (by exact hu8) (by trivial) hfree
      (show u8? (.u8 code.toUInt8) = some _ from rfl) hread
    rw [getStatus, hu8, ok_bind, if_pos rfl, hget]
    exact hname
  · have hstring := htype.resolve_left hu8
    have hget := getDataItemValue_of_readAs hid (by exact hstring) (by trivial) hfree
      (show u8String? (.u8String code.toUInt8 reason) = some _ from rfl) hread
    rw [getStatus, hstring, ok_bind, if_neg (by decide), hget]
    exact hname

/-- The loop ends for every requested status exactly if the two cycles of the replacements have a
configured status. Five rounds are enough for it: the function runs into the bound of the model
exactly if the loop does not end, and puts the status into the message exactly if the loop ends
and the data item can be encoded. The status that is then read from the message is configured, and
is the requested one if that is. -/
theorem addStatus_ends_iff
    (htype : cfg.getDataItemValueType "Status" = .ok .u8 ∨
      cfg.getDataItemValueType "Status" = .ok .u8String) :
    ((∀ status, ∃ id, Finds cfg status id) ↔ cfg.HasStatus "Unknown_Message" ∧
      (cfg.HasStatus "Invalid_Message" ∨ cfg.HasStatus "Invalid_Data")) ∧
    (∀ status id, Finds cfg status id ↔ findStatusCodeId cfg 5 status = .ok id) ∧
    (∀ status reason pm, addStatus cfg status reason pm = .error .outOfFuel ↔
      ¬ ∃ id, Finds cfg status id) ∧
    ∀ {pm : ProtocolMessage} {name : String} {before : DataItems} {body : Bytes},
      Frames cfg name pm before body → ∀ (status : String) (reason : Bytes),
      ((∃ pm₁, addStatus cfg status reason pm = .ok pm₁) ↔
        ∃ code, Finds cfg status code ∧ CanCarry cfg pm code reason) ∧
      (cfg.StatusCodesFit → (∀ di ∈ before, cfg.getDataItemId "Status" none ≠ .ok di.id) →
        ∀ {code : StatusCodeIdType}, Finds cfg status code → CanCarry cfg pm code reason →
        ∃ pm₁, addStatus cfg status reason pm = .ok pm₁ ∧
          ∀ {sent received pm₀ : ProtocolMessage} {after : DataItems} {logPrefix : Bytes},
          addDataItems cfg after pm₁ = .ok sent →
          Accepts cfg sent.isSignal sent.msgbuf logPrefix pm₀ received →
          ∃ found, received.getStatus cfg = .ok found ∧ cfg.HasStatus found ∧
            (cfg.HasStatus status → found = status)) := by
  refine ⟨finds_all_iff, fun _ _ => finds_iff, fun _ _ pm => addStatus_outOfFuel_iff pm, ?_⟩
  intro pm name before body hpm status reason
  refine ⟨exists_addStatus_iff hpm, fun hfit hbefore code hfinds hcarry => ?_⟩
  obtain ⟨pm₁, hadd⟩ := (exists_addStatus_iff hpm).2 ⟨code, hfinds, hcarry⟩
  refine ⟨pm₁, hadd, fun hafter h => ?_⟩
  exact getStatus_of_addStatus htype hfit hpm hbefore hadd hafter h

end

attribute [local instance] plainText

/-- All status codes of the shipped configuration fit a byte. -/
theorem statusCodesFit_rfc8175 : rfc8175.StatusCodesFit := by
  have hall : ∀ e ∈ rfc8175.statusCodeMap.entries, e.1.toNat < 256 := by decide +kernel
  exact fun id name hname => hall _ ((Bimap.left_eq_some_iff _).1 hname)

/-- The message that ends a session, without its data item. -/
def bareTermination : ProtocolMessage where
  signalId := 5
  isSignal := false
  signalIdInitialized := true
  msgbuf := [0, 5, 0, 0]
  msgLenIndex := 2
  headerLength := 4

/-- The shipped configuration has `Invalid_Data`, but not `Invalid_Message`: a message that ends the
session for the latter carries the code of the former, and is read so. -/
theorem addStatus_ends_shipped :
    rfc8175.HasStatus "Invalid_Data" ∧ ¬ rfc8175.HasStatus "Invalid_Message" ∧
      (∀ status, ∃ id, Finds rfc8175 status id) ∧
      addHeader rfc8175 "Session_Termination" {} = .ok bareTermination ∧
      ∃ pm₁ received found, addStatus rfc8175 "Invalid_Message" (str "long") bareTermination =
        .ok pm₁ ∧
        pm₁.msgbuf = [0, 5, 0, 9, 0, 1, 0, 5, 130] ++ str "long" ∧
        Accepts rfc8175 pm₁.isSignal pm₁.msgbuf [] {} received ∧
        received.getStatus rfc8175 = .ok found ∧ rfc8175.HasStatus found := by
  have hends := @addStatus_ends_iff plainText rfc8175 (.inr rfl)
  have hheader : addHeader rfc8175 "Session_Termination" {} = .ok bareTermination := rfl
  have hnone : ¬ rfc8175.HasStatus "Invalid_Message" := by
    rintro ⟨id, hid⟩
    cases hid
  refine ⟨⟨130, rfl⟩, hnone, hends.1.2 ⟨⟨128, rfl⟩, .inr ⟨130, rfl⟩⟩, hheader, ?_⟩
  have hfinds : Finds rfc8175 "Invalid_Message" 130 := (hends.2.1 _ _).2 rfl
  have hcarry : CanCarry rfc8175 bareTermination 130 (str "long") :=
    ⟨.u8String, 1, [0, 1, 0, 5, 130] ++ str "long", rfl, rfl, by decide +kernel⟩
  obtain ⟨pm₁, hadd, hread⟩ :=
    (hends.2.2.2 (frames_addHeader hheader) "Invalid_Message" (str "long")).2
    statusCodesFit_rfc8175 (by simp) hfinds hcarry
  have hbuf : (addStatus rfc8175 "Invalid_Message" (str "long") bareTermination).toOption.map
      (fun pm => (pm.isSignal, pm.msgbuf)) =
        some (false, [0, 5, 0, 9, 0, 1, 0, 5, 130] ++ str "long") := by decide +kernel
  have hparse : ((parseBuffer rfc8175 ([0, 5, 0, 9, 0, 1, 0, 5, 130] ++ str "long") false []
      {}).toOption.map Prod.fst) = some [] := by decide +kernel
  rw [hadd] at hbuf
  obtain ⟨hsignal, hbuf⟩ := Prod.mk.inj (Option.some.inj hbuf)
  have hreceived : ∃ received, Accepts rfc8175 pm₁.isSignal pm₁.msgbuf [] {} received := by
    rw [hsignal, hbuf]
    cases hresult : parseBuffer rfc8175 ([0, 5, 0, 9, 0, 1, 0, 5, 130] ++ str "long")
      false [] {} with
    | error e =>
      rw [hresult] at hparse
      cases hparse
    | ok result =>
      rw [hresult] at hparse
      obtain ⟨err, received⟩ := result
      obtain rfl : err = [] := Option.some.inj hparse
      exact ⟨received, hresult⟩
  obtain ⟨received, hreceived⟩ := hreceived
  obtain ⟨found, hfound, hstatus, -⟩ := @hread pm₁ received {} [] [] rfl hreceived
  exact ⟨pm₁, received, found, hadd, hbuf, hreceived, hfound, hstatus⟩

end ProtocolMessage

end Dlep
