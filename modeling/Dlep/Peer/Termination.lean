import Dlep.Peer.Queues
import Dlep.ProtocolMessage.Status
import Dlep.ProtocolMessage.Wire

/-!
# Telling the peer that the session ends

`terminate` puts a Session Termination on the queue of the session, and stops the timers that
would send it later. So the peer is told only if nothing else waits on that queue, and if the
session itself is not among the destinations in which the peer is not interested.
-/

namespace Dlep

open Std Calls Runs FlightQueue

/-- The bytes that an event hands to the session. -/
def Event.handed : Event → Option Bytes
  | .send buf => some buf
  | .transmit rp => some rp.msgBuffer
  | _ => none

/-- The object for a message can be made if the message has a response. -/
theorem ResponsePending.exists_make {cfg : ProtocolConfig} {pm : ProtocolMessage} {name : String}
    {siginfo : SignalInfo} (hname : pm.getSignalName cfg = .ok name)
    (hinfo : cfg.getSignalInfo name = .ok siginfo) (hresponse : siginfo.responseId ≠ 0)
    {responseName : String}
    (hresponseName : nameOf cfg pm.isSignal siginfo.responseId = .ok responseName)
    {mac : Option DlepMac} (hmac : ifPresent (pm.getMac cfg) = .ok mac) :
    ∃ rp, ResponsePending.make cfg pm = .ok rp := by
  rw [ResponsePending.make, hname, ok_bind, hinfo, ok_bind]
  simp only [assertThat, hresponse, ne_eq, not_false_eq_true, decide_true, if_true, ok_bind,
    hresponseName, hmac]
  exact ⟨_, rfl⟩

namespace Peer

/-- The data item for a status, which may have been replaced by one that is configured. -/
def IsStatus (cfg : ProtocolConfig) (status : String) (reason : Bytes) (di : DataItem) : Prop :=
  ∃ id code, cfg.getDataItemId "Status" none = .ok id ∧
    ProtocolMessage.findStatusCodeId cfg 5 status = .ok code ∧
    (di = .mk id (.u8 code.toUInt8) ∨ di = .mk id (.u8String code.toUInt8 reason))

/-- The bytes are a Session Termination with the status as its only data item. -/
def IsTermination (cfg : ProtocolConfig) (status : String) (reason buf : Bytes) : Prop :=
  ∃ id isSignal di w, cfg.getSignalId "Session_Termination" = .ok (id, isSignal) ∧
    IsStatus cfg status reason di ∧ di.serialize cfg = .ok w ∧
    buf = ProtocolMessage.frame cfg isSignal id w

section

variable [AddressText] (d : DlepView) (s : Surroundings) (status : String) (reason : Bytes)

/-- The message of `terminate`, as it is put on its queue. -/
def terminationRequest : Except Exn ResponsePending := do
  let pm ← composeChecked d "Session_Termination"
    (fun pm => ProtocolMessage.addStatus d.cfg status reason pm) "terminate"
  ResponsePending.make d.cfg pm

/-- The configuration has a Session Termination that can carry the status and the reason. -/
def Expressible : Prop := ∃ rp, terminationRequest d status reason = .ok rp

/-- The call hands exactly one message to the session before it returns: a Session Termination with
the status. -/
def Notifies (p : Peer) : Prop :=
  ∃ q events buf, terminate d s status reason p = .ok () q ∧ q.trace = p.trace ++ events ∧
    events.filterMap Event.handed = [buf] ∧ IsTermination d.cfg status reason buf

end

/-! ## The message -/

/-- What is put into the message. -/
theorem addStatus_ok {cfg : ProtocolConfig} {status : String} {reason : Bytes}
    {pm pm' : ProtocolMessage} (h : ProtocolMessage.addStatus cfg status reason pm = .ok pm') :
    ∃ di, IsStatus cfg status reason di ∧ ProtocolMessage.addDataItem cfg di pm = .ok pm' := by
  simp only [ProtocolMessage.addStatus, bind_eq_ok] at h
  obtain ⟨code, hcode, ty, _, h⟩ := h
  split at h
  · obtain ⟨di, hdi, h⟩ := bind_eq_ok.1 h
    obtain ⟨id, hid, hret⟩ := bind_eq_ok.1 hdi
    obtain rfl := Except.ok.inj hret
    exact ⟨_, ⟨id, code, hid, hcode, .inl rfl⟩, h⟩
  · obtain ⟨di, hdi, h⟩ := bind_eq_ok.1 h
    obtain ⟨id, hid, hret⟩ := bind_eq_ok.1 hdi
    obtain rfl := Except.ok.inj hret
    exact ⟨_, ⟨id, code, hid, hcode, .inr rfl⟩, h⟩

/-- Two names do not have the same id. -/
theorem getDataItemId_inj {cfg : ProtocolConfig} {name name' : String} {id : DataItemIdType}
    (h : cfg.getDataItemId name none = .ok id) (h' : cfg.getDataItemId name' none = .ok id) :
    name = name' := by
  have hleft : ∀ {n : String}, cfg.getDataItemId n none = .ok id →
      cfg.dataItemMap.left id = some n := by
    intro n hn
    simp only [ProtocolConfig.getDataItemId, ProtocolConfig.subDataItemId?, Option.bind_none] at hn
    split at hn
    · next heq =>
      obtain rfl := Except.ok.inj hn
      exact cfg.dataItemMap.left_eq_some_iff_right.2 heq
    · simp [throwStd] at hn
  exact Option.some.inj ((hleft h).symm.trans (hleft h'))

/-- The bytes of one data item are not those of several, or of one with another id. -/
theorem id_of_mem_forms {cfg : ProtocolConfig} {items : DataItems} {forms : List Form}
    (hforms : ProtocolMessage.Forms cfg items forms) {id : DataItemIdType} {value : DataItemValue}
    {w : Bytes} (hser : (DataItem.mk id value).serialize cfg = .ok w)
    (hbody : w = ProtocolMessage.bodyOf forms) : ∀ di ∈ items, di.id = id := by
  obtain ⟨valbuf, _, _, hid, hlen, hw⟩ := DataItem.serialize_ok.1 hser
  cases hforms with
  | nil => simp
  | @cons di form items forms hform hforms =>
    change w = form.bytes ++ ProtocolMessage.bodyOf forms at hbody
    cases hform with
    | @mk _ id' value' info zero port port' subs _ _ _ _ _ _ _ hid' hlen' =>
      rw [hw] at hbody
      simp only [DataItem.framed, List.append_assoc] at hbody
      obtain ⟨hids, hrest⟩ := List.append_inj hbody (by simp)
      obtain ⟨hlens, hvals⟩ := List.append_inj hrest (by simp)
      have hsame := congrArg BigEndian.decode hids
      rw [BigEndian.decode_encode hid, BigEndian.decode_encode hid'] at hsame
      have hlength := congrArg BigEndian.decode hlens
      rw [BigEndian.decode_encode hlen, BigEndian.decode_encode hlen'] at hlength
      have hempty : ProtocolMessage.bodyOf forms = [] := by
        have hall := congrArg List.length hvals
        rw [List.length_append] at hall
        exact List.eq_nil_of_length_eq_zero (by omega)
      rw [ProtocolMessage.forms_nil hforms hempty, List.forall_mem_singleton]
      exact (UInt32.toNat_inj.1 hsame).symm

section

variable [AddressText] {d : DlepView} {s : Surroundings} {status : String} {reason : Bytes}

/-- A message that was composed frames what was put into it, and was parsed without an error. -/
theorem composeChecked_ok {name func : String}
    {build : ProtocolMessage → Except Exn ProtocolMessage} {pm : ProtocolMessage}
    (h : composeChecked d name build func = .ok pm) :
    ∃ pm₀ pm₁, ProtocolMessage.addHeader d.cfg name {} = .ok pm₀ ∧ build pm₀ = .ok pm₁ ∧
      ProtocolMessage.parse d.cfg (str func) pm₁ = .ok ([], pm) := by
  simp only [composeChecked, compose, bind_eq_ok, assertThat_ok, decide_eq_true_eq] at h
  obtain ⟨⟨err, pm'⟩, ⟨pm₀, hheader, pm₁, hbuild, hparse⟩, _, rfl, hret⟩ := h
  obtain rfl := Except.ok.inj hret
  obtain ⟨⟨err, pm₂⟩, hparsed, hvalid⟩ := bind_eq_ok.1 hparse
  dsimp only at hvalid
  split at hvalid
  · next herr => exact absurd (Prod.mk.inj (Except.ok.inj hvalid)).1 herr
  · next herr =>
    obtain ⟨_, _, hret⟩ := bind_eq_ok.1 hvalid
    obtain ⟨_, rfl⟩ := Prod.mk.inj (Except.ok.inj hret)
    exact ⟨pm₀, pm₁, hheader, hbuild, (not_not.1 herr) ▸ hparsed⟩

/-- The message is a Session Termination for the queue of the session. -/
theorem terminationRequest_ok {rp : ResponsePending}
    (h : terminationRequest d status reason = .ok rp) :
    rp.destination = [] ∧ rp.queued = false ∧ IsTermination d.cfg status reason rp.msgBuffer := by
  obtain ⟨pm, hpm, hmake⟩ := bind_eq_ok.1 h
  obtain ⟨pm₀, pm₁, hheader, hstatus, hparse⟩ := composeChecked_ok hpm
  obtain ⟨di, hdi, hadd⟩ := addStatus_ok hstatus
  obtain ⟨w, hw, hframes⟩ := (ProtocolMessage.frames_addHeader hheader).addDataItem hadd
  have hframes' := hframes.parse hparse
  obtain ⟨length, body, ⟨id, forms, _, _, _, hforms, hbody, hbuf⟩, _⟩ :=
    (@ProtocolMessage.accepts_iff _ d.cfg pm₁.isSignal pm₁.msgbuf (str "terminate") pm₁ _).1
      ⟨pm, hparse, rfl⟩
  -- the body is the status, and the status is no MAC address
  rw [hframes.msgbuf, ProtocolMessage.frame] at hbuf
  obtain ⟨_, hrest⟩ := List.append_inj hbuf
    (by rw [ProtocolMessage.length_idBytes, ProtocolMessage.length_idBytes])
  obtain ⟨_, hsame⟩ := List.append_inj hrest (by simp)
  obtain ⟨statusId, code, hid, hcode, hvalue⟩ := hdi
  have hitem : ∃ value, di = .mk statusId value := by
    rcases hvalue with rfl | rfl
    · exact ⟨_, rfl⟩
    · exact ⟨_, rfl⟩
  obtain ⟨value, hitem⟩ := hitem
  have hids : ∀ di ∈ pm.dataItems, di.id = statusId :=
    id_of_mem_forms hforms (hitem ▸ hw) (hsame.trans hbody)
  simp only [ResponsePending.make, bind_eq_ok] at hmake
  obtain ⟨_, _, siginfo, _, _, _, _, _, mac, hmac, hret⟩ := hmake
  obtain rfl := Except.ok.inj hret
  refine ⟨?_, rfl, pm.signalId, pm.isSignal, di, w, hframes'.signalId,
    ⟨statusId, code, hid, hcode, hvalue⟩, hw, hframes'.msgbuf⟩
  have hnone : mac = none := by
    unfold ProtocolMessage.getMac ProtocolMessage.getDataItemValue at hmac
    cases hmacId : d.cfg.getDataItemId "MAC_Address" none with
    | error e =>
      simp only [ProtocolConfig.getDataItemId, ProtocolConfig.subDataItemId?,
        Option.bind_none] at hmacId
      split at hmacId
      · cases hmacId
      · obtain rfl := Except.error.inj hmacId
        simp only [ProtocolConfig.getDataItemId, ProtocolConfig.subDataItemId?, Option.bind_none,
          *, throwStd, error_bind, ifPresent] at hmac
        cases hmac
    | ok macId =>
      have hfind : (pm.dataItems.find? fun di => di.id = macId) = none := by
        refine List.find?_eq_none.2 fun di hdi heq => ?_
        have hboth : macId = statusId := by
          rw [← hids di hdi]
          exact (of_decide_eq_true heq).symm
        exact absurd (getDataItemId_inj hmacId (hboth ▸ hid)) (by decide)
      simp only [hmacId, ok_bind, hfind] at hmac
      exact (Except.ok.inj hmac).symm
  rw [hnone]
  rfl

/-! ## The call -/

omit [AddressText] in
/-- A new message is handed to the session if it is the first of its queue, and if the peer is
interested in its destination. Nothing else is. -/
theorem sendNew_handed {now : Nat} {rp : ResponsePending} (hqueued : rp.queued = false) {p : Peer}
    (hp : QueueInv p) :
    ∃ q events, sendNew now rp p = .ok () q ∧ q.trace = p.trace ++ events ∧
      events.filterMap Event.handed =
        if p.queue rp.destination = [] ∧ p.isNotInterested rp.destination =
          false then [rp.msgBuffer]
        else [] := by
  obtain ⟨q, hrun, htrace⟩ := @sendNew_trace now rp hqueued p hp
  refine ⟨q, _, hrun, htrace, ?_⟩
  cases hint : p.isNotInterested rp.destination with
  | true => simp
  | false =>
    by_cases hqueue : p.queue rp.destination = []
    · simp only [hqueue, Bool.false_eq_true, if_false, if_true, and_self]
      rfl
    · simp only [hqueue, Bool.false_eq_true, if_false, false_and]
      rfl

omit [AddressText] in
/-- The end of a session hands nothing to it. -/
theorem stopPeer_run {p : Peer} (hp : p.pstate ≠ .terminating) :
    ∃ events, stopPeer d p = .ok () { p with pstate := .terminating, trace := p.trace ++ events } ∧
      events.filterMap Event.handed = [] ∧ ∀ e ∈ events, ∀ key, queueAction key e = none := by
  cases hadvert : d.destAdvertEnabled with
  | true =>
    refine ⟨[.client (.peerDown p.peerId), .clearDestinations], ?_, rfl, by simp [queueAction]⟩
    simp only [stopPeer, setStateTerminating, hadvert, if_true, bind_run]
    change (if p.pstate = .terminating then _ else _ : PeerM Unit) p = _
    rw [if_neg hp]
    change EStateM.Result.ok () { p with pstate := .terminating, trace := _ ++ _ ++ _ } = _
    rw [List.append_assoc]
    rfl
  | false =>
    refine ⟨[.client (.peerDown p.peerId)], ?_, rfl, by simp [queueAction]⟩
    simp only [stopPeer, setStateTerminating, hadvert, Bool.false_eq_true, if_false, bind_run]
    change (if p.pstate = .terminating then _ else _ : PeerM Unit) p = _
    rw [if_neg hp]
    rfl

/-- The steps of the call in a session that has not ended. -/
theorem terminate_run {p : Peer} (hp : p.pstate ≠ .terminating) :
    terminate d s status reason p =
      (do
        stopPeer d
        let rp ← terminationRequest d status reason
        sendNew s.now rp
        modify fun p => { p with registered := false } : PeerM Unit) p := by
  unfold terminate
  rw [bind_run]
  change (if p.pstate = .terminating then _ else _ : PeerM Unit) p = _
  rw [if_neg hp, bind_run, bind_run]
  cases stopPeer d p with
  | error e q => rfl
  | ok _ q =>
    unfold terminationRequest sendRequest
    cases composeChecked d "Session_Termination"
        (fun pm => ProtocolMessage.addStatus d.cfg status reason pm) "terminate" with
    | error e => rfl
    | ok pm =>
      cases hmake : ResponsePending.make d.cfg pm with
      | error e =>
        simp only [ok_bind, lift_ok_bind, hmake]
        rfl
      | ok rp => simp only [ok_bind, lift_ok_bind, hmake]

/-- The message reaches the session exactly if nothing is in its way. -/
theorem notifies_iff_of_queueInv {p : Peer} (hp : QueueInv p) (hstate : p.pstate ≠ .terminating) :
    Notifies d s status reason p ↔
      p.queue [] = [] ∧ p.isNotInterested [] = false ∧ Expressible d status reason := by
  obtain ⟨ending, hstop, hquiet, hother⟩ := @stopPeer_run d p hstate
  obtain ⟨q, hq⟩ : ∃ q : Peer, q = { p with pstate := .terminating, trace := p.trace ++ ending } :=
    ⟨_, rfl⟩
  have hqinv : QueueInv q := by
    rw [hq]
    exact hp.append ending hp.ok rfl hother rfl le_rfl
  rw [← hq] at hstop
  have hrun := @terminate_run _ d s status reason p hstate
  rw [bind_run, hstop] at hrun
  dsimp only at hrun
  cases hrequest : terminationRequest d status reason with
  | error e =>
    -- the call throws
    rw [hrequest] at hrun
    constructor
    · rintro ⟨_, _, _, hret, _⟩
      rw [hrun] at hret
      cases hret
    · rintro ⟨_, _, rp, hrp⟩
      rw [hrequest] at hrp
      cases hrp
  | ok rp =>
    obtain ⟨hdest, hqueued, hterm⟩ := terminationRequest_ok hrequest
    obtain ⟨q', events, hsend, htrace, hevents⟩ := @sendNew_handed s.now rp hqueued q hqinv
    have hcond : (q.queue rp.destination = [] ∧ q.isNotInterested rp.destination = false) ↔
        (p.queue [] = [] ∧ p.isNotInterested [] = false) := by
      rw [hdest, hq]
      rfl
    rw [hrequest, lift_ok_bind, bind_run, hsend] at hrun
    have htrace : q'.trace = p.trace ++ (ending ++ events) := by
      rw [htrace, hq, List.append_assoc]
    have hhanded : (ending ++ events).filterMap Event.handed =
        if p.queue [] = [] ∧ p.isNotInterested [] = false then [rp.msgBuffer] else [] := by
      rw [List.filterMap_append, hquiet, List.nil_append, hevents]
      exact if_congr hcond rfl rfl
    constructor
    · rintro ⟨q'', events', buf, hret, htrace', hone, _⟩
      rw [hrun] at hret
      obtain ⟨_, rfl⟩ := EStateM.Result.ok.inj hret
      obtain rfl := List.append_cancel_left (htrace.symm.trans htrace')
      rw [hhanded] at hone
      split at hone
      · next hfree => exact ⟨hfree.1, hfree.2, rp, hrequest⟩
      · cases hone
    · rintro ⟨hempty, hinterested, _⟩
      rw [if_pos ⟨hempty, hinterested⟩] at hhanded
      exact ⟨_, ending ++ events, rp.msgBuffer, hrun, htrace, hhanded, hterm⟩

/-! ## The shipped configuration -/

omit [AddressText] in
/-- A status code of the shipped configuration fits its byte. -/
theorem rfc8175_statusCodesFit : rfc8175.StatusCodesFit := by
  have hall : ∀ e ∈ rfc8175.statusCodeMap.entries, e.1.toNat < 256 := by decide +kernel
  intro id name h
  exact hall _ ((Bimap.left_eq_some_iff _).1 h)

omit [AddressText] in
/-- The status that is used is a configured one. -/
theorem getStatusCodeName_of_findStatusCodeId {n : Nat} {code : StatusCodeIdType}
    (h : ProtocolMessage.findStatusCodeId rfc8175 n status = .ok code) :
    ∃ name, rfc8175.getStatusCodeName code.toUInt8.toUInt32 = .ok name := by
  obtain ⟨name, hname, _⟩ := (ProtocolMessage.finds_of_findStatusCodeId h).name
  exact ⟨name, ProtocolMessage.getStatusCodeName_of_fit rfc8175_statusCodesFit hname⟩

omit [AddressText] in
/-- Whatever a status is replaced by is configured, or replaced by one that is. -/
theorem findStatusCodeId_rfc8175 (status : String) :
    ∃ code, ProtocolMessage.findStatusCodeId rfc8175 5 status = .ok code := by
  have hunknown : rfc8175.HasStatus "Unknown_Message" := ⟨128, rfl⟩
  have hdata : rfc8175.HasStatus "Invalid_Data" := ⟨130, rfl⟩
  obtain ⟨code, hfinds⟩ := ProtocolMessage.exists_finds_of_hasStatus hunknown (.inr hdata) status
  exact ⟨code, ProtocolMessage.finds_iff.1 hfinds⟩

omit [AddressText] in
/-- The status is the code in a byte and the reason. -/
theorem addStatus_rfc8175 {code : StatusCodeIdType}
    (hcode : ProtocolMessage.findStatusCodeId rfc8175 5 status = .ok code) (pm : ProtocolMessage) :
    ProtocolMessage.addStatus rfc8175 status reason pm =
      ProtocolMessage.addDataItem rfc8175 (.mk 1 (.u8String code.toUInt8 reason)) pm := by
  rw [ProtocolMessage.addStatus, hcode]
  rfl

omit [AddressText] in
/-- The status is written as its code and its reason, behind a header of four bytes. -/
theorem length_serialize_status {code : UInt8} {w : Bytes}
    (h : (DataItem.mk 1 (.u8String code reason)).serialize rfc8175 = .ok w) :
    w.length = reason.length + 5 := by
  obtain ⟨valbuf, hvalue, _, _, _, rfl⟩ := DataItem.serialize_ok.1 h
  obtain rfl := Except.ok.inj hvalue
  have hlength : (Dlep.serialize 1 code.toNat [] ++ reason).length = reason.length + 1 := by
    simp [Dlep.serialize, Nat.add_comm]
  rw [List.length_append, List.length_append, BigEndian.length_encode,
    BigEndian.length_encode, hlength]
  change 2 + (2 + (reason.length + 1)) = _
  omega

omit [AddressText] in
/-- A reason of up to 65530 bytes fits the status of the shipped configuration. -/
theorem exists_serialize_status (code : UInt8) (hreason : reason.length ≤ 65530) :
    ∃ w, (DataItem.mk 1 (.u8String code reason)).serialize rfc8175 = .ok w := by
  have hlength : (Dlep.serialize 1 code.toNat [] ++ reason).length = reason.length + 1 := by
    simp [Dlep.serialize, Nat.add_comm]
  refine ⟨_, DataItem.serialize_ok.2 ⟨_, rfl, ?_, by decide, ?_, rfl⟩⟩
  · rw [hlength]
    omega
  · rw [hlength]
    change reason.length + 1 < 65536
    omega

omit [AddressText] in
/-- A status that is configured is acceptable, whatever the reason. -/
theorem acceptable_status {code : StatusCodeIdType} {n : Nat}
    (hcode : ProtocolMessage.findStatusCodeId rfc8175 n status = .ok code) :
    (DataItem.mk 1 (.u8String code.toUInt8 reason)).Acceptable rfc8175 := by
  obtain ⟨name, hname⟩ := getStatusCodeName_of_findStatusCodeId hcode
  exact DataItem.acceptable_of_plain rfl rfl rfl ⟨trivial, trivial⟩ fun _ => ⟨name, hname⟩

/-- With the shipped configuration, the message can be composed if the reason is not too long. -/
theorem exists_terminationMessage (hcfg : d.cfg = rfc8175) {code : StatusCodeIdType}
    (hcode : ProtocolMessage.findStatusCodeId rfc8175 5 status = .ok code)
    (hreason : reason.length ≤ 65530) :
    ∃ pm, composeChecked d "Session_Termination"
        (fun pm => ProtocolMessage.addStatus d.cfg status reason pm) "terminate" = .ok pm ∧
      pm.getSignalName rfc8175 = .ok "Session_Termination" ∧ pm.isSignal = false ∧
      pm.dataItems = [.mk 1 (.u8String code.toUInt8 reason)] := by
  obtain ⟨info, hinfo⟩ : ∃ info, info =
      Rfc8175.message "Session_Termination" 5 .both 6 [Rfc8175.statusRef] := ⟨_, rfl⟩
  obtain ⟨pm₀, hheader⟩ :
      ∃ pm₀, ProtocolMessage.addHeader rfc8175 "Session_Termination" {} = .ok pm₀ := ⟨_, rfl⟩
  have hframes₀ := ProtocolMessage.frames_addHeader hheader
  obtain ⟨w, hw⟩ := exists_serialize_status code.toUInt8 hreason
  have hlength := length_serialize_status hw
  have hheaderLength : pm₀.headerLength = 4 := by
    obtain rfl := Except.ok.inj hheader
    rfl
  have hfit : ([] ++ w).length < 65536 := by
    rw [List.nil_append, hlength]
    omega
  obtain ⟨pm₁, hadd⟩ := hframes₀.exists_addDataItem hw rfl hfit (by omega)
  obtain ⟨_, _, hframes₁⟩ := hframes₀.addDataItem hadd
  have hid : ∀ {pm items body}, ProtocolMessage.Frames rfc8175 "Session_Termination" pm items body →
      5 = pm.signalId ∧ false = pm.isSignal := fun hframes =>
    Prod.mk.inj (Except.ok.inj
      ((show rfc8175.getSignalId "Session_Termination" = .ok (5, false) from rfl).symm.trans
        hframes.signalId))
  have hlookup : rfc8175.infoOfId pm₁.isSignal pm₁.signalId = some info := by
    rw [← (hid hframes₁).1, ← (hid hframes₁).2, hinfo]
    rfl
  have hsender : info.flags &&& SignalInfo.senderFlag d.modem ≠ 0 := by
    rw [hinfo]
    cases d.modem with
    | true => decide
    | false => decide
  have hoccurs : OccurrencesConform Reading.machine [.mk 1 (.u8String code.toUInt8 reason)]
      info.dataItems := by
    rw [hinfo]
    exact ⟨List.forall_mem_singleton.2 rfl,
      List.forall_mem_singleton.2 ⟨_, List.mem_singleton_self _, rfl⟩⟩
  obtain ⟨pm, hparse, hframes, hitems⟩ := hframes₁.parseAndValidate rfc8175_distinctReferences
    rfc8175_namesDisjoint hlookup hsender hoccurs (by simpa using acceptable_status hcode)
    (str "terminate")
  refine ⟨pm, ?_, ProtocolMessage.getSignalName_of_getSignalId hframes.signalId hframes.initialized,
    (hid hframes).2.symm, hitems⟩
  rw [composeChecked, compose, hcfg, hheader, ok_bind, addStatus_rfc8175 hcode,
    hadd, ok_bind, hparse]
  rfl

/-- With the shipped configuration, only the length of the reason matters. -/
theorem expressible_rfc8175_iff (hcfg : d.cfg = rfc8175) :
    Expressible d status reason ↔ reason.length ≤ 65530 := by
  obtain ⟨code, hcode⟩ := findStatusCodeId_rfc8175 status
  constructor
  · rintro ⟨rp, hrp⟩
    obtain ⟨pm, hpm, _⟩ := bind_eq_ok.1 hrp
    obtain ⟨pm₀, pm₁, hheader, hstatus, _⟩ := composeChecked_ok hpm
    rw [hcfg] at hheader hstatus
    rw [addStatus_rfc8175 hcode] at hstatus
    obtain ⟨w, hw, hframes⟩ := (ProtocolMessage.frames_addHeader hheader).addDataItem hstatus
    have hfits : w.length < 65536 := hframes.body_fits
    rw [length_serialize_status hw] at hfits
    omega
  · intro hreason
    obtain ⟨pm, hcompose, hname, hsignal, hitems⟩ := exists_terminationMessage hcfg hcode hreason
    have hmac : ifPresent (pm.getMac rfc8175) = .ok none := by
      rw [ProtocolMessage.getMac, ProtocolMessage.getDataItemValue, hitems]
      rfl
    have hresponse : ResponsePending.nameOf rfc8175 pm.isSignal 6 =
        .ok "Session_Termination_Response" := by
      rw [hsignal]
      rfl
    obtain ⟨rp, hrp⟩ := ResponsePending.exists_make hname
      (show rfc8175.getSignalInfo "Session_Termination" = .ok
        (Rfc8175.message "Session_Termination" 5 .both 6 [Rfc8175.statusRef]) from rfl)
      (by decide) hresponse hmac
    refine ⟨rp, ?_⟩
    rw [terminationRequest, hcompose, ok_bind, hcfg, hrp]

/-- In every state that can be reached and in which the session has not ended, the peer is told
exactly if nothing waits on the queue of the session, the peer is interested in it, and the
message can be composed. With the shipped configuration it can, unless the reason is too long. -/
theorem notifies_iff_of_run {cfg : ProtocolConfig} {peerId : PeerId} {now : Nat} {p : Peer}
    (hp : Peer.create cfg peerId now = .ok p) {steps : List Step}
    (hstate : (run step p steps).pstate ≠ .terminating) (d : DlepView) (s : Surroundings)
    (status : String) (reason : Bytes) :
    (Notifies d s status reason (run step p steps) ↔ (run step p steps).queue [] = [] ∧
      (run step p steps).isNotInterested [] = false ∧ Expressible d status reason) ∧
    (d.cfg = rfc8175 →
      (Notifies d s status reason (run step p steps) ↔ (run step p steps).queue [] = [] ∧
        (run step p steps).isNotInterested [] = false ∧ reason.length ≤ 65530)) := by
  have hrun : QueueInv (run step p steps) :=
    along_true.invariant (fun _ st hq _ => queueInv_queueStep (.step st) hq) (queueInv_of_create hp)
  refine ⟨notifies_iff_of_queueInv hrun hstate, fun hcfg => ?_⟩
  rw [notifies_iff_of_queueInv hrun hstate, expressible_rfc8175_iff hcfg]

end

attribute [local instance] plainText

/-- A session that is open, with a request of the client for which no response has come yet. -/
def upOutstanding : List Step :=
  bareSteps true [.receive sessionInitialization, .message, .destinationUp [10, 11] []]

/-- The request waits on a queue of its own, so that the peer is told why the session ends; behind
an update of the session it is not. -/
theorem notifies_iff_of_run_upOutstanding :
    (run step barePeer upOutstanding).pstate = .inSession ∧
      Notifies (bareView true) bareSurroundings "Timed_Out" (str "no response")
        (run step barePeer upOutstanding) ∧
      ¬ Notifies (bareView true) bareSurroundings "Timed_Out" (str "no response")
        (run step barePeer (upOutstanding ++ bareSteps true [.peerUpdate []])) := by
  obtain ⟨hopen, hempty, hinterested, hopen', hqueue⟩ :
      (run step barePeer upOutstanding).pstate = .inSession ∧
      (run step barePeer upOutstanding).queue [] = [] ∧
      (run step barePeer upOutstanding).isNotInterested [] = false ∧
      (run step barePeer (upOutstanding ++ bareSteps true [.peerUpdate []])).pstate = .inSession ∧
      ((run step barePeer (upOutstanding ++ bareSteps true [.peerUpdate []])).queue
        []).length ≠ 0 := by
    decide +kernel
  obtain ⟨-, htold⟩ :=
    @notifies_iff_of_run plainText rfc8175 (str "peer") 0 barePeer rfl upOutstanding
    (by simp [hopen]) (bareView true) bareSurroundings "Timed_Out" (str "no response")
  obtain ⟨hnotTold, -⟩ := @notifies_iff_of_run plainText rfc8175 (str "peer") 0 barePeer rfl
    (upOutstanding ++ bareSteps true [.peerUpdate []]) (by simp [hopen']) (bareView true)
    bareSurroundings "Timed_Out" (str "no response")
  refine ⟨hopen, (htold rfl).2 ⟨hempty, hinterested, by decide +kernel⟩, fun h => ?_⟩
  obtain ⟨hnone, -⟩ := hnotTold.1 h
  exact hqueue (congrArg List.length hnone)

/-- A router waits for the response to its Session Initialization when the session is to end: the
Session Termination is put behind it, and is not sent. -/
theorem termination_behind_initialization :
    Peer.create rfc8175 (str "peer") 0 = .ok barePeer ∧
      (run step barePeer (bareSteps false [.start])).pstate = .connected ∧
      ¬ Notifies (bareView false) bareSurroundings "Timed_Out" []
        (run step barePeer (bareSteps false [.start])) := by
  have hcreate : Peer.create rfc8175 (str "peer") 0 = .ok barePeer := rfl
  have hconnected : (run step barePeer (bareSteps false [.start])).pstate = .connected := by
    decide +kernel
  have hrun : QueueInv (run step barePeer (bareSteps false [.start])) :=
    along_true.invariant (fun _ st hq _ => queueInv_queueStep (.step st) hq)
      (queueInv_of_create hcreate)
  refine ⟨hcreate, hconnected, fun h => ?_⟩
  obtain ⟨hempty, _⟩ := (notifies_iff_of_queueInv hrun (by rw [hconnected]; decide)).1 h
  exact absurd (congrArg List.length hempty) (by decide +kernel)

end Peer

end Dlep
