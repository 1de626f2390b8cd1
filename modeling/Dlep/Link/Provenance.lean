import Dlep.Link.Handshake
import Dlep.Peer.Voice

/-!
# Where the reports to a client come from

Over a session, the client of a router is told of destinations and of changes of the session. Each
such call repeats what the node of the modem has said, of the destination that it is about: with
the data items that are read back of the bytes that were written for what was said. Nothing is
made up, mixed up between destinations, or taken from a message that was not sent.
-/

namespace Dlep

open Std Calls Runs ProtocolMessage

/-- What is read of a message that was composed is what is read back of each data item. -/
theorem ProtocolMessage.Frames.readBack [AddressText] {cfg : ProtocolConfig} {name : String}
    {pm pm' pm₀ : ProtocolMessage} {items : DataItems} {body logPrefix : Bytes}
    (hpm : Frames cfg name pm items body)
    (h : Accepts cfg pm.isSignal pm.msgbuf logPrefix pm₀ pm') :
    List.Forall₂ (DataItem.ReadBack cfg) items pm'.dataItems := by
  obtain ⟨length, body', ⟨id, forms, _, _, _, hforms, rfl, hbuf⟩, _⟩ := accepts_iff.1 ⟨pm', h, rfl⟩
  obtain ⟨ws, hws, rfl⟩ := serializeSubDataItems_ok.1 hpm.body
  rw [hpm.msgbuf, frame] at hbuf
  obtain ⟨_, hbuf⟩ := List.append_inj hbuf (by rw [length_idBytes, length_idBytes])
  obtain ⟨_, hbody⟩ := List.append_inj hbuf (by simp)
  exact readBack_of_forms hws hforms hbody

namespace Peer

/-- What the node says in a step of a destination: what it is told to say, and what it has stored.
-/
def Step.Says (st : Step) (mac : DlepMac) (items : DataItems) : Topic → Prop
  | .up => st.input = .destinationUp mac items ∨
    ∃ dd, st.d.localPdp.getDestinationData mac = some dd ∧ dd.getAllDataItems = items
  | .update => st.input = .destinationUpdate mac items
  | .down => st.input = .destinationDown mac items
  | .linkchar => st.input = .linkCharacteristicsResponse mac items ∨
    ∃ dd, st.d.localPdp.getDestinationData mac = some dd ∧
      metricsOf st.d.cfg dd.getAllDataItems = .ok items

/-- What the client is told has been said. -/
def Backs (cfg : ProtocolConfig) (voice : Voice) (topic : Topic) (mac : DlepMac)
    (read : DataItems) :
    Prop :=
  ∃ items message, voice.destination topic mac items ∧ IsAbout cfg topic.extras mac items message ∧
    List.Forall₂ (DataItem.ReadBack cfg) message read

/-- The data items other than the address. -/
def WithoutMac (cfg : ProtocolConfig) (read items : DataItems) : Prop :=
  ∃ id, cfg.getDataItemId "MAC_Address" none = .ok id ∧ items = read.filter fun di => di.id ≠ id

/-- What a call to the client says was said, or is a response without data. -/
def Attested (cfg : ProtocolConfig) (voice : Voice) : ClientCall → Prop
  | .destinationUp _ mac items => Backs cfg voice .up mac items ∨ IsBare cfg items
  | .destinationUpdate _ mac items =>
    ∃ read, Backs cfg voice .update mac read ∧ WithoutMac cfg read items
  | .destinationDown _ mac items =>
    ∃ read, Backs cfg voice .down mac read ∧ WithoutMac cfg read items
  | .linkcharReply _ mac items =>
    ∃ read, (Backs cfg voice .linkchar mac read ∨ IsBare cfg read) ∧ WithoutMac cfg read items
  | .peerUpdate _ items =>
    ∃ told, voice.session told ∧ List.Forall₂ (DataItem.ReadBack cfg) told items
  | _ => True

section

variable [AddressText] {cfg : ProtocolConfig} {voice : Voice} {name : String}
    {pm pm' : ProtocolMessage}
  {message : DataItems} {body : Bytes} {topic : Topic} {d : DlepView}

omit [AddressText] in
/-- A bare message is read back as a bare one. -/
theorem isBare_of_readBack {read : DataItems} (hbare : IsBare cfg message)
    (hread : List.Forall₂ (DataItem.ReadBack cfg) message read) : IsBare cfg read := by
  induction hread with
  | nil => exact hbare
  | cons hfirst _ ih =>
    obtain ⟨⟨diName, hname, hid⟩, hrest⟩ := List.forall_mem_cons.1 hbare
    exact List.forall_mem_cons.2 ⟨⟨diName, hname, hfirst.id_eq ▸ hid⟩, ih hrest⟩

/-- What is read of a message about a destination is about this destination, and was said. -/
theorem backs_of_relates (htypes : d.cfg.TypesMac) (hrelates : Relates d.cfg voice topic message)
    (hframes : Frames d.cfg name pm message body) (hmsg : pm.isSignal = false)
    (hreceived : received d pm.msgbuf = .ok ([], pm')) {mac : DlepMac}
    (hmac : pm'.getMac d.cfg = .ok mac) : Backs d.cfg voice topic mac pm'.dataItems := by
  obtain ⟨mac', items, hsays, id, more, hid, rfl, hmore⟩ := hrelates
  have haccepts := accepts_of_received hreceived
  have hown := hframes.getMac (q := { msgbuf := pm.msgbuf, isSignal := false })
    htypes hid rfl hmsg.symm
    haccepts
  obtain rfl := Except.ok.inj (hmac.symm.trans hown)
  refine ⟨items, _, hsays, ⟨id, more, hid, rfl, hmore⟩, ?_⟩
  exact hframes.readBack (hmsg ▸ haccepts)

omit [AddressText] in
/-- The data items of a message without its address. -/
theorem withoutMac_of_getDataItemsNoMac {items : DataItems}
    (h : pm'.getDataItemsNoMac cfg = .ok items) :
    WithoutMac cfg pm'.dataItems items := by
  obtain ⟨id, hid, hitems⟩ := bind_eq_ok.1 h
  exact ⟨id, hid, (Except.ok.inj hitems).symm⟩

/-- A call that reports a message which says what may be said. -/
theorem attested_of_reports (htypes : d.cfg.TypesMac) {buf : Bytes} (hbuf : Said d.cfg voice buf)
    (hne : buf ≠ []) (hreceived : received d buf = .ok ([], pm'))
    (hname : pm'.getSignalName d.cfg = .ok name) {call : ClientCall}
    (hreports : Reports d.cfg (some (name, pm')) call) : Attested d.cfg voice call := by
  obtain ⟨name', pm, message, body, hmessage, hconveys, hframes, rfl⟩ := hbuf.resolve_left hne
  have haccepts := accepts_of_received hreceived
  have hmsg := (isSignal_of_frames hframes hmessage).1
  have hsame := bufferName_of_parseBuffer haccepts hname
  rw [bufferName_of_frames hframes hmessage] at hsame
  obtain rfl := Option.some.inj hsame
  have hread := hframes.readBack (hmsg ▸ haccepts)
  have hbacks : ∀ {topic mac}, Relates d.cfg voice topic message → pm'.getMac d.cfg = .ok mac →
      Backs d.cfg voice topic mac pm'.dataItems := fun hrelates hmac =>
    backs_of_relates htypes hrelates hframes hmsg hreceived hmac
  cases call with
  | destinationUp peerId mac items =>
    obtain ⟨other, hup, pm'', hsame, hmac, rfl⟩ := hreports
    obtain ⟨rfl, rfl⟩ := Prod.mk.inj (Option.some.inj hsame)
    have heither : Relates d.cfg voice .up message ∨ IsBare d.cfg message := by
      simp only [upNames, List.mem_cons, List.not_mem_nil, or_false] at hup
      rcases hup with rfl | rfl | rfl
      · exact .inl hconveys
      · exact hconveys
      · exact hconveys
    exact heither.imp (fun hrelates => hbacks hrelates hmac) fun hbare =>
      isBare_of_readBack hbare hread
  | destinationUpdate peerId mac items =>
    obtain ⟨pm'', hsame, hmac, hitems⟩ := hreports
    obtain ⟨rfl, rfl⟩ := Prod.mk.inj (Option.some.inj hsame)
    exact ⟨_, hbacks hconveys hmac, withoutMac_of_getDataItemsNoMac hitems⟩
  | destinationDown peerId mac items =>
    obtain ⟨pm'', hsame, hmac, hitems⟩ := hreports
    obtain ⟨rfl, rfl⟩ := Prod.mk.inj (Option.some.inj hsame)
    exact ⟨_, hbacks hconveys hmac, withoutMac_of_getDataItemsNoMac hitems⟩
  | linkcharReply peerId mac items =>
    obtain ⟨pm'', hsame, hmac, hitems⟩ := hreports
    obtain ⟨rfl, rfl⟩ := Prod.mk.inj (Option.some.inj hsame)
    have heither : Relates d.cfg voice .linkchar message ∨ IsBare d.cfg message := hconveys
    refine ⟨_, ?_, withoutMac_of_getDataItemsNoMac hitems⟩
    exact heither.imp (fun hrelates => hbacks hrelates hmac) fun hbare =>
      isBare_of_readBack hbare hread
  | peerUpdate peerId items =>
    obtain ⟨pm'', hsame, rfl⟩ := hreports
    obtain ⟨rfl, rfl⟩ := Prod.mk.inj (Option.some.inj hsame)
    exact ⟨message, hconveys, hread⟩
  | _ => trivial

end

end Peer

namespace Link

/-- What the node of the modem says in a run. -/
def modemVoice (inputs : List Input) : Peer.Voice where
  destination topic mac items := ∃ st, Input.act .modem st ∈ inputs ∧ st.Says mac items topic
  session items := ∃ st, Input.act .modem st ∈ inputs ∧ st.input = .peerUpdate items

/-- What the modem's node does in a run is in its voice. -/
theorem voices_of_mem {inputs : List Input} {st : Peer.Step} (h : Input.act .modem st ∈ inputs) :
    Peer.Voices (modemVoice inputs) st.d st.input where
  known _ dd hdd := ⟨st, h, .inr ⟨dd, hdd, rfl⟩⟩
  metrics _ dd _ hdd hmetrics := ⟨st, h, .inr ⟨dd, hdd, hmetrics⟩⟩
  up _ _ hinput := ⟨st, h, .inl hinput⟩
  update _ _ hinput := ⟨st, h, hinput⟩
  down _ _ hinput := ⟨st, h, hinput⟩
  linkchar _ _ hinput := ⟨st, h, .inl hinput⟩
  session _ hinput := ⟨st, h, hinput⟩

section

variable [AddressText] {cfg : ProtocolConfig} {voice : Peer.Voice} {l : Link}

/-- The modem has handed over what its node may say, and the client of the router was told of
that. -/
structure Grounded (cfg : ProtocolConfig) (voice : Peer.Voice) (l : Link) : Prop where
  inv : Inv (fun _ => cfg) (fun _ => Peer.Speakable cfg) l
  holds : (Peer.candid cfg voice).Holds (l.peer .modem)
  said : ∀ buf ∈ sent (l.peer .modem), Peer.Said cfg voice buf
  plain : (l.peer .router).peerPdp.Plain cfg
  attested : ∀ call, Event.client call ∈ (l.peer .router).trace → Peer.Attested cfg voice call

/-- In a new session nothing has been said. -/
theorem grounded_of_fresh (h : Fresh (fun _ => cfg) l) : Grounded cfg voice l := by
  obtain ⟨_, _, hmodem⟩ := h.created .modem
  obtain ⟨_, _, hrouter⟩ := h.created .router
  refine ⟨inv_of_fresh h, Peer.Speech.holds_of_create hmodem, fun buf hbuf => ?_, ?_,
    fun call hcall => ?_⟩
  · rw [(sent_of_create hmodem).1] at hbuf
    cases hbuf
  · rw [Peer.create_ok hrouter]
    intro mac dd hdd
    simp at hdd
  · rw [Peer.create_ok hrouter] at hcall
    cases hcall

omit [AddressText] in
/-- Without a message, the client is told nothing that would have to be said. -/
theorem attested_of_reports_none {call : ClientCall} (h : Peer.Reports cfg none call) :
    Peer.Attested cfg voice call := by
  cases call with
  | destinationUp peerId mac items =>
    obtain ⟨_, _, _, hnone, _⟩ := h
    cases hnone
  | destinationUpdate peerId mac items | destinationDown peerId mac items
  | linkcharReply peerId mac items | peerUpdate peerId items =>
    obtain ⟨_, hnone, _⟩ := h
    cases hnone
  | _ => trivial

/-- What the client of the router is told in a step was said. -/
theorem attested_step (hcfg : cfg.Candid) (hannounce : cfg.OnlyRoutersSend "Destination_Announce")
    (hopening : cfg.OnlyRoutersSend "Session_Initialization") {st : Peer.Step}
    (hproper : Proper (fun _ => cfg) (.act .router st)) (hl : Grounded cfg voice l) :
    ((l.peer .router).step st).peerPdp.Plain cfg ∧
      ∀ call, Event.client call ∈ ((l.peer .router).step st).trace →
        Peer.Attested cfg voice call := by
  obtain ⟨rfl, hrouter, _⟩ := hproper
  obtain ⟨_, hplain, events, htrace, _, hreports⟩ :=
    Peer.replays_step hrouter hannounce hopening (hl.inv.holds .router).queues hl.plain
  refine ⟨hplain, fun call hcall => ?_⟩
  rw [htrace] at hcall
  rcases List.mem_append.1 hcall with hold | hnew
  · exact hl.attested call hold
  · have hreport := hreports _ hnew
    cases hhandled : st.handled (l.peer .router) with
    | none =>
      rw [hhandled] at hreport
      exact attested_of_reports_none hreport
    | some msg =>
      rw [hhandled] at hreport
      obtain ⟨buf, _, hnext, hof⟩ := Peer.exists_of_handled hhandled
      obtain ⟨hreceived, hname⟩ := Peer.received_of_handledOf hof
      -- the message is one that the modem has handed over
      obtain ⟨later, hsent⟩ := hl.inv.next rfl hnext
      have hmem : buf ∈ sent (l.peer .modem) := by
        rw [show sent (l.peer .modem) = _ from hsent]
        simp
      have hne : buf ≠ [] := by simpa using (List.mem_filter.1 hmem).2
      exact Peer.attested_of_reports hcfg.orderly.typesMac (hl.said buf hmem) hne
        hreceived hname hreport

/-- Every step of a session keeps the invariant: what arrives was handed over, and what is handed
over was said. -/
theorem grounded_step (hcfg : cfg.Candid) (hannounce : cfg.OnlyRoutersSend "Destination_Announce")
    (hopening : cfg.OnlyRoutersSend "Session_Initialization") {input : Input}
    (hproper : Proper (fun _ => cfg) input)
    (hvoice : ∀ st, input = .act .modem st → Peer.Voices voice st.d st.input)
    (hl : Grounded cfg voice l) : Grounded cfg voice (l.step input) := by
  have hspeaking :=
    @speaking_of_orderly _ (fun _ => cfg) (fun _ => hcfg.orderly) ⟨rfl, rfl, rfl, rfl, rfl⟩
  have hinv := inv_step hspeaking hproper hl.inv
  cases input with
  | act side st =>
    cases side with
    | modem =>
      have hrouter : (l.step (.act .modem st)).peer .router = l.peer .router := by
        simp [step]
      have hhands : (Peer.candid st.d.cfg voice).Hands (l.peer .modem) ((l.peer .modem).step st) :=
        Peer.candid_step (hproper.1 ▸ hcfg) (hvoice st rfl)
      rw [hproper.1] at hhands
      obtain ⟨hholds, hsaid⟩ := handed_sent hhands hl.holds hl.said
      refine ⟨hinv, ?_, ?_, ?_, ?_⟩
      · simpa only [step, Function.update_self] using hholds
      · simpa only [step, Function.update_self] using hsaid
      · rw [hrouter]
        exact hl.plain
      · rw [hrouter]
        exact hl.attested
    | router =>
      have hmodem : (l.step (.act .router st)).peer .modem = l.peer .modem := by
        simp [step]
      obtain ⟨hplain, hattested⟩ := attested_step hcfg hannounce hopening hproper hl
      refine ⟨hinv, ?_, ?_, ?_, ?_⟩
      · rw [hmodem]
        exact hl.holds
      · rw [hmodem]
        exact hl.said
      · simpa only [step, Function.update_self] using hplain
      · simpa only [step, Function.update_self] using hattested
  | arrive side d s n =>
    refine ⟨hinv, holds_arrive hl.holds, ?_, ?_, ?_⟩
    · rw [sent, trace_arrive]
      exact hl.said
    · rw [peerPdp_arrive]
      exact hl.plain
    · rw [trace_arrive]
      exact hl.attested

/-- In every run of a session, what the client of the router is told of destinations and of
changes of the session is what the node of the modem has said of them. -/
theorem attested_of_run (hcfg : cfg.Candid) (hannounce : cfg.OnlyRoutersSend "Destination_Announce")
    (hopening : cfg.OnlyRoutersSend "Session_Initialization") (hl : Fresh (fun _ => cfg) l)
    {inputs : List Input} (hrun :
      Along step (fun _ input => Proper (fun _ => cfg) input) l inputs) :
    ∀ call, Event.client call ∈ ((run step l inputs).peer .router).trace →
      Peer.Attested cfg (modemVoice inputs) call := by
  have hboth := hrun.and_inputs (X := fun input => input ∈ inputs) fun _ h => h
  refine (hboth.invariant (I := Grounded cfg (modemVoice inputs)) (fun l input hl hstep => ?_)
    (grounded_of_fresh hl)).attested
  exact grounded_step hcfg hannounce hopening hstep.1
    (fun st hst => voices_of_mem (hst ▸ hstep.2)) hl

end

attribute [local instance] plainText

/-- A session is opened, and the node of the modem brings a destination up. -/
def reporting : List Input := handshake ++ [
  .act .modem ⟨readyView, Peer.bareSurroundings, .destinationUp [10, 11] []⟩,
  .arrive .router (Peer.bareView false) Peer.bareSurroundings 200,
  .act .router ⟨Peer.bareView false, Peer.bareSurroundings, .message⟩]

/-- The client is told of the destination, with a data item. -/
def tellsOfIt : Event → Bool
  | .client (.destinationUp _ mac items) => mac = [10, 11] && items.map DataItem.id = [7]
  | _ => false

/-- The router's client is told of the destination that the modem's node brings up, with its data
item. -/
theorem attested_of_run_reporting :
    ∃ peerId mac items, Event.client (.destinationUp peerId mac items) ∈
        ((run step bareLink reporting).peer .router).trace ∧
      mac = [10, 11] ∧ items.map DataItem.id = [7] ∧
      Peer.Attested rfc8175 (modemVoice reporting) (.destinationUp peerId mac items) := by
  have hany : ((run step bareLink reporting).peer .router).trace.any tellsOfIt = true := by
    decide +kernel
  obtain ⟨e, he, hcall⟩ := List.any_eq_true.1 hany
  unfold tellsOfIt at hcall
  split at hcall
  · next peerId mac items =>
    rw [Bool.and_eq_true, decide_eq_true_eq, decide_eq_true_eq] at hcall
    refine ⟨peerId, mac, items, he, hcall.1, hcall.2, ?_⟩
    exact @attested_of_run plainText rfc8175 bareLink rfc8175_candid
      (ProtocolConfig.onlyRoutersSend_of_flags rfl (by decide))
      (ProtocolConfig.onlyRoutersSend_of_flags rfl (by decide)) fresh_bareLink reporting
      ⟨⟨rfl, rfl, by simp⟩, rfl, ⟨rfl, rfl, by simp⟩, rfl, ⟨rfl, rfl, by simp⟩, ⟨rfl, rfl, by simp⟩,
        rfl, ⟨rfl, rfl, by simp⟩, trivial⟩ _ he
  · cases hcall

end Link

end Dlep
