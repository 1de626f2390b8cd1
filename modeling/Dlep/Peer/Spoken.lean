import Dlep.Peer.Speech

/-!
# The messages of a peer

Whatever happens to a peer, what it hands to its session is one message after the other: each is
the buffer of a message that was composed under one of the names that a peer uses. Which names
these are depends on the role of the node and on what is left out of the run, so that the names
are a parameter here.
-/

namespace Dlep

open Std Calls Runs ProtocolMessage

namespace Peer

/-- The bytes are a composed message with one of the names. A peer that was not started has a
heartbeat without any bytes. -/
def Spoken (cfg : ProtocolConfig) (names : String → Prop) (buf : Bytes) : Prop :=
  buf = [] ∨ ∃ name pm items body, names name ∧ Frames cfg name pm items body ∧ pm.msgbuf = buf

/-- All that is said are composed messages with these names. -/
abbrev speech (cfg : ProtocolConfig) (names : String → Prop) : Speech where
  handed := Spoken cfg names
  queued _ := Spoken cfg names
  owed := names
  nothing := .inl rfl
  handed_of_queued _ _ h := h

/-! ## What a peer composes -/

section

variable [AddressText] {names : String → Prop} {d : DlepView} {s : Surroundings}

/-- The messages that a peer composes by their names, but for those that open a session. -/
def sessionNames : List String :=
  composedNames.filter fun name =>
    name ≠ "Session_Initialization" ∧ name ≠ "Session_Initialization_Response"

/-- The names that a peer uses: those of the messages that it composes on its own, those of the
simple responses, and those of the responses that it owes. The answer to an opening message is
left out. -/
structure Speaks (names : String → Prop) (d : DlepView) : Prop where
  composed : ∀ name ∈ sessionNames, names name
  opening : d.modem = false → names "Session_Initialization"
  response : ∀ name status message mac pm, Responds d.cfg name →
    composeChecked d name (addStatusAndMac d.cfg status message mac)
      "send_simple_response" = .ok pm →
      names name
  owed : ∀ request name, request = "Destination_Up" ∨ request = "Destination_Announce" →
    d.cfg.getMessageResponseName request = .ok name → name ≠ "" → names name

/-- What is composed under an expected name is spoken. -/
theorem spoken_of_compose {name func : String}
    {build : ProtocolMessage → Except Exn ProtocolMessage} {err : Bytes} {pm : ProtocolMessage}
    (hname : names name) (hbuild : Adds d.cfg build)
    (h : compose d name build func = .ok (err, pm)) : Spoken d.cfg names pm.msgbuf := by
  obtain ⟨items, body, hframes⟩ := frames_of_compose hbuild h
  exact .inr ⟨name, pm, items, body, hname, hframes, rfl⟩

/-- What is composed and checked under an expected name is spoken. -/
theorem spoken_of_composeChecked {name func : String}
    {build : ProtocolMessage → Except Exn ProtocolMessage} {pm : ProtocolMessage}
    (hname : names name) (hbuild : Adds d.cfg build)
    (h : composeChecked d name build func = .ok pm) :
    Spoken d.cfg names pm.msgbuf := by
  obtain ⟨items, body, hframes⟩ := frames_of_composeChecked hbuild h
  exact .inr ⟨name, pm, items, body, hname, hframes, rfl⟩

/-- A message about a destination is spoken. -/
theorem spoken_destinationMessage {name func : String} {mac : DlepMac} {items : DataItems}
    {pm : ProtocolMessage} (hname : names name)
    (h : destinationMessage d name mac items func = .ok pm) :
    Spoken d.cfg names pm.msgbuf := by
  obtain ⟨⟨err, pm'⟩, hcompose, h⟩ := bind_eq_ok.1 h
  obtain rfl := Except.ok.inj h
  exact spoken_of_compose hname (adds_bind adds_addNamed adds_addDataItems) hcompose

/-- A message that a destination is up is spoken. -/
theorem spoken_upMessage {name : String} {mac : DlepMac} {items : DataItems} {pm : ProtocolMessage}
    (hname : names name) (h : upMessage d s name mac items = .ok pm) :
    Spoken d.cfg names pm.msgbuf := by
  obtain ⟨⟨err, pm'⟩, hcompose, h⟩ := bind_eq_ok.1 h
  obtain rfl := Except.ok.inj h
  refine spoken_of_compose hname ?_ hcompose
  exact adds_bind adds_addNamed (adds_bind adds_addDataItems adds_addCommonDataItems)

/-- The client does not change the name of a message that opens a session. -/
theorem spoken_modified {name : String} {pm pm' : ProtocolMessage}
    {items : DataItems} {body : Bytes} {peerId : PeerId} (hname : names name)
    (hpm : Frames d.cfg name pm items body)
    (h : modified d s peerId pm = .ok pm') : Spoken d.cfg names pm'.msgbuf := by
  unfold modified at h
  split at h
  · obtain rfl := Except.ok.inj h
    exact .inr ⟨name, pm, items, body, hname, hpm, rfl⟩
  · next items' _ =>
    obtain ⟨⟨err, pm''⟩, hrebuild, h⟩ := bind_eq_ok.1 h
    obtain rfl := Except.ok.inj h
    obtain ⟨body', hframes⟩ := hpm.rebuild hrebuild
    exact .inr ⟨name, pm'', items', body', hname, hframes, rfl⟩

/-- The opening is spoken, whatever the client changes in it. -/
theorem spoken_initializationMessage {pm pm' : ProtocolMessage} {peerId : PeerId}
    (hname : names "Session_Initialization") (h : initializationMessage d s = .ok pm)
    (hmodified : modified d s peerId pm = .ok pm') : Spoken d.cfg names pm'.msgbuf := by
  obtain ⟨_, _, hframes⟩ :=
    frames_of_composeChecked (adds_bind adds_addCommonDataItems adds_addExtensionsIfAny) h
  exact spoken_modified hname hframes hmodified

/-- The answer to an opening is spoken, whatever the client changes in it. -/
theorem spoken_initializationResponse {p : Peer} {pm pm' : ProtocolMessage} {peerId : PeerId}
    (hname : names "Session_Initialization_Response") (h : initializationResponse d s p = .ok pm)
    (hmodified : modified d s peerId pm = .ok pm') : Spoken d.cfg names pm'.msgbuf := by
  obtain ⟨⟨err, pm''⟩, hcompose, h⟩ := bind_eq_ok.1 h
  obtain rfl := Except.ok.inj h
  obtain ⟨_, _, hframes⟩ := frames_of_compose (adds_bind adds_addCommonDataItems
    (adds_bind adds_addExtensionsIfAny adds_addAllowedDataItems)) hcompose
  exact spoken_modified hname hframes hmodified

/-- A status and an address are the only data items of a simple response. -/
theorem puts_addStatusAndMac {cfg : ProtocolConfig} {status : String} {message : Bytes}
    {mac : Option DlepMac} :
    Puts cfg (Named cfg ["Status", "MAC_Address"]) (addStatusAndMac cfg status message mac) := by
  refine puts_bind (puts_ite ?_ puts_ok) ?_
  · refine puts_lookup fun _ => puts_lookup fun _ => ?_
    exact puts_ite (puts_addNamed (by decide)) (puts_addNamed (by decide))
  · cases mac with
    | none => exact puts_ok
    | some mac => exact puts_addNamed (by decide)

omit [AddressText] in
/-- A message from a queue is the message that was put there. -/
theorem spoken_of_make {pm : ProtocolMessage} {rp : ResponsePending}
    (hpm : Spoken d.cfg names pm.msgbuf)
    (hrp : ResponsePending.make d.cfg pm = .ok rp) : Spoken d.cfg names rp.msgBuffer := by
  rw [(ResponsePending.make_ok hrp).1]
  exact hpm

variable (hspeaks : Speaks names d)

include hspeaks

/-- What a peer composes in answer to others is spoken. -/
theorem utters_speech : Utters (Spoken d.cfg names) (fun _ => Spoken d.cfg names) d s where
  response name status message mac pm hname hpm :=
    spoken_of_composeChecked (hspeaks.response name status message mac pm hname hpm)
      adds_addStatusAndMac hpm
  termination _ _ _ _ hpm hrp :=
    spoken_of_make (spoken_of_composeChecked (hspeaks.composed _ (by decide))
      adds_addStatus hpm) hrp

/-- What a peer composes in a step has one of the names. -/
theorem composes_speech : (speech d.cfg names).Composes (fun _ _ => True) d s where
  utters := utters_speech hspeaks
  heartbeat pm hpm :=
    spoken_of_composeChecked (hspeaks.composed _ (by decide)) adds_addCommonDataItems hpm
  opening hmodem _ _ _ hpm hmodified _ hrp :=
    spoken_of_make (spoken_initializationMessage (hspeaks.opening hmodem) hpm hmodified) hrp
  up mac items pm _ hpm rp hrp := by
    have hup : names (upMessageName d) := by
      rcases @upMessageName_cases d with h | h
      · rw [h]
        exact hspeaks.composed _ (by decide)
      · rw [h]
        exact hspeaks.composed _ (by decide)
    exact spoken_of_make (spoken_upMessage hup hpm) hrp
  owedUp _ _ _ _ hname _ hpm := spoken_upMessage hname hpm
  linkchar _ _ _ _ _ _ hpm := spoken_destinationMessage (hspeaks.composed _ (by decide)) hpm
  known _ _ _ := trivial
  owed := hspeaks.owed

omit hspeaks in
/-- The answer to an opening is spoken, if its name is expected. -/
theorem answers_speech (hname : names "Session_Initialization_Response") :
    (speech d.cfg names).Answers d s :=
  fun _ _ _ hpm hmodified => spoken_initializationResponse hname hpm hmodified

/-- What the local node asks for is spoken. -/
theorem asks_speech (input : Input) : (speech d.cfg names).Asks (fun _ _ => True) d input := by
  cases input with
  | destinationUp mac items => trivial
  | destinationDown mac items =>
    intro pm hpm rp hrp
    exact spoken_of_make (spoken_destinationMessage (hspeaks.composed _ (by decide)) hpm) hrp
  | destinationUpdate mac items =>
    intro pm hpm
    exact spoken_destinationMessage (hspeaks.composed _ (by decide)) hpm
  | linkCharacteristicsRequest mac items =>
    intro pm hpm rp hrp
    exact spoken_of_make (spoken_destinationMessage (hspeaks.composed _ (by decide)) hpm) hrp
  | linkCharacteristicsResponse mac items =>
    intro pm hpm
    exact spoken_destinationMessage (hspeaks.composed _ (by decide)) hpm
  | peerUpdate items =>
    rintro ⟨err, pm⟩ hpm rp hrp
    exact spoken_of_make (spoken_of_compose (hspeaks.composed _ (by decide))
      adds_addDataItems hpm) hrp
  | _ => trivial

/-- In a step that does not answer an opening message, or in which the answer is among the names,
only spoken messages are handed to the session. -/
theorem speaks_step {input : Input} {p : Peer}
    (hanswer : ∀ pm, Step.handled p ⟨d, s, input⟩ = some ("Session_Initialization", pm) →
      names "Session_Initialization_Response") :
    (speech d.cfg names).Hands p (p.step ⟨d, s, input⟩) :=
  Speech.hands_step (composes_speech hspeaks) (asks_speech hspeaks input)
    fun pm hpm => answers_speech (hanswer pm hpm)

end

/-! ## Runs -/

section

variable [AddressText] {cfg : ProtocolConfig}

/-- The names of messages that a peer composes, or with which the configuration has it respond. -/
def Speakable (cfg : ProtocolConfig) (name : String) : Prop :=
  cfg.signalMap.right name = none ∧ (name ∈ composedNames ∨
    ∃ request, cfg.getMessageResponseName request = .ok name ∧ name ≠ "")

omit [AddressText] in
/-- The messages that a peer composes by their names are speakable. -/
theorem speakable_composed (hcfg : cfg.Orderly) {name : String} (hname : name ∈ composedNames) :
    Speakable cfg name :=
  ⟨hcfg.messages name hname, .inl hname⟩

omit [AddressText] in
/-- The responses that the configuration names are speakable. -/
theorem speakable_response (hcfg : cfg.Orderly) {request name : String}
    (h : cfg.getMessageResponseName request = .ok name) (hne : name ≠ "") : Speakable cfg name :=
  ⟨(hcfg.responses request name h hne).1, .inr ⟨request, h, hne⟩⟩

/-- In an orderly configuration a peer speaks under speakable names. -/
theorem speaks_of_orderly {d : DlepView} (hcfg : d.cfg.Orderly) : Speaks (Speakable d.cfg) d where
  composed name hname := speakable_composed hcfg (List.mem_filter.1 hname).1
  opening _ := speakable_composed hcfg (by decide)
  response name _ _ _ _ hname _ := by
    rcases hname with rfl | rfl | rfl | ⟨hne, request, hrequest⟩
    · exact speakable_composed hcfg (by decide)
    · exact speakable_composed hcfg (by decide)
    · exact speakable_composed hcfg (by decide)
    · exact speakable_response hcfg hrequest hne
  owed request name _ h hne := speakable_response hcfg h hne

/-- Something is handed to the session: bytes that are one whole message under an expected name. -/
structure IsWhole (cfg : ProtocolConfig) (buf : Bytes) : Prop where
  named : ∃ name, Speakable cfg name ∧ bufferName cfg buf = some name
  found : ∀ more, isCompleteMessage cfg (buf ++ more) = .ok (some buf.length)
  partly : ∀ n < buf.length, isCompleteMessage cfg (buf.take n) = .ok none

omit [AddressText] in
/-- What is spoken is one whole message. -/
theorem isWhole_of_spoken {buf : Bytes} (h : Spoken cfg (Speakable cfg) buf) (hne : buf ≠ []) :
    IsWhole cfg buf := by
  obtain ⟨name, pm, items, body, hname, hframes, rfl⟩ := h.resolve_left hne
  have hmsg := (isSignal_of_frames hframes hname.1).1
  exact ⟨⟨name, hname, bufferName_of_frames hframes hname.1⟩, hframes.isCompleteMessage_append hmsg,
    fun n hn => hframes.isCompleteMessage_take hmsg hn⟩

/-- In every run of a peer, only spoken messages are handed to the session. -/
theorem spoken_of_run {peerId : PeerId} {now : Nat} {p : Peer} {steps : List Step}
    (hcfg : cfg.Orderly) (hp : Peer.create cfg peerId now = .ok p)
    (hsteps : ∀ st ∈ steps, st.d.cfg = cfg) :
    ∀ e ∈ (run step p steps).trace, ∀ buf ∈ e.handed, Spoken cfg (Speakable cfg) buf := by
  refine @Speech.handed_of_run (speech cfg (Speakable cfg)) _ _ _ _ _ _ hp ?_
  rintro ⟨d, s, input⟩ hst q
  obtain rfl : d.cfg = cfg := hsteps _ hst
  exact speaks_step (speaks_of_orderly hcfg) fun _ _ => speakable_composed hcfg (by decide)

/-- In every run of a peer, each buffer that is handed to the session, at once or from a queue,
for the first time or again, is one whole message. -/
theorem isWhole_of_run {peerId : PeerId} {now : Nat} {p : Peer} {steps : List Step}
    (hcfg : cfg.Orderly) (hp : Peer.create cfg peerId now = .ok p)
    (hsteps : ∀ st ∈ steps, st.d.cfg = cfg) :
    ∀ e ∈ (run step p steps).trace, ∀ buf ∈ e.handed, buf ≠ [] → IsWhole cfg buf := by
  intro e he buf hbuf hne
  exact isWhole_of_spoken (spoken_of_run hcfg hp hsteps e he buf hbuf) hne

end

attribute [local instance] plainText

/-- In the session of a modem that is opened and closed by the router, something is handed over. -/
theorem isWhole_of_run_shortSession : ∃ e ∈ (run step barePeer shortSession).trace,
    ∃ buf ∈ e.handed, buf ≠ [] ∧ IsWhole rfc8175 buf := by
  obtain ⟨e, he, buf, hbuf, hne⟩ : ∃ e ∈ (run step barePeer shortSession).trace,
      ∃ buf ∈ e.handed, buf ≠ [] := by decide +kernel
  refine ⟨e, he, buf, hbuf, hne, ?_⟩
  refine @isWhole_of_run plainText rfc8175 (str "peer") 0 barePeer shortSession
    rfc8175_orderly rfl ?_
    e he buf hbuf hne
  intro st hst
  obtain ⟨input, _, rfl⟩ := List.mem_map.1 hst
  rfl

end Peer

end Dlep
