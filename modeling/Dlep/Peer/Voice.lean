import Dlep.Peer.Replica
import Dlep.Peer.Spoken

/-!
# What a node says of its destinations

The messages of a peer about destinations are composed of what its node says of them: the address,
the data items that the node gave, and those that every message of the name has. A response to an
announcement may also refuse it, with nothing but a status and the address.
-/

namespace Dlep

open Std Calls Runs ProtocolMessage

/-- The responses are no updates of a session, and those to an announced destination are none to a
request for link characteristics. -/
structure ProtocolConfig.Candid (cfg : ProtocolConfig) : Prop where
  orderly : cfg.Orderly
  session : ∀ request, cfg.getMessageResponseName request ≠ .ok "Session_Update"
  linkchar : ∀ request, request = "Destination_Up" ∨ request = "Destination_Announce" →
    cfg.getMessageResponseName request ≠ .ok "Link_Characteristics_Response"

namespace Peer

/-- What a message is about: a destination that is up, has changed or is down, or the
characteristics of the link to it. -/
inductive Topic where
  | up
  | update
  | down
  | linkchar

/-- What a node may say of its destinations and of itself. -/
structure Voice where
  destination : Topic → DlepMac → DataItems → Prop
  session : DataItems → Prop

/-- The data items that a message gets for its name, besides those that are said. -/
def Topic.extras : Topic → List String
  | up => commonNames
  | update | down | linkchar => []

/-- The data items of a message about the destination: its address, those that are said of it, and
others of these names. -/
def IsAbout (cfg : ProtocolConfig) (extras : List String) (mac : DlepMac)
    (items message : DataItems) :
    Prop :=
  ∃ id more, cfg.getDataItemId "MAC_Address" none = .ok id ∧
    message = .mk id (.dlepmac mac) :: (items ++ more) ∧ ∀ di ∈ more, Named cfg extras di

/-- The message says what may be said on the topic. -/
def Relates (cfg : ProtocolConfig) (voice : Voice) (topic : Topic) (message : DataItems) : Prop :=
  ∃ mac items, voice.destination topic mac items ∧ IsAbout cfg topic.extras mac items message

/-- A message about a destination says what the node may say of it. -/
theorem relates {cfg : ProtocolConfig} {voice : Voice} {topic : Topic} {mac : DlepMac}
    {items message : DataItems} (h : voice.destination topic mac items)
    (habout : IsAbout cfg topic.extras mac items message) : Relates cfg voice topic message :=
  ⟨mac, items, h, habout⟩

/-- The data items of a response without data. -/
def IsBare (cfg : ProtocolConfig) (message : DataItems) : Prop :=
  ∀ di ∈ message, Named cfg ["Status", "MAC_Address"] di

/-- The message, if it reports on a destination or on the session, says what may be said. -/
def Conveys (cfg : ProtocolConfig) (voice : Voice) (name : String) (message : DataItems) : Prop :=
  match name with
  -- a router declares a destination up by an announcement
  | "Destination_Up" | "Destination_Announce" => Relates cfg voice .up message
  | "Destination_Up_Response" | "Destination_Announce_Response" =>
    Relates cfg voice .up message ∨ IsBare cfg message
  | "Destination_Update" => Relates cfg voice .update message
  | "Destination_Down" => Relates cfg voice .down message
  | "Link_Characteristics_Response" => Relates cfg voice .linkchar message ∨ IsBare cfg message
  | "Session_Update" => voice.session message
  | _ => True

/-- The messages that report on a destination or on the session. -/
def reportNames : List String :=
  upNames ++ ["Destination_Announce", "Destination_Update", "Destination_Down",
    "Link_Characteristics_Response", "Session_Update"]

/-- The other messages report nothing. -/
theorem conveys_of_not_report {cfg : ProtocolConfig} {voice : Voice} {name : String}
    {message : DataItems} (h : name ∉ reportNames) : Conveys cfg voice name message := by
  unfold Conveys
  split
  case h_9 => trivial
  all_goals exact absurd (by decide) h

section

variable [AddressText] {cfg : ProtocolConfig} {voice : Voice}

/-- The buffer is a composed message that says what may be said. -/
def Said (cfg : ProtocolConfig) (voice : Voice) (buf : Bytes) : Prop :=
  buf = [] ∨ ∃ name pm message body, cfg.signalMap.right name = none ∧
    Conveys cfg voice name message ∧
    Frames cfg name pm message body ∧ pm.msgbuf = buf

/-- All that is handed to a session says what may be said. -/
abbrev candid (cfg : ProtocolConfig) (voice : Voice) : Speech where
  handed := Said cfg voice
  queued _ := Said cfg voice
  owed name := cfg.signalMap.right name = none ∧ name ∉ destinationNames ∧ name ≠ "Session_Update" ∧
    name ≠ "Link_Characteristics_Response"
  nothing := .inl rfl
  handed_of_queued _ _ h := h

/-! ## Composed messages -/

variable {d : DlepView} {s : Surroundings} {name func : String} {pm : ProtocolMessage}

/-- What is known of the data items that are put into a new message is known of the composed one. -/
theorem frames_of_built {build : ProtocolMessage → Except Exn ProtocolMessage} {err : Bytes}
    {Q : DataItems → Prop} (hbuild : ∀ pm₀ pm₁, Building d.cfg name pm₀ [] → build pm₀ = .ok pm₁ →
      ∃ items, Building d.cfg name pm₁ items ∧ Q items)
    (h : compose d name build func = .ok (err, pm)) :
    ∃ items body, Frames d.cfg name pm items body ∧ Q items := by
  obtain ⟨pm₀, hheader, h⟩ := bind_eq_ok.1 h
  obtain ⟨pm₁, hpm₁, hvalid⟩ := bind_eq_ok.1 h
  obtain ⟨items, hbuilding, hitems⟩ := hbuild pm₀ pm₁ (.addHeader hheader) hpm₁
  obtain ⟨body, hframes⟩ := hbuilding.frames
  obtain ⟨_, hparse⟩ := parse_of_parseAndValidate hvalid
  exact ⟨items, body, hframes.parse hparse, hitems⟩

/-- A message to which an address is added first has the address first. -/
theorem building_addMac {mac : DlepMac} {pm₀ : ProtocolMessage} (hpm : Building cfg name pm₀ [])
    (h : addMac cfg mac pm₀ = .ok pm) :
    ∃ id, cfg.getDataItemId "MAC_Address" none = .ok id ∧
      Building cfg name pm [.mk id (.dlepmac mac)] := by
  obtain ⟨di, hdi, hadd⟩ := bind_eq_ok.1 h
  obtain ⟨id, hid, hdi⟩ := bind_eq_ok.1 hdi
  obtain rfl := Except.ok.inj hdi
  exact ⟨id, hid, hpm.addDataItem hadd⟩

/-- A message to which data items are added has them behind its own. -/
theorem building_addDataItems {pm₀ : ProtocolMessage} {items more : DataItems}
    (hpm : Building cfg name pm₀ items) (h : addDataItems cfg more pm₀ = .ok pm) :
    Building cfg name pm (items ++ more) := by
  induction more generalizing pm₀ items with
  | nil =>
    obtain rfl := Except.ok.inj h
    simpa using hpm
  | cons di more ih =>
    obtain ⟨pm₁, hadd, h⟩ := bind_eq_ok.1 h
    simpa using ih (hpm.addDataItem hadd) h

/-- A message about a destination has its address and the data items that were given. -/
theorem isAbout_destinationMessage {mac : DlepMac} {items : DataItems}
    (h : destinationMessage d name mac items func = .ok pm) :
    ∃ message body, Frames d.cfg name pm message body ∧ IsAbout d.cfg [] mac items message := by
  obtain ⟨⟨err, pm'⟩, hcompose, h⟩ := bind_eq_ok.1 h
  obtain rfl := Except.ok.inj h
  refine frames_of_built (fun pm₀ pm₁ hpm₀ hbuild => ?_) hcompose
  obtain ⟨pm₂, hmac, hitems⟩ := bind_eq_ok.1 hbuild
  obtain ⟨id, hid, hpm₂⟩ := building_addMac hpm₀ hmac
  refine ⟨_, building_addDataItems hpm₂ hitems, id, [], hid, ?_, ?_⟩
  · rw [List.append_nil, List.singleton_append]
  · intro di hdi
    cases hdi

/-- A message that brings a destination up also has the data items of its name. -/
theorem isAbout_upMessage {mac : DlepMac} {items : DataItems}
    (h : upMessage d s name mac items = .ok pm) :
    ∃ message body, Frames d.cfg name pm message body ∧
      IsAbout d.cfg commonNames mac items message := by
  obtain ⟨⟨err, pm'⟩, hcompose, h⟩ := bind_eq_ok.1 h
  obtain rfl := Except.ok.inj h
  refine frames_of_built (fun pm₀ pm₁ hpm₀ hbuild => ?_) hcompose
  obtain ⟨pm₂, hmac, hbuild⟩ := bind_eq_ok.1 hbuild
  obtain ⟨pm₃, hitems, hcommon⟩ := bind_eq_ok.1 hbuild
  obtain ⟨id, hid, hpm₂⟩ := building_addMac hpm₀ hmac
  obtain ⟨more, hpm₁, hnamed⟩ :=
    puts_addCommonDataItems _ _ _ _ (building_addDataItems hpm₂ hitems) hcommon
  refine ⟨_, hpm₁, id, more, hid, ?_, hnamed⟩
  rw [List.singleton_append, List.cons_append]

/-- A simple response has nothing but a status and an address. -/
theorem isBare_simpleResponse {status : String} {message : Bytes} {mac : Option DlepMac}
    (h : composeChecked d name (addStatusAndMac d.cfg status message mac) func = .ok pm) :
    ∃ items body, Frames d.cfg name pm items body ∧ IsBare d.cfg items := by
  obtain ⟨⟨err, pm'⟩, hcompose, h⟩ := bind_eq_ok.1 h
  obtain ⟨_, _, h⟩ := bind_eq_ok.1 h
  obtain rfl := Except.ok.inj h
  refine frames_of_built (fun pm₀ pm₁ hpm₀ hbuild => ?_) hcompose
  exact puts_addStatusAndMac _ _ _ _ hpm₀ hbuild

/-! ## What the node says -/

/-- What the node may say in a step: what it has stored of its destinations, and what it is told to
say. -/
structure Voices (voice : Voice) (d : DlepView) (input : Input) : Prop where
  known : ∀ mac dd, d.localPdp.getDestinationData mac = some dd →
    voice.destination .up mac dd.getAllDataItems
  metrics : ∀ mac dd metrics, d.localPdp.getDestinationData mac = some dd →
    metricsOf d.cfg dd.getAllDataItems = .ok metrics → voice.destination .linkchar mac metrics
  up : ∀ mac items, input = .destinationUp mac items → voice.destination .up mac items
  update : ∀ mac items, input = .destinationUpdate mac items → voice.destination .update mac items
  down : ∀ mac items, input = .destinationDown mac items → voice.destination .down mac items
  linkchar : ∀ mac items, input = .linkCharacteristicsResponse mac items →
    voice.destination .linkchar mac items
  session : ∀ items, input = .peerUpdate items → voice.session items

omit [AddressText] in
/-- A framed message that conveys what may be said is said. -/
theorem said_of_frames {message : DataItems} {body : Bytes}
    (hname : d.cfg.signalMap.right name = none) (hconveys : Conveys d.cfg voice name message)
    (hframes : Frames d.cfg name pm message body) :
    Said d.cfg voice pm.msgbuf := .inr ⟨name, pm, message, body, hname, hconveys, hframes, rfl⟩

omit [AddressText] in
/-- A message that reports nothing. -/
theorem said_of_spoken {names : String → Prop} {buf : Bytes}
    (hnames : ∀ name, names name → d.cfg.signalMap.right name = none ∧ name ∉ reportNames)
    (h : Spoken d.cfg names buf) : Said d.cfg voice buf := by
  rcases h with hnil | ⟨name, pm, items, body, hname, hframes, hbuf⟩
  · exact .inl hnil
  · obtain ⟨hmsg, hreport⟩ := hnames name hname
    exact .inr ⟨name, pm, items, body, hmsg, conveys_of_not_report hreport, hframes, hbuf⟩

omit [AddressText] in
/-- A request hands over the bytes of its message. -/
theorem said_of_make {rp : ResponsePending} (hpm : Said d.cfg voice pm.msgbuf)
    (hrp : ResponsePending.make d.cfg pm = .ok rp) : Said d.cfg voice rp.msgBuffer := by
  rw [(ResponsePending.make_ok hrp).1]
  exact hpm

/-- A message about a destination is said, if it conveys what may be said. -/
theorem said_destinationMessage {mac : DlepMac} {items : DataItems}
    (h : destinationMessage d name mac items func = .ok pm)
    (hname : d.cfg.signalMap.right name = none)
    (hconveys : ∀ message, IsAbout d.cfg [] mac items message → Conveys d.cfg voice name message) :
    Said d.cfg voice pm.msgbuf := by
  obtain ⟨message, body, hframes, habout⟩ := isAbout_destinationMessage h
  exact said_of_frames hname (hconveys message habout) hframes

/-- A message that a destination is up is said, if it conveys what may be said. -/
theorem said_upMessage {mac : DlepMac} {items : DataItems}
    (h : upMessage d s name mac items = .ok pm) (hname : d.cfg.signalMap.right name = none)
    (hconveys : ∀ message, IsAbout d.cfg commonNames mac items message →
      Conveys d.cfg voice name message) :
    Said d.cfg voice pm.msgbuf := by
  obtain ⟨message, body, hframes, habout⟩ := isAbout_upMessage h
  exact said_of_frames hname (hconveys message habout) hframes

omit [AddressText] in
/-- A response without data brings a destination up at most if it was announced. -/
theorem conveys_bare {message : DataItems} (hsession : name ≠ "Session_Update")
    (hname : name ∉ destinationNames) (hbare : IsBare cfg message) :
    Conveys cfg voice name message := by
  unfold Conveys
  split
  · exact absurd (by decide) hname
  · exact absurd (by decide) hname
  · exact .inr hbare
  · exact .inr hbare
  · exact absurd (by decide) hname
  · exact absurd (by decide) hname
  · exact .inr hbare
  · exact absurd rfl hsession
  · trivial

omit [AddressText] in
/-- A response to an announced destination that may be said to be up. -/
theorem conveys_upResponse {message : DataItems} (hrelates : Relates cfg voice .up message)
    (hname : name ∉ destinationNames) (hsession : name ≠ "Session_Update")
    (hlinkchar : name ≠ "Link_Characteristics_Response") : Conveys cfg voice name message := by
  unfold Conveys
  split
  · exact hrelates
  · exact hrelates
  · exact .inl hrelates
  · exact .inl hrelates
  · exact absurd (by decide) hname
  · exact absurd (by decide) hname
  · exact absurd rfl hlinkchar
  · exact absurd rfl hsession
  · trivial

variable (hcfg : d.cfg.Candid)

include hcfg

omit [AddressText] in
/-- A simple response reports on nothing. -/
theorem responds_name (hname : Responds d.cfg name) :
    d.cfg.signalMap.right name = none ∧ name ∉ destinationNames ∧ name ≠ "Session_Update" := by
  rcases hname with rfl | rfl | rfl | ⟨hne, request, hrequest⟩
  · exact ⟨hcfg.orderly.messages _ (by decide), by decide, by decide⟩
  · exact ⟨hcfg.orderly.messages _ (by decide), by decide, by decide⟩
  · exact ⟨hcfg.orderly.messages _ (by decide), by decide, by decide⟩
  · obtain ⟨hmsg, hnot⟩ := hcfg.orderly.responses request name hrequest hne
    exact ⟨hmsg, hnot, fun h => hcfg.session request (h ▸ hrequest)⟩

/-- What a peer composes in answer to others reports on nothing. -/
theorem utters_candid : Utters (Said d.cfg voice) (fun _ => Said d.cfg voice) d s where
  response name _ _ _ _ hname hpm := by
    obtain ⟨hmsg, hnot, hsession⟩ := responds_name hcfg hname
    obtain ⟨items, body, hframes, hbare⟩ := isBare_simpleResponse hpm
    exact said_of_frames hmsg (conveys_bare hsession hnot hbare) hframes
  termination _ _ _ _ hpm hrp := by
    obtain ⟨_, _, hframes⟩ := frames_of_composeChecked adds_addStatus hpm
    exact said_of_make (said_of_frames (hcfg.orderly.messages _ (by decide))
      (conveys_of_not_report (by decide)) hframes) hrp

/-- What a peer composes in a step is what its node may say. -/
theorem composes_candid {input : Input} (hvoice : Voices voice d input) :
    (candid d.cfg voice).Composes (voice.destination .up) d s where
  utters := utters_candid hcfg
  heartbeat pm hpm := by
    obtain ⟨_, _, hframes⟩ := frames_of_composeChecked adds_addCommonDataItems hpm
    exact said_of_frames (hcfg.orderly.messages _ (by decide))
      (conveys_of_not_report (by decide)) hframes
  opening _ _ _ _ hpm hmodified _ hrp := by
    refine said_of_make (said_of_spoken (fun name hname => ?_)
      (spoken_initializationMessage (Eq.refl "Session_Initialization") hpm hmodified)) hrp
    subst hname
    exact ⟨hcfg.orderly.messages _ (by decide), by decide⟩
  up mac items pm hup hpm rp hrp := by
    refine said_of_make ?_ hrp
    rcases @upMessageName_cases d with hname | hname
    · rw [hname] at hpm
      exact said_upMessage hpm (hcfg.orderly.messages _ (by decide)) fun _ habout =>
        relates hup habout
    · rw [hname] at hpm
      exact said_upMessage hpm (hcfg.orderly.messages _ (by decide)) fun _ habout =>
        relates hup habout
  owedUp _ mac items pm howed hup hpm := by
    obtain ⟨hmsg, hnot, hsession, hlinkchar⟩ := howed
    exact said_upMessage hpm hmsg
      fun _ habout => conveys_upResponse (relates hup habout) hnot hsession hlinkchar
  linkchar mac dd metrics pm hdd hmetrics hpm := by
    have hsays := hvoice.metrics mac dd metrics hdd hmetrics
    exact said_destinationMessage hpm (hcfg.orderly.messages _ (by decide))
      fun _ habout => Or.inl (relates hsays habout)
  known := hvoice.known
  owed request name hrequest hresponse hne := by
    obtain ⟨hmsg, hnot⟩ := hcfg.orderly.responses request name hresponse hne
    refine ⟨hmsg, hnot, fun h => hcfg.session request (h ▸ hresponse), fun h => ?_⟩
    exact hcfg.linkchar request hrequest (h ▸ hresponse)

/-- The answer to an opening reports on no destination. -/
theorem answers_candid : (candid d.cfg voice).Answers d s := by
  intro p pm pm' hpm hmodified
  refine said_of_spoken (fun name hname => ?_)
    (spoken_initializationResponse (Eq.refl "Session_Initialization_Response") hpm hmodified)
  subst hname
  exact ⟨hcfg.orderly.messages _ (by decide), by decide⟩

/-- What the node asks of the peer is what it may say. -/
theorem asks_candid {input : Input} (hvoice : Voices voice d input) :
    (candid d.cfg voice).Asks (voice.destination .up) d input := by
  have hmsg : ∀ name ∈ composedNames, d.cfg.signalMap.right name = none := hcfg.orderly.messages
  cases input with
  | destinationUp mac items => exact hvoice.up mac items rfl
  | destinationDown mac items =>
    intro pm hpm rp hrp
    exact said_of_make (said_destinationMessage hpm (hmsg _ (by decide))
      fun _ habout => relates (hvoice.down mac items rfl) habout) hrp
  | destinationUpdate mac items =>
    intro pm hpm
    exact said_destinationMessage hpm (hmsg _ (by decide))
      fun _ habout => relates (hvoice.update mac items rfl) habout
  | linkCharacteristicsRequest mac items =>
    intro pm hpm rp hrp
    exact said_of_make (said_destinationMessage hpm (hmsg _ (by decide))
      fun _ _ => conveys_of_not_report (by decide)) hrp
  | linkCharacteristicsResponse mac items =>
    intro pm hpm
    exact said_destinationMessage hpm (hmsg _ (by decide))
      fun _ habout => Or.inl (relates (hvoice.linkchar mac items rfl) habout)
  | peerUpdate items =>
    rintro ⟨err, pm⟩ hpm rp hrp
    obtain ⟨message, body, hframes, rfl⟩ := frames_of_built (Q := fun message => message = items)
      (fun pm₀ pm₁ hpm₀ hbuild => ⟨_, building_addDataItems hpm₀ hbuild, List.nil_append _⟩) hpm
    have hsays : Conveys d.cfg voice "Session_Update" message := hvoice.session message rfl
    exact said_of_make (said_of_frames (hmsg _ (by decide)) hsays hframes) hrp
  | _ => trivial

/-- In a step, a peer hands only to its session what its node may say. -/
theorem candid_step {input : Input} {p : Peer} (hvoice : Voices voice d input) :
    (candid d.cfg voice).Hands p (p.step ⟨d, s, input⟩) :=
  Speech.hands_step (composes_candid hcfg hvoice) (asks_candid hcfg hvoice) fun _ _ =>
    answers_candid hcfg

omit hcfg in
/-- In every run of a peer, only what its node may say is handed to the session. -/
theorem said_of_run {peerId : PeerId} {now : Nat} {p : Peer} {steps : List Step} (hcfg : cfg.Candid)
    (hp : Peer.create cfg peerId now = .ok p)
    (hsteps : ∀ st ∈ steps, st.d.cfg = cfg ∧ Voices voice st.d st.input) :
    ∀ e ∈ (run step p steps).trace, ∀ buf ∈ e.handed, Said cfg voice buf := by
  refine @Speech.handed_of_run (candid cfg voice) _ _ _ _ _ _ hp ?_
  rintro ⟨d, s, input⟩ hst q
  obtain ⟨rfl, hvoice⟩ : d.cfg = cfg ∧ Voices voice d input := hsteps _ hst
  exact candid_step hcfg hvoice

end

end Peer

/-- The shipped configuration keeps responses and reports apart. -/
theorem rfc8175_candid : rfc8175.Candid where
  orderly := rfc8175_orderly
  session request h := by
    obtain ⟨siginfo, hinfo, hname⟩ := ProtocolConfig.exists_of_getMessageResponseName h
    have hall : ∀ siginfo ∈ rfc8175.signalInfoMap.toList.map Prod.snd ++
        rfc8175.messageInfoMap.toList.map Prod.snd, ∀ name ∈
          (rfc8175.responseNameOf siginfo).toOption,
          name ≠ "Session_Update" := by decide +kernel
    exact hall siginfo hinfo "Session_Update" (by simp [hname, Except.toOption]) rfl
  linkchar request hrequest h := by
    have hboth : ∀ request ∈ ["Destination_Up", "Destination_Announce"],
        ∀ name ∈ (rfc8175.getMessageResponseName request).toOption,
          name ≠ "Link_Characteristics_Response" := by decide +kernel
    exact hboth request (by simpa using hrequest) _ (by simp [h, Except.toOption]) rfl

end Dlep
