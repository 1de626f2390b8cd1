import Dlep.Peer.Declined

/-!
# What is handed to a session

What a peer hands to its session is a message that it sends at once or one that it takes from a
queue, for the first time or again. So a condition on these messages holds of all of them if it
holds of each message at the place where it is composed. This is proved here once for every such
condition, which may tell the messages on the queues of different destinations apart, and which
may depend on the responses that the peer owes and on the destinations that its node brings up.
-/

namespace Dlep

open Std Calls Runs

namespace Peer

/-- A condition on what is said: on the messages that are handed to the session, on those that are
put on the queue of a destination, and on the names of the responses that are owed. A peer that
was not started has a heartbeat without any bytes. -/
structure Speech where
  handed : Bytes → Prop
  queued : DlepMac → Bytes → Prop
  owed : String → Prop
  nothing : handed []
  handed_of_queued : ∀ dest buf, queued dest buf → handed buf

namespace Speech

variable {sp : Speech}

/-- The message may be put on the queue of its destination. -/
def Requests (sp : Speech) (cfg : ProtocolConfig) (pm : ProtocolMessage) : Prop :=
  ∀ rp, ResponsePending.make cfg pm = .ok rp → sp.queued rp.destination rp.msgBuffer

/-- What a peer may send later meets the condition. -/
structure Holds (sp : Speech) (p : Peer) : Prop where
  queues : p.QueueOk
  queued : ∀ (dest : DlepMac) (q : List ResponsePending), p.responsesPending[dest]? = some q →
    ∀ rp ∈ q, sp.queued dest rp.msgBuffer
  heartbeat : sp.handed p.heartbeatMsg.msgbuf
  owes : ∀ dest, p.peerPdp.getNeedsResponse dest = "" ∨ sp.owed (p.peerPdp.getNeedsResponse dest)

/-- Only messages that meet the condition are handed to the session. -/
def Hands (sp : Speech) (p q : Peer) : Prop :=
  sp.Holds p → sp.Holds q ∧ ∃ events, q.trace = p.trace ++ events ∧
    ∀ e ∈ events, ∀ buf ∈ e.handed, sp.handed buf

/-- A new peer holds nothing that it may send later. -/
theorem holds_of_create [AddressText] {cfg : ProtocolConfig} {peerId : PeerId}
    {now : Nat} {p : Peer} (h : Peer.create cfg peerId now = .ok p) : sp.Holds p := by
  have hsound := sound_of_create h
  obtain rfl := create_ok h
  refine ⟨hsound.queues, fun dest q hq => ?_, sp.nothing, fun dest => .inl ?_⟩
  · simp at hq
  · rw [PeerData.getNeedsResponse_eq]
    simp

instance instReflHands : Std.Refl sp.Hands := ⟨fun _ hp => ⟨hp, [], by simp, by simp⟩⟩

instance instTransHands : IsTrans Peer sp.Hands where
  trans p q r h h' hp := by
    obtain ⟨hq, events, htrace, hevents⟩ := h hp
    obtain ⟨hr, events', htrace', hevents'⟩ := h' hq
    refine ⟨hr, events ++ events', ?_, List.forall_mem_append.2 ⟨hevents, hevents'⟩⟩
    rw [htrace', htrace, List.append_assoc]

/-- The queues change, but not the messages on them, and one more thing happens. -/
theorem Hands.queue {p : Peer} {queues : ExtTreeMap DlepMac (List ResponsePending)} {e : Event}
    (hok : p.QueueOk → { p with responsesPending := queues }.QueueOk)
    (hqueues : ∀ (dest : DlepMac) (q : List ResponsePending), queues[dest]? = some q →
      ∀ rp ∈ q, sp.queued dest rp.msgBuffer ∨ ∃ (q' : List ResponsePending) (rp' : ResponsePending),
        p.responsesPending[dest]? = some q' ∧ rp' ∈ q' ∧ rp'.msgBuffer = rp.msgBuffer)
    (he : sp.Holds p → ∀ buf ∈ e.handed, sp.handed buf) :
    sp.Hands p { p with responsesPending := queues, trace := p.trace ++ [e] } := by
  intro hp
  refine ⟨⟨hok hp.queues, fun dest q hq rp hrp => ?_, hp.heartbeat, hp.owes⟩, [e], rfl, ?_⟩
  · rcases hqueues dest q hq rp hrp with hnew | ⟨q', rp', hq', hrp', hsame⟩
    · exact hnew
    · rw [← hsame]
      exact hp.queued dest q' hq' rp' hrp'
  · intro e' he'
    obtain rfl := List.mem_singleton.1 he'
    exact he hp

/-- One queue is replaced. -/
theorem Hands.replace {p : Peer} {dest : DlepMac} {q : List ResponsePending}
    {e : Event} (hne : q ≠ [])
    (hok : p.QueueOk → ∀ rp ∈ q, rp.queued = true ∧ rp.destination = dest)
    (hq : ∀ rp ∈ q, sp.queued dest rp.msgBuffer ∨
      ∃ (q' : List ResponsePending) (rp' : ResponsePending),
        p.responsesPending[dest]? = some q' ∧ rp' ∈ q' ∧ rp'.msgBuffer = rp.msgBuffer)
    (he : sp.Holds p → ∀ buf ∈ e.handed, sp.handed buf) :
    sp.Hands p { p with
      responsesPending := p.responsesPending.insert dest q, trace := p.trace ++ [e] } := by
  refine .queue (fun hp => hp.insert hne (hok hp)) (fun dest' q' hq' rp hrp => ?_) he
  simp only [ExtTreeMap.getElem?_insert, Std.compare_eq_iff_eq] at hq'
  split at hq'
  · next hsame =>
    obtain rfl := Option.some.inj hq'
    subst hsame
    exact hq rp hrp
  · exact .inr ⟨q', rp, hq', hrp, rfl⟩

instance instPermitsHands : Permits sp.handed sp.queued sp.Hands where
  other p q htrace _ hpdp hheartbeat hqueues hp := by
    refine ⟨⟨?_, ?_, ?_, ?_⟩, [], by simp [htrace], by simp⟩
    · unfold QueueOk
      rw [hqueues]
      exact hp.queues
    · rw [hqueues]
      exact hp.queued
    · rw [hheartbeat]
      exact hp.heartbeat
    · rw [hpdp]
      exact hp.owes
  emit p e he hp := by
    refine ⟨⟨hp.queues, hp.queued, hp.heartbeat, hp.owes⟩, [e], rfl, fun e' he' buf hbuf => ?_⟩
    obtain rfl := List.mem_singleton.1 he'
    cases e' with
    | send buf => cases he
    | transmit rp => cases he
    | _ => cases hbuf
  send p buf hbuf hp := by
    refine ⟨⟨hp.queues, hp.queued, hp.heartbeat, hp.owes⟩, [.send buf], rfl,
      fun e he buf' hbuf' => ?_⟩
    obtain rfl := List.mem_singleton.1 he
    obtain rfl := Option.some.inj hbuf'
    exact hbuf
  enqueue p rp hrp := by
    have hold : ∀ rp' ∈ (p.responsesPending[rp.destination]?).getD [],
        ∃ q, p.responsesPending[rp.destination]? = some q ∧ rp' ∈ q := by
      intro rp' hrp'
      cases hqueue : p.responsesPending[rp.destination]? with
      | none => simp [hqueue] at hrp'
      | some q => exact ⟨q, rfl, by simpa [hqueue] using hrp'⟩
    refine .replace (by simp) (fun hp rp' hrp' => ?_) (fun rp' hrp' => ?_)
      fun _ _ hbuf => by cases hbuf
    · rcases List.mem_append.1 hrp' with hmem | hnew
      · obtain ⟨q, hqueue, hmem⟩ := hold rp' hmem
        exact (hp _ _ hqueue).2 rp' hmem
      · obtain rfl := List.mem_singleton.1 hnew
        exact ⟨rfl, rfl⟩
    · rcases List.mem_append.1 hrp' with hmem | hnew
      · obtain ⟨q, hqueue, hmem⟩ := hold rp' hmem
        exact .inr ⟨q, rp', hqueue, hmem, rfl⟩
      · obtain rfl := List.mem_singleton.1 hnew
        exact .inl hrp
  transmit p now dest head rest hhead _ := by
    refine .replace (by simp) (fun hp rp hrp => ?_) (fun rp hrp => ?_) fun hp buf hbuf => ?_
    · have hall := List.forall_mem_cons.1 (hp _ _ hhead).2
      rcases List.mem_cons.1 hrp with rfl | hrest
      · exact hall.1
      · exact hall.2 rp hrest
    · rcases List.mem_cons.1 hrp with rfl | hrest
      · exact .inr ⟨_, head, hhead, List.mem_cons_self, rfl⟩
      · exact .inr ⟨_, rp, hhead, List.mem_cons_of_mem _ hrest, rfl⟩
    · obtain rfl := Option.some.inj hbuf
      exact sp.handed_of_queued _ _ (hp.queued dest _ hhead head List.mem_cons_self)
  accept p dest rp rest id hhead := by
    by_cases hrest : rest = []
    · simp only [hrest, if_true]
      refine .queue (fun hp => hp.erase) (fun dest' q hq rp' hrp' => ?_)
        fun _ _ hbuf => by cases hbuf
      rw [ExtTreeMap.getElem?_erase] at hq
      split at hq
      · cases hq
      · exact .inr ⟨q, rp', hq, hrp', rfl⟩
    · simp only [hrest, if_false]
      refine .replace hrest (fun hp => (List.forall_mem_cons.1 (hp _ _ hhead).2).2)
        (fun rp' hrp' => ?_) fun _ _ hbuf => by cases hbuf
      exact .inr ⟨_, rp', hhead, List.mem_cons_of_mem _ hrp', rfl⟩
  heartbeat p pm hpm hp := ⟨⟨hp.queues, hp.queued, hpm, hp.owes⟩, [], by simp, by simp⟩
  store p pd hpd hp := by
    refine ⟨⟨hp.queues, hp.queued, hp.heartbeat, fun dest => ?_⟩, [], by simp, by simp⟩
    rcases hpd dest with hnone | hsame
    · exact .inl hnone
    · rw [hsame]
      exact hp.owes dest
  lose p dest hp := ⟨⟨hp.queues, hp.queued, hp.heartbeat, hp.owes⟩, [], by simp, by simp⟩

/-! ## What a peer composes -/

section

variable [AddressText] {ups : DlepMac → DataItems → Prop} {d : DlepView} {s : Surroundings}

/-- What a peer composes in one step meets the condition, if the destinations that are brought up
are among `ups`. The answer to an opening message is left out. -/
structure Composes (sp : Speech) (ups : DlepMac → DataItems → Prop) (d : DlepView)
    (s : Surroundings) :
    Prop where
  utters : Utters sp.handed sp.queued d s
  heartbeat : ∀ pm, composeChecked d "Heartbeat"
    (fun pm => ProtocolMessage.addCommonDataItems d.cfg s.params pm) "start_peer" = .ok pm →
      sp.handed pm.msgbuf
  opening : d.modem = false → ∀ peerId pm pm', initializationMessage d s = .ok pm →
    modified d s peerId pm = .ok pm' → sp.Requests d.cfg pm'
  up : ∀ mac items pm, ups mac items → upMessage d s (upMessageName d) mac items = .ok pm →
    sp.Requests d.cfg pm
  owedUp : ∀ name mac items pm, sp.owed name → ups mac items →
    upMessage d s name mac items = .ok pm →
    sp.handed pm.msgbuf
  linkchar : ∀ mac dd metrics pm, d.localPdp.getDestinationData mac = some dd →
    metricsOf d.cfg dd.getAllDataItems = .ok metrics →
    destinationMessage d "Link_Characteristics_Response" mac metrics
      "link_characteristics_response" =
      .ok pm → sp.handed pm.msgbuf
  known : ∀ mac dd, d.localPdp.getDestinationData mac = some dd → ups mac dd.getAllDataItems
  owed : ∀ request name, request = "Destination_Up" ∨ request = "Destination_Announce" →
    d.cfg.getMessageResponseName request = .ok name → name ≠ "" → sp.owed name

/-- The answer to an opening message meets the condition. -/
def Answers (sp : Speech) (d : DlepView) (s : Surroundings) : Prop :=
  ∀ (p : Peer) pm pm', initializationResponse d s p = .ok pm → modified d s p.peerId pm = .ok pm' →
    sp.handed pm'.msgbuf

/-- The requests of the local node meet the condition, and the destinations that it brings up are
among `ups`. -/
def Asks (sp : Speech) (ups : DlepMac → DataItems → Prop) (d : DlepView) : Input → Prop
  | .destinationUp mac items => ups mac items
  | .destinationDown mac items => ∀ pm,
    destinationMessage d "Destination_Down" mac items "destination_down" = .ok pm →
      sp.Requests d.cfg pm
  | .destinationUpdate mac items => ∀ pm,
    destinationMessage d "Destination_Update" mac items "destination_update" = .ok pm →
      sp.handed pm.msgbuf
  | .linkCharacteristicsRequest mac items => ∀ pm,
    destinationMessage d "Link_Characteristics_Request" mac items "link_characteristics_request" =
      .ok pm → sp.Requests d.cfg pm
  | .linkCharacteristicsResponse mac items =>
      ∀ pm, destinationMessage d "Link_Characteristics_Response"
    mac items "link_characteristics_response" = .ok pm → sp.handed pm.msgbuf
  | .peerUpdate items => ∀ r, compose d "Session_Update"
    (fun pm => ProtocolMessage.addDataItems d.cfg items pm) "peer_update" = .ok r →
      sp.Requests d.cfg r.2
  | _ => True

variable (hcomposes : sp.Composes ups d s)

include hcomposes

/-! ## What a peer does on its own -/

/-- Bringing a destination up hands over messages that meet the condition. -/
theorem hands_destinationUp {mac : DlepMac} {items : DataItems} (hups : ups mac items) :
    Within sp.Hands (destinationUp d s mac items) := by
  intro p hp
  refine permits_destinationUp (R := sp.Hands) (fun howed pm hpm => ?_)
    (fun _ pm rp hpm hrp => ?_) hp
  · exact hcomposes.owedUp _ mac items pm ((hp.owes mac).resolve_left howed) hups hpm
  · exact hcomposes.up mac items pm hups hpm rp hrp

omit hcomposes in
/-- An update of a destination is handed over at once. -/
theorem hands_destinationUpdate {mac : DlepMac} {items : DataItems} (hupdate : ∀ pm,
    destinationMessage d "Destination_Update" mac items "destination_update" = .ok pm →
      sp.handed pm.msgbuf) :
    Within sp.Hands (destinationUpdate d mac items) := by
  refine within_bind within_get fun _ => within_ite (fun _ => within_pure) fun _ => ?_
  refine within_of_wp fun p => ?_
  rw [wp_bind]
  refine wp_lift (fun pm hpm => ?_) fun _ _ => Std.Refl.refl p
  exact (permits_sendSessionMessage (hupdate pm hpm)).wp p

/-! ## The handlers -/

omit [AddressText] hcomposes in
/-- The peer will be given a response. -/
theorem hands_setNeedsResponse {p : Peer} {name : String} {mac : DlepMac}
    (hname : name = "" ∨ sp.owed name) :
    sp.Hands p { p with peerPdp := p.peerPdp.setNeedsResponse mac name } := by
  intro hp
  refine ⟨⟨hp.queues, hp.queued, hp.heartbeat, fun dest => ?_⟩, [], by simp, by simp⟩
  by_cases hsame : dest = mac
  · subst hsame
    simp only [PeerData.setNeedsResponse, PeerData.getNeedsResponse_eq,
      ExtTreeMap.getElem?_modify_self]
    cases p.peerPdp.destinationData[dest]? with
    | none => exact .inl rfl
    | some dd => exact hname
  · rw [PeerData.getNeedsResponse_setNeedsResponse_of_ne hsame]
    exact hp.owes dest

omit [AddressText] hcomposes in
/-- Regaining the interest hands nothing over. -/
theorem hands_regain {p : Peer} {mac : DlepMac} : sp.Hands p { p with
    notInterestedDestinations := p.notInterestedDestinations.erase mac } := fun hp =>
  ⟨⟨hp.queues, hp.queued, hp.heartbeat, hp.owes⟩, [], by simp, by simp⟩

/-- The answer to an announcement is handed over, or owed under its name. -/
theorem hands_answerAnnounce {request name status : String} {mac : DlepMac} (hname : sp.owed name)
    (hne : name ≠ "") (hresponse : d.cfg.getMessageResponseName request = .ok name) :
    Within sp.Hands (answerAnnounce d s name status mac) := by
  refine within_ite (fun _ => within_modify fun p => hands_setNeedsResponse (.inr hname))
    fun _ => ?_
  exact permits_sendSimpleResponse hcomposes.utters (.inr (.inr (.inr ⟨hne, request, hresponse⟩)))

/-- The handler of announcements hands over an answer, or owes it. -/
theorem hands_handleDestinationAnnounce {pm : ProtocolMessage}
    (hrequest : ∀ request, pm.getSignalName d.cfg = .ok request →
      request = "Destination_Up" ∨ request = "Destination_Announce") :
    Within sp.Hands (handleDestinationAnnounce d s pm) := by
  refine within_of_wp fun p => ?_
  rw [handleDestinationAnnounce, wp_bind]
  refine wp_lift (fun mac _ => ?_) fun _ _ => Std.Refl.refl p
  rw [wp_bind]
  refine wp_lift (fun request hname => ?_) fun _ _ => Std.Refl.refl p
  rw [wp_bind]
  refine wp_lift (fun name hresponse => ?_) fun _ _ => Std.Refl.refl p
  rw [wp_bind]
  refine wp_lift (fun _ hassert => ?_) fun _ _ => Std.Refl.refl p
  have hne : name ≠ "" := by simpa using assertThat_ok.1 hassert
  have hnamed := hcomposes.owed request name (hrequest request hname) hresponse hne
  have hanswer : ∀ status, Within sp.Hands (answerAnnounce d s name status mac) :=
    fun _ => hands_answerAnnounce hcomposes hnamed hne hresponse
  refine Within.wp ?_ p
  refine within_bind within_get fun _ => within_ite (fun _ => hanswer _) fun _ => ?_
  refine within_bind (within_modify fun _ => hands_regain) fun _ => ?_
  refine within_bind permits_addDestinationChecked fun _ => ?_
  split
  · next dd hdd =>
    refine within_bind (within_modify fun _ => hands_setNeedsResponse (.inr hnamed)) fun _ => ?_
    exact hands_destinationUp hcomposes (hcomposes.known mac dd hdd)
  · exact within_bind permits_askClient fun _ => hanswer _

/-- Entering a session hands nothing over. -/
theorem hands_enterSession {info : Peer → PeerInfo} :
    Within sp.Hands (enterSession d s info) := by
  refine within_bind (permits_modify fun _ => ⟨rfl, rfl, rfl, rfl, rfl⟩) fun _ => ?_
  refine within_bind within_get fun _ => within_bind (within_modify fun p hp => ?_) fun _ => ?_
  · refine ⟨⟨hp.queues, hp.queued, hp.heartbeat, hp.owes⟩, [_], rfl, fun e he buf hbuf => ?_⟩
    obtain rfl := List.mem_singleton.1 he
    cases hbuf
  · refine within_forM fun dest hdest => hands_destinationUp hcomposes (hcomposes.known _ dest.2 ?_)
    exact ExtTreeMap.mem_toList_iff_getElem?_eq_some.1 hdest

/-- The handler of an opening hands over its answer. -/
theorem hands_handlePeerInitialization (hanswer : sp.Answers d s) {pm : ProtocolMessage} :
    Within sp.Hands (handlePeerInitialization d s pm) := by
  intro p
  refine wp_handlePeerInitialization (R := sp.Hands) hcomposes.utters
    (fun _ p pm pm' hpm hmodified => hanswer p pm pm' hpm hmodified) (fun _ h => h) fun q hq => ?_
  exact IsTrans.trans _ _ _ hq
    (within_bind (hands_enterSession hcomposes) (fun _ => permits_advertisePeer) q)

/-- The handler of the answer hands over what is on the queues. -/
theorem hands_handlePeerInitializationResponse {pm : ProtocolMessage} :
    Within sp.Hands (handlePeerInitializationResponse d s pm) := by
  intro p hp
  refine wp_handlePeerInitializationResponse (R := sp.Hands) (P := sp.Hands p) hcomposes.utters
    hp.queues (fun _ h => h) (fun q hq => ?_) hp
  exact IsTrans.trans _ _ _ hq (hands_enterSession hcomposes q)

/-! ## A step -/

/-- Every handler that opens nothing hands over messages that meet the condition. -/
theorem hears_hands {p : Peer} {name : String} {pm : ProtocolMessage} :
    Hears sp.handed sp.queued sp.Hands d s name pm p where
  utters := hcomposes.utters
  regain _ _ _ _ _ _ := hands_regain
  answer mac dd metrics answer _ _ hdd hmetrics _ :=
    hcomposes.linkchar mac dd metrics answer hdd hmetrics

/-- By cases on the handler: every message leads to messages that meet the condition. -/
theorem hands_dispatch {p : Peer} {name : String} {pm : ProtocolMessage}
    (hname : pm.getSignalName d.cfg = .ok name)
    (hanswer : name = "Session_Initialization" → sp.Answers d s) :
    sp.Hands p (after (dispatch d s name pm) p) := by
  have hrequest : name = "Destination_Up" ∨ name = "Destination_Announce" → ∀ request,
      pm.getSignalName d.cfg = .ok request → request = "Destination_Up" ∨
        request = "Destination_Announce" := by
    intro h request hsame
    obtain rfl := Except.ok.inj (hname.symm.trans hsame)
    exact h
  by_cases hopens : opens name = true
  · simp only [opens, Bool.or_eq_true, decide_eq_true_eq] at hopens
    rcases hopens with ((rfl | rfl) | rfl) | rfl
    · show sp.Hands p (after (if d.modem then handleDestinationAnnounce d s pm
        else handleDestinationUp d s pm) p)
      split
      · exact hands_handleDestinationAnnounce hcomposes (hrequest (.inl rfl)) p
      · exact permits_handleDestinationUp hcomposes.utters fun _ _ _ _ => hands_regain
    · exact hands_handleDestinationAnnounce hcomposes (hrequest (.inr rfl)) p
    · exact hands_handlePeerInitialization hcomposes (hanswer rfl) p
    · exact hands_handlePeerInitializationResponse hcomposes p
  · intro hp
    exact permits_dispatch (hears_hands hcomposes) hp.queues (by simpa using hopens) hp

/-- A step hands only messages to the session that meet the condition, if the requests of the
local node do, and the answer to an opening message if it is given. -/
theorem hands_step {input : Input} {p : Peer} (hasks : sp.Asks ups d input)
    (hanswer : ∀ pm, Step.handled p ⟨d, s, input⟩ = some ("Session_Initialization", pm) →
      sp.Answers d s) :
    sp.Hands p (p.step ⟨d, s, input⟩) := by
  cases input with
  | start =>
    refine permits_startPeer (R := sp.Hands) hcomposes.heartbeat
      fun hmodem pm pm' rp hpm hmodified hrp => ?_
    exact hcomposes.opening hmodem _ pm pm' hpm hmodified rp hrp
  | receive bytes => exact Permits.other p _ rfl rfl rfl rfl rfl
  | message =>
    cases hnext : nextMessage d p with
    | none =>
      rw [step_of_nextMessage_none rfl hnext]
      exact Std.Refl.refl p
    | some buf =>
      refine step_of_nextMessage rfl hnext (fun q n hq => ?_)
        (wp_handlePeerSignal (R := sp.Hands) hcomposes.utters (fun _ h => h)
          fun name pm hhandled => ?_)
      · exact IsTrans.trans _ _ _ hq (Permits.other _ _ rfl rfl rfl rfl rfl)
      · have hstep : Step.handled p ⟨d, s, .message⟩ = some (name, pm) := by
          rw [Step.handled, hnext]
          exact hhandled
        refine hands_dispatch hcomposes (received_of_handledOf hhandled).2 fun hopening => ?_
        subst hopening
        exact hanswer pm hstep
  | acktivityTimeout =>
    intro hp
    exact permits_handleAcktivityTimeout (R := sp.Hands) hcomposes.utters hp.queues hp
  | heartbeatTimeout =>
    intro hp
    exact permits_handleHeartbeatTimeout (R := sp.Hands) hp.heartbeat hp
  | eof => exact permits_stopPeer p
  | terminate status reason => exact permits_terminate hcomposes.utters p
  | destinationUp dest items => exact hands_destinationUp hcomposes hasks p
  | destinationDown dest items =>
    exact permits_destinationDown (fun pm rp hpm hrp => hasks pm hpm rp hrp) p
  | destinationUpdate dest items => exact hands_destinationUpdate hasks p
  | peerUpdate items =>
    exact within_bind (permits_peerUpdate fun r rp hr hrp => hasks r hr rp hrp)
      (fun _ => within_pure) p
  | linkCharacteristicsRequest dest items =>
    exact permits_linkCharacteristicsRequest (fun pm rp hpm hrp => hasks pm hpm rp hrp) p
  | linkCharacteristicsResponse dest items =>
    exact permits_linkCharacteristicsResponse (fun _ pm hpm => hasks pm hpm) p
  | removeDestination dest =>
    exact within_bind (permits_onPdp PeerData.owesNoMore_removeDestination) (fun _ => within_pure) p

end

/-- In every run of a peer whose steps hand only such messages to the session, only such are
handed to it. -/
theorem handed_of_run [AddressText] {cfg : ProtocolConfig} {peerId : PeerId} {now : Nat} {p : Peer}
    {steps : List Step} (hp : Peer.create cfg peerId now = .ok p)
    (hsteps : ∀ st ∈ steps, ∀ q : Peer, sp.Hands q (q.step st)) :
    ∀ e ∈ (run step p steps).trace, ∀ buf ∈ e.handed, sp.handed buf := by
  have hrun : ∀ q : Peer, sp.Hands q (run step q steps) := by
    induction steps with
    | nil => exact fun q => Std.Refl.refl q
    | cons st steps ih =>
      obtain ⟨hst, hrest⟩ := List.forall_mem_cons.1 hsteps
      exact fun q => IsTrans.trans _ _ _ (hst q) (ih hrest (q.step st))
  obtain ⟨-, events, htrace, hevents⟩ := hrun p (holds_of_create hp)
  obtain rfl := create_ok hp
  rw [htrace]
  exact hevents

end Speech

end Peer

end Dlep
