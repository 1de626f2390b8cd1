import Dlep.Peer.Names
import Dlep.Peer.Termination

/-!
# Destinations that a peer refuses

A peer refuses a destination by a response, or by taking it down although it is not the peer's.
From then on the peer is not told about the destination, until it brings the destination up
itself. The refusal is recorded only after the next message of the queue has been sent, and only
if it comes with the response to a destination that is up; and a router forgets the refusal when
such a response tells of success. It is shown that nothing else is in the way.
-/

namespace Dlep

open Std Calls Runs ProtocolMessage

/-- Does the message in the buffer talk about the destination without being asked? -/
def Bothers [AddressText] (cfg : ProtocolConfig) (mac : DlepMac) (buf : Bytes) : Prop :=
  bufferMac cfg buf = some mac ∧ ∃ name ∈ destinationNames, bufferName cfg buf = some name

instance [AddressText] {cfg : ProtocolConfig} {mac : DlepMac} {buf : Bytes} :
    Decidable (Bothers cfg mac buf) :=
  inferInstanceAs (Decidable (_ ∧ ∃ name ∈ destinationNames, bufferName cfg buf = some name))

/-- A message of another name does not. -/
theorem not_bothers_of_name [AddressText] {cfg : ProtocolConfig} {mac : DlepMac} {buf : Bytes}
    {name : String} (hbuf : bufferName cfg buf = some name) (hname : name ∉ destinationNames) :
    ¬ Bothers cfg mac buf := by
  rintro ⟨_, name', hmem, hname'⟩
  obtain rfl := Option.some.inj (hbuf.symm.trans hname')
  exact hname hmem

/-- A message about another destination does not bother. -/
theorem not_bothers_of_mac [AddressText] {cfg : ProtocolConfig} {mac dest : DlepMac} {buf : Bytes}
    (hbuf : bufferMac cfg buf = some dest) (hne : dest ≠ mac) : ¬ Bothers cfg mac buf := by
  rintro ⟨hmac, _⟩
  exact hne (Option.some.inj (hbuf.symm.trans hmac))

namespace Peer

/-! ## Verdicts -/

/-- The responses about a destination. -/
def destinationResponses : List String := [
  "Destination_Up_Response", "Destination_Announce_Response", "Destination_Down_Response",
  "Link_Characteristics_Response"]

/-- Does the status say that the sender is not interested? -/
def declines (cfg : ProtocolConfig) (pm : ProtocolMessage) : Bool :=
  match pm.getStatus cfg with
  | .ok status => status = "Not_Interested"
  | .error _ => false

/-- What a message says about the interest of its sender in a destination. -/
inductive Verdict where
  | wants (mac : DlepMac)
  | refuses (mac : DlepMac)
  deriving DecidableEq

/-- The verdict of a message that is given to its handler. -/
def verdictOf (d : DlepView) (p : Peer) (name : String) (pm : ProtocolMessage) : Option Verdict :=
  match pm.getMac d.cfg with
  | .error _ => none
  | .ok mac =>
    if name = "Destination_Up" ∨ name = "Destination_Announce" then some (.wants mac)
    else if name ∈ destinationResponses ∧ declines d.cfg pm = true then some (.refuses mac)
    else if name = "Destination_Down" ∧ p.peerPdp.validDestination mac = false ∧
        d.localPdp.validDestination mac = true then some (.refuses mac)
    else none

section

variable [AddressText]

/-- The verdict that a step receives. -/
def Step.verdict (p : Peer) (st : Step) : Option Verdict :=
  (st.handled p).bind fun m => verdictOf st.d p m.1 m.2

/-- A refusal by a response is recorded in time: the response is one to a destination that is up,
it is expected, and no message waits behind the one that it answers, unless the refusal is known
already. -/
def WrittenDown (p : Peer) (name : String) (pm : ProtocolMessage) (mac : DlepMac) : Prop :=
  (name = "Destination_Up_Response" ∨ name = "Destination_Announce_Response") ∧
    p.expects pm mac = true ∧
      (p.isNotInterested mac = true ∨ (p.responsesPending[mac]?).map List.length = some 1)

omit [AddressText] in
instance {p : Peer} {name : String} {pm : ProtocolMessage} {mac : DlepMac} :
    Decidable (WrittenDown p name pm mac) := inferInstanceAs (Decidable (_ ∧ _))

end

end Peer

/-- A peer, and the destinations that it has refused since it last brought them up. -/
structure Listener where
  peer : Peer
  refused : ExtTreeSet DlepMac := ∅

namespace Listener

open Peer

variable [AddressText]

def step (l : Listener) (st : Step) : Listener where
  peer := l.peer.step st
  refused :=
    match st.verdict l.peer with
    | some (.wants mac) => l.refused.erase mac
    | some (.refuses mac) => l.refused.insert mac
    | none => l.refused

/-- No message that the peer does not want is sent in the step: none about a destination that it
refuses in this step or has refused before. -/
def Spared (l : Listener) (st : Step) : Prop :=
  ∀ mac ∈ (l.step st).refused, ∀ e ∈ (l.step st).peer.trace.drop l.peer.trace.length,
    ∀ buf ∈ e.handed, ¬ Bothers st.d.cfg mac buf

/-- A refusal by a response is recorded in time, and no response makes a router forget a refusal. -/
def Careful (l : Listener) (st : Step) : Prop :=
  ∀ m ∈ st.handled l.peer, ∀ mac ∈ (m.2.getMac st.d.cfg).toOption,
    (m.1 ∈ destinationResponses → declines st.d.cfg m.2 = true → WrittenDown l.peer m.1 m.2 mac) ∧
    (mac ∈ l.refused → m.1 = "Destination_Up_Response" ∨ m.1 = "Destination_Announce_Response" →
      regains st.d m.2 mac l.peer = false)

instance {l : Listener} {st : Step} : Decidable (l.Careful st) :=
  inferInstanceAs (Decidable (∀ m ∈ st.handled l.peer, ∀ mac ∈ (m.2.getMac st.d.cfg).toOption,
    (m.1 ∈ destinationResponses → declines st.d.cfg m.2 = true → WrittenDown l.peer m.1 m.2 mac) ∧
    (mac ∈ l.refused → m.1 = "Destination_Up_Response" ∨ m.1 = "Destination_Announce_Response" →
      regains st.d m.2 mac l.peer = false)))

end Listener

namespace Peer

/-! ## A peer that is spared -/

section

variable [AddressText] {keep : Prop} {cfg : ProtocolConfig} {mac : DlepMac}

/-- No message bothers the peer, unless it is queued for the destination. -/
structure Sparing (cfg : ProtocolConfig) (mac : DlepMac) (p : Peer) : Prop where
  queues : p.QueueOk
  others : ∀ (dest : DlepMac) (q : List ResponsePending), p.responsesPending[dest]? = some q →
    dest ≠ mac → ∀ rp ∈ q, ¬ Bothers cfg mac rp.msgBuffer
  heartbeat : ¬ Bothers cfg mac p.heartbeatMsg.msgbuf
  owes : ∀ dest, p.peerPdp.getNeedsResponse dest = "" ∨
    ∃ request, cfg.getMessageResponseName request = .ok (p.peerPdp.getNeedsResponse dest)

/-- Nothing was sent that bothers the peer, and the refusal is recorded. -/
def Hushed (cfg : ProtocolConfig) (mac : DlepMac) (p q : Peer) : Prop :=
  q.isNotInterested mac = true ∧ ∃ events, q.trace = p.trace ++ events ∧
    ∀ e ∈ events, ∀ buf ∈ e.handed, ¬ Bothers cfg mac buf

/-- If the refusal is recorded and kept, nothing is sent that bothers the peer. -/
def Spares (keep : Prop) (cfg : ProtocolConfig) (mac : DlepMac) (p q : Peer) : Prop :=
  Sparing cfg mac p →
    Sparing cfg mac q ∧ (keep → p.isNotInterested mac = true → Hushed cfg mac p q)

/-- A peer that records the refusal and does nothing is hushed. -/
theorem Hushed.refl {p : Peer} (hp : p.isNotInterested mac = true) : Hushed cfg mac p p :=
  ⟨hp, [], by simp, by simp⟩

/-- A peer that is hushed twice is hushed. -/
theorem Hushed.trans {p q r : Peer} (h : Hushed cfg mac p q) (h' : Hushed cfg mac q r) :
    Hushed cfg mac p r := by
  obtain ⟨_, events, htrace, hevents⟩ := h
  obtain ⟨hr, events', htrace', hevents'⟩ := h'
  refine ⟨hr, events ++ events', ?_, List.forall_mem_append.2 ⟨hevents, hevents'⟩⟩
  rw [htrace', htrace, List.append_assoc]

instance : Std.Refl (Spares keep cfg mac) := ⟨fun _ hp => ⟨hp, fun _ => .refl⟩⟩

instance : IsTrans Peer (Spares keep cfg mac) where
  trans p q r h h' hp := by
    obtain ⟨hq, hhush⟩ := h hp
    obtain ⟨hr, hhush'⟩ := h' hq
    refine ⟨hr, fun hkeep hrefused => ?_⟩
    have hpq := hhush hkeep hrefused
    exact hpq.trans (hhush' hkeep hpq.1)

/-- The queues and the data stay as they are, and one more thing happens. -/
theorem Spares.event {p : Peer} {e : Event}
    (he : p.isNotInterested mac = true → ∀ buf ∈ e.handed, ¬ Bothers cfg mac buf) :
    Spares keep cfg mac p { p with trace := p.trace ++ [e] } := by
  intro hp
  refine ⟨⟨hp.queues, hp.others, hp.heartbeat, hp.owes⟩, fun _ hrefused => ⟨hrefused, [e], rfl, ?_⟩⟩
  intro e' he'
  obtain rfl := List.mem_singleton.1 he'
  exact he hrefused

/-- The queues change and the messages on them do not, and one more thing happens. -/
theorem Spares.queue {p : Peer} {queues : ExtTreeMap DlepMac (List ResponsePending)} {e : Event}
    (hok : p.QueueOk → { p with responsesPending := queues }.QueueOk)
    (hqueues : ∀ (dest : DlepMac) (q : List ResponsePending), queues[dest]? = some q → dest ≠ mac →
      ∀ rp ∈ q, ¬ Bothers cfg mac rp.msgBuffer ∨
        ∃ (q' : List ResponsePending) (rp' : ResponsePending),
        p.responsesPending[dest]? = some q' ∧ rp' ∈ q' ∧ rp'.msgBuffer = rp.msgBuffer)
    (he : Sparing cfg mac p → p.isNotInterested mac = true → ∀ buf ∈ e.handed,
      ¬ Bothers cfg mac buf) :
    Spares keep cfg mac p { p with responsesPending := queues, trace := p.trace ++ [e] } := by
  intro hp
  refine ⟨⟨hok hp.queues, fun dest q hq hne rp hrp => ?_, hp.heartbeat, hp.owes⟩,
    fun _ hrefused => ⟨hrefused, [e], rfl, fun e' he' => ?_⟩⟩
  · rcases hqueues dest q hq hne rp hrp with hnew | ⟨q', rp', hq', hrp', hsame⟩
    · exact hnew
    · rw [← hsame]
      exact hp.others dest q' hq' hne rp' hrp'
  · obtain rfl := List.mem_singleton.1 he'
    exact he hp hrefused

omit [AddressText] in
/-- A queue that is good may be put in. -/
theorem QueueOk.insert {p : Peer} {dest : DlepMac} {q : List ResponsePending} (hp : p.QueueOk)
    (hne : q ≠ []) (hq : ∀ rp ∈ q, rp.queued = true ∧ rp.destination = dest) :
    { p with responsesPending := p.responsesPending.insert dest q }.QueueOk := by
  intro dest' q' hq'
  simp only [ExtTreeMap.getElem?_insert, Std.compare_eq_iff_eq] at hq'
  split at hq'
  · next hsame =>
    obtain rfl := Option.some.inj hq'
    exact ⟨hne, fun rp hrp => hsame ▸ hq rp hrp⟩
  · exact hp dest' q' hq'

omit [AddressText] in
/-- A queue may be taken out. -/
theorem QueueOk.erase {p : Peer} {dest : DlepMac} (hp : p.QueueOk) :
    { p with responsesPending := p.responsesPending.erase dest }.QueueOk := by
  intro dest' q' hq'
  simp only [ExtTreeMap.getElem?_erase] at hq'
  split at hq'
  · cases hq'
  · exact hp dest' q' hq'

/-- A queue is replaced. -/
theorem Spares.replace {p : Peer} {dest : DlepMac} {q : List ResponsePending} {e : Event}
    (hne : q ≠ []) (hok : p.QueueOk → ∀ rp ∈ q, rp.queued = true ∧ rp.destination = dest)
    (hq : dest ≠ mac → ∀ rp ∈ q, ¬ Bothers cfg mac rp.msgBuffer ∨
      ∃ (q' : List ResponsePending) (rp' : ResponsePending),
        p.responsesPending[dest]? = some q' ∧ rp' ∈ q' ∧ rp'.msgBuffer = rp.msgBuffer)
    (he : Sparing cfg mac p → p.isNotInterested mac = true → ∀ buf ∈ e.handed,
      ¬ Bothers cfg mac buf) :
    Spares keep cfg mac p { p with
      responsesPending := p.responsesPending.insert dest q, trace := p.trace ++ [e] } := by
  refine .queue (fun hp => hp.insert hne (hok hp)) (fun dest' q' hq' hne' rp hrp => ?_) he
  simp only [ExtTreeMap.getElem?_insert, Std.compare_eq_iff_eq] at hq'
  split at hq'
  · next hsame =>
    obtain rfl := Option.some.inj hq'
    subst hsame
    exact hq hne' rp hrp
  · exact .inr ⟨q', rp, hq', hrp, rfl⟩

instance instPermitsSpares : Permits (fun buf => ¬ Bothers cfg mac buf)
    (fun dest buf => dest ≠ mac → ¬ Bothers cfg mac buf) (Spares keep cfg mac) where
  other p q htrace hinterest hpdp hheartbeat hqueues hp := by
    have hsame : q.isNotInterested mac = p.isNotInterested mac := by
      rw [isNotInterested, isNotInterested, hinterest]
    refine ⟨⟨?_, ?_, ?_, ?_⟩, fun _ hrefused =>
      ⟨hsame.trans hrefused, [], by simp [htrace], by simp⟩⟩
    · unfold QueueOk
      rw [hqueues]
      exact hp.queues
    · rw [hqueues]
      exact hp.others
    · rw [hheartbeat]
      exact hp.heartbeat
    · rw [hpdp]
      exact hp.owes
  emit p e he := by
    refine .event fun _ buf hbuf => ?_
    cases e with
    | send buf => cases he
    | transmit rp => cases he
    | _ => cases hbuf
  send p buf hbuf := by
    refine .event fun _ buf' hbuf' => ?_
    obtain rfl := Option.some.inj hbuf'
    exact hbuf
  enqueue p rp hrp := by
    refine .replace (by simp) (fun hp rp' hrp' => ?_) (fun hne rp' hrp' => ?_)
      fun _ _ buf hbuf => ?_
    · rcases List.mem_append.1 hrp' with hold | hnew
      · cases hqueue : p.responsesPending[rp.destination]? with
        | none => simp [hqueue] at hold
        | some q =>
          rw [hqueue] at hold
          exact (hp _ _ hqueue).2 rp' hold
      · obtain rfl := List.mem_singleton.1 hnew
        exact ⟨rfl, rfl⟩
    · rcases List.mem_append.1 hrp' with hold | hnew
      · cases hqueue : p.responsesPending[rp.destination]? with
        | none => simp [hqueue] at hold
        | some q =>
          rw [hqueue] at hold
          exact .inr ⟨q, rp', rfl, hold, rfl⟩
      · obtain rfl := List.mem_singleton.1 hnew
        exact .inl (hrp hne)
    · cases hbuf
  transmit p now dest head rest hhead hinterest := by
    refine .replace (by simp) (fun hp rp hrp => ?_) (fun _ rp hrp => ?_)
      fun hp hrefused buf hbuf => ?_
    · have hall := List.forall_mem_cons.1 (hp _ _ hhead).2
      rcases List.mem_cons.1 hrp with rfl | hrest
      · exact hall.1
      · exact hall.2 rp hrest
    · rcases List.mem_cons.1 hrp with rfl | hrest
      · exact .inr ⟨_, head, hhead, List.mem_cons_self, rfl⟩
      · exact .inr ⟨_, rp, hhead, List.mem_cons_of_mem _ hrest, rfl⟩
    · -- the destination of the queue is not the one that is refused
      obtain rfl := Option.some.inj hbuf
      refine hp.others dest _ hhead (fun hsame => ?_) head List.mem_cons_self
      rw [hsame, hrefused] at hinterest
      cases hinterest
  accept p dest rp rest id hhead := by
    by_cases hrest : rest = []
    · simp only [hrest, if_true]
      refine .queue (fun hp => hp.erase) (fun dest' q hq _ rp' hrp' => ?_) fun _ _ buf hbuf => ?_
      · rw [ExtTreeMap.getElem?_erase] at hq
        split at hq
        · cases hq
        · exact .inr ⟨q, rp', hq, hrp', rfl⟩
      · cases hbuf
    · simp only [hrest, if_false]
      refine .replace hrest (fun hp => (List.forall_mem_cons.1 (hp _ _ hhead).2).2)
        (fun _ rp' hrp' => ?_) fun _ _ buf hbuf => ?_
      · exact .inr ⟨_, rp', hhead, List.mem_cons_of_mem _ hrp', rfl⟩
      · cases hbuf
  heartbeat p pm hpm hp := ⟨⟨hp.queues, hp.others, hpm, hp.owes⟩, fun _ => .refl⟩
  store p pd hpd hp := by
    refine ⟨⟨hp.queues, hp.others, hp.heartbeat, fun dest => ?_⟩, fun _ => .refl⟩
    rcases hpd dest with hnone | hsame
    · exact .inl hnone
    · rw [hsame]
      exact hp.owes dest
  lose p dest hp := by
    refine ⟨⟨hp.queues, hp.others, hp.heartbeat, hp.owes⟩, fun _ hrefused =>
      ⟨?_, [], by simp, by simp⟩⟩
    rw [isNotInterested, ExtTreeSet.contains_insert]
    exact Bool.or_eq_true_iff.2 (.inr hrefused)

end

/-! ## What a peer does on its own -/

section

variable [AddressText] {keep : Prop} {cfg : ProtocolConfig} {mac : DlepMac} {d : DlepView}
  {s : Surroundings}

/-- A response does not bother the peer. -/
theorem not_bothers_response {name status : String} {message : Bytes} {dest : Option DlepMac}
    {pm : ProtocolMessage} (hcfg : d.cfg.Orderly) (hname : Responds d.cfg name)
    (h : composeChecked d name (addStatusAndMac d.cfg status message dest) "send_simple_response" =
      .ok pm) : ¬ Bothers d.cfg mac pm.msgbuf := by
  have hboth : d.cfg.signalMap.right name = none ∧ name ∉ destinationNames := by
    rcases hname with rfl | rfl | rfl | ⟨hne, request, hrequest⟩
    · exact ⟨hcfg.messages _ (by decide), by decide⟩
    · exact ⟨hcfg.messages _ (by decide), by decide⟩
    · exact ⟨hcfg.messages _ (by decide), by decide⟩
    · exact hcfg.responses request name hrequest hne
  exact not_bothers_of_name (bufferName_of_composeChecked hboth.1 adds_addStatusAndMac h) hboth.2

/-- What a peer composes by itself bothers nobody: responses were asked for, and the rest is about
other destinations. -/
theorem utters_spares (hcfg : d.cfg.Orderly) :
    Utters (fun buf => ¬ Bothers d.cfg mac buf)
      (fun dest buf => dest ≠ mac → ¬ Bothers d.cfg mac buf)
      d s where
  response _ _ _ _ _ hname hpm := not_bothers_response hcfg hname hpm
  termination status reason pm rp hpm hrp _ := by
    rw [(ResponsePending.make_ok hrp).1]
    exact not_bothers_of_name
      (bufferName_of_composeChecked (hcfg.messages _ (by decide)) adds_addStatus hpm) (by decide)

/-- A request about another destination does not bother the peer, and is not queued for this one. -/
theorem not_bothers_request {pm : ProtocolMessage} {rp : ResponsePending} {dest : DlepMac}
    (hmac : bufferMac d.cfg pm.msgbuf = some dest) (hget : pm.getMac d.cfg = .ok dest)
    (hrp : ResponsePending.make d.cfg pm = .ok rp) (hne : rp.destination ≠ mac) :
    ¬ Bothers d.cfg mac rp.msgBuffer := by
  rw [ResponsePending.destination_of_make hget hrp] at hne
  rw [(ResponsePending.make_ok hrp).1]
  exact not_bothers_of_mac hmac hne

/-- A request about another destination does not bother. -/
theorem not_bothers_destinationMessage {name func : String} {dest : DlepMac} {items : DataItems}
    {pm : ProtocolMessage} {rp : ResponsePending} (hcfg : d.cfg.Orderly)
    (hname : name ∈ composedNames) (h : destinationMessage d name dest items func = .ok pm)
    (hrp : ResponsePending.make d.cfg pm = .ok rp) (hne : rp.destination ≠ mac) :
    ¬ Bothers d.cfg mac rp.msgBuffer :=
  not_bothers_request (bufferMac_destinationMessage hcfg.typesMac (hcfg.messages _ hname) h)
    (getMac_destinationMessage hcfg.typesMac h) hrp hne

/-- Bringing a destination up is a message on its queue, or the answer to an announcement. -/
theorem spares_destinationUp (hcfg : d.cfg.Orderly) {dest : DlepMac} {items : DataItems} :
    Within (Spares keep d.cfg mac) (destinationUp d s dest items) := by
  intro p hp
  refine permits_destinationUp (R := Spares keep d.cfg mac) (fun howed pm hpm => ?_)
    (fun _ pm rp hpm hrp hne => ?_) hp
  · obtain ⟨request, hrequest⟩ := (hp.owes dest).resolve_left howed
    obtain ⟨hname, hnot⟩ := hcfg.responses request _ hrequest howed
    obtain ⟨⟨err, pm'⟩, hcompose, hpm⟩ := bind_eq_ok.1 hpm
    obtain rfl := Except.ok.inj hpm
    refine not_bothers_of_name (bufferName_of_compose hname ?_ hcompose) hnot
    exact adds_bind adds_addNamed (adds_bind adds_addDataItems adds_addCommonDataItems)
  · have hname : d.cfg.signalMap.right (upMessageName d) = none := by
      rcases @upMessageName_cases d with h | h
      · rw [h]
        exact hcfg.messages _ (by decide)
      · rw [h]
        exact hcfg.messages _ (by decide)
    exact not_bothers_request (bufferMac_upMessage hcfg.typesMac hname hpm)
      (getMac_upMessage hcfg.typesMac hpm) hrp hne

/-- An update is not sent of a destination that the peer has refused. -/
theorem spares_destinationUpdate (hcfg : d.cfg.Orderly) {dest : DlepMac} {items : DataItems} :
    Within (Spares keep d.cfg mac) (destinationUpdate d dest items) := by
  refine within_of_wp fun p => ?_
  have hstay : Spares keep d.cfg mac p p := Std.Refl.refl p
  simp only [destinationUpdate, wp_bind, wp_get]
  split
  · exact hstay
  · next hinterest =>
    rw [wp_bind]
    refine wp_lift (fun pm hpm => Spares.event fun hrefused buf hbuf => ?_) fun _ _ => hstay
    obtain rfl := Option.some.inj hbuf
    have hmac := bufferMac_destinationMessage hcfg.typesMac (hcfg.messages _ (by decide)) hpm
    refine not_bothers_of_mac hmac fun hsame => ?_
    rw [hsame] at hinterest
    exact hinterest hrefused

/-- The peer regains an interest in another destination. -/
theorem spares_regain {p : Peer} {dest : DlepMac} (hne : keep → dest ≠ mac) :
    Spares keep cfg mac p { p with
      notInterestedDestinations := p.notInterestedDestinations.erase dest } := by
  intro hp
  refine ⟨⟨hp.queues, hp.others, hp.heartbeat, hp.owes⟩, fun hkeep hrefused =>
    ⟨?_, [], by simp, by simp⟩⟩
  rw [isNotInterested, ExtTreeSet.contains_erase]
  exact Bool.and_eq_true_iff.2 ⟨by simpa using hne hkeep, hrefused⟩

/-- The peer will be given a response. -/
theorem spares_setNeedsResponse {p : Peer} {request name : String} {dest : DlepMac}
    (hname : cfg.getMessageResponseName request = .ok name) :
    Spares keep cfg mac p { p with peerPdp := p.peerPdp.setNeedsResponse dest name } := by
  intro hp
  refine ⟨⟨hp.queues, hp.others, hp.heartbeat, fun dest' => ?_⟩, fun _ => .refl⟩
  by_cases hsame : dest' = dest
  · subst hsame
    simp only [PeerData.setNeedsResponse, PeerData.getNeedsResponse_eq,
      ExtTreeMap.getElem?_modify_self]
    cases p.peerPdp.destinationData[dest']? with
    | none => exact .inl rfl
    | some dd => exact .inr ⟨request, hname⟩
  · rw [PeerData.getNeedsResponse_setNeedsResponse_of_ne hsame]
    exact hp.owes dest'

/-- The answer to an announcement was asked for. -/
theorem spares_answerAnnounce (hcfg : d.cfg.Orderly) {request name status : String} {dest : DlepMac}
    (hname : d.cfg.getMessageResponseName request = .ok name) (hne : name ≠ "") :
    Within (Spares keep d.cfg mac) (answerAnnounce d s name status dest) := by
  refine within_ite (fun _ => within_modify fun p => spares_setNeedsResponse hname) fun _ => ?_
  exact permits_sendSimpleResponse (utters_spares hcfg) (.inr (.inr (.inr ⟨hne, request, hname⟩)))

/-- An announcement of another destination leaves the refusal. -/
theorem spares_handleDestinationAnnounce (hcfg : d.cfg.Orderly) {pm : ProtocolMessage}
    (hmac : keep → pm.getMac d.cfg ≠ .ok mac) :
    Within (Spares keep d.cfg mac) (handleDestinationAnnounce d s pm) := by
  refine within_of_wp fun p => ?_
  rw [handleDestinationAnnounce, wp_bind]
  refine wp_lift (fun dest hdest => ?_) fun _ _ => Std.Refl.refl p
  have hne : keep → dest ≠ mac := fun hkeep hsame => hmac hkeep (hsame ▸ hdest)
  rw [wp_bind]
  refine wp_lift (fun request _ => ?_) fun _ _ => Std.Refl.refl p
  rw [wp_bind]
  refine wp_lift (fun name hname => ?_) fun _ _ => Std.Refl.refl p
  rw [wp_bind]
  refine wp_lift (fun _ hassert => ?_) fun _ _ => Std.Refl.refl p
  have hnamed : name ≠ "" := by simpa using assertThat_ok.1 hassert
  refine Within.wp ?_ p
  refine within_bind within_get fun _ => within_ite (fun _ => ?_) fun _ => ?_
  · exact spares_answerAnnounce hcfg hname hnamed
  · refine within_bind (within_modify fun _ => spares_regain hne) fun _ => ?_
    refine within_bind permits_addDestinationChecked fun _ => ?_
    split
    · refine within_bind (within_modify fun _ => spares_setNeedsResponse hname) fun _ => ?_
      exact spares_destinationUp hcfg
    · refine within_bind permits_askClient fun _ => ?_
      exact spares_answerAnnounce hcfg hname hnamed

/-- Entering a session sends nothing. -/
theorem spares_enterSession (hcfg : d.cfg.Orderly) {info : Peer → PeerInfo} :
    Within (Spares keep d.cfg mac) (enterSession d s info) := by
  refine within_bind (permits_modify fun _ => ⟨rfl, rfl, rfl, rfl, rfl⟩) fun _ => ?_
  refine within_bind within_get fun _ => within_bind ?_ fun _ => ?_
  · exact within_modify fun p => .event fun _ buf hbuf => by cases hbuf
  · exact within_forM fun _ _ => spares_destinationUp hcfg

/-- The opening of a session is not about a destination. -/
theorem spares_handlePeerInitialization (hcfg : d.cfg.Orderly) {pm : ProtocolMessage} :
    Within (Spares keep d.cfg mac) (handlePeerInitialization d s pm) := by
  intro p
  refine wp_handlePeerInitialization (R := Spares keep d.cfg mac) (utters_spares hcfg)
    (fun _ p pm pm' hpm hmodified => ?_) (fun _ h => h) fun q hq => ?_
  · exact not_bothers_of_name (bufferName_initializationResponse hcfg hpm hmodified) (by decide)
  · exact IsTrans.trans _ _ _ hq
      (within_bind (spares_enterSession hcfg) (fun _ => permits_advertisePeer) q)

/-- The answer to an opening is not about a destination. -/
theorem spares_handlePeerInitializationResponse (hcfg : d.cfg.Orderly) {pm : ProtocolMessage}
    {p : Peer} : Spares keep d.cfg mac p (after (handlePeerInitializationResponse d s pm) p) := by
  intro hp
  refine wp_handlePeerInitializationResponse (R := Spares keep d.cfg mac) (P :=
    Spares keep d.cfg mac p)
    (utters_spares hcfg) hp.queues (fun _ h => h) (fun q hq => ?_) hp
  exact IsTrans.trans _ _ _ hq (spares_enterSession hcfg q)

/-! ## A message -/

/-- The message, if it is about the destination, neither brings it up nor makes a router forget a
refusal. -/
def Keeps (d : DlepView) (p : Peer) (mac : DlepMac) (name : String) (pm : ProtocolMessage) : Prop :=
  pm.getMac d.cfg = .ok mac → name ≠ "Destination_Up" ∧ name ≠ "Destination_Announce" ∧
    (name = "Destination_Up_Response" ∨ name = "Destination_Announce_Response" →
      regains d pm mac p = false)

/-- Every handler of a message that keeps the refusal spares the peer. -/
theorem hears_spares (hcfg : d.cfg.Orderly) {p : Peer} {name : String} {pm : ProtocolMessage}
    (hkeeps : keep → Keeps d p mac name pm) :
    Hears (fun buf => ¬ Bothers d.cfg mac buf)
      (fun dest buf => dest ≠ mac → ¬ Bothers d.cfg mac buf)
      (Spares keep d.cfg mac) d s name pm p where
  utters := utters_spares hcfg
  regain hup dest hdest hregains q _ := by
    refine spares_regain fun hkeep hsame => ?_
    subst hsame
    rw [(hkeeps hkeep hdest).2.2 hup] at hregains
    cases hregains
  answer dest dd metrics answer _ _ _ _ _ hanswer := by
    have hname : "Link_Characteristics_Response" ∉ destinationNames := by decide
    refine not_bothers_of_name ?_ hname
    exact bufferName_destinationMessage (hcfg.messages _ (by decide)) hanswer

/-- Whatever handler a message is given to, nothing is sent that bothers. -/
theorem spares_dispatch (hcfg : d.cfg.Orderly) {p : Peer} {name : String} {pm : ProtocolMessage}
    (hkeeps : keep → Keeps d p mac name pm) :
    Spares keep d.cfg mac p (after (dispatch d s name pm) p) := by
  have hother : name = "Destination_Up" ∨ name = "Destination_Announce" → keep →
      pm.getMac d.cfg ≠ .ok mac := by
    rintro (h | h) hkeep hmac
    · exact (hkeeps hkeep hmac).1 h
    · exact (hkeeps hkeep hmac).2.1 h
  by_cases hopens : opens name = true
  · simp only [opens, Bool.or_eq_true, decide_eq_true_eq] at hopens
    rcases hopens with ((rfl | rfl) | rfl) | rfl
    · show Spares keep d.cfg mac p (after (if d.modem then handleDestinationAnnounce d s pm
        else handleDestinationUp d s pm) p)
      split
      · exact spares_handleDestinationAnnounce hcfg (hother (.inl rfl)) p
      · refine permits_handleDestinationUp (utters_spares hcfg) fun dest hdest _ _ => ?_
        exact spares_regain fun hkeep hsame => hother (.inl rfl) hkeep (hsame ▸ hdest)
    · exact spares_handleDestinationAnnounce hcfg (hother (.inr rfl)) p
    · exact spares_handlePeerInitialization hcfg p
    · exact spares_handlePeerInitializationResponse hcfg
  · intro hp
    exact permits_dispatch (hears_spares hcfg hkeeps) hp.queues (by simpa using hopens) hp

/-- A step that does not give the peer's interest back spares it. -/
theorem spares_step (hcfg : d.cfg.Orderly) {input : Input} {p : Peer}
    (hkeeps : keep → ∀ name pm, Step.handled p ⟨d, s, input⟩ = some (name, pm) →
      Keeps d p mac name pm) :
    Spares keep d.cfg mac p (p.step ⟨d, s, input⟩) := by
  cases input with
  | start =>
    refine permits_startPeer (R := Spares keep d.cfg mac) (fun pm hpm => ?_) fun _ pm pm' rp hpm
      hmodified hrp _ => ?_
    · have hname : "Heartbeat" ∉ destinationNames := by decide
      refine not_bothers_of_name ?_ hname
      exact bufferName_of_composeChecked (hcfg.messages _ (by decide)) adds_addCommonDataItems hpm
    · rw [(ResponsePending.make_ok hrp).1]
      exact not_bothers_of_name (bufferName_initializationMessage hcfg hpm hmodified) (by decide)
  | receive bytes => exact Permits.other p _ rfl rfl rfl rfl rfl
  | message =>
    cases hnext : nextMessage d p with
    | none =>
      rw [step_of_nextMessage_none rfl hnext]
      exact Std.Refl.refl p
    | some buf =>
      refine step_of_nextMessage rfl hnext (fun q n hq => ?_)
        (wp_handlePeerSignal (R := Spares keep d.cfg mac) (utters_spares hcfg) (fun _ h => h)
          fun name pm hhandled => ?_)
      · exact IsTrans.trans _ _ _ hq (Permits.other _ _ rfl rfl rfl rfl rfl)
      · refine spares_dispatch hcfg fun hkeep => hkeeps hkeep name pm ?_
        rw [Step.handled, hnext]
        exact hhandled
  | acktivityTimeout =>
    intro hp
    exact permits_handleAcktivityTimeout (R := Spares keep d.cfg mac)
      (utters_spares hcfg) hp.queues hp
  | heartbeatTimeout =>
    intro hp
    exact permits_handleHeartbeatTimeout (R := Spares keep d.cfg mac) hp.heartbeat hp
  | eof => exact permits_stopPeer p
  | terminate status reason => exact permits_terminate (utters_spares hcfg) p
  | destinationUp dest items => exact spares_destinationUp hcfg p
  | destinationDown dest items =>
    exact permits_destinationDown (fun pm rp hpm hrp =>
      not_bothers_destinationMessage hcfg (by decide) hpm hrp) p
  | destinationUpdate dest items => exact spares_destinationUpdate hcfg p
  | peerUpdate items =>
    refine within_bind (permits_peerUpdate fun r rp hr hrp _ => ?_) (fun _ => within_pure) p
    obtain ⟨err, pm⟩ := r
    rw [(ResponsePending.make_ok hrp).1]
    exact not_bothers_of_name
      (bufferName_of_compose (hcfg.messages _ (by decide)) adds_addDataItems hr) (by decide)
  | linkCharacteristicsRequest dest items =>
    exact permits_linkCharacteristicsRequest (fun pm rp hpm hrp =>
      not_bothers_destinationMessage hcfg (by decide) hpm hrp) p
  | linkCharacteristicsResponse dest items =>
    refine permits_linkCharacteristicsResponse (fun _ pm hpm => ?_) p
    have hname : "Link_Characteristics_Response" ∉ destinationNames := by decide
    refine not_bothers_of_name ?_ hname
    exact bufferName_destinationMessage (hcfg.messages _ (by decide)) hpm
  | removeDestination dest =>
    exact within_bind (permits_onPdp PeerData.owesNoMore_removeDestination) (fun _ => within_pure) p

/-! ## A refusal -/

omit [AddressText] in
/-- What a message says that refuses a destination. -/
theorem exists_of_verdictOf {p : Peer} {name : String} {pm : ProtocolMessage}
    (h : verdictOf d p name pm = some (.refuses mac)) :
    pm.getMac d.cfg = .ok mac ∧ name ≠ "Destination_Up" ∧ name ≠ "Destination_Announce" ∧
      (name ∈ destinationResponses ∧ declines d.cfg pm = true ∨
        name = "Destination_Down" ∧ p.peerPdp.validDestination mac = false ∧
          d.localPdp.validDestination mac = true) := by
  unfold verdictOf at h
  split at h
  · cases h
  · next dest hdest =>
    split at h
    · cases h
    · next hup =>
      obtain ⟨hnotUp, hnotAnnounce⟩ := not_or.1 hup
      split at h
      · next hdeclines =>
        obtain rfl := Verdict.refuses.inj (Option.some.inj h)
        exact ⟨hdest, hnotUp, hnotAnnounce, .inl hdeclines⟩
      · split at h
        · next hdown =>
          obtain rfl := Verdict.refuses.inj (Option.some.inj h)
          exact ⟨hdest, hnotUp, hnotAnnounce, .inr hdown⟩
        · cases h

omit [AddressText] in
/-- A message that declines has the status Not Interested. -/
theorem getStatus_of_declines {cfg : ProtocolConfig} {pm : ProtocolMessage}
    (h : declines cfg pm = true) : pm.getStatus cfg = .ok "Not_Interested" := by
  unfold declines at h
  split at h
  · next status hstatus => rw [hstatus, of_decide_eq_true h]
  · cases h

/-- A response that refuses the destination, to the only message of its queue. -/
theorem hushed_handleDestinationUpResponse {p : Peer} {pm : ProtocolMessage}
    (hmac : pm.getMac d.cfg = .ok mac) (hname : ∃ name, pm.getSignalName d.cfg = .ok name)
    (hdeclines : declines d.cfg pm = true) (hexpects : p.expects pm mac = true)
    (hlast : (p.responsesPending[mac]?).map List.length = some 1) :
    wp (handleDestinationUpResponse d s pm) (fun _ q => Hushed d.cfg mac p q)
      (fun _ q => Hushed d.cfg mac p q) p := by
  obtain ⟨name, hname⟩ := hname
  obtain ⟨queue, hqueue, hlength⟩ := Option.map_eq_some_iff.1 hlast
  obtain ⟨rp, rfl⟩ := List.length_eq_one_iff.1 hlength
  cases hid : pm.getSignalId with
  | error e => simp [expects, hqueue, hid] at hexpects
  | ok id =>
    have hresponse : rp.responseId = id := by simpa [expects, hqueue, hid] using hexpects
    have hdest : ifPresent (pm.getMac d.cfg) = .ok (some mac) := by rw [hmac]; rfl
    have hstatus : ifPresent (pm.getStatus d.cfg) = .ok (some "Not_Interested") := by
      rw [getStatus_of_declines hdeclines]
      rfl
    obtain ⟨q, hq⟩ : ∃ q : Peer, q = { p with
        responsesPending := p.responsesPending.erase mac
        trace := p.trace ++ [.accept rp id mac] } := ⟨_, rfl⟩
    have haccept : wp (acceptResponse s pm mac) (fun ok r => ok = true ∧ r = q)
        (fun _ _ => False) p := by
      simp only [acceptResponse, popResponse, wp_bind, wp_get, hqueue, hid, hresponse, wp_modify,
        wp_pure, if_true]
      exact ⟨trivial, hq.symm⟩
    have hresponded : wp (handleResponse d s pm) (fun ok r => ok = true ∧ r = q)
        (fun _ _ => False) p := by
      simp only [handleResponse, hname, hdest, wp_bind, wp_lift_ok, Option.getD_some]
      refine haccept.mono (fun ok r hr => ?_) fun _ _ hfalse => hfalse
      rw [hr.1]
      exact ⟨rfl, hr.2⟩
    rw [handleDestinationUpResponse, hmac]
    simp only [hname, wp_bind, wp_lift_ok]
    refine hresponded.mono (fun ok r hr => ?_) fun _ _ hfalse => hfalse.elim
    obtain ⟨rfl, rfl⟩ := hr
    simp only [checkUpStatus, notInterested, hstatus, wp_bind, wp_lift_ok, wp_modify, wp_pure,
      if_true, Bool.false_eq_true, if_false]
    refine ⟨by simp [isNotInterested], [.accept rp id mac], by rw [hq], fun e he buf hbuf => ?_⟩
    obtain rfl := List.mem_singleton.1 he
    cases hbuf

/-- The peer takes down a destination that is ours only. -/
theorem hushed_handleDestinationDown (hcfg : d.cfg.Orderly) {p : Peer} {pm : ProtocolMessage}
    (hmac : pm.getMac d.cfg = .ok mac) (hforeign : p.peerPdp.validDestination mac = false)
    (hlocal : d.localPdp.validDestination mac = true) (hp : Sparing d.cfg mac p) :
    wp (handleDestinationDown d s pm) (fun _ q => Hushed d.cfg mac p q)
      (fun _ q => Hushed d.cfg mac p q) p := by
  obtain ⟨q, hq⟩ : ∃ q : Peer, q = { p with
      notInterestedDestinations := p.notInterestedDestinations.insert mac } := ⟨_, rfl⟩
  have hsparing : Sparing d.cfg mac q := by
    rw [hq]
    exact ⟨hp.queues, hp.others, hp.heartbeat, hp.owes⟩
  have hrefused : q.isNotInterested mac = true := by simp [hq, isNotInterested]
  have htrace : q.trace = p.trace := by rw [hq]
  have hrest : Within (Spares True d.cfg mac) (do
      let items ← pm.getDataItemsNoMac d.cfg
      callClient (.destinationDown (← get).peerId mac items)
      sendSimpleResponse d s "Destination_Down_Response" "Success" [] (some mac) : PeerM Unit) := by
    refine within_bind within_lift fun _ => within_bind within_get fun _ => ?_
    refine within_bind (permits_emit rfl) fun _ => ?_
    exact permits_sendSimpleResponse (utters_spares hcfg) (.inr (.inr (.inl rfl)))
  have hhushed : ∀ r, Spares True d.cfg mac q r → Hushed d.cfg mac p r := by
    intro r hr
    obtain ⟨hstill, events, hevents, hnone⟩ := (hr hsparing).2 trivial hrefused
    exact ⟨hstill, events, htrace ▸ hevents, hnone⟩
  simp only [handleDestinationDown, dropDestination, onPdp, PeerData.removeDestination,
    notInterested, hmac, hforeign, hlocal, wp_bind, wp_lift_ok, wp_zoom, wp_get, wp_pure,
      wp_modify, if_true,
    Bool.false_eq_true, if_false]
  have hwp := (hrest.wp q).mono (fun _ r hr => hhushed r hr) fun _ r hr => hhushed r hr
  rw [hq] at hwp
  simpa only [wp_bind, wp_get] using hwp

/-- A refusal that is recorded in time silences the peer at once. -/
theorem hushed_step (hcfg : d.cfg.Orderly) {input : Input} {p : Peer}
    (hverdict : Step.verdict p ⟨d, s, input⟩ = some (.refuses mac)) (hp : Sparing d.cfg mac p)
    (hrecorded : ∀ name pm, Step.handled p ⟨d, s, input⟩ = some (name, pm) →
      name ∈ destinationResponses → declines d.cfg pm = true → WrittenDown p name pm mac) :
    Hushed d.cfg mac p (p.step ⟨d, s, input⟩) := by
  obtain ⟨⟨name, pm⟩, hhandled, hsays⟩ := Option.bind_eq_some_iff.1 hverdict
  obtain ⟨hmac, hnotUp, hnotAnnounce, hwhy⟩ := exists_of_verdictOf hsays
  obtain ⟨buf, rfl, hnext, hhandledOf⟩ := exists_of_handled hhandled
  have hname := (received_of_handledOf hhandledOf).2
  have hstep : ∀ (h : wp (dispatch d s name pm) (fun _ q => Hushed d.cfg mac p q)
      (fun _ q => Hushed d.cfg mac p q) p), Hushed d.cfg mac p (p.step ⟨d, s, .message⟩) := fun h =>
    step_of_nextMessage rfl hnext (fun _ _ hq => hq) (wp_handlePeerSignal_of_handledOf hhandledOf h)
  rcases hwhy with ⟨hresponse, hdeclines⟩ | ⟨rfl, hforeign, hlocal⟩
  · obtain ⟨hup, hexpects, hwhen⟩ := hrecorded name pm hhandled hresponse hdeclines
    rcases hwhen with hknown | hlast
    · -- the refusal is known already
      refine (spares_step hcfg (fun _ name' pm' hhandled' _ => ?_) hp).2 trivial hknown
      obtain ⟨rfl, rfl⟩ := Prod.mk.inj (Option.some.inj (hhandled.symm.trans hhandled'))
      refine ⟨hnotUp, hnotAnnounce, fun _ => ?_⟩
      have hfails : succeeds d.cfg pm = false := by
        rw [succeeds, getStatus_of_declines hdeclines]
        rfl
      simp [regains, hfails]
    · refine hstep ?_
      have hhushed :=
        @hushed_handleDestinationUpResponse _ mac d s p pm hmac ⟨name, hname⟩ hdeclines
        hexpects hlast
      rcases hup with rfl | rfl
      · exact hhushed
      · exact hhushed
  · exact hstep (hushed_handleDestinationDown hcfg hmac hforeign hlocal hp)

end

end Peer

/-! ## Runs -/

namespace Listener

open Peer

section

variable [AddressText] {cfg : ProtocolConfig} {l : Listener} {st : Step}

/-- What the peer refuses is recorded. -/
structure Heeds (cfg : ProtocolConfig) (l : Listener) : Prop where
  sparing : ∀ mac, Sparing cfg mac l.peer
  recorded : ∀ mac ∈ l.refused, l.peer.isNotInterested mac = true

/-- A new peer has refused nothing. -/
theorem heeds_of_create {peerId : PeerId} {now : Nat} {p : Peer}
    (h : Peer.create cfg peerId now = .ok p) : Heeds cfg { peer := p } := by
  obtain rfl := create_ok h
  refine ⟨fun mac => ⟨fun dest q hq => ?_, fun dest q hq => ?_, ?_, fun dest => .inl rfl⟩,
    fun mac hmac => ?_⟩
  · cases hq
  · cases hq
  · have hsize := cfg.signalIdSize.2.1
    have hempty : bufferName cfg [] = none := if_neg (by simp only [List.length_nil]; omega)
    rintro ⟨-, name, -, hname⟩
    rw [hempty] at hname
    cases hname
  · cases hmac

/-- A step that does not bring a refused destination up keeps the refusal. -/
theorem keeps_of_careful {mac : DlepMac} (hcareful : l.Careful st) (hmac : mac ∈ l.refused)
    (hwants : st.verdict l.peer ≠ some (.wants mac)) (name : String) (pm : ProtocolMessage)
    (hhandled : st.handled l.peer = some (name, pm)) : Keeps st.d l.peer mac name pm := by
  intro hget
  have hup : ¬ (name = "Destination_Up" ∨ name = "Destination_Announce") := by
    intro hup
    refine hwants (Option.bind_eq_some_iff.2 ⟨_, hhandled, ?_⟩)
    simp only [verdictOf, hget, if_pos hup]
  obtain ⟨hnotUp, hnotAnnounce⟩ := not_or.1 hup
  refine ⟨hnotUp, hnotAnnounce, ?_⟩
  exact (hcareful _ hhandled mac (by simp [hget, Except.toOption])).2 hmac

/-- A careful step spares the peer, and its refusals stay recorded. -/
theorem spared_step (hcfg : cfg.Orderly) (hst : st.d.cfg = cfg) (hl : Heeds cfg l)
    (hcareful : l.Careful st) : l.Spared st ∧ Heeds cfg (l.step st) := by
  obtain ⟨d, s, input⟩ := st
  subst hst
  have hhushed : ∀ mac ∈ (l.step ⟨d, s, input⟩).refused,
      Hushed d.cfg mac l.peer (l.peer.step ⟨d, s, input⟩) := by
    intro mac hmac
    by_cases hrefuses : Step.verdict l.peer ⟨d, s, input⟩ = some (.refuses mac)
    · refine hushed_step hcfg hrefuses (hl.sparing mac) fun name pm hhandled => ?_
      obtain ⟨⟨name', pm'⟩, hhandled', hsays⟩ := Option.bind_eq_some_iff.1 hrefuses
      obtain ⟨rfl, rfl⟩ := Prod.mk.inj (Option.some.inj (hhandled.symm.trans hhandled'))
      have hget := (exists_of_verdictOf hsays).1
      exact (hcareful _ hhandled mac (by simp [hget, Except.toOption])).1
    · have hold : mac ∈ l.refused ∧ Step.verdict l.peer ⟨d, s, input⟩ ≠ some (.wants mac) := by
        simp only [step] at hmac
        split at hmac
        · next dest hverdict =>
          rw [ExtTreeSet.mem_erase] at hmac
          refine ⟨hmac.2, fun hsame => hmac.1 (Std.compare_eq_iff_eq.2 ?_)⟩
          exact Verdict.wants.inj (Option.some.inj (hverdict.symm.trans hsame))
        · next dest hverdict =>
          rw [ExtTreeSet.mem_insert, Std.compare_eq_iff_eq] at hmac
          refine ⟨hmac.resolve_left fun hsame => hrefuses (hsame ▸ hverdict), ?_⟩
          rw [hverdict]
          simp
        · next hverdict =>
          rw [hverdict]
          exact ⟨hmac, by simp⟩
      have hkeeps := keeps_of_careful hcareful hold.1 hold.2
      exact (spares_step hcfg (fun _ => hkeeps) (hl.sparing mac)).2 trivial (hl.recorded mac hold.1)
  refine ⟨fun mac hmac e he buf hbuf => ?_, fun mac => ?_, fun mac hmac => (hhushed mac hmac).1⟩
  · obtain ⟨_, events, htrace, hnone⟩ := hhushed mac hmac
    refine hnone e ?_ buf hbuf
    change e ∈ List.drop l.peer.trace.length (l.peer.step ⟨d, s, input⟩).trace at he
    rwa [htrace, List.drop_left] at he
  · exact (spares_step hcfg (fun hfalse : False => hfalse.elim) (hl.sparing mac)).1

/-- After a refusal that is recorded in time, the peer is sent no message that it does not want,
in the step that receives the refusal and in every later one, until it brings the destination up.
-/
theorem refusals_respected (hcfg : cfg.Orderly) {peerId : PeerId} {now : Nat} {p : Peer}
    {steps : List Step} (hp : Peer.create cfg peerId now = .ok p)
    (hsteps : ∀ st ∈ steps, st.d.cfg = cfg) (hcareful : Along step Careful { peer := p } steps) :
    Along step Spared { peer := p } steps :=
  (hcareful.and_inputs hsteps).of_invariant
    (fun _ _ hl hst => spared_step hcfg hst.2 hl hst.1) (heeds_of_create hp)

end

/-! ## A refusal by a router -/

attribute [local instance] plainText

def refusedMac : DlepMac := [2, 0, 0, 0, 0, 1]

/-- A Destination Up Response for the destination, with the status Not Interested. -/
def refusal : Bytes := [0, 8, 0, 15, 0, 7, 0, 6, 2, 0, 0, 0, 0, 1, 0, 1, 0, 1, 1]

/-- A modem brings a destination up, and takes it down after the refusal. -/
def upRefusedDown : List Step :=
  bareSteps true [.receive sessionInitialization, .message, .destinationUp refusedMac [],
    .receive refusal, .message, .destinationDown refusedMac []]

/-- The destination is refused before anything waits behind the request, and taking it down sends
nothing. -/
theorem refusals_respected_upRefusedDown :
    (run step { peer := barePeer } upRefusedDown).refused.contains refusedMac = true ∧
      Along step Spared { peer := barePeer } upRefusedDown := by
  obtain ⟨hrefused, hcareful⟩ :
      (run step { peer := barePeer } upRefusedDown).refused.contains refusedMac = true ∧
      Along step Careful { peer := barePeer } upRefusedDown := by decide +kernel
  exact ⟨hrefused, @refusals_respected _ _ rfc8175_orderly (str "peer") 0 _ _ rfl
    (by simp [upRefusedDown, bareSteps, bareView]) hcareful⟩

/-- The modem takes the destination down before the refusal arrives: the refusal itself releases the
Destination Down that waits behind the Destination Up. -/
theorem refusal_releases_down :
    Peer.create rfc8175 (str "peer") 0 = .ok barePeer ∧
      ¬ Along step Spared { peer := barePeer } (bareSteps true
        [.receive sessionInitialization, .message, .destinationUp refusedMac [],
          .destinationDown refusedMac [], .receive refusal, .message]) := by
  refine ⟨rfl, fun h => ?_⟩
  have hlast := h.2.2.2.2.2.1 refusedMac (by decide +kernel)
  revert hlast
  decide +kernel

end Listener

end Dlep
