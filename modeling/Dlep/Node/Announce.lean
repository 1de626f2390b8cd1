import Dlep.Node
import Dlep.Peer.Permits
import Dlep.Peer.Messages
import Dlep.Peer.Termination

/-!
# Announced destinations

A modem asks its client about a destination that a router has announced. The client may bring the
destination up while it is asked, or later. The peer remembers only after the question that it
owes a response: a client that does not wait is taken to bring up a destination of its own.
-/

namespace Dlep

open Std Calls ProtocolMessage

namespace Peer

section

variable [AddressText] (d : DlepView) (s : Surroundings)

/-- The first part of `Peer::handle_destination_announce` (`Peer.cpp:1530`), up to the call of the
client. The result is the name of the response, the status that the client answers with and the
destination, or `none` if the client is not called. -/
def announceUntilCall (pm : ProtocolMessage) : PeerM (Option (String × String × DlepMac)) := do
  let mac ← pm.getMac d.cfg
  let name ← pm.getSignalName d.cfg
  let responseName ← d.cfg.getMessageResponseName name
  assertThat (responseName ≠ "") "response_name != \"\""
  if (← get).peerPdp.validDestination mac then
    answerAnnounce d s responseName "Invalid_Message" mac
    return none
  else
    regainInterest mac
    addDestinationChecked d mac pm.dataItems
    match d.localPdp.getDestinationData mac with
    | some dd =>
      modify fun p => { p with peerPdp := p.peerPdp.setNeedsResponse mac responseName }
      destinationUp d s mac dd.getAllDataItems
      return none
    | none =>
      let status ← askClient s mac pm.dataItems
      return some (responseName, status, mac)

/-- The second part of `Peer::handle_destination_announce`, after the return of the client
(`Peer.cpp:1614`). -/
def announceAfterCall : Option (String × String × DlepMac) → PeerM Unit
  | none => pure ()
  | some (responseName, status, mac) => answerAnnounce d s responseName status mac

/-- The handler is its two parts, one after the other. -/
theorem handleDestinationAnnounce_eq (pm : ProtocolMessage) :
    handleDestinationAnnounce d s pm = announceUntilCall d s pm >>= announceAfterCall d s := by
  simp only [handleDestinationAnnounce, announceUntilCall, bind_assoc]
  refine bind_congr fun mac => bind_congr fun name => bind_congr fun responseName => ?_
  refine bind_congr fun _ => bind_congr fun p => ?_
  split
  · simp [announceAfterCall]
  · simp only [bind_assoc]
    refine bind_congr fun _ => bind_congr fun _ => ?_
    cases d.localPdp.getDestinationData mac with
    | none => simp [announceAfterCall]
    | some dd => simp [announceAfterCall]

end

/-! ## A peer that is told while it owes no response -/

section

variable [AddressText] {cfg : ProtocolConfig} {mac : DlepMac}

/-- What a peer owes are messages, and it owes none for the destination. -/
structure Unowing (cfg : ProtocolConfig) (mac : DlepMac) (p : Peer) : Prop where
  queues : QueueInv p
  nothing : p.peerPdp.getNeedsResponse mac = ""
  messages : ∀ dest, p.peerPdp.getNeedsResponse dest = "" ∨
    cfg.signalMap.right (p.peerPdp.getNeedsResponse dest) = none

/-- The messages about the destination that were handed over are all Destination Up. -/
def OnlyUp (cfg : ProtocolConfig) (mac : DlepMac) (p q : Peer) : Prop :=
  ∃ events, q.trace = p.trace ++ events ∧ ∀ e ∈ events, ∀ buf, e.handed = some buf →
    bufferMac cfg buf = some mac → bufferName cfg buf = some "Destination_Up"

/-- The peer has handed over no other message about the destination, and owes no more. -/
structure ToldUp (cfg : ProtocolConfig) (mac : DlepMac) (p q : Peer) : Prop where
  queues : QueueInv q
  owes : p.peerPdp.OwesNoMore q.peerPdp
  events : OnlyUp cfg mac p q

omit [AddressText] in
/-- A peer that owes no more than one that owes nothing owes nothing. -/
theorem Unowing.of_owes {p q : Peer} (hp : Unowing cfg mac p) (hqueues : QueueInv q)
    (howes : p.peerPdp.OwesNoMore q.peerPdp) : Unowing cfg mac q := by
  refine ⟨hqueues, ?_, fun dest => ?_⟩
  · rcases howes mac with h | h
    · exact h
    · rw [h, hp.nothing]
  · rcases howes dest with h | h
    · exact .inl h
    · rw [h]
      exact hp.messages dest

/-- While it owes nothing for the destination, a peer of a modem is told that it is up. -/
def Tells (mac : DlepMac) (cfg : ProtocolConfig) (modem : Bool) (p q : Peer) : Prop :=
  cfg.TypesMac → cfg.signalMap.right "Destination_Up" = none → modem = true → Unowing cfg mac p →
    ToldUp cfg mac p q

/-- A peer that hands nothing over has handed over no other message about the destination. -/
theorem ToldUp.silent {p q : Peer} (hqueues : QueueInv q) (howes : p.peerPdp.OwesNoMore q.peerPdp)
    (events : List Event) (htrace : q.trace = p.trace ++ events)
    (hevents : ∀ e ∈ events, e.handed = none) : ToldUp cfg mac p q := by
  refine ⟨hqueues, howes, events, htrace, fun e he buf hbuf => ?_⟩
  rw [hevents e he] at hbuf
  cases hbuf

instance {modem : Bool} : Std.Refl (Tells mac cfg modem) :=
  ⟨fun p _ _ _ hp => .silent hp.queues (Std.Refl.refl _) [] (by simp) (by simp)⟩

instance {modem : Bool} : IsTrans Peer (Tells mac cfg modem) where
  trans p q r h h' htypes hup hmodem hp := by
    have hpq := h htypes hup hmodem hp
    have hqr := h' htypes hup hmodem (hp.of_owes hpq.queues hpq.owes)
    obtain ⟨events, htrace, hevents⟩ := hpq.events
    obtain ⟨events', htrace', hevents'⟩ := hqr.events
    refine ⟨hqr.queues, IsTrans.trans _ _ _ hpq.owes hqr.owes, events ++ events', ?_, ?_⟩
    · rw [htrace', htrace, List.append_assoc]
    · exact List.forall_mem_append.2 ⟨hevents, hevents'⟩

variable {d : DlepView} {s : Surroundings} {items : DataItems}

/-- A message that is sent as a request has its name and expects its response. -/
theorem tells_sendRequest {pm : ProtocolMessage} {p : Peer}
    (hpm : bufferName d.cfg pm.msgbuf = some "Destination_Up") (hp : Unowing d.cfg mac p) :
    ToldUp d.cfg mac p (after (sendRequest d.cfg s.now pm) p) := by
  refine (wp_after (P := fun q : Peer => ToldUp d.cfg mac p q)).1 ?_
  rw [sendRequest, wp_bind]
  have hstay : ToldUp d.cfg mac p p := .silent hp.queues (Std.Refl.refl _) [] (by simp) (by simp)
  refine wp_lift (fun rp hrp => ?_) fun _ _ => hstay
  have hqueued := ResponsePending.make_queued hrp
  obtain ⟨q, hrun, htrace⟩ := @sendNew_trace s.now rp hqueued p hp.queues
  have hmoves := @within_sendNew s.now rp hqueued p hp.queues.ok
  have hafter : after (sendNew s.now rp) p = q := by rw [after, hrun]
  rw [hafter] at hmoves
  refine wp_of_ok hrun ⟨?_, ?_, _, htrace, fun e he buf hbuf _ => ?_⟩
  · exact hmoves.keeps (fun _ _ _ _ hm => hm.queueInv) hp.queues
  · rw [Moves.peerPdp hmoves (by decide)]
    exact Std.Refl.refl _
  · -- the only message that can be handed over is the new one
    have hnew : buf = pm.msgbuf := by
      rw [← (ResponsePending.make_ok hrp).1]
      split at he
      · cases he
      · split at he
        · rcases List.mem_cons.1 he with rfl | he
          · cases hbuf
          · obtain rfl := List.mem_singleton.1 he
            exact (Option.some.inj hbuf).symm
        · obtain rfl := List.mem_singleton.1 he
          cases hbuf
    rw [hnew, hpm]

/-- A message that a destination is up has the name it was composed under. -/
theorem bufferName_upMessage {name : String} {pm : ProtocolMessage} {dest : DlepMac}
    (hname : d.cfg.signalMap.right name = none) (h : upMessage d s name dest items = .ok pm) :
    bufferName d.cfg pm.msgbuf = some name := by
  obtain ⟨⟨err, pm'⟩, hcompose, h⟩ := bind_eq_ok.1 h
  obtain rfl := Except.ok.inj h
  obtain ⟨_, _, hframes⟩ := frames_of_compose
    (adds_bind adds_addNamed (adds_bind adds_addDataItems adds_addCommonDataItems)) hcompose
  exact bufferName_of_frames hframes hname

/-- A call about any destination keeps to what a peer may be told about this one. -/
theorem tells_destinationUp {dest : DlepMac} :
    Within (Tells mac d.cfg d.modem) (destinationUp d s dest items) := by
  intro p htypes hup hmodem hp
  refine (wp_after (P := fun q : Peer => ToldUp d.cfg mac p q)).1 ?_
  simp only [destinationUp, wp_bind, wp_get]
  split
  · next howed =>
    -- the response is owed for another destination
    have hne : dest ≠ mac := fun h => howed (h ▸ hp.nothing)
    have hname := (hp.messages dest).resolve_left howed
    have hqueues : QueueInv { p with peerPdp := p.peerPdp.setNeedsResponse dest "" } :=
      Move.queueInv (.store fun h => h) hp.queues
    rw [wp_bind, wp_modify, wp_bind]
    refine wp_lift (fun pm hpm => ?_) fun _ _ => ?_
    · refine ⟨(Move.send pm.msgbuf).queueInv hqueues, PeerData.owesNoMore_setNeedsResponse,
        [.send pm.msgbuf], rfl, ?_⟩
      rintro e he buf hbuf hmac
      obtain rfl := List.mem_singleton.1 he
      obtain rfl := Option.some.inj hbuf
      have hdest := bufferMac_upMessage htypes hname hpm
      exact absurd (Option.some.inj (hdest.symm.trans hmac)) hne
    · exact .silent hqueues PeerData.owesNoMore_setNeedsResponse [] (by simp) (by simp)
  · rw [wp_bind]
    refine wp_lift (fun pm hpm => ?_) fun _ _ => ?_
    · have hname : upMessageName d = "Destination_Up" := if_pos hmodem
      rw [hname] at hpm
      exact wp_after.2 (tells_sendRequest (bufferName_upMessage hup hpm) hp)
    · exact .silent hp.queues (Std.Refl.refl _) [] (by simp) (by simp)

/-- The client is asked about a new destination, and no message is handed over. -/
theorem toldUp_announceUntilCall {pm : ProtocolMessage} {p : Peer}
    (hmac : pm.getMac d.cfg = .ok mac) (hnew : p.peerPdp.validDestination mac = false)
    (hlocal : d.localPdp.validDestination mac = false)
    (haccept : s.destinationUp p.peerId mac pm.dataItems = "" ∨
      s.destinationUp p.peerId mac pm.dataItems = "Success") (hp : QueueInv p) :
    wp (announceUntilCall d s pm)
      (fun asked q => (∃ name, asked = some (name, "Success", mac)) ∧ ToldUp d.cfg mac p q)
      (fun _ q => ToldUp d.cfg mac p q) p := by
  have hstay : ToldUp d.cfg mac p p := .silent hp (Std.Refl.refl _) [] (by simp) (by simp)
  have hnone : d.localPdp.getDestinationData mac = none := by
    rw [PeerData.validDestination_eq_isSome] at hlocal
    simpa using hlocal
  simp only [announceUntilCall, hmac, wp_bind, wp_lift_ok]
  refine wp_lift (fun name _ => ?_) fun _ _ => hstay
  refine wp_lift (fun responseName _ => ?_) fun _ _ => hstay
  refine wp_lift (fun _ _ => ?_) fun _ _ => hstay
  simp only [wp_get, hnew, Bool.false_eq_true, if_false, regainInterest, addDestinationChecked,
    onPdp, wp_bind, wp_modify, wp_zoom, hnone]
  have hadd := (@PeerData.owesNoMore_addDestination _ d.cfg mac pm.dataItems).wp p.peerPdp
  refine hadd.mono (fun ok pd howes => ?_) fun _ pd howes => ?_
  · refine wp_lift (fun _ _ => ?_) fun _ _ => ?_
    · simp only [askClient, callClient, emit, wp_bind, wp_get, wp_modify, wp_pure]
      have hstatus : (if s.destinationUp p.peerId mac pm.dataItems = "" then "Success"
          else s.destinationUp p.peerId mac pm.dataItems) = "Success" := by
        rcases haccept with h | h <;> simp [h]
      refine ⟨⟨responseName, by rw [hstatus]⟩, ?_⟩
      exact .silent (hp.append [.client _] hp.ok rfl (by simp [queueAction]) rfl le_rfl) howes
        [.client _] rfl (by simp [Event.handed])
    · exact .silent (hp.append [] hp.ok (by simp) (by simp) rfl le_rfl) howes [] (by simp) (by simp)
  · exact .silent (hp.append [] hp.ok (by simp) (by simp) rfl le_rfl) howes [] (by simp) (by simp)

end

end Peer

namespace Node

section

variable [AddressText] (s : Surroundings) {n : Node} {i : Nat}

/-- The handler of an announced destination, with the calls that the client makes while it is
asked. -/
def handleDestinationAnnounce (i : Nat) (pm : ProtocolMessage) (inside : NodeM Unit) :
    NodeM Unit := do
  let asked ← onPeer i fun d => Peer.announceUntilCall d s pm
  if asked.isSome then inside else pure ()
  onPeer i fun d => Peer.announceAfterCall d s asked

/-- A client that makes no call meanwhile. -/
theorem handleDestinationAnnounce_pure (pm : ProtocolMessage) :
    handleDestinationAnnounce s i pm (pure ()) =
      onPeer i fun d => Peer.handleDestinationAnnounce d s pm := by
  simp only [Peer.handleDestinationAnnounce_eq, onPeer_bind, handleDestinationAnnounce, ite_self,
    pure_bind]

/-! ## The two orders -/

/-- The messages about a destination that a peer has handed over since. -/
def handedAbout (cfg : ProtocolConfig) (mac : DlepMac) (p q : Peer) : List Bytes :=
  ((q.trace.drop p.trace.length).filterMap Event.handed).filter
    fun buf => bufferMac cfg buf = some mac

/-- In both orders the response with the data items is the only message about the destination that
the peer hands over, and the data and the queues are the same afterwards. -/
structure AnswersAlike (n : Node) (i : Nat) (mac : DlepMac) (items : DataItems)
    (inside later : Node) : Prop where
  once : ∀ n' ∈ [inside, later], ∃ p q pm, n.objects[i]? = some p ∧ n'.objects[i]? = some q ∧
    Peer.upMessage (n.view i) s "Destination_Announce_Response" mac items = .ok pm ∧
    handedAbout n.cfg mac p q = [pm.msgbuf]
  localPdp : inside.localPdp = later.localPdp
  peerPdp : inside.objects.map Peer.peerPdp = later.objects.map Peer.peerPdp
  queues : inside.objects.map Peer.responsesPending = later.objects.map Peer.responsesPending

/-- The client brings the announced destination up while it is asked. -/
def upInside (n : Node) (i : Nat) (pm : ProtocolMessage) (entry : Option AdvertEntry)
    (mac : DlepMac) (items : DataItems) : Node :=
  after (handleDestinationAnnounce s i pm do let _ ← destinationUp s entry mac items) n

/-- The client brings the announced destination up later. -/
def upLater (n : Node) (i : Nat) (pm : ProtocolMessage) (entry : Option AdvertEntry) (mac : DlepMac)
    (items : DataItems) : Node :=
  after (do
    handleDestinationAnnounce s i pm (pure ())
    let _ ← destinationUp s entry mac items) n

/-- A client that does not wait makes the peer say that a destination of the client is up. -/
theorem onlyUp_upInside {n : Node} {i : Nat} {p : Peer} {pm : ProtocolMessage} {mac : DlepMac}
    {entry : Option AdvertEntry} {items : DataItems} (htypes : n.cfg.TypesMac)
    (hup : n.cfg.signalMap.right "Destination_Up" = none) (hmodem : n.modem = true)
    (hp : n.objects[i]? = some p) (hmac : pm.getMac n.cfg = .ok mac)
    (hnew : p.peerPdp.validDestination mac = false)
    (hlocal : n.localPdp.validDestination mac = false)
    (haccept : s.destinationUp p.peerId mac pm.dataItems = "" ∨
      s.destinationUp p.peerId mac pm.dataItems = "Success") (howes : Peer.Unowing n.cfg mac p) :
    ∃ q, (upInside s n i pm entry mac items).objects[i]? = some q ∧ Peer.OnlyUp n.cfg mac p q := by
  have hi := (List.getElem?_eq_some_iff.1 hp).1
  refine (wp_after (P := fun n' : Node => ∃ q, n'.objects[i]? = some q ∧
    Peer.OnlyUp n.cfg mac p q)).1 ?_
  rw [handleDestinationAnnounce, wp_bind]
  refine wp_onPeer (fun hnone => ?_) fun p' hp' => ?_
  · rw [hp] at hnone
    cases hnone
  · obtain rfl := Option.some.inj (hp.symm.trans hp')
    have hset : ∀ q, (n.objects.set i q)[i]? = some q := fun q => by simp [hi]
    have hask := @Peer.toldUp_announceUntilCall _ mac (n.view i) s pm p hmac hnew hlocal haccept
      howes.queues
    refine hask.mono ?_ fun _ q hq => ⟨q, hset q, hq.events⟩
    rintro _ q ⟨⟨name, rfl⟩, hq⟩
    -- while the client is asked, nothing is owed for the destination
    have hinside : Within (Each (Peer.Tells mac)) (destinationUp s entry mac items) :=
      each_destinationUp fun d dest => Peer.tells_destinationUp
    have hboth : ∀ n', Each (Peer.Tells mac) { n with objects := n.objects.set i q } n' →
        ∃ r, n'.objects[i]? = some r ∧ Peer.OnlyUp n.cfg mac p r := by
      intro n' hn'
      obtain ⟨r, hr, htells⟩ := hn'.object i q (hset q)
      have hpr : Peer.Tells mac n.cfg n.modem p r :=
        IsTrans.trans p q r (fun _ _ _ _ => hq) htells
      exact ⟨r, hr, (hpr htypes hup hmodem howes).events⟩
    simp only [Option.isSome_some, if_true, wp_bind]
    refine (hinside.wp _).mono (fun _ n' hn' => ?_) fun _ n' hn' => hboth n' hn'
    obtain ⟨r, hr, hpr⟩ := hboth n' hn'
    refine wp_onPeer (fun hnone => ?_) fun r' hr' => ?_
    · rw [hr] at hnone
      cases hnone
    · obtain rfl := Option.some.inj (hr.symm.trans hr')
      have hlt := (List.getElem?_eq_some_iff.1 hr).1
      exact ⟨{ r with peerPdp := r.peerPdp.setNeedsResponse mac name }, by simp [hlt], hpr⟩

/-- Whatever the state of a modem: a client that brings an announced destination up while it is
asked about it makes the peer send no response, and so the two orders are never alike. -/
theorem not_answersAlike {n : Node} {i : Nat} {p : Peer} {pm : ProtocolMessage} {mac : DlepMac}
    {entry : Option AdvertEntry} {items : DataItems} (htypes : n.cfg.TypesMac)
    (hup : n.cfg.signalMap.right "Destination_Up" = none)
    (hresponse : n.cfg.signalMap.right "Destination_Announce_Response" = none)
    (hmodem : n.modem = true) (hp : n.objects[i]? = some p) (hmac : pm.getMac n.cfg = .ok mac)
    (hnew : p.peerPdp.validDestination mac = false)
    (hlocal : n.localPdp.validDestination mac = false)
    (haccept : s.destinationUp p.peerId mac pm.dataItems = "" ∨
      s.destinationUp p.peerId mac pm.dataItems = "Success") (hqueues : Peer.QueueInv p)
    (howed : ∀ dest, p.peerPdp.getNeedsResponse dest = "" ∨
      n.cfg.signalMap.right (p.peerPdp.getNeedsResponse dest) = none) :
    ¬ AnswersAlike s n i mac items (upInside s n i pm entry mac items)
      (upLater s n i pm entry mac items) := by
  intro h
  obtain ⟨p', q, answer, hp', hq, hanswer, habout⟩ := h.once _ List.mem_cons_self
  obtain rfl := Option.some.inj (hp.symm.trans hp')
  have hnothing : p.peerPdp.getNeedsResponse mac = "" := by
    rw [PeerData.validDestination_eq_isSome] at hnew
    have hnone : p.peerPdp.destinationData[mac]? = none :=
      Option.not_isSome_iff_eq_none.1 (Bool.not_eq_true _ ▸ hnew)
    rw [PeerData.getNeedsResponse, hnone]
  obtain ⟨q', hq', events, htrace, hevents⟩ :=
    @onlyUp_upInside _ s n i p pm mac entry items htypes hup
    hmodem hp hmac hnew hlocal haccept ⟨hqueues, hnothing, howed⟩
  obtain rfl := Option.some.inj (hq.symm.trans hq')
  -- the response would be among the messages about the destination
  have hmem : answer.msgbuf ∈ handedAbout n.cfg mac p q := by simp [habout]
  rw [handedAbout, htrace, List.drop_left, List.mem_filter] at hmem
  obtain ⟨hmem, habout⟩ := hmem
  obtain ⟨e, he, hbuf⟩ := List.mem_filterMap.1 hmem
  have hname := hevents e he _ hbuf (by simpa using habout)
  have hanswered := Peer.bufferName_upMessage (d := n.view i) hresponse hanswer
  exact absurd (Option.some.inj (hanswered.symm.trans hname)) (by decide)

end

attribute [local instance] plainText

/-- A router in session, as a modem sees it. -/
def routerInSession : Peer := { Peer.barePeer with pstate := .inSession }

/-- A modem with one router. -/
def modemOfOne : Node where
  cfg := rfc8175
  modem := true
  destAdvertEnabled := false
  localPdp := { peerId := str "local" }
  objects := [routerInSession]
  peers := (∅ : ExtTreeMap PeerId Nat).insert (str "peer") 0

/-- A Destination Announce with nothing but its destination. -/
def announcement : ProtocolMessage where
  signalId := 9
  signalIdInitialized := true
  dataItems := [.mk 7 (.dlepmac [2, 0, 0, 0, 0, 1])]

/-- With one router and a bare announcement the two orders differ. -/
theorem not_answersAlike_modemOfOne :
    ¬ AnswersAlike Peer.bareSurroundings modemOfOne 0 [2, 0, 0, 0, 0, 1] []
      (upInside Peer.bareSurroundings modemOfOne 0 announcement none [2, 0, 0, 0, 0, 1] [])
      (upLater Peer.bareSurroundings modemOfOne 0 announcement none [2, 0, 0, 0, 0, 1] []) := by
  have hqueues : Peer.QueueInv Peer.barePeer :=
    @Peer.queueInv_of_create _ rfc8175 (str "peer") 0 _ rfl
  refine @not_answersAlike plainText Peer.bareSurroundings modemOfOne 0 routerInSession announcement
    [2, 0, 0, 0, 0, 1] none [] rfl rfl rfl rfl rfl rfl rfl rfl (.inl rfl)
    (hqueues.append [] hqueues.ok (by simp [routerInSession]) (by simp) rfl le_rfl) ?_
  exact fun dest => .inl rfl

/-- The client brings the announced destination up while it is asked: a Destination Up is sent,
and the response is owed for ever. Later, the response is sent, and nothing is owed. -/
theorem upInside_unanswered :
    ((upInside Peer.bareSurroundings modemOfOne 0 announcement none [2, 0, 0, 0, 0, 1]
      []).objects.map
        fun q => ((handedAbout rfc8175 [2, 0, 0, 0, 0, 1] routerInSession q).map
          (bufferName rfc8175), q.peerPdp.getNeedsResponse [2, 0, 0, 0, 0, 1])) =
      [([some "Destination_Up"], "Destination_Announce_Response")] ∧
    ((upLater Peer.bareSurroundings modemOfOne 0 announcement none [2, 0, 0, 0, 0, 1]
      []).objects.map
        fun q => ((handedAbout rfc8175 [2, 0, 0, 0, 0, 1] routerInSession q).map
          (bufferName rfc8175), q.peerPdp.getNeedsResponse [2, 0, 0, 0, 0, 1])) =
      [([some "Destination_Announce_Response"], "")] ∧
    ¬ AnswersAlike Peer.bareSurroundings modemOfOne 0 [2, 0, 0, 0, 0, 1] []
      (upInside Peer.bareSurroundings modemOfOne 0 announcement none [2, 0, 0, 0, 0, 1] [])
      (upLater Peer.bareSurroundings modemOfOne 0 announcement none [2, 0, 0, 0, 0, 1] []) := by
  obtain ⟨hinside, hlater⟩ :
      ((upInside Peer.bareSurroundings modemOfOne 0 announcement none [2, 0, 0, 0, 0, 1]
        []).objects.map
          fun q => ((handedAbout rfc8175 [2, 0, 0, 0, 0, 1] routerInSession q).map
            (bufferName rfc8175), q.peerPdp.getNeedsResponse [2, 0, 0, 0, 0, 1])) =
        [([some "Destination_Up"], "Destination_Announce_Response")] ∧
      ((upLater Peer.bareSurroundings modemOfOne 0 announcement none [2, 0, 0, 0, 0, 1]
        []).objects.map
          fun q => ((handedAbout rfc8175 [2, 0, 0, 0, 0, 1] routerInSession q).map
            (bufferName rfc8175), q.peerPdp.getNeedsResponse [2, 0, 0, 0, 0, 1])) =
        [([some "Destination_Announce_Response"], "")] := by decide +kernel
  refine ⟨hinside, hlater, fun h => ?_⟩
  have hsame := congrArg (List.map fun pd => pd.getNeedsResponse [2, 0, 0, 0, 0, 1]) h.peerPdp
  have howed := congrArg (List.map Prod.snd) hinside
  have hanswered := congrArg (List.map Prod.snd) hlater
  rw [List.map_map] at hsame howed hanswered
  rw [List.map_map] at hsame
  exact absurd (howed.symm.trans (hsame.trans hanswered)) (by decide)

end Node

end Dlep
