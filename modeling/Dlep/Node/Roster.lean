import Dlep.Node
import Dlep.Peer.Standing
import Dlep.Peer.Session

/-!
# The roster of a node

The roster is the map of the peers and the standing of every object. The service calls of the
client leave it as it is, apart from the end of all sessions. So whatever is to be shown of the
roster has to be shown for a new connection, for what happens to one object, for the removal of
the peers whose session is over, and for the end of all sessions.
-/

namespace Dlep

open Std Calls Runs

namespace Peer

/-- The standing is the same, and the queues stay good. -/
structure Rests (p q : Peer) : Prop where
  standing : q.standing = p.standing
  queues : p.QueueOk → q.QueueOk

instance : Std.Refl Rests := ⟨fun _ => ⟨rfl, id⟩⟩

instance : IsTrans Peer Rests :=
  ⟨fun _ _ _ h h' => ⟨h'.standing.trans h.standing, h'.queues ∘ h.queues⟩⟩

/-- A call that keeps the standing and evolves the history rests. -/
theorem rests_of_evolves {α : Type} {ks : Finset Kind} {m : PeerM α} (hsame : Within SameStanding m)
    (hmoves : Within (Evolves ks) m) : Within Rests m :=
  fun p => ⟨hsame p, fun hp => (hmoves p hp).queueOk hp⟩

section

variable [AddressText] {d : DlepView} {s : Surroundings} {mac : DlepMac} {items : DataItems}

/-- Starting a peer leaves its standing: the router only sends its opening message. -/
theorem rests_startPeer : Within Rests (startPeer d s) :=
  rests_of_evolves overlooks_startPeer within_startPeer

/-- Telling a peer that a destination is up leaves its standing. -/
theorem rests_destinationUp : Within Rests (destinationUp d s mac items) :=
  rests_of_evolves overlooks_destinationUp within_destinationUp

/-- Telling a peer that a destination is down leaves its standing. -/
theorem rests_destinationDown : Within Rests (destinationDown d s mac items) :=
  rests_of_evolves overlooks_destinationDown within_destinationDown

/-- Telling a peer of an update leaves its standing. -/
theorem rests_destinationUpdate : Within Rests (destinationUpdate d mac items) :=
  rests_of_evolves overlooks_destinationUpdate within_destinationUpdate

/-- Telling a peer of a session update leaves its standing. -/
theorem rests_peerUpdate : Within Rests (peerUpdate d s items) :=
  rests_of_evolves overlooks_peerUpdate within_peerUpdate

/-- Asking a peer about a link leaves its standing. -/
theorem rests_linkCharacteristicsRequest :
    Within Rests (linkCharacteristicsRequest d s mac items) :=
  rests_of_evolves overlooks_linkCharacteristicsRequest within_linkCharacteristicsRequest

/-- Answering a peer about a link leaves its standing. -/
theorem rests_linkCharacteristicsResponse :
    Within Rests (linkCharacteristicsResponse d s mac items) :=
  rests_of_evolves overlooks_linkCharacteristicsResponse within_linkCharacteristicsResponse

end

end Peer

namespace Node

variable {n : Node}

/-- The queues of all objects are good. -/
def QueuesOk (n : Node) : Prop := ∀ (i : Nat) (p : Peer), n.objects[i]? = some p → p.QueueOk

/-- The map of the peers and the standing of every object are the same, and so are the
configuration and the role of the node. -/
structure SameRoster (n n' : Node) : Prop where
  cfg : n'.cfg = n.cfg
  modem : n'.modem = n.modem
  peers : n'.peers = n.peers
  standings : n'.objects.map Peer.standing = n.objects.map Peer.standing
  queues : n.QueuesOk → n'.QueuesOk

instance : Std.Refl SameRoster := ⟨fun _ => ⟨rfl, rfl, rfl, rfl, id⟩⟩

instance : IsTrans Node SameRoster where
  trans _ _ _ h h' := ⟨h'.cfg.trans h.cfg, h'.modem.trans h.modem, h'.peers.trans h.peers,
    h'.standings.trans h.standings, h'.queues ∘ h.queues⟩

/-- Every object was there with the same standing. -/
theorem SameRoster.exists_object {n' : Node} (h : SameRoster n n') {i : Nat} {q : Peer}
    (hq : n'.objects[i]? = some q) :
    ∃ p, n.objects[i]? = some p ∧ q.standing = p.standing := by
  have hsame := congrArg (fun standings => standings[i]?) h.standings
  simp only [List.getElem?_map, hq, Option.map_some] at hsame
  obtain ⟨p, hp, hstanding⟩ := Option.map_eq_some_iff.1 hsame.symm
  exact ⟨p, hp, hstanding.symm⟩

/-- Every object is still there with the same standing. -/
theorem SameRoster.exists_image {n' : Node} (h : SameRoster n n') {i : Nat} {p : Peer}
    (hp : n.objects[i]? = some p) :
    ∃ q, n'.objects[i]? = some q ∧ q.standing = p.standing := by
  have hsame := congrArg (fun standings => standings[i]?) h.standings
  simp only [List.getElem?_map, hp, Option.map_some] at hsame
  exact Option.map_eq_some_iff.1 hsame

/-- No object is made or lost. -/
theorem SameRoster.length {n' : Node} (h : SameRoster n n') :
    n'.objects.length = n.objects.length := by
  simpa using congrArg List.length h.standings

/-- Replacing an object by one with good queues keeps all queues good. -/
theorem QueuesOk.set (hn : n.QueuesOk) {i : Nat} {p q : Peer} (hp : n.objects[i]? = some p)
    (hq : q.QueueOk) : QueuesOk { n with objects := n.objects.set i q } := by
  intro j r hr
  rw [getElem?_set hp] at hr
  split at hr
  · rwa [← Option.some.inj hr]
  · exact hn j r hr

/-- A call on a peer that leaves its standing as it is. -/
theorem sameRoster_onPeer {α : Type} {i : Nat} {call : DlepView → PeerM α}
    (h : ∀ d, Within Peer.Rests (call d)) : Within SameRoster (onPeer i call) := by
  refine within_of_wp fun n => wp_onPeer (fun _ _ => Std.Refl.refl n) fun p hp => ?_
  have hset : ∀ q : Peer, p.Rests q → SameRoster n { n with objects := n.objects.set i q } := by
    intro q hq
    refine ⟨rfl, rfl, rfl, ?_, fun hn => hn.set hp (hq.queues (hn i p hp))⟩
    refine List.ext_getElem? fun j => ?_
    simp only [List.getElem?_map, getElem?_set hp]
    split
    · next hij => rw [← hij, hp, Option.map_some, Option.map_some, hq.standing]
    · rfl
  exact ((h _).wp p).mono (fun _ q hq => hset q hq) fun _ q hq => hset q hq

/-- A call on every peer that keeps its standing keeps the roster. -/
theorem sameRoster_tellPeers {call : DlepView → PeerM Unit} (h : ∀ d, Within Peer.Rests (call d)) :
    Within SameRoster (tellPeers call) :=
  within_bind within_get fun _ => within_forM fun _ _ => sameRoster_onPeer h

/-- A call on the data of the node keeps the roster. -/
theorem sameRoster_onLocal {α : Type} {m : EStateM Exn PeerData α} :
    Within SameRoster (onLocal m) :=
  within_zoom fun _ => ⟨rfl, rfl, rfl, rfl, id⟩

section

variable [AddressText] {s : Surroundings} {entry : Option AdvertEntry} {mac : DlepMac}
  {items : DataItems}

omit [AddressText] in
/-- A call on the data of the node, after which the peers are told if it was done. -/
theorem sameRoster_ifTold {α : Type} {m : EStateM Exn PeerData Bool} {call : DlepView → PeerM Unit}
    (h : ∀ d, Within Peer.Rests (call d)) {yes no : α} :
    Within SameRoster (do
      if ← onLocal m then
        tellPeers call
        return yes
      else return no : NodeM α) := by
  refine within_bind sameRoster_onLocal fun _ => within_ite (fun _ => ?_) fun _ => within_pure
  exact within_bind (sameRoster_tellPeers h) fun _ => within_pure

/-- Adding a destination keeps the roster. -/
theorem sameRoster_addDestination : Within SameRoster (addDestination s mac items) :=
  within_bind within_get fun _ => sameRoster_ifTold fun _ => Peer.rests_destinationUp

/-- Updating a destination keeps the roster. -/
theorem sameRoster_updateDestination : Within SameRoster (updateDestination mac items) :=
  within_bind within_get fun _ => sameRoster_ifTold fun _ => Peer.rests_destinationUpdate

/-- Removing a destination keeps the roster. -/
theorem sameRoster_removeDestination : Within SameRoster (removeDestination s mac items) :=
  sameRoster_ifTold fun _ => Peer.rests_destinationDown

/-- Removing a destination of a peer keeps the roster. -/
theorem sameRoster_removePeerDestination {i : Nat} :
    Within SameRoster (removePeerDestination s i mac items) := by
  refine within_bind (sameRoster_onPeer fun _ => ?_) fun _ => ?_
  · exact Peer.rests_of_evolves Peer.overlooks_onPdp
      (Peer.within_onPdp PeerData.noNewMetrics_removeDestination)
  · refine within_ite (fun _ => within_bind ?_ fun _ => within_pure) fun _ => within_pure
    exact sameRoster_tellPeers fun _ => Peer.rests_destinationDown

/-- The client brings a destination up. -/
theorem sameRoster_destinationUp : Within SameRoster (destinationUp s entry mac items) := by
  refine within_bind within_get fun _ => within_ite (fun _ => ?_) fun _ => ?_
  · split
    · refine within_ite (fun _ => within_pure) fun _ => within_bind ?_ fun _ => within_pure
      exact within_forM fun _ _ => within_bind sameRoster_addDestination fun _ => within_pure
    · exact within_pure
  · refine within_bind sameRoster_addDestination fun _ => ?_
    exact within_ite (fun _ => within_pure) fun _ => within_pure

/-- The client updates a destination of a peer. -/
theorem sameRoster_updatePeerDestination : Within SameRoster (updatePeerDestination mac items) := by
  refine within_bind within_get fun _ => ?_
  split
  · exact within_pure
  · exact within_bind (sameRoster_onPeer fun _ => Peer.rests_destinationUpdate) fun _ => within_pure

/-- The client updates a destination. -/
theorem sameRoster_destinationUpdate : Within SameRoster (destinationUpdate entry mac items) := by
  refine within_bind within_get fun _ => within_ite (fun _ => ?_) fun _ => ?_
  · split
    · refine within_ite (fun _ => within_bind ?_ fun _ => within_pure) fun _ => within_pure
      exact within_forM fun _ _ => within_bind sameRoster_updateDestination fun _ => within_pure
    · exact sameRoster_updatePeerDestination
  · refine within_bind sameRoster_updateDestination fun _ => ?_
    exact within_ite (fun _ => within_pure) fun _ => sameRoster_updatePeerDestination

/-- A destination is dropped, ours or that of a peer. -/
theorem sameRoster_dropDestination : Within SameRoster (dropDestination s mac items) := by
  refine within_bind sameRoster_removeDestination fun _ =>
    within_ite (fun _ => within_pure) fun _ => ?_
  refine within_bind within_get fun _ => ?_
  split
  · exact within_pure
  · refine within_bind sameRoster_removePeerDestination fun _ => ?_
    exact within_bind within_lift fun _ => within_pure

/-- The client takes a destination down. -/
theorem sameRoster_destinationDown : Within SameRoster (destinationDown s entry mac items) := by
  have hall : ∀ dests, Within SameRoster (dropDestinations s items dests) := by
    intro dests
    induction dests with
    | nil => exact within_pure
    | cons dest dests ih =>
      refine within_bind sameRoster_removeDestination fun _ => ?_
      exact within_bind ih fun _ => within_pure
  refine within_bind within_get fun _ => within_ite (fun _ => ?_) fun _ =>
    sameRoster_dropDestination
  split
  · exact within_ite (fun _ => hall _) fun _ => within_pure
  · exact sameRoster_dropDestination

/-- The client updates the session. -/
theorem sameRoster_peerUpdate : Within SameRoster (peerUpdate s items) := by
  refine within_bind within_get fun _ => within_bind sameRoster_onLocal fun _ => ?_
  refine within_ite (fun _ => within_bind (sameRoster_tellPeers fun _ => ?_) fun _ => within_pure)
    fun _ => within_pure
  exact within_bind Peer.rests_peerUpdate fun _ => within_pure

/-- The client asks about a link. -/
theorem sameRoster_linkcharRequest : Within SameRoster (linkcharRequest s mac items) := by
  refine within_bind within_get fun _ => ?_
  split
  · exact within_pure
  · refine within_bind (sameRoster_onPeer fun _ => ?_) fun _ => within_pure
    exact Peer.rests_linkCharacteristicsRequest

/-- The client answers about a link. -/
theorem sameRoster_linkcharReply {peerId : PeerId} :
    Within SameRoster (linkcharReply s peerId mac items) := by
  refine within_bind within_get fun _ => ?_
  split
  · exact within_pure
  · refine within_bind (sameRoster_onPeer fun _ => Peer.rests_linkCharacteristicsResponse)
      fun _ => ?_
    refine within_bind within_get fun _ => within_bind sameRoster_onLocal fun _ => ?_
    exact within_ite (fun _ => within_pure) fun _ => within_pure

/-- Is the input one that leaves the roster as it is? -/
def Input.isQuiet : Input → Bool
  | .connect _ => false
  | .peer _ _ => false
  | .cleanup => false
  | .terminate => false
  | _ => true

/-- The calls of the client leave the roster as it is, unless it ends all sessions. -/
theorem sameRoster_step {st : Step} (h : st.input.isQuiet = true) : SameRoster n (n.step st) := by
  obtain ⟨s, input⟩ := st
  cases input with
  | connect peerId => cases h
  | peer i occasion => cases h
  | cleanup => cases h
  | terminate => cases h
  | destinationUp entry mac items =>
    exact within_bind sameRoster_destinationUp (fun _ => within_pure) n
  | destinationUpdate entry mac items =>
    exact within_bind sameRoster_destinationUpdate (fun _ => within_pure) n
  | destinationDown entry mac items =>
    exact within_bind sameRoster_destinationDown (fun _ => within_pure) n
  | peerUpdate items => exact within_bind sameRoster_peerUpdate (fun _ => within_pure) n
  | peerRemoveDataItems items => exact ⟨rfl, rfl, rfl, rfl, id⟩
  | linkcharRequest mac items =>
    exact within_bind sameRoster_linkcharRequest (fun _ => within_pure) n
  | linkcharReply peerId mac items =>
    exact within_bind sameRoster_linkcharReply (fun _ => within_pure) n
  | advertUp mac items => exact within_bind sameRoster_addDestination (fun _ => within_pure) n
  | advertDown mac => exact within_bind sameRoster_removeDestination (fun _ => within_pure) n

/-! ## What does change the roster -/

/-- A new object is listed under its name, and is started. -/
theorem step_connect {peerId : PeerId} :
    n.step ⟨s, .connect peerId⟩ = n ∨
      ∃ p, Peer.create n.cfg peerId s.now = .ok p ∧
        SameRoster { n with
          objects := n.objects ++ [p]
          peers := n.peers.insert peerId n.objects.length } (n.step ⟨s, .connect peerId⟩) := by
  refine (wp_after (P := fun n' => n' = n ∨ ∃ p, Peer.create n.cfg peerId s.now = .ok p ∧
    SameRoster { n with
      objects := n.objects ++ [p]
      peers := n.peers.insert peerId n.objects.length } n')).1 ?_
  simp only [Step.call, handleAsyncMakePeer, wp_bind, wp_get]
  refine wp_lift (fun p hp => ?_) fun _ _ => .inl rfl
  rw [wp_set]
  refine ((sameRoster_onPeer fun _ => Peer.rests_startPeer).wp _).mono (fun _ n' hn' => ?_)
    fun _ n' hn' => ?_
  · exact .inr ⟨p, hp, hn'⟩
  · exact .inr ⟨p, hp, hn'⟩

/-- What happens to a peer happens to one object. -/
theorem step_peer {i : Nat} {occasion : Occasion} {p : Peer} (hp : n.objects[i]? = some p) :
    n.step ⟨s, .peer i occasion⟩ =
      { n with objects := n.objects.set i (p.step ⟨n.view i, s, occasion.input⟩) } := by
  simp only [step, Step.call, after, onPeer_some hp, Peer.step]
  cases Peer.Step.call ⟨n.view i, s, occasion.input⟩ p <;> rfl

/-- Nothing happens to a peer that there is none of. -/
theorem step_peer_none {i : Nat} {occasion : Occasion} (hp : n.objects[i]? = none) :
    n.step ⟨s, .peer i occasion⟩ = n := by
  simp only [step, Step.call, after, onPeer_none hp]

/-- Something happens to the objects that there are, and the map of the peers stays. -/
structure Happens (T : ProtocolConfig → Bool → Peer → Peer → Prop) (n n' : Node) : Prop
    extends Each T n n' where
  peers : n'.peers = n.peers
  length : n'.objects.length = n.objects.length

section

variable {T : ProtocolConfig → Bool → Peer → Peer → Prop} [∀ cfg modem, Std.Refl (T cfg modem)]
  [∀ cfg modem, IsTrans Peer (T cfg modem)]

omit [∀ cfg modem, IsTrans Peer (T cfg modem)] [AddressText] in
/-- If nothing happens, every object is related to itself. -/
theorem Happens.refl (n : Node) : Happens T n n := ⟨Std.Refl.refl n, rfl, rfl⟩

omit [∀ cfg modem, Std.Refl (T cfg modem)] [AddressText] in
/-- What happens in two stretches happens in one. -/
theorem Happens.trans {n' n'' : Node} (h : Happens T n n') (h' : Happens T n' n'') :
    Happens T n n'' :=
  ⟨IsTrans.trans _ _ _ h.toEach h'.toEach, h'.peers.trans h.peers, h'.length.trans h.length⟩

omit [∀ cfg modem, Std.Refl (T cfg modem)] [∀ cfg modem, IsTrans Peer (T cfg modem)]
  [AddressText] in

/-- Every object comes from a related one. -/
theorem Happens.exists_object {n' : Node} (h : Happens T n n')
    {i : Nat} {q : Peer} (hq : n'.objects[i]? = some q) :
    ∃ p, n.objects[i]? = some p ∧ T n.cfg n.modem p q := by
  have hi : i < n.objects.length := h.length ▸ (List.getElem?_eq_some_iff.1 hq).1
  obtain ⟨p, hp⟩ : ∃ p, n.objects[i]? = some p := ⟨_, List.getElem?_eq_getElem hi⟩
  obtain ⟨q', hq', hpq⟩ := h.object i p hp
  exact ⟨p, hp, Option.some.inj (hq.symm.trans hq') ▸ hpq⟩

/-- All the peers in the map are told that the session is over, as long as no call throws. -/
theorem wp_tellTerminate
    (h : ∀ d, Within (T d.cfg d.modem) (Peer.terminate d s "Success" []))
    (hstays : ∀ cfg modem p q, T cfg modem p q → p.pstate = .terminating → q.pstate = .terminating)
    (is : List Nat) :
    wp (is.forM fun i => onPeer i fun d => Peer.terminate d s "Success" [])
      (fun _ n' => Happens T n n' ∧
        ∀ i ∈ is, ∀ q, n'.objects[i]? = some q → q.pstate = .terminating)
      (fun _ n' => Happens T n n') n := by
  induction is generalizing n with
  | nil => exact ⟨.refl n, fun i hi => absurd hi (by simp)⟩
  | cons i is ih =>
    rw [List.forM, wp_bind]
    refine wp_onPeer (fun _ _ => .refl n) fun p hp => ?_
    have hset : ∀ q, T (n.view i).cfg (n.view i).modem p q →
        Happens T n { n with objects := n.objects.set i q } := fun q hq =>
      ⟨each_set hp hq, rfl, List.length_set⟩
    have hended : wp (Peer.terminate (n.view i) s "Success" []) (fun _ q => q.pstate = .terminating)
        (fun _ q => q.pstate = .terminating) p := wp_after.2 (Peer.pstate_terminate p)
    refine (((h (n.view i)).wp p).and hended).mono (fun _ q hq => ?_) fun _ q hq => hset q hq.1
    have hfirst := hset q hq.1
    refine (ih (n := { n with objects := n.objects.set i q })).mono (fun _ n' hn' => ?_)
      fun _ _ hn' => hfirst.trans hn'
    refine ⟨hfirst.trans hn'.1, fun j hj r hr => ?_⟩
    rcases List.mem_cons.1 hj with rfl | hmem
    · -- the first one has ended, and stays so
      have hq' : (n.objects.set j q)[j]? = some q := by rw [getElem?_set hp, if_pos rfl]
      obtain ⟨r', hr', hqr⟩ := hn'.1.object j q hq'
      obtain rfl := Option.some.inj (hr.symm.trans hr')
      exact hstays _ _ q r hqr hq.2
    · exact hn'.2 j hmem r hr

/-- The end of all sessions: either a call throws, and the map stays, or all the peers that were
in the map have ended and the map is empty. -/
theorem step_terminate
    (h : ∀ d, Within (T d.cfg d.modem) (Peer.terminate d s "Success" []))
    (hstays : ∀ cfg modem p q, T cfg modem p q → p.pstate = .terminating →
      q.pstate = .terminating) :
    Happens T n (n.step ⟨s, .terminate⟩) ∨
      ∃ n', Happens T n n' ∧ n.step ⟨s, .terminate⟩ = { n' with peers := ∅ } ∧
        ∀ i ∈ n.listed, ∀ q, n'.objects[i]? = some q → q.pstate = .terminating := by
  refine (wp_after (P := fun r => Happens T n r ∨ ∃ n', Happens T n n' ∧
    r = { n' with peers := ∅ } ∧
    ∀ i ∈ n.listed, ∀ q, n'.objects[i]? = some q → q.pstate = .terminating)).1 ?_
  simp only [Step.call, Node.terminate, tellPeers, wp_bind, wp_get]
  refine (wp_tellTerminate h hstays n.listed).mono (fun _ n' hn' => ?_) fun _ _ hn' => .inl hn'
  exact .inr ⟨n', hn'.1, rfl, hn'.2⟩

end

/-- A node starts without peers. -/
theorem objects_of_create {cfg : ProtocolConfig} {modem enabled : Bool}
    (h : Node.create cfg modem enabled = .ok n) : n.objects = [] ∧ n.peers = ∅ := by
  obtain ⟨items, _, h⟩ := bind_eq_ok.1 h
  obtain ⟨localPdp, _, h⟩ := bind_eq_ok.1 h
  rw [← Except.ok.inj h]
  exact ⟨rfl, rfl⟩

end

attribute [local instance] plainText

/-- A node of the shipped configuration that has no peers yet. -/
def shipped (modem : Bool) : Node :=
  (Node.create rfc8175 modem false).toOption.getD
    { cfg := rfc8175, modem, destAdvertEnabled := false, localPdp := { peerId := [] } }

/-- A node of the shipped configuration starts without data and peers. -/
theorem create_shipped (modem : Bool) : Node.create rfc8175 modem false = .ok (shipped modem) := by
  have hok : (Node.create rfc8175 modem false).isOk = true := by
    cases modem with
    | true => decide +kernel
    | false => decide +kernel
  unfold shipped
  cases h : Node.create rfc8175 modem false with
  | ok n => rfl
  | error e =>
    rw [h] at hok
    cases hok

end Node

end Dlep
