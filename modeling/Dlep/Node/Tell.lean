import Dlep.Node.Sound
import Dlep.Peer.Permits
import Dlep.Peer.Messages

/-!
# Telling the peers

A call that tells every peer in the map something reaches each of them once, and no other. It
returns if the messages for the peers can be composed.
-/

namespace Dlep

open Std Calls Runs ProtocolMessage

namespace Peer

/-! ## What a message does to its peer -/

/-- Only the queues are written, and what happens to them. -/
def OnlyQueues (p q : Peer) : Prop :=
  q = { p with responsesPending := q.responsesPending, nextUid := q.nextUid, trace := q.trace }

instance : Std.Refl OnlyQueues := ⟨fun _ => rfl⟩

instance : IsTrans Peer OnlyQueues where
  trans p q r h h' := by
    unfold OnlyQueues at h h' ⊢
    rw [h', h]

/-- Sending a new message writes the queues and nothing else. -/
theorem onlyQueues_sendNew {now : Nat} {rp : ResponsePending} :
    Within OnlyQueues (sendNew now rp) := by
  refine within_bind within_get fun _ => within_bind (within_modify fun _ => rfl) fun _ => ?_
  refine within_bind within_get fun _ => within_ite (fun _ => within_pure) fun _ => ?_
  refine within_bind (within_ite (fun _ => within_pure) fun _ => within_modify fun _ => rfl)
    fun _ => ?_
  refine within_bind within_get fun _ => ?_
  split
  · exact within_ite (fun _ => within_modify fun _ => rfl) fun _ => within_pure
  · exact within_throw

/-- What happens to a new message: nothing if the peer is not interested in its destination, and
else it is put on its queue, and sent if it is the first there. -/
def requestEvents (p : Peer) (rp : ResponsePending) : List Event :=
  if p.isNotInterested rp.destination then []
  else if p.queue rp.destination = [] then
    [.enqueue { rp with uid := p.nextUid }, .transmit { rp with uid := p.nextUid, queued := true }]
  else [.enqueue { rp with uid := p.nextUid }]

/-- A message that expects a response was sent to the peer. -/
structure Requested (rp : ResponsePending) (p q : Peer) : Prop where
  only : OnlyQueues p q
  queues : QueueInv q
  events : q.trace = p.trace ++ p.requestEvents rp

/-- A request that was made is put on its queue, and the call does not throw. -/
theorem requested_sendRequest {cfg : ProtocolConfig} {now : Nat} {pm : ProtocolMessage}
    {rp : ResponsePending} (hrp : ResponsePending.make cfg pm = .ok rp) {p : Peer}
    (hp : QueueInv p) :
    wp (sendRequest cfg now pm) (fun _ q => Requested rp p q) (fun _ _ => False) p := by
  have hqueued := ResponsePending.make_queued hrp
  obtain ⟨q, hrun, htrace⟩ := @sendNew_trace now rp hqueued p hp
  have hafter : after (sendNew now rp) p = q := by rw [after, hrun]
  have hmoves := @within_sendNew now rp hqueued p hp.ok
  have honly := @onlyQueues_sendNew now rp p
  rw [hafter] at hmoves honly
  rw [sendRequest, hrp, wp_bind, wp_lift_ok]
  exact wp_of_ok hrun ⟨honly, hmoves.keeps (fun _ _ _ _ hm => hm.queueInv) hp, htrace⟩

section

variable [AddressText]

/-- The request that a destination is down. -/
def downRequestOf (d : DlepView) (mac : DlepMac) (items : DataItems) :
    Except Exn ResponsePending := do
  let pm ← destinationMessage d "Destination_Down" mac items "destination_down"
  ResponsePending.make d.cfg pm

/-- The request that a destination is up. -/
def upRequestOf (d : DlepView) (s : Surroundings) (mac : DlepMac) (items : DataItems) :
    Except Exn ResponsePending := do
  let pm ← upMessage d s (upMessageName d) mac items
  ResponsePending.make d.cfg pm

variable {d d' : DlepView} {s : Surroundings} {mac : DlepMac} {items : DataItems} {p : Peer}

/-- A message does not depend on the data of the node. -/
theorem upMessage_congr (hcfg : d'.cfg = d.cfg) (hmodem : d'.modem = d.modem) {name : String} :
    upMessage d' s name mac items = upMessage d s name mac items := by
  simp only [upMessage, compose, hcfg, hmodem]

/-- The request that a destination is up depends on the configuration and the role only. -/
theorem upRequestOf_congr (hcfg : d'.cfg = d.cfg) (hmodem : d'.modem = d.modem) :
    upRequestOf d' s mac items = upRequestOf d s mac items := by
  simp only [upRequestOf, upMessageName, upMessage_congr hcfg hmodem, hcfg, hmodem]

/-- The request that a destination is down depends on the configuration and the role only. -/
theorem downRequestOf_congr (hcfg : d'.cfg = d.cfg) (hmodem : d'.modem = d.modem) :
    downRequestOf d' mac items = downRequestOf d mac items := by
  simp only [downRequestOf, destinationMessage, compose, hcfg, hmodem]

/-- Where the request can be composed, the peer is told that the destination is down. -/
theorem requested_destinationDown {rp : ResponsePending} (hrp : downRequestOf d mac items = .ok rp)
    (hp : QueueInv p) :
    wp (destinationDown d s mac items) (fun _ q => Requested rp p q) (fun _ _ => False) p := by
  obtain ⟨pm, hpm, hmake⟩ := bind_eq_ok.1 hrp
  rw [destinationDown, hpm, wp_bind, wp_lift_ok]
  exact requested_sendRequest hmake hp

/-- The message that the destination is up can be composed. -/
structure CanTellUp (d : DlepView) (s : Surroundings) (p : Peer) (mac : DlepMac)
    (items : DataItems) :
    Prop where
  request : p.peerPdp.getNeedsResponse mac = "" → ∃ rp, upRequestOf d s mac items = .ok rp
  response : p.peerPdp.getNeedsResponse mac ≠ "" →
    ∃ pm, upMessage d s (p.peerPdp.getNeedsResponse mac) mac items = .ok pm

/-- What can be told depends on the configuration and the role only. -/
theorem CanTellUp.congr (h : CanTellUp d s p mac items) (hcfg : d'.cfg = d.cfg)
    (hmodem : d'.modem = d.modem) : CanTellUp d' s p mac items := by
  refine ⟨?_, ?_⟩
  · rw [upRequestOf_congr hcfg hmodem]
    exact h.request
  · rw [upMessage_congr hcfg hmodem]
    exact h.response

/-- The peer was told that the destination is up: by a request, or by the response that it owed. -/
structure ToldOfUp (d : DlepView) (s : Surroundings) (mac : DlepMac)
    (items : DataItems) (p q : Peer) :
    Prop where
  queues : QueueInv q
  request : p.peerPdp.getNeedsResponse mac = "" →
    ∃ rp, upRequestOf d s mac items = .ok rp ∧ Requested rp p q
  response : p.peerPdp.getNeedsResponse mac ≠ "" →
    ∃ pm, upMessage d s (p.peerPdp.getNeedsResponse mac) mac items = .ok pm ∧
      q = { p with
        peerPdp := p.peerPdp.setNeedsResponse mac ""
        trace := p.trace ++ [.send pm.msgbuf] }

/-- What is owed for other destinations does not change. -/
theorem ToldOfUp.needs {q : Peer} (h : ToldOfUp d s mac items p q) {other : DlepMac}
    (hother : other ≠ mac) :
    q.peerPdp.getNeedsResponse other = p.peerPdp.getNeedsResponse other := by
  by_cases hnone : p.peerPdp.getNeedsResponse mac = ""
  · obtain ⟨rp, -, hrp⟩ := h.request hnone
    rw [hrp.only]
  · obtain ⟨pm, -, rfl⟩ := h.response hnone
    exact PeerData.getNeedsResponse_setNeedsResponse_of_ne hother

/-- Where the message can be composed, the peer is told that the destination is up. -/
theorem toldOfUp_destinationUp (h : CanTellUp d s p mac items) (hp : QueueInv p) :
    wp (destinationUp d s mac items) (fun _ q => ToldOfUp d s mac items p q)
      (fun _ _ => False) p := by
  simp only [destinationUp, wp_bind, wp_get]
  split
  · next howed =>
    obtain ⟨pm, hpm⟩ := h.response howed
    simp only [hpm, wp_bind, wp_modify, wp_lift_ok]
    refine ⟨?_, fun hnone => absurd hnone howed, fun _ => ⟨pm, hpm, rfl⟩⟩
    exact hp.append [.send pm.msgbuf] hp.ok rfl (by simp [queueAction]) rfl le_rfl
  · next howed =>
    have hnone := not_not.1 howed
    obtain ⟨rp, hrp⟩ := h.request hnone
    obtain ⟨pm, hpm, hmake⟩ := bind_eq_ok.1 hrp
    rw [hpm, wp_bind, wp_lift_ok]
    refine (requested_sendRequest hmake hp).mono (fun _ q hq => ?_) fun _ _ hfalse => hfalse
    exact ⟨hq.queues, fun _ => ⟨rp, hrp, hq⟩, fun h => absurd hnone h⟩

end

end Peer

namespace Node

variable {n : Node} {U : Peer → Peer → Prop}

/-- Only the given objects are changed, and each of them as `U` says. -/
structure Told (js : List Nat) (U : Peer → Peer → Prop) (n n' : Node) : Prop where
  rest : n' = { n with objects := n'.objects }
  length : n'.objects.length = n.objects.length
  changed : ∀ i ∈ js, ∀ p, n.objects[i]? = some p → ∃ q, n'.objects[i]? = some q ∧ U p q
  same : ∀ i ∉ js, n'.objects[i]? = n.objects[i]?

/-- One call after the other, each on another object. -/
theorem told_forM {call : DlepView → PeerM Unit} {js : List Nat} (hnodup : js.Nodup)
    (hobject : ∀ i ∈ js, ∃ p, n.objects[i]? = some p)
    (h : ∀ i ∈ js, ∀ p, n.objects[i]? = some p → ∀ d : DlepView, d.cfg = n.cfg → d.modem = n.modem →
      wp (call d) (fun _ q => U p q) (fun _ _ => False) p) :
    wp (js.forM fun i => onPeer i call) (fun _ n' => Told js U n n') (fun _ _ => False) n := by
  induction js generalizing n with
  | nil => exact ⟨rfl, rfl, by simp, by simp⟩
  | cons i js ih =>
    obtain ⟨hi, hnodup⟩ := List.nodup_cons.1 hnodup
    obtain ⟨p, hp⟩ := hobject i List.mem_cons_self
    rw [List.forM, wp_bind]
    refine wp_onPeer (fun hnone => by simp [hp] at hnone) fun p' hp' => ?_
    obtain rfl := Option.some.inj (hp.symm.trans hp')
    refine (h i List.mem_cons_self p hp _ rfl rfl).mono (fun _ q hq => ?_) fun _ _ hfalse => hfalse
    -- the others are as they were
    have hother : ∀ j, i ≠ j → (n.objects.set i q)[j]? = n.objects[j]? := fun j hne => by
      rw [getElem?_set hp, if_neg hne]
    have hne : ∀ j ∈ js, i ≠ j := fun j hj hij => hi (hij ▸ hj)
    refine (ih (n := { n with objects := n.objects.set i q }) hnodup ?_ ?_).mono ?_ fun _ _ h => h
    · intro j hj
      rw [hother j (hne j hj)]
      exact hobject j (List.mem_cons_of_mem _ hj)
    · intro j hj r hr
      rw [hother j (hne j hj)] at hr
      exact h j (List.mem_cons_of_mem _ hj) r hr
    · rintro _ n' ⟨hrest, hlength, hchanged, hsame⟩
      refine ⟨by rw [hrest], by rw [hlength, List.length_set], ?_, ?_⟩
      · intro j hj r hr
        rcases List.mem_cons.1 hj with rfl | hj
        · obtain rfl := Option.some.inj (hp.symm.trans hr)
          rw [hsame j hi, getElem?_set hp, if_pos rfl]
          exact ⟨q, rfl, hq⟩
        · rw [← hother j (hne j hj)] at hr
          exact hchanged j hj r hr
      · intro j hj
        rw [List.mem_cons, not_or] at hj
        obtain ⟨hne, hj⟩ := hj
        rw [hsame j hj, hother j (Ne.symm hne)]

/-- Every peer in the map is told once. -/
theorem Sound.told_tellPeers {call : DlepView → PeerM Unit} (hn : n.Sound)
    (h : ∀ i ∈ n.listed, ∀ p, n.objects[i]? = some p → ∀ d : DlepView, d.cfg = n.cfg →
      d.modem = n.modem → wp (call d) (fun _ q => U p q) (fun _ _ => False) p) :
    wp (tellPeers call) (fun _ n' => Told n.listed U n n') (fun _ _ => False) n :=
  told_forM hn.nodup_listed (fun _ hi => hn.exists_object hi) h

/-- Telling some peers keeps the node sound if it keeps their queues good. -/
theorem Told.sound {js : List Nat} {n' : Node} (h : Told js U n n') (hn : n.Sound)
    (hU : ∀ p q, U p q → Peer.QueueInv q) : n'.Sound := by
  have hpeers : n'.peers = n.peers := by rw [h.rest]
  refine ⟨fun i q hq => ?_, fun key i hi => ?_, fun key key' i hi hi' => ?_⟩
  · by_cases hmem : i ∈ js
    · have hlt := h.length ▸ (List.getElem?_eq_some_iff.1 hq).1
      obtain ⟨q', hq', hpq⟩ := h.changed i hmem _ (List.getElem?_eq_getElem hlt)
      rw [Option.some.inj (hq.symm.trans hq')]
      exact hU _ _ hpq
    · exact hn.queues i q (by rw [← h.same i hmem, hq])
  · rw [h.length]
    exact hn.object key i (hpeers ▸ hi)
  · exact hn.unique key key' i (hpeers ▸ hi) (hpeers ▸ hi')

section

variable [AddressText] {s : Surroundings} {mac : DlepMac} {items : DataItems}

/-- The message that the destination is up can be composed for every peer in the map. -/
def CanTellUp (s : Surroundings) (n : Node) (mac : DlepMac) (items : DataItems) : Prop :=
  ∀ i ∈ n.listed, ∀ p, n.objects[i]? = some p → Peer.CanTellUp (n.view i) s p mac items

/-- The message that the destination is down can be composed for every peer in the map. -/
def CanTellDown (n : Node) (mac : DlepMac) (items : DataItems) : Prop :=
  ∀ i ∈ n.listed, ∃ rp, Peer.downRequestOf (n.view i) mac items = .ok rp

/-- The peer was told by its node that the destination is up. -/
def HearsUp (cfg : ProtocolConfig) (modem : Bool) (s : Surroundings) (mac : DlepMac)
    (items : DataItems) (p q : Peer) : Prop :=
  ∃ d : DlepView, d.cfg = cfg ∧ d.modem = modem ∧ Peer.ToldOfUp d s mac items p q

/-- The peer was told by its node that the destination is down. -/
def HearsDown (cfg : ProtocolConfig) (modem : Bool) (mac : DlepMac)
    (items : DataItems) (p q : Peer) :
    Prop :=
  ∃ (d : DlepView) (rp : ResponsePending), d.cfg = cfg ∧ d.modem = modem ∧
    Peer.downRequestOf d mac items = .ok rp ∧ Peer.Requested rp p q

/-- The data of the node after a destination was added. -/
def withDestination (n : Node) (mac : DlepMac) (dd : DestinationData) : Node :=
  { n with
    localPdp := { n.localPdp with
      destinationData := n.localPdp.destinationData.insert mac dd } }

/-- The data of the node after a destination was removed. -/
def withoutDestination (n : Node) (mac : DlepMac) : Node :=
  { n with localPdp := { n.localPdp with destinationData := n.localPdp.destinationData.erase mac } }

/-- Adding a destination stores it and tells every peer in the map, or does nothing if it is
there. -/
theorem wp_addDestination (hn : n.Sound) {dd : DestinationData}
    (hdd : DestinationData.create n.cfg mac items = .ok dd) (h : n.CanTellUp s mac items) :
    wp (addDestination s mac items)
      (fun _ n' => if n.localPdp.validDestination mac then n' = n
        else Told n.listed (HearsUp n.cfg n.modem s mac items) (n.withDestination mac dd) n')
      (fun _ _ => False) n := by
  simp only [addDestination, onLocal, PeerData.addDestination, wp_bind, wp_get, wp_zoom]
  split
  · exact rfl
  · simp only [hdd, wp_bind, wp_lift_ok, wp_modify, wp_pure, if_true]
    have hsound : (n.withDestination mac dd).Sound := ⟨hn.queues, hn.object, hn.unique⟩
    refine (hsound.told_tellPeers (U := HearsUp n.cfg n.modem s mac items) ?_).mono
      (fun _ _ h => h) fun _ _ hfalse => hfalse
    intro i hi p hp d hcfg hmodem
    have hcan := (h i hi p hp).congr hcfg hmodem
    exact (Peer.toldOfUp_destinationUp hcan (hn.queues i p hp)).mono
      (fun _ _ hq => ⟨d, hcfg, hmodem, hq⟩) fun _ _ hfalse => hfalse

/-- Removing a destination erases it and tells every peer in the map, or does nothing if it is not
there. -/
theorem wp_removeDestination (hn : n.Sound) (h : n.CanTellDown mac items) :
    wp (removeDestination s mac items)
      (fun _ n' => if n.localPdp.validDestination mac then
        Told n.listed (HearsDown n.cfg n.modem mac items) (n.withoutDestination mac) n' else n' = n)
      (fun _ _ => False) n := by
  simp only [removeDestination, onLocal, PeerData.removeDestination, wp_bind, wp_zoom, wp_get]
  split
  · simp only [wp_bind, wp_modify, wp_pure, if_true]
    have hsound : (n.withoutDestination mac).Sound := ⟨hn.queues, hn.object, hn.unique⟩
    refine (hsound.told_tellPeers (U := HearsDown n.cfg n.modem mac items) ?_).mono
      (fun _ _ h => h) fun _ _ hfalse => hfalse
    intro i hi p hp d hcfg hmodem
    obtain ⟨rp, hrp⟩ := h i hi
    have hrp : Peer.downRequestOf d mac items = .ok rp :=
      (Peer.downRequestOf_congr hcfg hmodem).trans hrp
    exact (Peer.requested_destinationDown hrp (hn.queues i p hp)).mono
      (fun _ _ hq => ⟨d, rp, hcfg, hmodem, hrp, hq⟩) fun _ _ hfalse => hfalse
  · exact rfl

/-! ## Several destinations -/

omit [AddressText] in
/-- The map of the peers is the same, and the node is still sound. -/
structure Kept (n n' : Node) : Prop extends SameRole n n' where
  sound : n'.Sound
  peers : n'.peers = n.peers

omit [AddressText] in
/-- What is kept twice is kept. -/
theorem Kept.trans {n' n'' : Node} (h : Kept n n') (h' : Kept n' n'') : Kept n n'' :=
  ⟨h.toSameRole.trans h'.toSameRole, h'.sound, h'.peers.trans h.peers⟩

omit [AddressText] in
/-- The peers in the map are the same. -/
theorem Kept.listed {n' : Node} (h : Kept n n') : n'.listed = n.listed := by
  rw [Node.listed, h.peers, Node.listed]

/-- What could be told can still be told. -/
theorem Kept.canTellDown {n' : Node} (h : Kept n n') (hdown : n.CanTellDown mac items) :
    n'.CanTellDown mac items := by
  intro i hi
  rw [h.listed] at hi
  obtain ⟨rp, hrp⟩ := hdown i hi
  exact ⟨rp, by rw [Peer.downRequestOf_congr (d := n.view i) h.cfg h.modem, hrp]⟩

omit [AddressText] in
/-- Telling some peers keeps the map and the destinations. -/
theorem Told.kept {js : List Nat} {n' : Node} (h : Told js U n n') (hn : n.Sound)
    (hU : ∀ p q, U p q → Peer.QueueInv q) : Kept n n' ∧ n'.has = n.has := by
  have hsound := h.sound hn hU
  have hrest := h.rest
  generalize n'.objects = objects at hrest
  subst hrest
  exact ⟨⟨⟨rfl, rfl, rfl⟩, hsound, rfl⟩, rfl⟩

/-- A peer that was told has good queues. -/
theorem HearsUp.queues {cfg : ProtocolConfig} {modem : Bool} {p q : Peer}
    (h : HearsUp cfg modem s mac items p q) : q.QueueInv := by
  obtain ⟨d, -, -, hd⟩ := h
  exact hd.queues

/-- A peer that was told has good queues. -/
theorem HearsDown.queues {cfg : ProtocolConfig} {modem : Bool} {p q : Peer}
    (h : HearsDown cfg modem mac items p q) : q.QueueInv := by
  obtain ⟨d, rp, -, -, -, hd⟩ := h
  exact hd.queues

omit [AddressText] in
/-- Storing a destination adds it to those of the node. -/
theorem has_withDestination {dd : DestinationData} :
    (n.withDestination mac dd).has = insert mac n.has := by
  ext other
  change (n.localPdp.destinationData.insert mac dd).contains other = true ↔
    other = mac ∨ n.localPdp.destinationData.contains other = true
  rw [ExtTreeMap.contains_insert, Bool.or_eq_true, beq_iff_eq, Std.compare_eq_iff_eq, eq_comm]

omit [AddressText] in
/-- Erasing a destination takes it from those of the node. -/
theorem has_withoutDestination : (n.withoutDestination mac).has = n.has \ {mac} := by
  ext other
  change (n.localPdp.destinationData.erase mac).contains other = true ↔
    n.localPdp.destinationData.contains other = true ∧ other ≠ mac
  rw [ExtTreeMap.contains_erase, Bool.and_eq_true, bne_iff_ne, ne_eq, Std.compare_eq_iff_eq,
    and_comm, ne_comm, ne_eq]

/-- After adding a destination the node has it, and whatever could be told of others still can. -/
theorem kept_addDestination (hn : n.Sound) (h : mac ∉ n.has →
    (∃ dd, DestinationData.create n.cfg mac items = .ok dd) ∧ n.CanTellUp s mac items) :
    wp (addDestination s mac items)
      (fun _ n' => Kept n n' ∧ n'.has = insert mac n.has ∧
        ∀ other ≠ mac, n.CanTellUp s other items → n'.CanTellUp s other items)
      (fun _ _ => False) n := by
  by_cases hmem : mac ∈ n.has
  · have hvalid : n.localPdp.validDestination mac = true := hmem
    simp only [addDestination, onLocal, PeerData.addDestination, wp_bind, wp_get, wp_zoom, hvalid,
      if_true, wp_pure, Bool.false_eq_true, if_false]
    exact ⟨⟨⟨rfl, rfl, rfl⟩, hn, rfl⟩, (Set.insert_eq_of_mem hmem).symm, fun _ _ h => h⟩
  · obtain ⟨⟨dd, hdd⟩, hcan⟩ := h hmem
    refine (wp_addDestination hn hdd hcan).mono (fun _ n' hn' => ?_) fun _ _ hfalse => hfalse
    have hvalid : ¬ n.localPdp.validDestination mac = true := hmem
    rw [if_neg hvalid] at hn'
    have hsound : (n.withDestination mac dd).Sound := ⟨hn.queues, hn.object, hn.unique⟩
    obtain ⟨hkept, hhas⟩ := hn'.kept hsound fun _ _ hU => hU.queues
    have hkept' : Kept n n' := ⟨⟨hkept.cfg, hkept.modem, hkept.enabled⟩, hkept.sound, hkept.peers⟩
    refine ⟨hkept', hhas.trans has_withDestination, fun other hother hup i hi q hq => ?_⟩
    rw [hkept'.listed] at hi
    obtain ⟨p, hp⟩ := hn.exists_object hi
    obtain ⟨q', hq', d, -, -, htold⟩ := hn'.changed i hi p hp
    obtain rfl := Option.some.inj (hq.symm.trans hq')
    have hneeds := htold.needs hother
    have hup : Peer.CanTellUp (n'.view i) s p other items :=
      (hup i hi p hp).congr hkept'.cfg hkept'.modem
    exact ⟨by rw [hneeds]; exact hup.request, by rw [hneeds]; exact hup.response⟩

/-- Several destinations are added, one after the other. -/
theorem kept_addDestinations {macs : List DlepMac} (hnodup : macs.Nodup) (hn : n.Sound)
    (h : ∀ mac ∈ macs, mac ∉ n.has →
      (∃ dd, DestinationData.create n.cfg mac items = .ok dd) ∧ n.CanTellUp s mac items) :
    wp (macs.forM fun mac => do let _ ← addDestination s mac items)
      (fun _ n' => Kept n n' ∧ n'.has = n.has ∪ {mac | mac ∈ macs}) (fun _ _ => False) n := by
  induction macs generalizing n with
  | nil => exact ⟨⟨⟨rfl, rfl, rfl⟩, hn, rfl⟩, by simp⟩
  | cons mac macs ih =>
    obtain ⟨hmac, hnodup⟩ := List.nodup_cons.1 hnodup
    obtain ⟨hfirst, hrest⟩ := List.forall_mem_cons.1 h
    rw [List.forM, wp_bind, wp_bind]
    refine (kept_addDestination hn hfirst).mono ?_ fun _ _ hfalse => hfalse
    rintro _ n' ⟨hkept, hhas, hup⟩
    rw [wp_pure]
    refine (ih hnodup hkept.sound fun other hother hnot => ?_).mono ?_ fun _ _ hfalse => hfalse
    · rw [hhas] at hnot
      obtain ⟨hdd, hcan⟩ := hrest other hother fun hmem => hnot (.inr hmem)
      rw [hkept.cfg]
      exact ⟨hdd, hup other (fun hsame => hmac (hsame ▸ hother)) hcan⟩
    · rintro _ n'' ⟨hkept', hhas'⟩
      refine ⟨hkept.trans hkept', ?_⟩
      rw [hhas', hhas]
      ext other
      simp only [Set.mem_union, Set.mem_insert_iff, Set.mem_ofPred_eq, List.mem_cons]
      tauto

/-- A message that the destination is down was put on its queue since, unless the peer was not
interested. -/
def IssuedDown (cfg : ProtocolConfig) (modem : Bool) (mac : DlepMac)
    (items : DataItems) (p q : Peer) :
    Prop :=
  ∃ (d : DlepView) (rp : ResponsePending), d.cfg = cfg ∧ d.modem = modem ∧
    Peer.downRequestOf d mac items = .ok rp ∧ (p.isNotInterested rp.destination = true ∨
      ∃ uid, Event.enqueue { rp with uid } ∈ q.trace.drop p.trace.length)

omit [AddressText] in
/-- Nothing is forgotten, and the interest of the peer is the same. -/
structure Later (p q : Peer) : Prop where
  trace : p.trace <+: q.trace
  interest : q.notInterestedDestinations = p.notInterestedDestinations

omit [AddressText] in
/-- What is later than something later is later. -/
theorem Later.trans {p q r : Peer} (h : Later p q) (h' : Later q r) : Later p r :=
  ⟨h.trace.trans h'.trace, h'.interest.trans h.interest⟩

/-- Telling a peer forgets nothing. -/
theorem HearsDown.later {cfg : ProtocolConfig} {modem : Bool} {p q : Peer}
    (h : HearsDown cfg modem mac items p q) : Later p q := by
  obtain ⟨d, rp, -, -, -, hrp⟩ := h
  exact ⟨⟨_, hrp.events.symm⟩, by rw [hrp.only]⟩

/-- A peer that was told that a destination is down has the message on its queue, unless it was
not interested. -/
theorem HearsDown.issued {cfg : ProtocolConfig} {modem : Bool} {p q : Peer}
    (h : HearsDown cfg modem mac items p q) : IssuedDown cfg modem mac items p q := by
  obtain ⟨d, rp, hcfg, hmodem, hdown, hrp⟩ := h
  refine ⟨d, rp, hcfg, hmodem, hdown, ?_⟩
  cases hinterest : p.isNotInterested rp.destination with
  | true => exact .inl rfl
  | false =>
    refine .inr ⟨p.nextUid, ?_⟩
    rw [hrp.events, List.drop_left, Peer.requestEvents]
    simp only [hinterest, Bool.false_eq_true, if_false]
    split <;> simp

/-- A message issued since some moment was issued since every earlier one. -/
theorem IssuedDown.before {cfg : ProtocolConfig} {modem : Bool} {p q r : Peer} (h : Later p q)
    (h' : IssuedDown cfg modem mac items q r) : IssuedDown cfg modem mac items p r := by
  obtain ⟨d, rp, hcfg, hmodem, hdown, hor⟩ := h'
  refine ⟨d, rp, hcfg, hmodem, hdown, hor.imp (fun hnot => ?_) fun ⟨uid, hmem⟩ => ⟨uid, ?_⟩⟩
  · rw [← hnot, Peer.isNotInterested, Peer.isNotInterested, h.interest]
  · exact List.mem_of_mem_drop (i := q.trace.length - p.trace.length) (by
      rw [List.drop_drop, Nat.add_sub_cancel' h.trace.length_le]
      exact hmem)

/-- A message that was issued stays issued. -/
theorem IssuedDown.after {cfg : ProtocolConfig} {modem : Bool} {p q r : Peer}
    (h : IssuedDown cfg modem mac items p q) (h' : Later q r) :
    IssuedDown cfg modem mac items p r := by
  obtain ⟨d, rp, hcfg, hmodem, hdown, hor⟩ := h
  refine ⟨d, rp, hcfg, hmodem, hdown, hor.imp id fun ⟨uid, hmem⟩ => ⟨uid, ?_⟩⟩
  obtain ⟨more, hmore⟩ := h'.trace
  rw [← hmore]
  by_cases hle : p.trace.length ≤ q.trace.length
  · rw [List.drop_append_of_le_length hle]
    exact List.mem_append_left _ hmem
  · rw [List.drop_of_length_le (by omega)] at hmem
    cases hmem

/-- Since then, each peer in the map was told that the destinations are down. -/
structure DownTold (macs : Set DlepMac) (items : DataItems) (n n' : Node) : Prop where
  later : ∀ (i : Nat) (p : Peer), n.objects[i]? = some p → ∃ q, n'.objects[i]? = some q ∧ Later p q
  issued : ∀ i ∈ n.listed, ∀ p, n.objects[i]? = some p → ∃ q, n'.objects[i]? = some q ∧
    ∀ mac ∈ macs, IssuedDown n.cfg n.modem mac items p q

/-- Nobody has to be told of no destinations. -/
theorem DownTold.refl : DownTold ∅ items n n where
  later _ p hp := ⟨p, hp, List.prefix_rfl, rfl⟩
  issued _ _ p hp := ⟨p, hp, by simp⟩

/-- What was told in two stretches was told in one. -/
theorem DownTold.trans {macs macs' : Set DlepMac} {n' n'' : Node} (hkept : Kept n n')
    (h : DownTold macs items n n') (h' : DownTold macs' items n' n'') :
    DownTold (macs ∪ macs') items n n'' := by
  refine ⟨fun i p hp => ?_, fun i hi p hp => ?_⟩
  · obtain ⟨q, hq, hpq⟩ := h.later i p hp
    obtain ⟨r, hr, hqr⟩ := h'.later i q hq
    exact ⟨r, hr, hpq.trans hqr⟩
  · obtain ⟨q, hq, hissued⟩ := h.issued i hi p hp
    obtain ⟨q', hq', hpq⟩ := h.later i p hp
    obtain rfl := Option.some.inj (hq.symm.trans hq')
    obtain ⟨r, hr, hissued'⟩ := h'.issued i (hkept.listed ▸ hi) q hq
    obtain ⟨r', hr', hqr⟩ := h'.later i q hq
    obtain rfl := Option.some.inj (hr.symm.trans hr')
    refine ⟨r, hr, fun mac hmac => ?_⟩
    rcases hmac with hmac | hmac
    · exact (hissued mac hmac).after hqr
    · have hmore := hissued' mac hmac
      rw [hkept.cfg, hkept.modem] at hmore
      exact hmore.before hpq

/-- After removing a destination the node does not have it, and every peer in the map was told if
it was there. -/
theorem kept_removeDestination (hn : n.Sound) (h : mac ∈ n.has → n.CanTellDown mac items) :
    wp (removeDestination s mac items)
      (fun _ n' => Kept n n' ∧ n'.has = n.has \ {mac} ∧ DownTold (n.has ∩ {mac}) items n n')
      (fun _ _ => False) n := by
  by_cases hmem : mac ∈ n.has
  · refine (wp_removeDestination hn (h hmem)).mono (fun _ n' hn' => ?_) fun _ _ hfalse => hfalse
    have hvalid : n.localPdp.validDestination mac = true := hmem
    rw [if_pos hvalid] at hn'
    have hsound : (n.withoutDestination mac).Sound := ⟨hn.queues, hn.object, hn.unique⟩
    obtain ⟨hkept, hhas⟩ := hn'.kept hsound fun _ _ hU => hU.queues
    refine ⟨⟨⟨hkept.cfg, hkept.modem, hkept.enabled⟩, hkept.sound, hkept.peers⟩,
      hhas.trans has_withoutDestination, ?_, ?_⟩
    · intro i p hp
      by_cases hi : i ∈ n.listed
      · obtain ⟨q, hq, hpq⟩ := hn'.changed i hi p hp
        exact ⟨q, hq, hpq.later⟩
      · exact ⟨p, (hn'.same i hi).trans hp, List.prefix_rfl, rfl⟩
    · intro i hi p hp
      obtain ⟨q, hq, hpq⟩ := hn'.changed i hi p hp
      refine ⟨q, hq, ?_⟩
      rintro _ ⟨-, rfl⟩
      exact hpq.issued
  · have hvalid : ¬ n.localPdp.validDestination mac = true := hmem
    simp only [removeDestination, onLocal, PeerData.removeDestination, wp_bind, wp_zoom, wp_get,
      if_neg hvalid, wp_pure, Bool.false_eq_true, if_false]
    have hnone : n.has ∩ {mac} = ∅ := by simpa using hmem
    rw [hnone, Set.sdiff_singleton_eq_self hmem]
    exact ⟨⟨⟨rfl, rfl, rfl⟩, hn, rfl⟩, rfl, .refl⟩

/-- Several destinations are removed, one after the other. -/
theorem kept_removeDestinations {macs : List DlepMac} (hn : n.Sound)
    (h : ∀ mac ∈ macs, mac ∈ n.has → n.CanTellDown mac items) :
    wp (macs.forM fun mac => do let _ ← removeDestination s mac items)
      (fun _ n' => Kept n n' ∧ n'.has = n.has \ {mac | mac ∈ macs} ∧
        DownTold (n.has ∩ {mac | mac ∈ macs}) items n n') (fun _ _ => False) n := by
  induction macs generalizing n with
  | nil =>
    refine ⟨⟨⟨rfl, rfl, rfl⟩, hn, rfl⟩, by simp, ?_⟩
    have hnone : n.has ∩ {mac | mac ∈ ([] : List DlepMac)} = ∅ := by simp
    rw [hnone]
    exact .refl
  | cons mac macs ih =>
    obtain ⟨hfirst, hrest⟩ := List.forall_mem_cons.1 h
    rw [List.forM, wp_bind, wp_bind]
    refine (kept_removeDestination hn hfirst).mono ?_ fun _ _ hfalse => hfalse
    rintro _ n' ⟨hkept, hhas, htold⟩
    rw [wp_pure]
    refine (ih hkept.sound fun other hother hmem => ?_).mono ?_ fun _ _ hfalse => hfalse
    · rw [hhas] at hmem
      exact hkept.canTellDown (hrest other hother hmem.1)
    · rintro _ n'' ⟨hkept', hhas', htold'⟩
      refine ⟨hkept.trans hkept', ?_, ?_⟩
      · rw [hhas', hhas]
        ext other
        simp only [Set.mem_sdiff, Set.mem_singleton_iff, Set.mem_ofPred_eq, List.mem_cons]
        tauto
      · have hunion : n.has ∩ {other | other ∈ mac :: macs} =
            n.has ∩ {mac} ∪ n'.has ∩ {other | other ∈ macs} := by
          rw [hhas]
          ext other
          simp only [Set.mem_inter_iff, Set.mem_union, Set.mem_sdiff, Set.mem_singleton_iff,
            Set.mem_ofPred_eq, List.mem_cons]
          tauto
        rw [hunion]
        exact htold.trans hkept htold'

end

end Node

end Dlep
