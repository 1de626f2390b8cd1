import Dlep.Node.Offers

/-!
# The queries of a node

The client asks the node for its peers, for one of them, and for one of its destinations. Every
answer is read from the roster, so the answers fit together: what one query names, the next one
finds.
-/

namespace Dlep

open Std Calls Runs

/-- Source: `DestinationInfo` (`DlepCommon.h:52`). -/
structure DestinationInfo where
  macAddress : DlepMac
  peerId : PeerId
  flags : UInt32
  dataItems : DataItems

namespace Node

/-- The peer that the map has under the name. -/
def peerUnder (n : Node) (peerId : PeerId) : Option Peer :=
  (n.peers[peerId]?).bind fun i => n.objects[i]?

/-- The names are those that the peers have, not those of the map. Source:
`DlepServiceImpl::get_peers` (`DlepServiceImpl.cpp:289`). -/
def getPeers (n : Node) : List PeerId :=
  n.listed.filterMap fun i => (n.objects[i]?).map fun p => p.peerId

/-- Source: `DlepServiceImpl::get_peer_info` (`DlepServiceImpl.cpp:303`). -/
def getPeerInfo (n : Node) (peerId : PeerId) : Except ReturnStatus PeerInfo :=
  match n.peerUnder peerId with
  | none => .error .peerDoesNotExist
  | some p => .ok p.getInfo

/-- Source: `DlepServiceImpl::get_destination_info` (`DlepServiceImpl.cpp:321`), with
`Peer::get_destination` (`Peer.cpp:2042`). -/
def getDestinationInfo (n : Node) (peerId : PeerId) (mac : DlepMac) :
    Except ReturnStatus DestinationInfo :=
  match n.peerUnder peerId with
  | none => .error .peerDoesNotExist
  | some p =>
    match p.peerPdp.getDestinationData mac with
    | none => .error .destinationDoesNotExist
    | some ddp => .ok { macAddress := mac, peerId, flags := 0, dataItems := ddp.getAllDataItems }

/-- A destination that the peer does not have is reported as missing. -/
theorem getDestinationInfo_none {n : Node} {peerId : PeerId} {mac : DlepMac} {p : Peer}
    (hp : n.peerUnder peerId = some p) (h : p.peerPdp.getDestinationData mac = none) :
    n.getDestinationInfo peerId mac = .error .destinationDoesNotExist := by
  simp only [getDestinationInfo, hp, h]

/-- For a destination of the peer its address and its data items are returned. -/
theorem getDestinationInfo_some {n : Node} {peerId : PeerId} {mac : DlepMac} {p : Peer}
    {ddp : DestinationData} (hp : n.peerUnder peerId = some p)
    (h : p.peerPdp.getDestinationData mac = some ddp) :
    n.getDestinationInfo peerId mac =
      .ok { macAddress := mac, peerId, flags := 0, dataItems := ddp.getAllDataItems } := by
  simp only [getDestinationInfo, hp, h]

/-! ## Names -/

/-- The map has every peer under its own name. -/
structure Named (n : Node) : Prop where
  queues : n.QueuesOk
  object : ∀ (key : PeerId) (i : Nat), n.peers[key]? = some i →
    ∃ p, n.objects[i]? = some p ∧ p.peerId = key

variable {n n' : Node}

/-- Where the map and the names of the objects stay, every peer stays under its own name. -/
theorem Named.of_ages (hn : n.Named) (hqueues : n'.QueuesOk) (hpeers : n'.peers = n.peers)
    (h : ∀ (i : Nat) (p : Peer), n.objects[i]? = some p →
      ∃ q, n'.objects[i]? = some q ∧ q.peerId = p.peerId) : n'.Named := by
  refine ⟨hqueues, fun key i hi => ?_⟩
  rw [hpeers] at hi
  obtain ⟨p, hp, hkey⟩ := hn.object key i hi
  obtain ⟨q, hq, hid⟩ := h i p hp
  exact ⟨q, hq, hid.trans hkey⟩

/-- Where the map and the standing of every object stay, the names do. -/
theorem Named.sameRoster (hn : n.Named) (h : SameRoster n n') : n'.Named := by
  refine hn.of_ages (h.queues hn.queues) h.peers fun i p hp => ?_
  obtain ⟨q, hq, hsame⟩ := h.exists_image hp
  exact ⟨q, hq, congrArg Peer.Standing.peerId hsame⟩

/-- What is left of the map. -/
theorem Named.of_subset (hn : n.Named) (hobjects : n'.objects = n.objects)
    (h : ∀ (key : PeerId) (i : Nat), n'.peers[key]? = some i →
      n.peers[key]? = some i) : n'.Named := by
  refine ⟨fun i p hp => hn.queues i p (hobjects ▸ hp), fun key i hi => ?_⟩
  rw [hobjects]
  exact hn.object key i (h key i hi)

section

variable [AddressText] {s : Surroundings}

/-- A new peer enters the map under its own name. -/
theorem Named.connect (hn : n.Named) {peerId : PeerId} : (n.step ⟨s, .connect peerId⟩).Named := by
  rcases @step_connect n _ s peerId with hsame | ⟨p, hcreate, hroster⟩
  · rw [hsame]
    exact hn
  · have hid : p.peerId = peerId := by rw [Peer.create_ok hcreate]
    refine Named.sameRoster ⟨fun i q hq => ?_, fun key i hi => ?_⟩ hroster
    · rcases lt_or_ge i n.objects.length with hlt | hge
      · rw [List.getElem?_append_left hlt] at hq
        exact hn.queues i q hq
      · rw [List.getElem?_append_right hge] at hq
        obtain rfl := List.mem_singleton.1 (List.mem_of_getElem? hq)
        exact (Peer.sound_of_create hcreate).queues
    · simp only [ExtTreeMap.getElem?_insert, Std.compare_eq_iff_eq] at hi
      split at hi
      · next hkey =>
        obtain rfl := Option.some.inj hi
        exact ⟨p, by simp, hid.trans hkey⟩
      · obtain ⟨q, hq, hkey⟩ := hn.object key i hi
        exact ⟨q, (List.getElem?_append_left (List.getElem?_eq_some_iff.1 hq).1).trans hq, hkey⟩

/-- What happens to a peer keeps its name. -/
theorem Named.peer (hn : n.Named) {i : Nat} {occasion : Occasion} :
    (n.step ⟨s, .peer i occasion⟩).Named := by
  cases hp : n.objects[i]? with
  | none =>
    rw [step_peer_none hp]
    exact hn
  | some p =>
    have hok := hn.queues i p hp
    rw [step_peer hp]
    refine hn.of_ages (hn.queues.set hp (Peer.queueOk_step _ hok)) rfl fun j q hq => ?_
    rw [getElem?_set hp]
    split
    · next hij =>
      obtain rfl := Option.some.inj (hp.symm.trans (hij ▸ hq))
      exact ⟨_, rfl, (Peer.ages_step hok _).peerId⟩
    · exact ⟨q, hq, rfl⟩

/-- Terminating the service keeps the names. -/
theorem Named.terminate (hn : n.Named) : (n.step ⟨s, .terminate⟩).Named := by
  have hends : ∀ {n' : Node}, Happens (fun _ _ => Ended) n n' → n'.Named := by
    intro n' h
    refine hn.of_ages (fun i q hq => ?_) h.peers fun i p hp => ?_
    · obtain ⟨p, hp, hpq⟩ := h.exists_object hq
      exact hpq.queues (hn.queues i p hp)
    · obtain ⟨q, hq, hpq⟩ := h.object i p hp
      exact ⟨q, hq, hpq.peerId⟩
  rcases @step_terminate n _ s (fun _ _ => Ended) _ _ (fun d => ended_terminate)
    (fun _ _ p q h => h.pstate) with h | ⟨n', h, heq, -⟩
  · exact hends h
  · rw [heq]
    exact (hends h).of_subset rfl fun key i hi => by simp at hi

/-- Every step keeps the map true to the names, by cases on the input. -/
theorem named_step {st : Step} (hn : n.Named) : (n.step st).Named := by
  obtain ⟨s, input⟩ := st
  cases hquiet : input.isQuiet with
  | true => exact hn.sameRoster (sameRoster_step hquiet)
  | false =>
    cases input with
    | connect peerId => exact hn.connect
    | peer i occasion => exact hn.peer
    | cleanup =>
      refine hn.of_subset rfl fun key i hi => ?_
      change (n.peers.filter _)[key]? = some i at hi
      rw [ExtTreeMap.getElem?_filter', Option.filter_eq_some_iff] at hi
      exact hi.1
    | terminate => exact hn.terminate
    | _ => cases hquiet

/-- A name gets into the map by a connection only. -/
theorem mem_peers_step {st : Step} {peerId : PeerId} (hnew : peerId ∉ n.peers)
    (h : peerId ∈ (n.step st).peers) : st.input = .connect peerId := by
  obtain ⟨s, input⟩ := st
  cases hquiet : input.isQuiet with
  | true =>
    rw [(sameRoster_step hquiet).peers] at h
    exact absurd h hnew
  | false =>
    cases input with
    | connect peerId' =>
      rcases @step_connect n _ s peerId' with hsame | ⟨p, -, hroster⟩
      · rw [hsame] at h
        exact absurd h hnew
      · rw [hroster.peers, ExtTreeMap.mem_insert, Std.compare_eq_iff_eq] at h
        rw [h.resolve_right hnew]
    | peer i occasion =>
      cases hp : n.objects[i]? with
      | none =>
        rw [step_peer_none hp] at h
        exact absurd h hnew
      | some p =>
        rw [step_peer hp] at h
        exact absurd h hnew
    | cleanup =>
      change peerId ∈ n.peers.filter _ at h
      exact absurd (ExtTreeMap.mem_of_mem_filter h) hnew
    | terminate =>
      rcases @step_terminate n _ s (fun _ _ => Ended) _ _ (fun d => ended_terminate)
        (fun _ _ p q h => h.pstate) with hends | ⟨n', -, heq, -⟩
      · rw [hends.peers] at h
        exact absurd h hnew
      · rw [heq] at h
        exact absurd h ExtTreeMap.not_mem_empty
    | _ => cases hquiet

end

/-! ## Answers -/

/-- The peers that are reported are the names of the map. -/
theorem Named.getPeers_eq (hn : n.Named) : n.getPeers = n.peers.keys := by
  rw [getPeers, listed, List.filterMap_map, ← ExtTreeMap.map_fst_toList_eq_keys,
    ← List.filterMap_eq_map]
  refine List.filterMap_congr fun e he => ?_
  obtain ⟨p, hp, hid⟩ := hn.object e.1 e.2 (ExtTreeMap.mem_toList_iff_getElem?_eq_some.1 he)
  simp only [Function.comp_apply, hp, Option.map_some, hid]

/-- A peer is reported exactly if the map has it. -/
theorem Named.mem_getPeers (hn : n.Named) {peerId : PeerId} :
    peerId ∈ n.getPeers ↔ peerId ∈ n.peers := by
  rw [hn.getPeers_eq, ExtTreeMap.mem_keys]

/-- What the queries of a node answer, taken together. -/
structure Consistent (n : Node) : Prop where
  distinct : n.getPeers.Nodup
  known : ∀ peerId ∈ n.getPeers, ∃ info, n.getPeerInfo peerId = .ok info ∧ info.peerId = peerId ∧
    info.destinations.Nodup ∧
    (∀ mac ∈ info.destinations, ∃ dest, n.getDestinationInfo peerId mac = .ok dest) ∧
    ∀ mac ∉ info.destinations, n.getDestinationInfo peerId mac = .error .destinationDoesNotExist
  unknown : ∀ peerId ∉ n.getPeers, n.getPeerInfo peerId = .error .peerDoesNotExist ∧
    ∀ mac, n.getDestinationInfo peerId mac = .error .peerDoesNotExist
  found : ∀ mac, (n.findPeer mac).isSome = true ↔
    ∃ peerId ∈ n.getPeers, ∃ dest, n.getDestinationInfo peerId mac = .ok dest

/-- Behind every name that is reported there is a peer with that name. -/
theorem Named.exists_peerUnder (hn : n.Named) {peerId : PeerId} (h : peerId ∈ n.getPeers) :
    ∃ i p, n.peers[peerId]? = some i ∧ n.objects[i]? = some p ∧ n.peerUnder peerId = some p ∧
      p.peerId = peerId := by
  have hmem := hn.mem_getPeers.1 h
  obtain ⟨i, hi⟩ : ∃ i, n.peers[peerId]? = some i := ⟨_, ExtTreeMap.getElem?_eq_some_getElem hmem⟩
  obtain ⟨p, hp, hid⟩ := hn.object peerId i hi
  exact ⟨i, p, hi, hp, by rw [peerUnder, hi, Option.bind_some, hp], hid⟩

/-- Where the map is true to the names, the queries agree. -/
theorem Named.consistent (hn : n.Named) : n.Consistent where
  distinct := by
    rw [hn.getPeers_eq]
    exact ExtTreeMap.nodup_keys
  known peerId h := by
    obtain ⟨i, p, -, -, hp, hid⟩ := hn.exists_peerUnder h
    refine ⟨p.getInfo, by rw [getPeerInfo, hp], hid, ExtTreeMap.nodup_keys, fun mac hmac => ?_,
      fun mac hmac => ?_⟩
    · obtain ⟨ddp, hddp⟩ : ∃ ddp, p.peerPdp.getDestinationData mac = some ddp :=
        ⟨_, ExtTreeMap.getElem?_eq_some_getElem (ExtTreeMap.mem_keys.1 hmac)⟩
      exact ⟨_, getDestinationInfo_some hp hddp⟩
    · have hddp : p.peerPdp.getDestinationData mac = none :=
        ExtTreeMap.getElem?_eq_none fun hmem => hmac (ExtTreeMap.mem_keys.2 hmem)
      exact getDestinationInfo_none hp hddp
  unknown peerId h := by
    have hnone : n.peerUnder peerId = none := by
      rw [peerUnder, ExtTreeMap.getElem?_eq_none fun hmem => h (hn.mem_getPeers.2 hmem),
        Option.bind_none]
    refine ⟨by rw [getPeerInfo, hnone], fun mac => by rw [getDestinationInfo, hnone]⟩
  found mac := by
    rw [findPeer, List.find?_isSome]
    constructor
    · rintro ⟨i, hi, hany⟩
      obtain ⟨key, hkey⟩ := mem_listed.1 hi
      obtain ⟨p, hp, hvalid⟩ := (Option.any_eq_true _ _).1 hany
      rw [PeerData.validDestination_eq_isSome] at hvalid
      obtain ⟨ddp, hddp⟩ := Option.isSome_iff_exists.1 hvalid
      have hmem : key ∈ n.peers := ExtTreeMap.mem_iff_isSome_getElem?.2 (by rw [hkey]; rfl)
      have hunder : n.peerUnder key = some p := by rw [peerUnder, hkey, Option.bind_some, hp]
      exact ⟨key, hn.mem_getPeers.2 hmem, _, getDestinationInfo_some hunder hddp⟩
    · rintro ⟨key, hkey, dest, hdest⟩
      obtain ⟨i, p, hi, hp, hunder, -⟩ := hn.exists_peerUnder hkey
      refine ⟨i, mem_listed.2 ⟨key, hi⟩, (Option.any_eq_true _ _).2 ⟨p, hp, ?_⟩⟩
      rw [PeerData.validDestination_eq_isSome]
      cases hddp : p.peerPdp.getDestinationData mac with
      | none =>
        rw [getDestinationInfo_none hunder hddp] at hdest
        cases hdest
      | some ddp => rfl

/-- After whatever a node has gone through since it was made: the queries of its client fit
together, and each peer they name is one that a connection was made to. -/
theorem consistent_of_run [AddressText] {cfg : ProtocolConfig} {modem enabled : Bool}
    {steps : List Step} (hn : Node.create cfg modem enabled = .ok n) :
    (run step n steps).Consistent ∧ ∀ peerId ∈ (run step n steps).getPeers,
      ∃ pre st, pre ++ [st] <+: steps ∧ st.input = .connect peerId := by
  obtain ⟨hobjects, hpeers⟩ := objects_of_create hn
  have hnamed : (run step n steps).Named := by
    refine along_true.invariant (I := Named) (fun _ _ h _ => named_step h) ⟨?_, ?_⟩
    · intro i p hp
      simp [hobjects] at hp
    · intro key i hi
      simp [hpeers] at hi
  refine ⟨hnamed.consistent, fun peerId h => ?_⟩
  have hstart : peerId ∉ n.peers := by
    rw [hpeers]
    exact ExtTreeMap.not_mem_empty
  obtain ⟨pre, st, hpre, hbefore, hthen⟩ :=
    exists_step_of_run (I := fun n' : Node => peerId ∈ n'.peers) hstart (hnamed.mem_getPeers.1 h)
  exact ⟨pre, st, hpre, mem_peers_step hbefore hthen⟩

attribute [local instance] plainText

/-- A router that connects to two modems and loses the first; the second brings two destinations
up and takes one of them down. -/
def oneOfTwo : List Step :=
  [.connect (str "first"), .connect (str "second"), .peer 0 .eof, .cleanup,
    .peer 1 (.receive [0, 7, 0, 6, 0, 7, 0, 2, 10, 11]), .peer 1 .message,
    .peer 1 (.receive [0, 7, 0, 6, 0, 7, 0, 2, 10, 12]), .peer 1 .message,
    .peer 1 (.receive [0, 11, 0, 6, 0, 7, 0, 2, 10, 11]), .peer 1 .message].map fun input =>
      ⟨Peer.bareSurroundings, input⟩

/-- The second modem is the only peer, with one destination, under which it is found. -/
theorem consistent_of_run_oneOfTwo :
    (run step (shipped false) oneOfTwo).Consistent ∧
      (run step (shipped false) oneOfTwo).getPeers = [str "second"] ∧
      (∃ info dest, (run step (shipped false) oneOfTwo).getPeerInfo (str "second") = .ok info ∧
        info.destinations = [[10, 12]] ∧
        (run step (shipped false) oneOfTwo).getDestinationInfo (str "second") [10, 12] = .ok dest ∧
        (run step (shipped false) oneOfTwo).getDestinationInfo (str "second") [10, 11] =
          .error .destinationDoesNotExist ∧
        ((run step (shipped false) oneOfTwo).findPeer [10, 12]).isSome = true) ∧
      ∃ pre st, pre ++ [st] <+: oneOfTwo ∧ st.input = .connect (str "second") := by
  obtain ⟨hpeers, hdests⟩ : (run step (shipped false) oneOfTwo).getPeers = [str "second"] ∧
      ((run step (shipped false) oneOfTwo).getPeerInfo (str "second")).toOption.map
        PeerInfo.destinations =
        some [[10, 12]] := by decide +kernel
  obtain ⟨hconsistent, hconnected⟩ :=
    @consistent_of_run (shipped false) plainText rfc8175 false false
    oneOfTwo (create_shipped false)
  have hsecond : str "second" ∈ (run step (shipped false) oneOfTwo).getPeers := by
    rw [hpeers]
    exact List.mem_singleton_self _
  obtain ⟨info, hinfo, -, -, hhas, hlacks⟩ := hconsistent.known _ hsecond
  rw [hinfo] at hdests
  have hone : info.destinations = [[10, 12]] := Option.some.inj hdests
  obtain ⟨dest, hdest⟩ := hhas [10, 12] (by simp [hone])
  exact ⟨hconsistent, hpeers, ⟨info, dest, hinfo, hone, hdest, hlacks [10, 11] (by simp [hone]),
    (hconsistent.found _).2 ⟨_, hsecond, dest, hdest⟩⟩, hconnected _ hsecond⟩

end Node

end Dlep
