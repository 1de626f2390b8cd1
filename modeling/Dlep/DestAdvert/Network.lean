import Dlep.DestAdvert.Heard
import Dlep.Lib.Broadcast

/-!
# The advertisements of several modems

A modem advertises the addresses of the routers that it has sessions with, and listens to what the
others advertise. The advertisements are datagrams that are lost, delayed, repeated and reordered;
their sequence numbers are not looked at. It is shown that the table of a modem nevertheless holds
nothing but what the remote modem of the entry has advertised at some time, and that the
destinations which a modem has for the others are addresses of their routers.
-/

namespace Dlep

open Std Calls Runs

/-! ## The message -/

/-- Source: `DestinationAdvertisement` (`destadvert.proto`). -/
structure DestinationAdvertisement where
  reportinterval : UInt32
  sequencenumber : UInt32
  uptimeinseconds : UInt64
  localid : Bytes
  destinations : List Bytes
  deriving DecidableEq

/-- The generated code of the message: `SerializeToString` and `ParseFromArray`. -/
structure AdvertCodec where
  serializeToString : DestinationAdvertisement → Option Bytes
  parseFromArray : Bytes → Option DestinationAdvertisement

/-- A message that was written is read as it was. -/
def AdvertCodec.RoundTrips (codec : AdvertCodec) : Prop :=
  ∀ da buf, codec.serializeToString da = some buf → codec.parseFromArray buf = some da

section

variable (codec : AdvertCodec)

/-- Source: `build_destination_advert` (`DestAdvertMessage.h:50`). -/
def buildDestinationAdvert (info : DestAdvertInfo) (uptime : UInt64) (sequenceNumber : UInt32) :
    Option Bytes :=
  codec.serializeToString {
    reportinterval := info.reportInterval
    sequencenumber := sequenceNumber
    uptimeinseconds := uptime
    localid := info.rfId
    destinations := info.destinations.toList }

/-- Source: `unbuild_destination_advert` (`DestAdvertMessage.h:81`). -/
def unbuildDestinationAdvert (buf : Bytes) : Option DestAdvertInfo :=
  (codec.parseFromArray buf).map fun da => {
    reportInterval := da.reportinterval
    rfId := da.localid
    destinations := .ofList da.destinations }

end

/-! ## A modem that advertises -/

/-- A modem with its table, and with what it advertises. Source: `DestAdvert` (`DestAdvert.h:30`).
-/
structure Advertiser where
  advert : DestAdvert
  sendInterval : UInt32
  localRfid : DlepMac
  seqNum : UInt32 := 0
  destinations : ExtTreeSet DlepMac := ∅

namespace Advertiser

/-- Source: `DestAdvert::add_destination` (`DestAdvert.cpp:198`). -/
def addDestination (mac : DlepMac) (destinations : ExtTreeSet DlepMac) : ExtTreeSet DlepMac :=
  destinations.insert mac

/-- Source: `DestAdvert::clear_destinations` (`DestAdvert.cpp:214`). -/
def clearDestinations (_ : ExtTreeSet DlepMac) : ExtTreeSet DlepMac := ∅

/-- What a call of a peer makes of the destinations (`Peer.cpp:1253`, `:2011`). -/
def apply (destinations : ExtTreeSet DlepMac) : Event → ExtTreeSet DlepMac
  | .addDestination mac => addDestination mac destinations
  | .clearDestinations => clearDestinations destinations
  | _ => destinations

/-- What has happened to the peers since. -/
def newEvents : List Peer → List Peer → List Event
  | _, [] => []
  | [], p :: ps => p.trace ++ newEvents [] ps
  | q :: qs, p :: ps => p.trace.drop q.trace.length ++ newEvents qs ps

/-- What the modem advertises. -/
def info (m : Advertiser) : DestAdvertInfo where
  reportInterval := m.sendInterval
  rfId := m.localRfid
  destinations := m.destinations

/-- A message that cannot be built is empty. Source: `DestAdvert::get_message_to_send`
(`DestAdvert.cpp:59`). -/
def getMessageToSend (codec : AdvertCodec) (uptime : UInt64) (m : Advertiser) :
    Advertiser × Bytes :=
  let m := { m with seqNum := m.seqNum + 1 }
  (m, (buildDestinationAdvert codec m.info uptime m.seqNum).getD [])

section

variable [AddressText]

/-- A step of the node, and what its peers make of the destinations that are advertised. -/
def step (m : Advertiser) (st : DestAdvert.Step) : Advertiser :=
  let advert := m.advert.step st
  { m with
    advert
    destinations :=
      (newEvents m.advert.node.objects advert.node.objects).foldl apply m.destinations }

/-- Source: `DestAdvert::handle_message` (`DestAdvert.cpp:89`). -/
def handleMessage (codec : AdvertCodec) (m : Advertiser) (s : Surroundings) (buf : Bytes) :
    Advertiser :=
  if buf = [] then m
  else
    match unbuildDestinationAdvert codec buf with
    | some info => m.step ⟨s, .advertisement info⟩
    | none => m

/-- What happens to a modem: anything but an advertisement, or its send timer runs out. -/
inductive Happening where
  | node (st : DestAdvert.Step) (h : ∀ info, st.input ≠ .advertisement info)
  | sendTimeout (uptime : UInt64)

/-- The modems are parties that hear each other. -/
def party (codec : AdvertCodec) : Broadcast.Party Advertiser Happening Surroundings Bytes where
  act m
    | .node st _ => (m.step st, none)
    | .sendTimeout uptime =>
      let (m, buf) := m.getMessageToSend codec uptime
      (m, some buf)
  hear := handleMessage codec

end

end Advertiser

/-! ## What is read is what was advertised -/

/-- An advertisement that can be built is read as it was. -/
theorem unbuild_build {codec : AdvertCodec} {info : DestAdvertInfo} {uptime : UInt64}
    {sequenceNumber : UInt32} {buf : Bytes} (hcodec : codec.RoundTrips)
    (h : buildDestinationAdvert codec info uptime sequenceNumber = some buf) :
    unbuildDestinationAdvert codec buf = some info := by
  rw [unbuildDestinationAdvert, hcodec _ _ h, Option.map_some]
  have hsame : ExtTreeSet.ofList info.destinations.toList = info.destinations :=
    ExtTreeSet.ext_mem fun mac => by
      rw [ExtTreeSet.mem_ofList, List.contains_iff_mem, ExtTreeSet.mem_toList]
  rw [hsame]

/-! ## The destinations that are advertised -/

namespace Advertiser

variable {destinations : ExtTreeSet DlepMac} {mac : DlepMac}

/-- An address that comes to be advertised is one that a peer has given. -/
theorem mem_foldl_apply {events : List Event} (h : mac ∈ events.foldl apply destinations) :
    mac ∈ destinations ∨ .addDestination mac ∈ events := by
  induction events generalizing destinations with
  | nil => exact .inl h
  | cons e events ih =>
    rcases ih h with hmem | hmem
    · cases e with
      | addDestination mac' =>
        rcases eq_or_ne mac' mac with rfl | hne
        · exact .inr List.mem_cons_self
        · refine .inl ?_
          simpa [apply, addDestination, hne] using hmem
      | clearDestinations => exact absurd hmem ExtTreeSet.not_mem_empty
      | _ => exact .inl hmem
    · exact .inr (List.mem_cons_of_mem _ hmem)

/-- A new event is in the trace of a peer. -/
theorem mem_trace_of_mem_newEvents {e : Event} {qs ps : List Peer} (h : e ∈ newEvents qs ps) :
    ∃ p ∈ ps, e ∈ p.trace := by
  induction ps generalizing qs with
  | nil =>
    cases qs <;> cases h
  | cons p ps ih =>
    have hrest : ∀ {qs : List Peer}, e ∈ newEvents qs ps → ∃ p' ∈ p :: ps, e ∈ p'.trace := by
      intro qs hmem
      obtain ⟨p', hp', he⟩ := ih hmem
      exact ⟨p', List.mem_cons_of_mem _ hp', he⟩
    cases qs with
    | nil =>
      rcases List.mem_append.1 h with hmem | hmem
      · exact ⟨p, List.mem_cons_self, hmem⟩
      · exact hrest hmem
    | cons q qs =>
      rcases List.mem_append.1 h with hmem | hmem
      · exact ⟨p, List.mem_cons_self, List.mem_of_mem_drop hmem⟩
      · exact hrest hmem

section

variable [AddressText] {m : Advertiser} {st : DestAdvert.Step} {codec : AdvertCodec}
    {s : Surroundings}
  {buf : Bytes}

/-- A destination that a step adds to what is advertised was added by a peer of the node. -/
theorem mem_destinations_step (h : mac ∈ (m.step st).destinations) :
    mac ∈ m.destinations ∨ ∃ p ∈ (m.step st).advert.node.objects,
      .addDestination mac ∈ p.trace := by
  rcases mem_foldl_apply h with hold | hnew
  · exact .inl hold
  · exact .inr (mem_trace_of_mem_newEvents hnew)

/-- A destination that an advertisement adds to what is advertised was added by a peer of the
node. -/
theorem mem_destinations_handleMessage (h : mac ∈ (handleMessage codec m s buf).destinations) :
    mac ∈ m.destinations ∨
      ∃ p ∈ (handleMessage codec m s buf).advert.node.objects, .addDestination mac ∈ p.trace := by
  unfold handleMessage at h ⊢
  split at h
  · exact .inl h
  · next hne =>
    rw [if_neg hne]
    split at h
    · exact mem_destinations_step h
    · exact .inl h

/-- What is heard is kept if it was read of a message. -/
theorem keeps_party_hear {H : DestAdvertInfo → Prop}
    (h : ∀ info, buf ≠ [] → unbuildDestinationAdvert codec buf = some info → H info) :
    DestAdvert.Keeps H m.advert (handleMessage codec m s buf).advert := by
  unfold handleMessage
  split
  · exact id
  · next hne =>
    split
    · next info hinfo =>
      refine DestAdvert.keeps_step (fun info' heq => ?_) m.advert
      rw [← DestAdvert.Input.advertisement.inj heq]
      exact h info hne hinfo
    · exact id

end

/-! ## Runs of the modems -/

/-- A modem that has destination advertisement, and has not heard of anything yet. -/
structure Fresh (m : Advertiser) : Prop where
  enabled : m.advert.node.destAdvertEnabled = true
  table : m.advert.destAdvertDb = ∅
  has : m.advert.node.has = ∅
  destinations : m.destinations = ∅

section

variable [AddressText] {ι : Type} [DecidableEq ι] {codec : AdvertCodec}
  {net : Broadcast.Net ι Advertiser Bytes}
  {inputs : List (Broadcast.Input ι Happening Surroundings)}

/-- What is read of a message is what a modem advertised when it sent it. -/
theorem exists_info_of_uttered {info : DestAdvertInfo} {buf : Bytes} (hcodec : codec.RoundTrips)
    (h : Broadcast.Uttered (party codec) net inputs buf) (hne : buf ≠ [])
    (hread : unbuildDestinationAdvert codec buf = some info) :
    ∃ pre j, pre <+: inputs ∧
      ((run (Broadcast.step (party codec)) net pre).states j).info = info := by
  obtain ⟨pre, j, e, hpre, hsaid⟩ := h
  refine ⟨pre, j, (List.prefix_append ..).trans hpre, ?_⟩
  generalize (run (Broadcast.step (party codec)) net pre).states j = m at hsaid ⊢
  cases e with
  | node st hst => cases hsaid
  | sendTimeout uptime =>
    obtain rfl := Option.some.inj hsaid
    have hbuild : buildDestinationAdvert codec m.info uptime (m.seqNum + 1) =
        some (m.getMessageToSend codec uptime).2 := by
      cases hbuf : buildDestinationAdvert codec m.info uptime (m.seqNum + 1) with
      | none =>
        refine absurd ?_ hne
        change (buildDestinationAdvert codec m.info uptime (m.seqNum + 1)).getD [] = []
        rw [hbuf, Option.getD_none]
      | some buf =>
        change some buf = some ((buildDestinationAdvert codec m.info uptime (m.seqNum + 1)).getD [])
        rw [hbuf, Option.getD_some]
    exact Option.some.inj ((unbuild_build hcodec hbuild).symm.trans hread)

/-- In every run, the tables and the nodes are grounded in what was said before. -/
theorem grounded_of_run (hfresh : ∀ i, Fresh (net.states i)) (hair : net.air = []) (i : ι) :
    DestAdvert.Grounded
      (fun info => ∃ buf, buf ≠ [] ∧ Broadcast.Uttered (party codec) net inputs buf ∧
        unbuildDestinationAdvert codec buf = some info)
      ((run (Broadcast.step (party codec)) net inputs).states i).advert := by
  refine Broadcast.holds_of_run (I := fun T _ m => DestAdvert.Grounded
    (fun info => ∃ buf, buf ≠ [] ∧ T buf ∧ unbuildDestinationAdvert codec buf = some info) m.advert)
    ?_ ?_ ?_ hair ?_ i
  · intro T T' i m hTT' hm
    refine hm.mono ?_
    rintro info ⟨buf, hne, hbuf, hread⟩
    exact ⟨buf, hne, hTT' buf hbuf, hread⟩
  · intro T i m e hm
    cases e with
    | node st hst => exact DestAdvert.keeps_step (fun info hinput => absurd hinput (hst info)) _ hm
    | sendTimeout uptime => exact hm
  · intro T i m s buf hbuf hm
    exact keeps_party_hear (fun info hne hread => ⟨buf, hne, hbuf, hread⟩) hm
  · intro T i
    refine ⟨(hfresh i).enabled, fun rfId entry hentry => ?_, fun mac hmac => ?_⟩
    · rw [(hfresh i).table] at hentry
      simp at hentry
    · rw [(hfresh i).has] at hmac
      cases hmac

/-- However the messages are lost, delayed, repeated or reordered: an entry of a table is what the
modem of its RF ID advertised at some moment of the run, or nothing has been heard for it. -/
theorem advertised_of_run (hcodec : codec.RoundTrips) (hfresh : ∀ i, Fresh (net.states i))
    (hair : net.air = []) (i : ι) (rfId : DlepMac) (entry : DestAdvertDBEntry)
    (hentry :
      ((run (Broadcast.step (party codec)) net inputs).states i).advert.destAdvertDb[rfId]? =
      some entry) :
    entry.info = {} ∨ ∃ pre j, pre <+: inputs ∧
      ((run (Broadcast.step (party codec)) net pre).states j).localRfid = rfId ∧
      ((run (Broadcast.step (party codec)) net pre).states j).info = entry.info := by
  rcases (grounded_of_run hfresh hair i).entries rfId entry hentry with
    hempty | ⟨hrfId, buf, hne, hsaid, hread⟩
  · exact .inl hempty
  · obtain ⟨pre, j, hpre, hinfo⟩ := exists_info_of_uttered hcodec hsaid hne hread
    refine .inr ⟨pre, j, hpre, ?_, hinfo⟩
    rw [← hrfId, ← hinfo]
    rfl

/-- What a modem advertises was given by one of its peers. -/
theorem exists_trace_of_mem_destinations (hfresh : ∀ i, Fresh (net.states i)) {j : ι}
    (h : mac ∈ ((run (Broadcast.step (party codec)) net inputs).states j).destinations) :
    ∃ pre, pre <+: inputs ∧
      ∃ p ∈ ((run (Broadcast.step (party codec)) net pre).states j).advert.node.objects,
        .addDestination mac ∈ p.trace := by
  have hnot : mac ∉ (net.states j).destinations := by
    rw [(hfresh j).destinations]
    exact ExtTreeSet.not_mem_empty
  obtain ⟨pre, input, hpre, hbefore, hthen⟩ := exists_step_of_run
    (I := fun net : Broadcast.Net ι Advertiser Bytes => mac ∈ (net.states j).destinations) hnot h
  refine ⟨pre ++ [input], hpre, ?_⟩
  rw [Broadcast.run_concat]
  generalize run (Broadcast.step (party codec)) net pre = net' at hbefore hthen ⊢
  cases input with
  | act i e =>
    simp only [Broadcast.step, Function.update_apply] at hthen ⊢
    split at hthen
    · next hij =>
      subst hij
      rw [if_pos rfl]
      cases e with
      | node st hst => exact (mem_destinations_step hthen).resolve_left hbefore
      | sendTimeout uptime => exact absurd hthen hbefore
    · exact absurd hthen hbefore
  | hear i s k =>
    simp only [Broadcast.step] at hthen ⊢
    split at hthen
    · next buf hk =>
      simp only [Function.update_apply] at hthen ⊢
      split at hthen
      · next hij =>
        subst hij
        rw [if_pos rfl]
        exact (mem_destinations_handleMessage hthen).resolve_left hbefore
      · exact absurd hthen hbefore
    · exact absurd hthen hbefore

/-- The destinations of a modem are addresses of routers: each was given by a peer of a modem, at
some moment of the run. -/
theorem routers_of_run (hcodec : codec.RoundTrips) (hfresh : ∀ i, Fresh (net.states i))
    (hair : net.air = []) (i : ι) :
    ∀ mac ∈ ((run (Broadcast.step (party codec)) net inputs).states i).advert.node.has,
      ∃ pre j, pre <+: inputs ∧
        ∃ p ∈ ((run (Broadcast.step (party codec)) net pre).states j).advert.node.objects,
          .addDestination mac ∈ p.trace := by
  intro mac hmac
  obtain ⟨info, ⟨buf, hne, hsaid, hread⟩, hmem⟩ := (grounded_of_run hfresh hair i).has mac hmac
  obtain ⟨pre, j, hpre, rfl⟩ := exists_info_of_uttered hcodec hsaid hne hread
  obtain ⟨pre', hpre', hpeer⟩ := exists_trace_of_mem_destinations hfresh hmem
  exact ⟨pre', j, hpre'.trans hpre, hpeer⟩

end

/-! ## Two modems, and a router -/

def routerMac : DlepMac := [2, 0, 0, 0, 0, 9]

/-- The advertisement of the router. -/
def routerAdvertisement : DestinationAdvertisement where
  reportinterval := 10
  sequencenumber := 1
  uptimeinseconds := 5
  localid := [1]
  destinations := [routerMac]

def routerAdvertisementBytes : Bytes :=
  [8, 10, 16, 1, 24, 5, 34, 1, 1, 42, 6, 2, 0, 0, 0, 0, 9]

/-- The generated code, for this one message. -/
def routerCodec : AdvertCodec where
  serializeToString da := if da = routerAdvertisement then some routerAdvertisementBytes else none
  parseFromArray buf := if buf = routerAdvertisementBytes then some routerAdvertisement else none

/-- The sample code reads what it writes. -/
theorem routerCodec_roundTrips : routerCodec.RoundTrips := by
  intro da buf h
  simp only [routerCodec] at h ⊢
  split at h
  · next hda =>
    obtain rfl := Option.some.inj h
    rw [if_pos rfl, hda]
  · cases h

/-- The RF IDs of the modems are 1 and 2. -/
def twoModems : Broadcast.Net Bool Advertiser Bytes where
  states second :=
    { advert :=
        { node :=
            { cfg := rfc8175
              modem := true
              destAdvertEnabled := true
              localPdp := { peerId := str "local" } } }
      sendInterval := 10
      localRfid := if second then [2] else [1] }

/-- Neither of the sample modems has heard of anything. -/
theorem fresh_twoModems (i : Bool) : Fresh (twoModems.states i) where
  enabled := rfl
  table := rfl
  has := by
    refine Set.eq_empty_of_forall_notMem fun mac hmac => ?_
    change PeerData.validDestination { peerId := str "local" } mac = true at hmac
    simp [PeerData.validDestination] at hmac
  destinations := rfl

/-- The first modem gets a session and advertises the router; the second one hears of it, after
its client has brought up the first. -/
def routerHeard : List (Broadcast.Input Bool Happening Surroundings) :=
  let s : Surroundings := { Peer.bareSurroundings with peerMac := some routerMac }
  [.act false (.node ⟨s, .connect (str "peer")⟩ (by simp)),
    .act false (.node ⟨s, .peer 0 (.receive Peer.sessionInitialization)⟩ (by simp)),
    .act false (.node ⟨s, .peer 0 .message⟩ (by simp)),
    .act false (.sendTimeout 5),
    .act true (.node ⟨s, .destinationUp [1] []⟩ (by simp)),
    .hear true s 0]

attribute [local instance] plainText

/-- The second modem has an entry for the first, and the first has advertised it. -/
theorem advertised_of_run_routerHeard : ∃ entry : DestAdvertDBEntry,
    ((run (Broadcast.step (party routerCodec)) twoModems routerHeard).states
      true).advert.destAdvertDb[
      ([1] : DlepMac)]? = some entry ∧ entry.info.destinations.toList = [routerMac] ∧
    (entry.info = {} ∨ ∃ pre j, pre <+: routerHeard ∧
      ((run (Broadcast.step (party routerCodec)) twoModems pre).states j).localRfid = [1] ∧
      ((run (Broadcast.step (party routerCodec)) twoModems pre).states j).info = entry.info) := by
  have hheard : (((run (Broadcast.step (party routerCodec)) twoModems routerHeard).states
      true).advert.destAdvertDb[([1] : DlepMac)]?.map fun entry => entry.info.destinations.toList) =
        some [routerMac] := by decide +kernel
  obtain ⟨entry, hentry, hdests⟩ := Option.map_eq_some_iff.1 hheard
  exact ⟨entry, hentry, hdests,
    advertised_of_run routerCodec_roundTrips fresh_twoModems rfl true [1] entry
    hentry⟩

/-- The router that is advertised is a destination of a peer of one of the modems. -/
theorem routers_of_run_routerHeard : ∃ pre j, pre <+: routerHeard ∧
    ∃ p ∈ ((run (Broadcast.step (party routerCodec)) twoModems pre).states j).advert.node.objects,
      .addDestination routerMac ∈ p.trace := by
  have hhas : ((run (Broadcast.step (party routerCodec)) twoModems routerHeard).states
      true).advert.node.localPdp.validDestination routerMac = true := by decide +kernel
  exact routers_of_run routerCodec_roundTrips fresh_twoModems rfl true routerMac hhas

end Advertiser

end Dlep
