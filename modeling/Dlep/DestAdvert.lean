import Dlep.Node

/-!
# Destination advertisement

Modems tell each other over the air which destinations they stand for. The table of the
advertisements maps the name of a remote modem, its RF ID, to what the modem has advertised and to
what the client of this modem has said of it. The destinations of a remote modem that is up are
destinations of this node. The message itself, which is built and parsed by a generated library,
and the sending of the own advertisement are outside.
-/

namespace Dlep

open Std Calls Runs

/-- The parts of a received advertisement that are used. Source: `DestAdvertInfo`
(`DestAdvertInfo.h:26`). -/
structure DestAdvertInfo where
  reportInterval : UInt32 := 0
  rfId : DlepMac := []
  destinations : ExtTreeSet DlepMac := ∅

/-- Source: `DestAdvertDBEntry` (`DestAdvertDataBase.h:24`). -/
structure DestAdvertDBEntry where
  timestamp : Nat
  up : Bool
  placeholder : Bool
  info : DestAdvertInfo
  dataItems : DataItems

/-- A node with its table of advertisements. -/
structure DestAdvert where
  node : Node
  destAdvertDb : ExtTreeMap DlepMac DestAdvertDBEntry := ∅

/-- A call on a node with its table. -/
abbrev DestAdvertM := EStateM Exn DestAdvert

/-- What is in `A` and not in `B`. Source: `getDifference` (`DlepMac.h:50`). -/
def getDifference (A B : ExtTreeSet DlepMac) : List DlepMac :=
  A.toList.filter fun a => !B.contains a

namespace DestAdvertDBEntry

/-- What the service reads of an entry. -/
def advert (entry : DestAdvertDBEntry) : AdvertEntry where
  up := entry.up
  destinations := entry.info.destinations.toList

/-- The age of an entry, by a clock that may go back. -/
def age (now : Nat) (entry : DestAdvertDBEntry) : Int := now - entry.timestamp

/-- Is the entry a placeholder that has been held long enough? (`DestAdvert.cpp:371`) -/
def isHeld (holdInterval : UInt32) (now : Nat) (entry : DestAdvertDBEntry) : Bool :=
  holdInterval > 0 ∧ entry.placeholder ∧ entry.up ∧ entry.age now ≥ holdInterval.toNat

/-- Has the advertisement expired? The product is one of `unsigned int` (`DestAdvert.cpp:388`). -/
def isExpired (expireCount : UInt32) (now : Nat) (entry : DestAdvertDBEntry) : Bool :=
  expireCount > 0 ∧ entry.age now ≥ (expireCount * entry.info.reportInterval).toNat

end DestAdvertDBEntry

namespace DestAdvert

/-- A call on the node. -/
def onNode {α : Type} (m : NodeM α) : DestAdvertM α := zoom node (fun node a => { a with node }) m

/-- Source: `DestAdvert::add_advert_entry` (`DestAdvert.cpp:232`). -/
def addAdvertEntry (rfId : DlepMac) (entry : DestAdvertDBEntry) : DestAdvertM Unit :=
  modify fun a => { a with destAdvertDb := a.destAdvertDb.insert rfId entry }

/-- Change an entry, if it is there. -/
def updateEntry (rfId : DlepMac) (f : DestAdvertDBEntry → DestAdvertDBEntry) : DestAdvertM Unit :=
  modify fun a => { a with destAdvertDb := a.destAdvertDb.modify rfId f }

/-- Source: `DestAdvert::update_advert_entry_data_items` (`DestAdvert.cpp:273`). -/
def updateAdvertEntryDataItems (rfId : DlepMac) (dataItems : DataItems) : DestAdvertM Unit :=
  updateEntry rfId fun entry => { entry with dataItems }

/-- Source: `DestAdvert::update_advert_entry_state` (`DestAdvert.cpp:297`). -/
def updateAdvertEntryState (rfId : DlepMac) (up : Bool) : DestAdvertM Unit :=
  updateEntry rfId fun entry => { entry with up }

/-- `dest_advert_db.erase`. -/
def eraseEntry (rfId : DlepMac) : DestAdvertM Unit :=
  modify fun a => { a with destAdvertDb := a.destAdvertDb.erase rfId }

section

variable [AddressText] (s : Surroundings)

/-- The destinations that an advertisement adds to a remote modem that is up, and those that it
deletes (`DestAdvert.cpp:150`). -/
def changeDestinations (entry : DestAdvertDBEntry) (info : DestAdvertInfo) : NodeM Unit := do
  (getDifference info.destinations entry.info.destinations).forM fun mac => do
    let _ ← Node.addDestination s mac entry.dataItems
  (getDifference entry.info.destinations info.destinations).forM fun mac => do
    let _ ← Node.removeDestination s mac []

/-- Source: `DestAdvert::handle_message` (`DestAdvert.cpp:89`), for an advertisement that could be
parsed. -/
def handleMessage (info : DestAdvertInfo) : DestAdvertM Unit := do
  match (← get).destAdvertDb[info.rfId]? with
  | none =>
    addAdvertEntry info.rfId
      { timestamp := s.now, up := false, placeholder := false, info, dataItems := [] }
  | some entry =>
    updateEntry info.rfId fun entry => { entry with timestamp := s.now }
    if entry.up then onNode (changeDestinations s entry info) else pure ()
    updateEntry info.rfId fun entry => { entry with info }

/-- Source: `DlepServiceImpl::destination_up` (`DlepServiceImpl.cpp:43`), with the table. -/
def destinationUp (mac : DlepMac) (items : DataItems) : DestAdvertM ReturnStatus := do
  let a ← get
  if a.node.destAdvertEnabled then
    match a.destAdvertDb[mac]? with
    | some entry =>
      updateAdvertEntryDataItems mac items
      let status ← onNode (Node.destinationUp s (some entry.advert) mac items)
      if entry.up then return status
      else
        updateAdvertEntryState mac true
        return status
    | none =>
      addAdvertEntry mac
        { timestamp := s.now, up := true, placeholder := true, info := {}, dataItems := items }
      onNode (Node.destinationUp s none mac items)
  else onNode (Node.destinationUp s none mac items)

/-- Source: `DlepServiceImpl::destination_update` (`DlepServiceImpl.cpp:112`), with the table. -/
def destinationUpdate (mac : DlepMac) (items : DataItems) : DestAdvertM ReturnStatus := do
  let a ← get
  if a.node.destAdvertEnabled then
    match a.destAdvertDb[mac]? with
    | some entry =>
      updateAdvertEntryDataItems mac items
      onNode (Node.destinationUpdate (some entry.advert) mac items)
    | none => onNode (Node.destinationUpdate none mac items)
  else onNode (Node.destinationUpdate none mac items)

/-- Source: `DlepServiceImpl::destination_down` (`DlepServiceImpl.cpp:185`), with the table. -/
def destinationDown (mac : DlepMac) (items : DataItems) : DestAdvertM ReturnStatus := do
  let a ← get
  if a.node.destAdvertEnabled then
    match a.destAdvertDb[mac]? with
    | some entry =>
      let status ← onNode (Node.destinationDown s (some entry.advert) mac items)
      if entry.up then
        updateAdvertEntryState mac false
        return status
      else return status
    | none => onNode (Node.destinationDown s none mac items)
  else onNode (Node.destinationDown s none mac items)

/-- One entry of the loop of `handle_purge_advert_timeout` (`DestAdvert.cpp:364`). An entry that
was held long enough is erased as it is; only an expired one takes its destinations with it. -/
def purgeEntry (holdInterval expireCount : UInt32) (rfId : DlepMac) : DestAdvertM Unit := do
  match (← get).destAdvertDb[rfId]? with
  | none => pure ()
  | some entry =>
    if entry.isHeld holdInterval s.now then eraseEntry rfId
    else if entry.isExpired expireCount s.now then
      if entry.up then
        onNode (entry.info.destinations.toList.forM fun mac => do
          let _ ← Node.removeDestination s mac [])
      else pure ()
      eraseEntry rfId
    else pure ()

/-- Source: `DestAdvert::handle_purge_advert_timeout` (`DestAdvert.cpp:336`), for a timer that has
expired. -/
def handlePurgeAdvertTimeout (holdInterval expireCount : UInt32) : DestAdvertM Unit := do
  (← get).destAdvertDb.keys.forM (purgeEntry s holdInterval expireCount)

end

/-! ## Runs -/

/-- What happens to a node with its table: what happens to its peers, an advertisement that
arrives, a call of the client by RF ID, or the timer of the table. -/
inductive Input where
  | connect (peerId : PeerId)
  | peer (i : Nat) (occasion : Node.Occasion)
  | cleanup
  | advertisement (info : DestAdvertInfo)
  | destinationUp (rfId : DlepMac) (items : DataItems)
  | destinationUpdate (rfId : DlepMac) (items : DataItems)
  | destinationDown (rfId : DlepMac) (items : DataItems)
  | purge (holdInterval expireCount : UInt32)

/-- An input, and the surroundings meanwhile. -/
structure Step where
  s : Surroundings
  input : Input

section

variable [AddressText]

/-- The call that an input is. -/
def Step.call (st : Step) : DestAdvertM Unit :=
  match st.input with
  | .connect peerId => onNode (Node.handleAsyncMakePeer st.s peerId)
  | .peer i occasion => onNode (Node.onPeer i fun d => Peer.Step.call ⟨d, st.s, occasion.input⟩)
  | .cleanup => onNode Node.cleanupExPeers
  | .advertisement info => handleMessage st.s info
  | .destinationUp rfId items => do let _ ← DestAdvert.destinationUp st.s rfId items
  | .destinationUpdate rfId items => do let _ ← DestAdvert.destinationUpdate rfId items
  | .destinationDown rfId items => do let _ ← DestAdvert.destinationDown st.s rfId items
  | .purge holdInterval expireCount => handlePurgeAdvertTimeout st.s holdInterval expireCount

/-- The state after a step. -/
def step (a : DestAdvert) (st : Step) : DestAdvert := after st.call a

end

end DestAdvert

end Dlep
