import Dlep.Peer.Run

/-!
# The standing of a peer

The standing is what the rest of the node sees of a peer: its name, the state of its session,
whether the information base lists it, and the extensions that are agreed on. Only the end of a
session and the handshake write it. So a relation between states that overlooks everything else
contains every step, if it contains the part of the step that writes the standing; this is proved
once, for all such relations. Which part that is can be told before the step is taken, and is
called the fate of the peer.
-/

namespace Dlep

open Std Calls

namespace Peer

/-- What the rest of the node sees of a peer. -/
structure Standing where
  peerId : PeerId
  pstate : PeerState
  registered : Bool
  mutualExtensions : List ExtensionIdType

def standing (p : Peer) : Standing where
  peerId := p.peerId
  pstate := p.pstate
  registered := p.registered
  mutualExtensions := p.mutualExtensions

/-- The relation contains everything that leaves the standing as it is. -/
class Overlooks (R : Peer → Peer → Prop) : Prop extends Std.Refl R, IsTrans Peer R where
  other : ∀ p q, q.standing = p.standing → R p q

/-- The standing is the same. -/
def SameStanding (p q : Peer) : Prop := q.standing = p.standing

instance : Overlooks SameStanding where
  refl _ := rfl
  trans _ _ _ h h' := Eq.trans h' h
  other _ _ h := h

/-- What a step does to the standing of a peer. -/
inductive Fate where
  | stays
  /-- `terminate` is called. -/
  | ends (status : String) (reason : Bytes)
  /-- The session is over, and the peer is not told. -/
  | stops
  /-- The handshake is completed. -/
  | opens
  deriving DecidableEq

/-- The relation contains what the fate brings. -/
def Fate.Within [AddressText] (R : Peer → Peer → Prop) (d : DlepView) (s : Surroundings) :
    Fate → Prop
  | .stays => True
  | .ends status reason => Calls.Within R (terminate d s status reason)
  | .stops => Calls.Within R (stopPeer d)
  | .opens => Calls.Within R (setState .inSession) ∧
      ∀ pm, Calls.Within R (addMutualExtensions d pm) ∧ Calls.Within R (setMutualExtensions d pm)

/-! ## Calls that leave the standing as it is -/

section

variable {R : Peer → Peer → Prop} [overlooks : Overlooks R]

include overlooks

/-- Writing other fields keeps the standing. -/
theorem overlooks_modify {f : Peer → Peer} (h : ∀ p, (f p).standing = p.standing) :
    Within R (modify f : PeerM Unit) :=
  within_modify fun p => Overlooks.other p (f p) (h p)

/-- The history is not part of the standing. -/
theorem overlooks_emit {e : Event} : Within R (emit e) := overlooks_modify fun _ => rfl

/-- The data of the peer are not part of its standing. -/
theorem overlooks_onPdp {α : Type} {m : EStateM Exn PeerData α} : Within R (onPdp m) :=
  within_zoom fun p => Overlooks.other p _ rfl

/-- The queues are not part of the standing. -/
theorem overlooks_sendIfHead {now : Nat} {rp : ResponsePending} : Within R (sendIfHead now rp) := by
  refine within_bind within_get fun _ => ?_
  split
  · exact within_ite (fun _ => overlooks_modify fun _ => rfl) fun _ => within_pure
  · exact within_throw

/-- The queues are not part of the standing. -/
theorem overlooks_sendMessageExpectingResponse {now : Nat} {rp : ResponsePending} :
    Within R (sendMessageExpectingResponse now rp) := by
  refine within_bind within_get fun _ => within_ite (fun _ => within_pure) fun _ => ?_
  refine within_bind ?_ fun _ => overlooks_sendIfHead
  exact within_ite (fun _ => within_pure) fun _ => overlooks_modify fun _ => rfl

/-- Sending a request keeps the standing. -/
theorem overlooks_sendRequest {cfg : ProtocolConfig} {now : Nat} {pm : ProtocolMessage} :
    Within R (sendRequest cfg now pm) := by
  refine within_bind within_lift fun _ => within_bind within_get fun _ => ?_
  refine within_bind (overlooks_modify fun _ => rfl) fun _ => ?_
  exact overlooks_sendMessageExpectingResponse

/-- Accepting a response keeps the standing. -/
theorem overlooks_acceptResponse {s : Surroundings} {pm : ProtocolMessage} {mac : DlepMac} :
    Within R (acceptResponse s pm mac) := by
  refine within_bind within_get fun _ => ?_
  split
  · exact within_pure
  · exact within_throw
  · next rp rest _ =>
    split
    · exact within_pure
    · refine within_ite (fun _ => within_bind ?_ fun _ => within_pure) fun _ => within_pure
      cases rest with
      | nil => exact overlooks_modify fun _ => rfl
      | cons next rest =>
        refine within_bind (overlooks_modify fun _ => rfl) fun _ => ?_
        exact overlooks_sendMessageExpectingResponse

/-- A heartbeat keeps the standing. -/
theorem overlooks_handleHeartbeatTimeout : Within R handleHeartbeatTimeout := by
  refine within_bind within_get fun _ => within_ite (fun _ => ?_) fun _ => within_pure
  exact overlooks_emit

/-- What is remembered of the peer is not part of the standing. -/
theorem overlooks_storePeerProperties {d : DlepView} {pm : ProtocolMessage} :
    Within R (storePeerProperties d pm) := by
  refine within_bind ?_ fun _ => within_bind ?_ fun _ => ?_
  · refine within_bind within_lift fun peerType => ?_
    cases peerType with
    | some _ => exact overlooks_modify fun _ => rfl
    | none => exact within_pure
  · unfold storeExperimentNames
    split
    · exact overlooks_modify fun _ => rfl
    · exact within_pure
    · exact within_pure
    · exact within_throw
  · refine within_bind within_lift fun _ => ?_
    refine within_bind (overlooks_modify fun _ => rfl) fun _ => ?_
    exact within_bind within_lift fun _ => overlooks_modify fun _ => rfl

/-- Advertising a router keeps its standing. -/
theorem overlooks_advertisePeer {d : DlepView} {s : Surroundings} :
    Within R (advertisePeer d s) := by
  refine within_ite (fun _ => ?_) fun _ => within_pure
  split
  · exact overlooks_emit
  · exact within_pure

section

variable [AddressText] {d : DlepView} {s : Surroundings}

/-- Sending a response keeps the standing. -/
theorem overlooks_sendSimpleResponse {name status : String} {message : Bytes}
    {mac : Option DlepMac} :
    Within R (sendSimpleResponse d s name status message mac) := by
  refine within_ite (fun _ => ?_) fun _ => within_pure
  exact within_bind within_lift fun _ => overlooks_emit

/-- Telling the peer that a destination is up keeps its standing. -/
theorem overlooks_destinationUp {mac : DlepMac} {items : DataItems} :
    Within R (destinationUp d s mac items) := by
  refine within_bind within_get fun _ => within_ite (fun _ => ?_) fun _ => ?_
  · refine within_bind (overlooks_modify fun _ => rfl) fun _ => ?_
    exact within_bind within_lift fun _ => overlooks_emit
  · exact within_bind within_lift fun _ => overlooks_sendRequest

/-- Telling the peer that a destination is down keeps its standing. -/
theorem overlooks_destinationDown {mac : DlepMac} {items : DataItems} :
    Within R (destinationDown d s mac items) :=
  within_bind within_lift fun _ => overlooks_sendRequest

/-- Telling the peer of an update keeps its standing. -/
theorem overlooks_destinationUpdate {mac : DlepMac} {items : DataItems} :
    Within R (destinationUpdate d mac items) := by
  refine within_bind within_get fun _ => within_ite (fun _ => within_pure) fun _ => ?_
  exact within_bind within_lift fun _ => overlooks_emit

/-- Telling the peer of a session update keeps its standing. -/
theorem overlooks_peerUpdate {items : DataItems} : Within R (peerUpdate d s items) := by
  refine within_bind within_get fun _ => within_ite (fun _ => ?_) fun _ => within_pure
  exact within_bind within_lift fun _ => within_bind overlooks_sendRequest fun _ => within_pure

/-- Asking the peer about a link keeps its standing. -/
theorem overlooks_linkCharacteristicsRequest {mac : DlepMac} {items : DataItems} :
    Within R (linkCharacteristicsRequest d s mac items) :=
  within_bind within_lift fun _ => overlooks_sendRequest

/-- Answering the peer about a link keeps its standing. -/
theorem overlooks_linkCharacteristicsResponse {mac : DlepMac} {items : DataItems} :
    Within R (linkCharacteristicsResponse d s mac items) := by
  refine within_ite (fun _ => ?_) fun _ => within_pure
  exact within_bind within_lift fun _ => overlooks_emit

/-- Asking the client about a message keeps the standing. -/
theorem overlooks_letClientModify {pm : ProtocolMessage} : Within R (letClientModify d s pm) := by
  refine within_bind within_get fun _ => within_bind overlooks_emit fun _ => ?_
  split
  · exact within_pure
  · exact within_bind within_lift fun _ => within_pure

/-- Starting a peer keeps its standing. -/
theorem overlooks_startPeer : Within R (startPeer d s) := by
  refine within_bind within_lift fun _ => within_bind (overlooks_modify fun _ => rfl) fun _ => ?_
  refine within_ite (fun _ => within_pure) fun _ => within_bind within_lift fun _ => ?_
  exact within_bind overlooks_letClientModify fun _ => overlooks_sendRequest

/-- Answering an opening keeps the standing. -/
theorem overlooks_sendPeerInitializationResponse :
    Within R (sendPeerInitializationResponse d s) := by
  refine within_bind within_get fun _ => within_bind within_lift fun _ => ?_
  refine within_bind overlooks_letClientModify fun _ => within_ite (fun _ => ?_) fun _ =>
    within_pure
  exact overlooks_emit

/-- Of what is done when the session opens, only the state matters. -/
theorem overlooks_enterSession {info : Peer → PeerInfo}
    (hopen : Within R (setState .inSession)) : Within R (enterSession d s info) := by
  refine within_bind hopen fun _ => within_bind within_get fun _ => ?_
  refine within_bind overlooks_emit fun _ => within_forM fun _ _ => ?_
  exact overlooks_destinationUp

/-- Storing a destination keeps the standing. -/
theorem overlooks_admitDestination {mac : DlepMac} {items : DataItems} :
    Within R (admitDestination d s mac items) := by
  refine within_bind (overlooks_modify fun _ => rfl) fun _ => within_bind ?_ fun _ => ?_
  · exact within_bind within_get fun _ => within_bind overlooks_emit fun _ => within_pure
  · refine within_ite (fun _ => within_bind ?_ fun _ => within_pure) fun _ => within_pure
    exact within_bind overlooks_onPdp fun _ => within_lift

/-- Answering about a destination keeps the standing. -/
theorem overlooks_answerUp {name status : String} {mac : DlepMac} :
    Within R (answerUp d s name status mac) := by
  refine within_bind within_lift fun _ => within_ite (fun _ => ?_) fun _ => within_pure
  exact overlooks_sendSimpleResponse

/-- The handler of announcements keeps the standing. -/
theorem overlooks_handleDestinationAnnounce {pm : ProtocolMessage} :
    Within R (handleDestinationAnnounce d s pm) := by
  have hanswer : ∀ responseName status mac,
      Within R (answerAnnounce d s responseName status mac) := by
    intro responseName status mac
    refine within_ite (fun _ => ?_) fun _ => overlooks_sendSimpleResponse
    exact overlooks_modify fun _ => rfl
  refine within_bind within_lift fun _ => within_bind within_lift fun _ => ?_
  refine within_bind within_lift fun _ => within_bind within_lift fun _ => ?_
  refine within_bind within_get fun _ => within_ite (fun _ => hanswer _ _ _) fun _ => ?_
  refine within_bind (overlooks_modify fun _ => rfl) fun _ => ?_
  refine within_bind (within_bind overlooks_onPdp fun _ => within_lift) fun _ => ?_
  split
  · refine within_bind (overlooks_modify fun _ => rfl) fun _ => ?_
    exact overlooks_destinationUp
  · refine within_bind ?_ fun _ => hanswer _ _ _
    exact within_bind within_get fun _ => within_bind overlooks_emit fun _ => within_pure

end

end

/-- The handshake writes the extensions, in either role. -/
theorem within_mutualExtensions {R : Peer → Peer → Prop} [Std.Refl R]
    [IsTrans Peer R] {d : DlepView}
    (h : ∀ (p : Peer) extensions, R p { p with mutualExtensions := extensions })
    (pm : ProtocolMessage) :
    Within R (addMutualExtensions d pm) ∧ Within R (setMutualExtensions d pm) := by
  refine ⟨within_bind within_lift fun extensions => ?_,
    within_bind within_lift fun extensions => ?_⟩
  · cases extensions with
    | some extensions => exact within_modify fun p => h p _
    | none => exact within_pure
  · cases extensions with
    | some extensions => exact within_modify fun p => h p _
    | none => exact within_pure

/-! ## The end of a session -/

/-- The end of a session writes the state, and nothing else of the standing. -/
theorem standing_stopPeer {d : DlepView} (p : Peer) :
    wp (stopPeer d) (fun _ q => q.standing = { p.standing with pstate := .terminating })
      (fun _ _ => False) p := by
  simp only [stopPeer, setStateTerminating, setState, callClient, emit, wp_bind, wp_get]
  split
  · next hstate =>
    rw [← hstate]
    rfl
  · simp only [wp_bind, wp_modify]
    split
    · rfl
    · rfl

/-- Before `terminate` returns, or if it throws, the peer may be listed yet. -/
theorem standing_terminate [AddressText] {d : DlepView} {s : Surroundings} {status : String}
    {reason : Bytes} (p : Peer) :
    wp (terminate d s status reason)
      (fun _ q => if p.pstate = .terminating then q = p
        else q.standing = { p.standing with pstate := .terminating, registered := false })
      (fun _ q => p.pstate ≠ .terminating ∧ q.standing = { p.standing with pstate := .terminating })
      p := by
  simp only [terminate, wp_bind, wp_get]
  split
  · rfl
  · next hstate =>
    rw [wp_bind]
    refine (standing_stopPeer p).mono (fun _ q hq => ?_) fun _ _ hfalse => hfalse.elim
    rw [wp_bind]
    refine wp_lift (fun pm _ => ?_) fun _ _ => ⟨hstate, hq⟩
    rw [wp_bind]
    have hsend := (@overlooks_sendRequest SameStanding _ d.cfg s.now pm).wp q
    refine hsend.mono (fun _ r hr => ?_) fun _ r hr => ⟨hstate, hr.trans hq⟩
    have hsame : r.standing = { p.standing with pstate := .terminating } := hr.trans hq
    change ({ r.standing with registered := false } : Standing) = _
    rw [hsame]

/-- A session that is terminated is over. -/
theorem pstate_terminate [AddressText] {d : DlepView} {s : Surroundings} {status : String}
    {reason : Bytes} (p : Peer) :
    (after (terminate d s status reason) p).pstate = .terminating := by
  refine (wp_after (P := fun q : Peer => q.pstate = .terminating)).1 ?_
  refine (standing_terminate p).mono (fun _ q hq => ?_) fun _ q hq => congrArg Standing.pstate hq.2
  split at hq
  · next hstate => rw [hq, hstate]
  · exact congrArg Standing.pstate hq

/-! ## The fate of a message -/

section

variable [AddressText] (d : DlepView)

/-- Addresses that cannot be added or dropped end the session. -/
def fateAddresses (p : Peer) (existing items : DataItems) : Fate :=
  match validateIpDataItems d p existing items with
  | .ok err => if err = [] then .stays else .ends "Inconsistent_Data" err
  | .error _ => .stays

omit [AddressText] in
/-- A response that is not expected ends the session. -/
def fateResponse (p : Peer) (pm : ProtocolMessage) (mac : DlepMac) : Fate :=
  if p.expects pm mac then .stays
  else
    match pm.getSignalName d.cfg with
    | .ok name => .ends "Unexpected_Message" (str name)
    | .error _ => .stays

/-- A destination that is up at a router. -/
def fateUp (p : Peer) (mac : DlepMac) (items : DataItems) : Fate :=
  if p.peerPdp.validDestination mac then .stays else fateAddresses d p [] items

/-- A response about a destination: for a router it is as if the peer had brought the destination
up. -/
def fateUpResponse (p : Peer) (pm : ProtocolMessage) (mac : DlepMac) : Fate :=
  if p.expects pm mac then
    match ifPresent (pm.getStatus d.cfg) with
    | .ok status =>
      if !d.modem && (status = none || status = some "Success") then fateUp d p mac pm.dataItems
      else .stays
    | .error _ => .stays
  else fateResponse d p pm mac

/-- An update of a destination. -/
def fateUpdate (p : Peer) (pm : ProtocolMessage) (mac : DlepMac) : Fate :=
  match p.peerPdp.getDestinationData mac, pm.getDataItemsNoMac d.cfg with
  | none, _ => .ends "Invalid_Message" []
  | some dd, .ok items => fateAddresses d p dd.ipDataItems items
  | some _, .error _ => .stays

/-- A message about a destination. -/
def fateDestination (p : Peer) (name : String) (pm : ProtocolMessage) (mac : DlepMac) : Fate :=
  match name with
  | "Destination_Update" => fateUpdate d p pm mac
  | "Destination_Up" => if d.modem then .stays else fateUp d p mac pm.dataItems
  | "Destination_Up_Response" => fateUpResponse d p pm mac
  | "Destination_Announce_Response" => fateUpResponse d p pm mac
  | "Destination_Down" =>
    if p.peerPdp.validDestination mac || d.localPdp.validDestination mac then .stays
    else .ends "Invalid_Destination" []
  | "Destination_Down_Response" => fateResponse d p pm mac
  | "Link_Characteristics_Request" =>
    match pm.getDataItemsNoMac d.cfg with
    | .ok _ => if d.localPdp.validDestination mac then .stays else .ends "Invalid_Destination" []
    | .error _ => .stays
  | "Link_Characteristics_Response" =>
    if p.expects pm mac then
      if p.peerPdp.validDestination mac then .stays else .ends "Invalid_Destination" []
    else fateResponse d p pm mac
  | _ => .stays

/-- A message that is valid and that does not carry a status that ends the session. -/
def fate (p : Peer) (name : String) (pm : ProtocolMessage) : Fate :=
  match name with
  | "Session_Update" => fateAddresses d p p.peerPdp.ipDataItems pm.dataItems
  | "Session_Update_Response" =>
    match ifPresent (pm.getMac d.cfg) with
    | .ok mac => fateResponse d p pm (mac.getD [])
    | .error _ => .stays
  | "Session_Initialization" =>
    if addressesOk d p [] pm.dataItems then .opens else fateAddresses d p [] pm.dataItems
  | "Session_Initialization_Response" =>
    match ifPresent (pm.getMac d.cfg) with
    | .ok mac => if p.expects pm (mac.getD []) then .opens else fateResponse d p pm (mac.getD [])
    | .error _ => .stays
  | "Session_Termination" => .stops
  | name =>
    match pm.getMac d.cfg with
    | .ok mac => fateDestination d p name pm mac
    | .error _ => .stays

/-- The fate that the bytes of a message bring. -/
def fateOf (p : Peer) (buf : Bytes) : Fate :=
  match received d buf with
  | .ok ([], pm) =>
    match statusEnds d pm, pm.getStatus d.cfg, pm.getSignalName d.cfg with
    | true, .ok status, _ => .ends status []
    | true, .error _, _ => .stays
    | false, _, .ok name => fate d p name pm
    | false, _, .error _ => .stays
  | .ok (err, _) => .ends "Invalid_Message" err
  | .error _ => .stays

section

variable {d} {p : Peer} {pm : ProtocolMessage} {mac : DlepMac}

omit [AddressText] in
/-- A response that is expected ends nothing. -/
theorem fateResponse_of_expects (h : p.expects pm mac = true) :
    fateResponse d p pm mac = .stays :=
  if_pos h

/-- A destination that is new at a router. -/
theorem fateUp_of_new (h : p.peerPdp.validDestination mac = false) {items : DataItems} :
    fateUp d p mac items = fateAddresses d p [] items := by
  rw [fateUp, h]
  rfl

/-- A message that takes a destination down. -/
theorem fateDestination_down : fateDestination d p "Destination_Down" pm mac =
    if p.peerPdp.validDestination mac || d.localPdp.validDestination mac then .stays
    else .ends "Invalid_Destination" [] := rfl

/-- A message that brings a destination up. -/
theorem fateDestination_up : fateDestination d p "Destination_Up" pm mac =
    if d.modem then .stays else fateUp d p mac pm.dataItems := rfl

/-- A request about a destination that the node has. -/
theorem fateDestination_request {items : DataItems} (h : pm.getDataItemsNoMac d.cfg = .ok items) :
    fateDestination d p "Link_Characteristics_Request" pm mac =
      if d.localPdp.validDestination mac then .stays else .ends "Invalid_Destination" [] := by
  simp only [fateDestination, h]

/-- A reply about a destination that the peer has. -/
theorem fateDestination_reply : fateDestination d p "Link_Characteristics_Response" pm mac =
    if p.expects pm mac then
      if p.peerPdp.validDestination mac then .stays else .ends "Invalid_Destination" []
    else fateResponse d p pm mac := rfl

/-- The opening of a session. -/
theorem fate_initialization : fate d p "Session_Initialization" pm =
    if addressesOk d p [] pm.dataItems then .opens else fateAddresses d p [] pm.dataItems := rfl

/-- The answer to the opening. -/
theorem fate_initializationResponse {mac : Option DlepMac}
    (h : ifPresent (pm.getMac d.cfg) = .ok mac) : fate d p "Session_Initialization_Response" pm =
      if p.expects pm (mac.getD []) then .opens else fateResponse d p pm (mac.getD []) := by
  simp only [fate, h]

/-- The answer to an update of the session. -/
theorem fate_updateResponse {mac : Option DlepMac} (h : ifPresent (pm.getMac d.cfg) = .ok mac) :
    fate d p "Session_Update_Response" pm = fateResponse d p pm (mac.getD []) := by
  simp only [fate, h]

end

end

/-! ## The handlers -/

section

variable {R : Peer → Peer → Prop} [overlooks : Overlooks R] [AddressText] {d : DlepView}
  {s : Surroundings} {p : Peer} {pm : ProtocolMessage}

include overlooks

/-- A handler that checks the addresses first, and ends the session if they are not good. -/
theorem overlooks_ifAddresses {α : Type} {existing items : DataItems} {f : Bytes → PeerM α}
    (h : (fateAddresses d p existing items).Within R d s)
    (hend : ∀ err, err ≠ [] → Within R (terminate d s "Inconsistent_Data" err) → Within R (f err))
    (hok : validateIpDataItems d p existing items = .ok [] →
      wp (f []) (fun _ q => R p q) (fun _ q => R p q) p) :
    wp (liftM (validateIpDataItems d p existing items) >>= f) (fun _ q => R p q) (fun _ q => R p q)
      p := by
  rw [wp_bind]
  refine wp_lift (fun err herr => ?_) fun _ _ => Std.Refl.refl p
  by_cases hempty : err = []
  · rw [hempty] at herr ⊢
    exact hok herr
  · simp only [fateAddresses, herr, if_neg hempty] at h
    exact (hend err hempty h).wp p

/-- Taking a destination does what `fateAddresses` says. -/
theorem overlooks_takeDestination {mac : DlepMac} {items : DataItems}
    (h : (fateAddresses d p [] items).Within R d s) :
    wp (takeDestination d s mac items) (fun _ q => R p q) (fun _ q => R p q) p := by
  rw [takeDestination, wp_bind, wp_get]
  refine overlooks_ifAddresses h (fun err herr hend => ?_) fun _ => ?_
  · rw [if_pos herr]
    exact within_bind hend fun _ => within_pure
  · exact (within_bind overlooks_admitDestination fun _ => within_pure).wp p

/-- The handler of Destination Up does what `fateUp` says. -/
theorem overlooks_handleDestinationUp {mac : DlepMac} (hmac : pm.getMac d.cfg = .ok mac)
    (h : (fateUp d p mac pm.dataItems).Within R d s) :
    wp (handleDestinationUp d s pm) (fun _ q => R p q) (fun _ q => R p q) p := by
  have hstatus : wp (upStatus d s mac pm.dataItems) (fun _ q => R p q) (fun _ q => R p q) p := by
    simp only [upStatus, wp_bind, wp_get]
    split
    · exact Std.Refl.refl p
    · next hnew =>
      rw [fateUp_of_new (Bool.not_eq_true _ ▸ hnew)] at h
      exact overlooks_takeDestination h
  simp only [handleDestinationUp, hmac, wp_bind, wp_lift_ok]
  refine wp_lift (fun name _ => ?_) fun _ _ => Std.Refl.refl p
  refine hstatus.mono (fun status q hq => ?_) fun _ _ hq => hq
  cases status with
  | none => exact hq
  | some status => exact overlooks_answerUp.wp_trans hq

/-- The handler of Destination Update does what `fateUpdate` says. -/
theorem overlooks_handleDestinationUpdate {mac : DlepMac} (hmac : pm.getMac d.cfg = .ok mac)
    (h : (fateUpdate d p pm mac).Within R d s) :
    wp (handleDestinationUpdate d s pm) (fun _ q => R p q) (fun _ q => R p q) p := by
  simp only [handleDestinationUpdate, hmac, wp_bind, wp_lift_ok, wp_get]
  cases hdd : p.peerPdp.getDestinationData mac with
  | none =>
    simp only [fateUpdate, hdd] at h
    exact h.wp p
  | some dd =>
    dsimp only
    rw [wp_bind]
    refine wp_lift (fun items hitems => ?_) fun _ _ => Std.Refl.refl p
    simp only [fateUpdate, hdd, hitems] at h
    refine overlooks_ifAddresses h (fun err herr hend => ?_) fun _ => ?_
    · rw [if_pos herr]
      exact hend
    · exact (within_bind overlooks_onPdp fun _ => overlooks_emit).wp p

/-- The handler of Destination Down does what `fateDestination` says. -/
theorem overlooks_handleDestinationDown {mac : DlepMac} (hmac : pm.getMac d.cfg = .ok mac)
    (h : (fateDestination d p "Destination_Down" pm mac).Within R d s) :
    wp (handleDestinationDown d s pm) (fun _ q => R p q) (fun _ q => R p q) p := by
  have hdrop : wp (dropDestination d mac)
      (fun known q => R p q ∧ known =
        (p.peerPdp.validDestination mac || d.localPdp.validDestination mac))
      (fun _ q => R p q) p := by
    simp only [dropDestination, onPdp, PeerData.removeDestination, wp_bind, wp_zoom, wp_get]
    split
    · next hown =>
      rw [wp_bind, wp_modify]
      exact ⟨Overlooks.other p _ rfl, by simp [hown]⟩
    · next hown =>
      simp only [wp_pure, Bool.false_eq_true, if_false]
      split
      · next hlocal =>
        rw [wp_bind]
        exact ⟨Overlooks.other p _ rfl, by simp [hlocal]⟩
      · next hlocal => exact ⟨Std.Refl.refl p, by simp [hown, hlocal]⟩
  simp only [handleDestinationDown, hmac, wp_bind, wp_lift_ok]
  refine hdrop.mono (fun known q hq => ?_) fun _ _ hq => hq
  obtain ⟨hpq, hknown⟩ := hq
  cases known with
  | true =>
    refine Within.wp_trans ?_ hpq
    refine within_bind within_lift fun _ => within_bind within_get fun _ => ?_
    exact within_bind overlooks_emit fun _ => overlooks_sendSimpleResponse
  | false =>
    simp only [fateDestination_down, ← hknown, Bool.false_eq_true, if_false] at h
    exact h.wp_trans hpq

/-- The handler of Link Characteristics Request does what `fateDestination` says. -/
theorem overlooks_handleLinkCharacteristicsRequest {mac : DlepMac}
    (hmac : pm.getMac d.cfg = .ok mac)
    (h : (fateDestination d p "Link_Characteristics_Request" pm mac).Within R d s) :
    wp (handleLinkCharacteristicsRequest d s pm) (fun _ q => R p q) (fun _ q => R p q) p := by
  simp only [handleLinkCharacteristicsRequest, hmac, wp_bind, wp_lift_ok]
  refine wp_lift (fun items hitems => ?_) fun _ _ => Std.Refl.refl p
  cases hdd : d.localPdp.getDestinationData mac with
  | none =>
    have hnot : d.localPdp.validDestination mac = false := by
      rw [PeerData.validDestination_eq_isSome]
      exact congrArg Option.isSome hdd
    simp only [fateDestination_request hitems, hnot, Bool.false_eq_true, if_false] at h
    exact h.wp p
  | some dd =>
    refine Within.wp (within_ite (fun _ => ?_) fun _ => ?_) p
    · exact within_bind within_lift fun _ => overlooks_linkCharacteristicsResponse
    · exact within_bind within_get fun _ => overlooks_emit

/-- The handler of Session Update does what `fateAddresses` says. -/
theorem overlooks_handlePeerUpdate
    (h : (fateAddresses d p p.peerPdp.ipDataItems pm.dataItems).Within R d s) :
    wp (handlePeerUpdate d s pm) (fun _ q => R p q) (fun _ q => R p q) p := by
  rw [handlePeerUpdate, wp_bind, wp_get]
  refine overlooks_ifAddresses h (fun err herr hend => ?_) fun _ => ?_
  · rw [if_pos herr]
    exact hend
  · refine Within.wp (within_bind overlooks_onPdp fun _ => ?_) p
    exact within_bind overlooks_emit fun _ => overlooks_sendSimpleResponse

/-! ## Responses -/

/-- A response leaves the data of the peer alone, whether it was expected or not. -/
theorem overlooks_handleResponse (hp : p.QueueOk)
    (h : ∀ mac, ifPresent (pm.getMac d.cfg) = .ok mac →
      (fateResponse d p pm (mac.getD [])).Within R d s) :
    wp (handleResponse d s pm)
      (fun ok q => R p q ∧ (ok = true → q.peerPdp = p.peerPdp ∧
        ∀ mac, ifPresent (pm.getMac d.cfg) = .ok mac → p.expects pm (mac.getD []) = true))
      (fun _ q => R p q) p := by
  simp only [handleResponse, wp_bind]
  refine wp_lift (fun name hname => wp_lift (fun mac hmac => ?_) fun _ _ => Std.Refl.refl p)
    fun _ _ => Std.Refl.refl p
  refine ((wp_acceptResponse hp).and (overlooks_acceptResponse.wp p)).mono (fun ok q hq => ?_)
    fun _ q hq => hq.2
  obtain ⟨⟨hok, hmoves⟩, hpq⟩ := hq
  cases ok with
  | true =>
    refine ⟨hpq, fun _ => ⟨Moves.peerPdp hmoves (by decide), fun mac' hmac' => ?_⟩⟩
    rw [← Except.ok.inj (hmac.symm.trans hmac')]
    exact hok.symm
  | false =>
    have hend := h mac hmac
    simp only [fateResponse, ← hok, hname, Bool.false_eq_true, if_false] at hend
    simp only [Bool.false_eq_true, if_false, wp_bind, wp_pure]
    exact (hend.wp_trans hpq).mono (fun _ _ hq => ⟨hq, fun h => by cases h⟩) fun _ _ hq => hq

/-- What is done when the response was accepted. -/
theorem overlooks_ifResponse (hp : p.QueueOk)
    (h : ∀ mac, ifPresent (pm.getMac d.cfg) = .ok mac →
      (fateResponse d p pm (mac.getD [])).Within R d s) {work : PeerM Unit}
    (hwork : (∀ mac, ifPresent (pm.getMac d.cfg) = .ok mac → p.expects pm (mac.getD []) = true) →
      ∀ q, q.peerPdp = p.peerPdp → wp work (fun _ r => R q r) (fun _ r => R q r) q) :
    wp (do if ← handleResponse d s pm then work else pure ()) (fun _ q => R p q) (fun _ q => R p q)
      p := by
  refine wp_bind.2 ((overlooks_handleResponse hp h).mono (fun ok q hq => ?_) fun _ _ hq => hq)
  obtain ⟨hpq, hok⟩ := hq
  cases ok with
  | true =>
    obtain ⟨hpdp, hexpects⟩ := hok rfl
    exact (hwork hexpects q hpdp).mono (fun _ _ hr => IsTrans.trans _ _ _ hpq hr)
      fun _ _ hr => IsTrans.trans _ _ _ hpq hr
  | false => exact hpq

omit overlooks in
/-- The fate of addresses depends on the data of the peer only. -/
theorem fateAddresses_congr {q : Peer} (h : q.peerPdp = p.peerPdp) (existing items : DataItems) :
    fateAddresses d q existing items = fateAddresses d p existing items := by
  simp only [fateAddresses, validateIpDataItems_congr h]

/-- The handler of Destination Up Response does what `fateUpResponse` says. -/
theorem overlooks_handleDestinationUpResponse (hp : p.QueueOk) {mac : DlepMac}
    (hmac : pm.getMac d.cfg = .ok mac) (h : (fateUpResponse d p pm mac).Within R d s) :
    wp (handleDestinationUpResponse d s pm) (fun _ q => R p q) (fun _ q => R p q) p := by
  have hpresent : ifPresent (pm.getMac d.cfg) = .ok (some mac) := ifPresent_ok hmac
  simp only [handleDestinationUpResponse, hmac, wp_bind, wp_lift_ok]
  refine wp_lift (fun _ _ => ?_) fun _ _ => Std.Refl.refl p
  rw [← wp_bind]
  refine overlooks_ifResponse hp (fun mac' hmac' => ?_) fun hexpects q hpdp => ?_
  · rw [← Except.ok.inj (hpresent.symm.trans hmac'), Option.getD_some]
    cases hexpects : p.expects pm mac with
    | true =>
      rw [fateResponse_of_expects hexpects]
      trivial
    | false => simpa only [fateUpResponse, hexpects, Bool.false_eq_true, if_false] using h
  · have hexpected : p.expects pm mac = true := hexpects (some mac) hpresent
    simp only [fateUpResponse, hexpected, if_true] at h
    rw [wp_bind, checkUpStatus, wp_bind]
    refine wp_lift (fun status hstatus => ?_) fun _ _ => Std.Refl.refl q
    simp only [hstatus] at h
    have hup : (status = none ∨ status = some "Success") →
        wp (if d.modem then pure () else handleDestinationUp d s pm) (fun _ r => R q r)
          (fun _ r => R q r) q := by
      intro hgood
      cases hmodem : d.modem with
      | true => exact Std.Refl.refl q
      | false =>
        have hsame : fateUp d q mac pm.dataItems = fateUp d p mac pm.dataItems := by
          rw [fateUp, hpdp, fateAddresses_congr hpdp, fateUp]
        refine overlooks_handleDestinationUp hmac ?_
        rw [hsame]
        simpa [hmodem, hgood] using h
    cases status with
    | none => exact hup (.inl rfl)
    | some status =>
      dsimp only
      split
      · exact Overlooks.other q _ rfl
      · by_cases hsuccess : status = "Success"
        · simp only [hsuccess, wp_pure, decide_true, if_true]
          exact hup (.inr (by rw [hsuccess]))
        · simp only [hsuccess, wp_pure, decide_false, Bool.false_eq_true, if_false]
          exact Std.Refl.refl q

/-- The handler of Link Characteristics Response does what `fateDestination` says. -/
theorem overlooks_handleLinkCharacteristicsResponse (hp : p.QueueOk) {mac : DlepMac}
    (hmac : pm.getMac d.cfg = .ok mac)
    (h : (fateDestination d p "Link_Characteristics_Response" pm mac).Within R d s) :
    wp (handleLinkCharacteristicsResponse d s pm) (fun _ q => R p q) (fun _ q => R p q) p := by
  have hpresent : ifPresent (pm.getMac d.cfg) = .ok (some mac) := ifPresent_ok hmac
  simp only [handleLinkCharacteristicsResponse, hmac, wp_lift_ok, wp_bind]
  rw [← wp_bind]
  refine overlooks_ifResponse hp (fun mac' hmac' => ?_) fun hexpects q hpdp => ?_
  · rw [← Except.ok.inj (hpresent.symm.trans hmac'), Option.getD_some]
    cases hexpects : p.expects pm mac with
    | true =>
      rw [fateResponse_of_expects hexpects]
      trivial
    | false => simpa only [fateDestination_reply, hexpects, Bool.false_eq_true, if_false] using h
  · have hexpected : p.expects pm mac = true := hexpects (some mac) hpresent
    simp only [fateDestination_reply, hexpected, if_true] at h
    rw [wp_bind, wp_get, hpdp]
    cases hdd : p.peerPdp.getDestinationData mac with
    | none =>
      have hnot : p.peerPdp.validDestination mac = false := by
        rw [PeerData.validDestination_eq_isSome]
        exact congrArg Option.isSome hdd
      simp only [hnot, Bool.false_eq_true, if_false] at h
      exact h.wp q
    | some dd =>
      refine Within.wp (within_bind within_lift fun _ => within_bind overlooks_onPdp fun _ => ?_) q
      exact within_bind within_get fun _ => overlooks_emit

/-- The handler of Destination Down Response does what `fateResponse` says. -/
theorem overlooks_handleDestinationDownResponse (hp : p.QueueOk) {mac : DlepMac}
    (hmac : pm.getMac d.cfg = .ok mac) (h : (fateResponse d p pm mac).Within R d s) :
    wp (handleDestinationDownResponse d s pm) (fun _ q => R p q) (fun _ q => R p q) p := by
  have hpresent : ifPresent (pm.getMac d.cfg) = .ok (some mac) := ifPresent_ok hmac
  simp only [handleDestinationDownResponse, hmac, wp_lift_ok, wp_bind]
  refine (overlooks_handleResponse hp fun mac' hmac' => ?_).mono (fun _ _ hq => hq.1)
    fun _ _ hq => hq
  rw [← Except.ok.inj (hpresent.symm.trans hmac'), Option.getD_some]
  exact h

/-- The session has ended already, and ends no more. -/
theorem overlooks_handlePeerTerminationResponse :
    Within R (handlePeerTerminationResponse d s pm) := by
  have hover : ∀ q : Peer, q.pstate = .terminating → ∀ status reason,
      wp (terminate d s status reason) (fun _ r => r = q) (fun _ _ => False) q := by
    intro q hq status reason
    simp only [terminate, wp_bind, wp_get, if_pos hq, wp_pure]
  refine within_of_wp fun p => ?_
  simp only [handlePeerTerminationResponse, wp_bind, wp_get]
  split
  · next hstate =>
    have hresponse : wp (handleResponse d s pm) (fun _ q => SameStanding p q)
        (fun _ q => SameStanding p q) p := by
      simp only [handleResponse, wp_bind]
      refine wp_lift (fun name _ => wp_lift (fun mac _ => ?_) fun _ _ => rfl) fun _ _ => rfl
      refine (overlooks_acceptResponse.wp p).mono (fun ok q hq => ?_) fun _ _ hq => hq
      cases ok with
      | true => exact hq
      | false =>
        have hsame : q.pstate = p.pstate := congrArg Standing.pstate hq
        simp only [Bool.false_eq_true, if_false, wp_bind, wp_pure]
        refine (hover q (hsame.trans hstate) _ _).mono ?_ fun _ _ hfalse => hfalse.elim
        rintro _ r rfl
        exact hq
    rw [wp_bind]
    refine hresponse.mono (fun _ q hq => ?_) fun _ q hq => Overlooks.other p q hq
    have hsame : q.pstate = p.pstate := congrArg Standing.pstate hq
    simp only [stopPeer, setStateTerminating, wp_bind, wp_get, if_pos (hsame.trans hstate), wp_pure]
    exact Overlooks.other p q hq
  · exact Std.Refl.refl p

/-! ## The handshake -/

/-- The handler of Session Initialization does what `fate` says. -/
theorem overlooks_handlePeerInitialization
    (h : (fate d p "Session_Initialization" pm).Within R d s) :
    wp (handlePeerInitialization d s pm) (fun _ q => R p q) (fun _ q => R p q) p := by
  have hends : (fateAddresses d p [] pm.dataItems).Within R d s := by
    cases hok : addressesOk d p [] pm.dataItems with
    | true =>
      rw [fateAddresses, of_decide_eq_true hok]
      trivial
    | false => simpa only [fate_initialization, hok, Bool.false_eq_true, if_false] using h
  rw [handlePeerInitialization, wp_bind, wp_get]
  refine overlooks_ifAddresses hends (fun err herr hend => ?_) fun hok => ?_
  · rw [if_pos herr]
    exact hend
  · have hopens : Fate.Within R d s .opens := by
      have hgood : addressesOk d p [] pm.dataItems = true := decide_eq_true hok
      simpa only [fate_initialization, hgood, if_true] using h
    refine Within.wp (within_bind overlooks_storePeerProperties fun _ => ?_) p
    refine within_bind (hopens.2 pm).1 fun _ => ?_
    refine within_bind overlooks_sendPeerInitializationResponse fun _ => ?_
    exact within_bind (overlooks_enterSession hopens.1) fun _ => overlooks_advertisePeer

/-- The handler of Session Initialization Response does what `fate` says. -/
theorem overlooks_handlePeerInitializationResponse (hp : p.QueueOk)
    (h : (fate d p "Session_Initialization_Response" pm).Within R d s) :
    wp (handlePeerInitializationResponse d s pm) (fun _ q => R p q) (fun _ q => R p q) p := by
  cases hmac : ifPresent (pm.getMac d.cfg) with
  | error e =>
    simp only [handlePeerInitializationResponse, handleResponse, hmac, wp_bind, wp_lift_error]
    exact wp_lift (fun _ _ => Std.Refl.refl p) fun _ _ => Std.Refl.refl p
  | ok mac =>
    rw [fate_initializationResponse hmac] at h
    refine overlooks_ifResponse hp (fun mac' hmac' => ?_) fun hexpects q _ => ?_
    · rw [← Except.ok.inj (hmac.symm.trans hmac')]
      cases hexpects : p.expects pm (mac.getD []) with
      | true =>
        rw [fateResponse_of_expects hexpects]
        trivial
      | false => simpa only [hexpects, Bool.false_eq_true, if_false] using h
    · have hopens : Fate.Within R d s .opens := by
        simpa only [hexpects mac hmac, if_true] using h
      refine Within.wp (within_bind overlooks_storePeerProperties fun _ => ?_) q
      refine within_bind (hopens.2 pm).2 fun _ => within_bind overlooks_onPdp fun _ => ?_
      exact overlooks_enterSession hopens.1

/-! ## A message -/

/-- A message about a destination, whose handler looks for the MAC address first. -/
theorem overlooks_of_getMac {name : String} {m : PeerM Unit} {work : DlepMac → PeerM Unit}
    (hm : m = liftM (pm.getMac d.cfg) >>= work)
    (h : (match pm.getMac d.cfg with
      | .ok mac => fateDestination d p name pm mac
      | .error _ => .stays).Within R d s)
    (hok : ∀ mac, pm.getMac d.cfg = .ok mac → (fateDestination d p name pm mac).Within R d s →
      wp m (fun _ q => R p q) (fun _ q => R p q) p) :
    wp m (fun _ q => R p q) (fun _ q => R p q) p := by
  cases hmac : pm.getMac d.cfg with
  | ok mac =>
    rw [hmac] at h
    exact hok mac hmac h
  | error e =>
    rw [hm, hmac, wp_bind, wp_lift_error]
    exact Std.Refl.refl p

/-- By cases on the handler: a message does to the standing what `fate` says. -/
theorem overlooks_dispatch (hp : p.QueueOk) {name : String} (h : (fate d p name pm).Within R d s) :
    wp (dispatch d s name pm) (fun _ q => R p q) (fun _ q => R p q) p := by
  have hnothing : wp (pure () : PeerM Unit) (fun _ q => R p q) (fun _ q => R p q) p :=
    Std.Refl.refl p
  unfold dispatch
  split
  · exact hnothing
  · exact overlooks_of_getMac rfl h fun _ hmac hfate => overlooks_handleDestinationUpdate hmac hfate
  · split
    · exact overlooks_handleDestinationAnnounce.wp p
    · next hmodem =>
      refine overlooks_of_getMac rfl h fun _ hmac hfate => ?_
      rw [fateDestination_up, if_neg hmodem] at hfate
      exact overlooks_handleDestinationUp hmac hfate
  · exact overlooks_of_getMac rfl h fun _ hmac hfate =>
      overlooks_handleDestinationUpResponse hp hmac hfate
  · exact overlooks_handleDestinationAnnounce.wp p
  · exact overlooks_of_getMac rfl h fun _ hmac hfate =>
      overlooks_handleDestinationUpResponse hp hmac hfate
  · exact overlooks_of_getMac rfl h fun _ hmac hfate => overlooks_handleDestinationDown hmac hfate
  · exact overlooks_of_getMac rfl h fun _ hmac hfate =>
      overlooks_handleDestinationDownResponse hp hmac hfate
  · exact overlooks_of_getMac rfl h fun _ hmac hfate =>
      overlooks_handleLinkCharacteristicsRequest hmac hfate
  · exact overlooks_of_getMac rfl h fun _ hmac hfate =>
      overlooks_handleLinkCharacteristicsResponse hp hmac hfate
  · exact overlooks_handlePeerUpdate h
  · refine wp_bind.2 ((overlooks_handleResponse hp fun mac hmac => ?_).mono (fun _ _ hq => hq.1)
      fun _ _ hq => hq)
    exact fate_updateResponse hmac ▸ h
  · exact overlooks_handlePeerInitialization h
  · exact overlooks_handlePeerInitializationResponse hp h
  · exact (within_bind overlooks_sendSimpleResponse fun _ => h).wp p
  · exact overlooks_handlePeerTerminationResponse.wp p
  · exact hnothing

omit overlooks [AddressText] in
/-- A message whose status ends the session has one. -/
theorem exists_getStatus (h : statusEnds d pm = true) :
    ∃ status, pm.getStatus d.cfg = .ok status := by
  cases hstatus : pm.getStatus d.cfg with
  | ok status => exact ⟨status, rfl⟩
  | error e =>
    have hnone : ∀ status, ifPresent (pm.getStatus d.cfg) = .ok status → status = none := by
      intro status hpresent
      rw [hstatus, ifPresent.eq_def] at hpresent
      split at hpresent
      · next heq => cases heq
      · exact (Except.ok.inj hpresent).symm
      · cases hpresent
    unfold statusEnds at h
    split at h
    · next name status _ hpresent =>
      rw [hnone status hpresent] at h
      split at h
      · cases h
      · cases h
    · cases h

/-- A status that ends the session is the one that the session ends with. -/
theorem overlooks_checkStatusCodeFailure {status : String}
    (hstatus : pm.getStatus d.cfg = .ok status)
    (h : Within R (terminate d s status [])) : Within R (checkStatusCodeFailure d s pm) := by
  refine within_bind within_lift fun name => within_ite (fun _ => within_pure) fun _ => ?_
  refine within_of_wp fun p => ?_
  rw [ifPresent_ok hstatus, wp_bind, wp_lift_ok, wp_bind]
  refine wp_lift (fun info _ => ?_) fun _ _ => Std.Refl.refl p
  split
  · exact (within_bind h fun _ => within_pure).wp p
  · exact Std.Refl.refl p

/-- The bytes of a message bring their fate. -/
theorem overlooks_handlePeerSignal (hp : p.QueueOk) {buf : Bytes}
    (h : (fateOf d p buf).Within R d s) :
    wp (handlePeerSignal d s buf) (fun _ q => R p q) (fun _ q => R p q) p := by
  rw [handlePeerSignal, wp_bind]
  refine wp_lift (fun r hr => ?_) fun _ _ => Std.Refl.refl p
  obtain ⟨err, pm⟩ := r
  cases err with
  | cons b err =>
    simp only [fateOf, hr] at h
    exact h.wp p
  | nil =>
    simp only [ne_eq, not_true_eq_false, if_false]
    rw [wp_bind]
    have hcheck := @wp_checkStatusCodeFailure _ d s pm p
    cases hends : statusEnds d pm with
    | false =>
      rw [hends] at hcheck
      refine hcheck.mono (fun ended q hq => ?_) fun _ q hq => ?_
      · obtain ⟨rfl, hq⟩ := hq
        obtain rfl : q = p := hq
        simp only [Bool.false_eq_true, if_false, wp_bind]
        refine wp_lift (fun name hname => ?_) fun _ _ => Std.Refl.refl q
        simp only [fateOf, hr, hends, hname] at h
        exact overlooks_dispatch hp h
      · obtain rfl : q = p := hq
        exact Std.Refl.refl q
    | true =>
      obtain ⟨status, hstatus⟩ := exists_getStatus hends
      simp only [fateOf, hr, hends, hstatus] at h
      have hend := (overlooks_checkStatusCodeFailure hstatus h).wp p
      refine (hcheck.and hend).mono (fun ended q hq => ?_) fun _ _ hq => hq.2
      obtain ⟨⟨hended, _⟩, hpq⟩ := hq
      rw [hended, hends, if_pos rfl]
      exact hpq

/-! ## A step -/

omit overlooks [AddressText] in
/-- Was nothing heard of the peer for too long? (`Peer.cpp:374`) -/
def silent (s : Surroundings) (p : Peer) : Bool :=
  p.peerHeartbeatIntervalSec ≠ 0 &&
    (UInt32.ofNat (p.lastReceiveTime +
      (p.peerHeartbeatIntervalSec * s.heartbeatThreshold).toNat)).toNat ≤
      s.now

omit overlooks [AddressText] in
/-- Is the head of the queue late, and was it sent often enough? (`Peer.cpp:437`) -/
def exhausted (s : Surroundings) (p : Peer) (mac : DlepMac) : Bool :=
  match p.responsesPending[mac]? with
  | some (head :: _) =>
    head.sendTime + s.ackTimeout.toNat < s.now && !(head.sendTries < s.sendTries)
  | _ => false

omit overlooks [AddressText] in
/-- Does the timer end the session? -/
def timesOut (s : Surroundings) (p : Peer) : Bool :=
  p.silent s || p.responsesPending.keys.any (p.exhausted s)

omit overlooks [AddressText] in
/-- Only the queue of its destination is written when a message is sent. -/
theorem otherQueues_sendMessageExpectingResponse {now : Nat} {rp : ResponsePending} {mac : DlepMac}
    (hmac : rp.destination ≠ mac) :
    Within (fun p q : Peer => q.responsesPending[mac]? = p.responsesPending[mac]?)
      (sendMessageExpectingResponse now rp) := by
  have hrefl : Std.Refl fun p q : Peer => q.responsesPending[mac]? = p.responsesPending[mac]? :=
    ⟨fun _ => rfl⟩
  have htrans : IsTrans Peer fun p q : Peer => q.responsesPending[mac]? =
      p.responsesPending[mac]? :=
    ⟨fun _ _ _ h h' => Eq.trans h' h⟩
  have hother : ∀ (p : Peer) queue,
      (p.responsesPending.insert rp.destination queue)[mac]? = p.responsesPending[mac]? := by
    intro p queue
    rw [ExtTreeMap.getElem?_insert, if_neg (by rw [Std.compare_eq_iff_eq]; exact hmac)]
  refine within_bind within_get fun _ => within_ite (fun _ => within_pure) fun _ => ?_
  refine within_bind ?_ fun _ => within_bind within_get fun _ => ?_
  · exact within_ite (fun _ => within_pure) fun _ => within_modify fun p => hother p _
  · split
    · exact within_ite (fun _ => within_modify fun p => hother p _) fun _ => within_pure
    · exact within_throw

/-- By induction over the queues: sending again keeps the standing, unless a head is exhausted. -/
theorem overlooks_retransmit {macs : List DlepMac} (hp : p.QueueOk) (hnodup : macs.Nodup)
    (h : (∃ mac ∈ macs, p.exhausted s mac = true) → Within R (terminate d s "Timed_Out" [])) :
    wp (retransmit d s macs) (fun _ q => R p q) (fun _ q => R p q) p := by
  induction macs generalizing p with
  | nil => exact Std.Refl.refl p
  | cons mac macs ih =>
    obtain ⟨hmac, hmacs⟩ := List.nodup_cons.1 hnodup
    have hskip : wp (retransmit d s macs) (fun _ q => R p q) (fun _ q => R p q) p := by
      refine ih hp hmacs fun ⟨mac', hmem, hlate⟩ => h ⟨mac', ?_, hlate⟩
      exact List.mem_cons_of_mem _ hmem
    simp only [retransmit, wp_bind, wp_get]
    split
    · next head rest hhead =>
      obtain ⟨hqueued, hdest⟩ := (hp _ _ hhead).2 head (by simp)
      split
      · next hlate =>
        split
        · -- the message is sent again, and the queues that are left are as they were
          have hothers : wp (sendMessageExpectingResponse s.now head)
              (fun _ q => ∀ mac' ∈ macs, q.responsesPending[mac']? = p.responsesPending[mac']?)
              (fun _ q => ∀ mac' ∈ macs, q.responsesPending[mac']? =
                p.responsesPending[mac']?) p := by
            refine wp_after.2 fun mac' hmem => ?_
            refine otherQueues_sendMessageExpectingResponse (fun hsame => hmac ?_) p
            rwa [← hdest, hsame]
          rw [wp_bind]
          refine ((overlooks_sendMessageExpectingResponse.wp p).and
            (((within_sendMessageExpectingResponse hqueued).wp p).and hothers)).mono
              (fun _ q hq => ?_) fun _ _ hq => hq.1
          obtain ⟨hpq, hmoves, hsame⟩ := hq
          have hrest := ih ((hmoves hp).queueOk hp) hmacs fun ⟨mac', hmem, hexhausted⟩ =>
            h ⟨mac', List.mem_cons_of_mem _ hmem, by rwa [exhausted, ← hsame mac' hmem]⟩
          exact hrest.mono (fun _ _ hr => IsTrans.trans _ _ _ hpq hr)
            fun _ _ hr => IsTrans.trans _ _ _ hpq hr
        · next htries =>
          have hexhausted : p.exhausted s mac = true := by
            simp [exhausted, hhead, hlate, htries]
          exact (h ⟨mac, by simp, hexhausted⟩).wp p
      · exact hskip
    · exact hskip

/-- The timer keeps the standing, unless it ends the session. -/
theorem overlooks_handleAcktivityTimeout (hp : p.QueueOk)
    (h : p.timesOut s = true → Within R (terminate d s "Timed_Out" [])) :
    wp (handleAcktivityTimeout d s) (fun _ q => R p q) (fun _ q => R p q) p := by
  have hactivity : wp (checkForActivity d s)
      (fun active q => R p q ∧ (active = true → q = p)) (fun _ q => R p q) p := by
    simp only [checkForActivity, wp_bind, wp_get]
    split
    · exact ⟨Std.Refl.refl p, fun _ => rfl⟩
    · next hinterval =>
      split
      · next htime =>
        have hsilent : p.silent s = true := by
          simp only [silent, Bool.and_eq_true, decide_eq_true_eq]
          exact ⟨hinterval, htime⟩
        have hend := h (by rw [timesOut, hsilent, Bool.true_or])
        rw [wp_bind]
        exact (hend.wp p).mono (fun _ q hq => ⟨hq, fun h => by cases h⟩) fun _ _ hq => hq
      · exact ⟨Std.Refl.refl p, fun _ => rfl⟩
  rw [handleAcktivityTimeout, wp_bind]
  refine hactivity.mono (fun active q hq => ?_) fun _ _ hq => hq
  obtain ⟨hpq, hactive⟩ := hq
  cases active with
  | false => exact hpq
  | true =>
    obtain rfl := hactive rfl
    simp only [if_true, checkForRetransmits, wp_bind, wp_get]
    refine overlooks_retransmit hp ExtTreeMap.nodup_keys fun hexhausted => h ?_
    rw [timesOut, List.any_eq_true.2 hexhausted, Bool.or_true]

omit overlooks in
/-- The fate that a step brings. -/
def Step.fate (p : Peer) (st : Step) : Fate :=
  match st.input with
  | .message =>
    match nextMessage st.d p with
    | some buf => fateOf st.d p buf
    | none => .stays
  | .acktivityTimeout => if p.timesOut st.s then .ends "Timed_Out" [] else .stays
  | .eof => .stops
  | .terminate status reason => .ends status reason
  | _ => .stays

/-- A step does nothing to the standing of the peer but what its fate brings. -/
theorem overlooks_step {st : Step} (hp : p.QueueOk) (h : (st.fate p).Within R st.d st.s) :
    R p (p.step st) := by
  obtain ⟨d, s, input⟩ := st
  cases input with
  | start => exact overlooks_startPeer p
  | receive bytes => exact Overlooks.other p _ rfl
  | message =>
    cases hnext : nextMessage d p with
    | none =>
      rw [step_of_nextMessage_none rfl hnext]
      exact Std.Refl.refl p
    | some buf =>
      simp only [Step.fate, hnext] at h
      refine step_of_nextMessage rfl hnext (fun q n hq => ?_) (overlooks_handlePeerSignal hp h)
      exact IsTrans.trans _ _ _ hq (Overlooks.other q _ rfl)
  | acktivityTimeout =>
    refine wp_after.1 (overlooks_handleAcktivityTimeout hp fun htimes => ?_)
    simp only [Step.fate, htimes, if_true] at h
    exact h
  | heartbeatTimeout => exact overlooks_handleHeartbeatTimeout p
  | eof => exact h p
  | terminate status reason => exact h p
  | destinationUp mac items => exact overlooks_destinationUp p
  | destinationDown mac items => exact overlooks_destinationDown p
  | destinationUpdate mac items => exact overlooks_destinationUpdate p
  | peerUpdate items => exact within_bind overlooks_peerUpdate (fun _ => within_pure) p
  | linkCharacteristicsRequest mac items => exact overlooks_linkCharacteristicsRequest p
  | linkCharacteristicsResponse mac items => exact overlooks_linkCharacteristicsResponse p
  | removeDestination mac => exact within_bind overlooks_onPdp (fun _ => within_pure) p

omit overlooks [AddressText] in
/-- The name is the same, and the peer is listed only if it was. -/
structure Ages (p q : Peer) : Prop where
  peerId : q.peerId = p.peerId
  registered : q.registered = true → p.registered = true

omit overlooks [AddressText] in
/-- Name and listing are part of the standing. -/
theorem Ages.of_standing {q : Peer} (hid : q.standing.peerId = p.standing.peerId)
    (hlisted : q.standing.registered = p.standing.registered ∨ q.standing.registered = false) :
    Ages p q := by
  refine ⟨hid, fun hq => ?_⟩
  rcases hlisted with hsame | hnot
  · exact hsame.symm.trans hq
  · exact absurd (hq.symm.trans hnot) (by decide)

instance : Overlooks Ages where
  refl _ := ⟨rfl, id⟩
  trans _ _ _ h h' := ⟨h'.peerId.trans h.peerId, h.registered ∘ h'.registered⟩
  other _ _ h := .of_standing (by rw [h]) (.inl (by rw [h]))

omit overlooks in
/-- Ending a session keeps the name, and lists nobody. -/
theorem ages_terminate {status : String} {reason : Bytes} :
    Within Ages (terminate d s status reason) := by
  refine within_of_wp fun p => ?_
  refine (standing_terminate p).mono (fun _ q hq => ?_) fun _ q hq => ?_
  · split at hq
    · rw [hq]
      exact Std.Refl.refl p
    · exact .of_standing (by rw [hq]) (.inr (by rw [hq]))
  · exact .of_standing (by rw [hq.2]) (.inl (by rw [hq.2]))

omit overlooks in
/-- No step changes the name of a peer, or lists it again. -/
theorem ages_step (hp : p.QueueOk) (st : Step) : Ages p (p.step st) := by
  refine overlooks_step hp ?_
  cases st.fate p with
  | stays => trivial
  | ends status reason => exact ages_terminate
  | stops =>
    change Within Ages (stopPeer st.d)
    refine within_of_wp fun q => ?_
    refine (standing_stopPeer q).mono (fun _ r hr => ?_) fun _ _ h => h.elim
    exact .of_standing (by rw [hr]) (.inl (by rw [hr]))
  | opens =>
    exact ⟨within_modify fun _ => ⟨rfl, id⟩, within_mutualExtensions fun _ _ => ⟨rfl, id⟩⟩

omit overlooks in
/-- Only the handshake leaves the last state. -/
theorem terminating_of_fate {st : Step} (hp : p.QueueOk) (hfate : st.fate p ≠ .opens)
    (hstate : p.pstate = .terminating) : (p.step st).pstate = .terminating := by
  have hoverlooks : Overlooks fun p q : Peer => p.pstate = .terminating → q.pstate = .terminating :=
    { refl _ := id
      trans _ _ _ h h' := h' ∘ h
      other _ _ h hstate := (congrArg Standing.pstate h).trans hstate }
  refine overlooks_step (R := fun p q : Peer => p.pstate = .terminating →
    q.pstate = .terminating) hp ?_
    hstate
  cases hst : st.fate p with
  | stays => trivial
  | ends status reason => exact fun q _ => pstate_terminate q
  | stops =>
    change Within (fun p q : Peer => p.pstate = .terminating → q.pstate = .terminating)
      (stopPeer st.d)
    refine within_of_wp fun q => ?_
    exact (standing_stopPeer q).mono (fun _ r hr _ => congrArg Standing.pstate hr)
      fun _ _ h => h.elim
  | opens => exact absurd hst hfate

end

end Peer

end Dlep
