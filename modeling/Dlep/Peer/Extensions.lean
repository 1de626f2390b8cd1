import Dlep.Peer.Messages
import Dlep.Peer.Receive
import Dlep.Peer.Standing
import Dlep.Peer.Termination
import Dlep.ProtocolMessage.Across

/-!
# The extensions that are agreed on

A modem adds to the agreed extensions whatever it shares with the list of a Session
Initialization, on top of what is there; a router takes over the list of a Session Initialization
Response as it is. So a step changes the agreed extensions in one of two ways, or not at all. It
is worked out when the result is a set of extensions that both sides have, and what two nodes
agree on if each receives what the other one has sent.
-/

namespace Dlep

open Std Calls Runs ProtocolMessage

namespace Peer

/-- The agreed extensions are the same. -/
def SameExtensions (p q : Peer) : Prop := q.mutualExtensions = p.mutualExtensions

instance : Overlooks SameExtensions where
  refl _ := rfl
  trans _ _ _ h h' := Eq.trans h' h
  other _ _ h := congrArg Standing.mutualExtensions h

/-- The agreed extensions are the same, and no session was entered. -/
def Aside (p q : Peer) : Prop :=
  q.mutualExtensions = p.mutualExtensions ∧ (q.pstate = .inSession → p.pstate = .inSession)

/-- The extensions and the state are part of the standing. -/
theorem Aside.of_standing {p q : Peer}
    (hext : q.standing.mutualExtensions = p.standing.mutualExtensions)
    (hstate : q.standing.pstate = p.standing.pstate ∨ q.standing.pstate = .terminating) :
    Aside p q := by
  refine ⟨hext, fun hq => ?_⟩
  rcases hstate with hsame | hover
  · exact hsame.symm.trans hq
  · exact absurd (hq.symm.trans hover) (by decide)

instance : Overlooks Aside where
  refl _ := ⟨rfl, id⟩
  trans _ _ _ h h' := ⟨h'.1.trans h.1, h.2 ∘ h'.2⟩
  other _ _ h := .of_standing (by rw [h]) (.inl (by rw [h]))

/-- What a message of the handshake says about extensions. -/
structure Offer where
  /-- Is the message a response? -/
  answer : Bool
  /-- The list of the message, if it has one. -/
  extensions : Option (List ExtensionIdType)

/-- The agreed extensions after the message, if they were `agreed` before. -/
def Offer.settle (o : Offer) (cfg : ProtocolConfig) (agreed : List ExtensionIdType) :
    List ExtensionIdType :=
  match o.answer, o.extensions with
  | false, some extensions =>
    agreed ++ extensions.filter fun extid => cfg.getExtensionIds.contains extid
  | true, some extensions => extensions
  | _, none => agreed

/-- Can the experiment names be read, if there are any? (`Peer.cpp:1169`) -/
def experimentNamesOk (d : DlepView) (pm : ProtocolMessage) : Bool :=
  match pm.getExperimentNames d.cfg with
  | .ok _ => true
  | .error (.std .dataItemNotPresent _) => true
  | .error (.std .badDataItemName _) => true
  | .error _ => false

/-- Can the peer type, the experiment names and the heartbeat interval be read? -/
def propertiesOk (d : DlepView) (pm : ProtocolMessage) : Bool :=
  (ifPresent (pm.getPeerType d.cfg)).isOk && (experimentNamesOk d pm &&
    ((pm.getHeartbeatInterval d.cfg).isOk &&
      (d.cfg.getDataItemInfoByName "Heartbeat_Interval").isOk))

section

variable [AddressText]

/-- The offer of a message of the handshake that is accepted as far as its extensions. -/
def offerOf (d : DlepView) (p : Peer) (name : String) (pm : ProtocolMessage) : Option Offer :=
  if fate d p name pm = .opens ∧ propertiesOk d pm then
    match ifPresent (pm.getExtensions d.cfg) with
    | .ok extensions => some ⟨name = "Session_Initialization_Response", extensions⟩
    | .error _ => none
  else none

/-- The offer that a step receives. -/
def Step.offer (p : Peer) (st : Step) : Option Offer :=
  match st.handled p with
  | some (name, pm) => offerOf st.d p name pm
  | none => none

end

/-! ## What the handlers do to the agreed extensions -/

section

variable [AddressText] {d : DlepView} {s : Surroundings} {p : Peer} {pm : ProtocolMessage}

omit [AddressText] in
/-- Stopping a peer enters no session. -/
theorem aside_stopPeer : Within Aside (stopPeer d) := by
  refine within_of_wp fun p => ?_
  refine (standing_stopPeer p).mono (fun _ q hq => ?_) fun _ _ h => h.elim
  exact .of_standing (by rw [hq]) (.inr (by rw [hq]))

/-- Ending a session enters none. -/
theorem aside_terminate {status : String} {reason : Bytes} :
    Within Aside (terminate d s status reason) := by
  refine within_of_wp fun p => ?_
  refine (standing_terminate p).mono (fun _ q hq => ?_) fun _ q hq => ?_
  · split at hq
    · rw [hq]
      exact Std.Refl.refl p
    · exact .of_standing (by rw [hq]) (.inr (by rw [hq]))
  · exact .of_standing (by rw [hq.2]) (.inr (by rw [hq.2]))

/-- Only the handshake writes the agreed extensions and enters the session. -/
theorem aside_of_fate {fate : Fate} (h : fate ≠ .opens) : fate.Within Aside d s := by
  cases fate with
  | stays => trivial
  | ends status reason => exact aside_terminate
  | stops => exact aside_stopPeer
  | opens => exact absurd rfl h

omit [AddressText] in
/-- The properties of the peer are stored if they can be read. -/
theorem wp_storePeerProperties (p : Peer) :
    wp (storePeerProperties d pm) (fun _ q => propertiesOk d pm = true ∧ SameStanding p q)
      (fun _ q => propertiesOk d pm = false ∧ SameStanding p q) p := by
  have htype : wp (storePeerType d pm) (fun _ _ => (ifPresent (pm.getPeerType d.cfg)).isOk = true)
      (fun _ _ => (ifPresent (pm.getPeerType d.cfg)).isOk = false) p := by
    rw [storePeerType, wp_bind]
    refine wp_lift (fun peerType hread => ?_) fun e hread => by rw [hread]; rfl
    rw [hread]
    cases peerType with
    | none => rfl
    | some peerType => rfl
  have hnames : ∀ q, wp (storeExperimentNames d pm) (fun _ _ => experimentNamesOk d pm = true)
      (fun _ _ => experimentNamesOk d pm = false) q := by
    intro q
    unfold storeExperimentNames
    split
    · next hread => simp [experimentNamesOk, hread]
    · next hread => simp [experimentNamesOk, hread]
    · next hread => simp [experimentNamesOk, hread]
    · next e hnone hbad hread =>
      rw [wp_throw, experimentNamesOk, hread]
      split
      · next heq => cases heq
      · next heq => exact absurd (Except.error.inj heq) (hnone _)
      · next heq => exact absurd (Except.error.inj heq) (hbad _)
      · rfl
  have hinterval : ∀ q, wp (storeHeartbeatInterval d pm)
      (fun _ _ => ((pm.getHeartbeatInterval d.cfg).isOk &&
        (d.cfg.getDataItemInfoByName "Heartbeat_Interval").isOk) = true)
      (fun _ _ => ((pm.getHeartbeatInterval d.cfg).isOk &&
        (d.cfg.getDataItemInfoByName "Heartbeat_Interval").isOk) = false) q := by
    intro q
    rw [storeHeartbeatInterval, wp_bind]
    refine wp_lift (fun interval hread => ?_) fun e hread => by rw [hread]; rfl
    rw [wp_bind, wp_modify, wp_bind, hread]
    exact wp_lift (fun info hinfo => by rw [hinfo]; rfl) fun e hinfo => by rw [hinfo]; rfl
  have hreads : wp (storePeerProperties d pm) (fun _ _ => propertiesOk d pm = true)
      (fun _ _ => propertiesOk d pm = false) p := by
    rw [storePeerProperties, wp_bind]
    refine htype.mono (fun _ q h₁ => ?_) fun _ _ h₁ => by rw [propertiesOk, h₁, Bool.false_and]
    rw [wp_bind, propertiesOk, h₁, Bool.true_and]
    refine (hnames q).mono (fun _ r h₂ => ?_) fun _ _ h₂ => by rw [h₂, Bool.false_and]
    rw [h₂, Bool.true_and]
    exact hinterval r
  exact hreads.and (overlooks_storePeerProperties.wp p)

omit [AddressText] in
/-- A response that is expected is accepted, and leaves the standing of the peer as it is. -/
theorem wp_acceptResponse_of_expects {mac : DlepMac} (hp : p.QueueOk)
    (hexpects : p.expects pm mac = true) :
    wp (acceptResponse s pm mac) (fun ok q => ok = true ∧ SameStanding p q)
      (fun _ _ => False) p := by
  have hreturns : wp (acceptResponse s pm mac) (fun ok _ => ok = true) (fun _ _ => False) p := by
    simp only [acceptResponse, wp_bind, wp_get]
    unfold expects at hexpects
    split at hexpects
    · next rp rest id hhead hid =>
      rw [hhead]
      simp only [hid, of_decide_eq_true hexpects, if_true]
      cases rest with
      | nil => rfl
      | cons next rest =>
        obtain ⟨hqueued, hdest⟩ := (hp _ _ hhead).2 next (by simp)
        simp only [popResponse, sendMessageExpectingResponse, wp_bind, wp_modify, wp_get]
        split
        · rfl
        · rw [enqueue, if_pos hqueued, wp_bind, wp_pure, sendIfHead, wp_bind, wp_get, hdest,
            ExtTreeMap.getElem?_insert_self]
          dsimp only
          split
          · rfl
          · rfl
    · cases hexpects
  exact (hreturns.and (overlooks_acceptResponse.wp p)).mono (fun _ _ hq => hq) fun _ _ hq => hq.1

/-- Checking the addresses opens no session. -/
theorem fateAddresses_ne_opens {existing items : DataItems} :
    fateAddresses d p existing items ≠ .opens := by
  unfold fateAddresses
  split
  · split <;> simp
  · simp

omit [AddressText] in
/-- A response about a destination opens no session. -/
theorem fateResponse_ne_opens {mac : DlepMac} : fateResponse d p pm mac ≠ .opens := by
  unfold fateResponse
  split
  · simp
  · split <;> simp

/-- A message about a destination opens no session. -/
theorem fateDestination_ne_opens {name : String} {mac : DlepMac} :
    fateDestination d p name pm mac ≠ .opens := by
  have hup : ∀ mac items, fateUp d p mac items ≠ .opens := by
    intro mac items
    unfold fateUp
    split
    · simp
    · exact fateAddresses_ne_opens
  have hresponse : fateUpResponse d p pm mac ≠ .opens := by
    unfold fateUpResponse
    split
    · split
      · split
        · exact hup _ _
        · simp
      · simp
    · exact fateResponse_ne_opens
  unfold fateDestination
  split
  · unfold fateUpdate
    split
    · simp
    · exact fateAddresses_ne_opens
    · simp
  · split
    · simp
    · exact hup _ _
  · exact hresponse
  · exact hresponse
  · split <;> simp
  · exact fateResponse_ne_opens
  · split
    · split <;> simp
    · simp
  · split
    · split <;> simp
    · exact fateResponse_ne_opens
  · simp

/-- The messages that complete the handshake. -/
theorem of_fate_opens {name : String} (h : fate d p name pm = .opens) :
    (name = "Session_Initialization" ∧ validateIpDataItems d p [] pm.dataItems = .ok []) ∨
      (name = "Session_Initialization_Response" ∧
        ∃ mac, ifPresent (pm.getMac d.cfg) = .ok mac ∧ p.expects pm (mac.getD []) = true) := by
  unfold fate at h
  split at h
  · exact absurd h fateAddresses_ne_opens
  · split at h
    · exact absurd h fateResponse_ne_opens
    · cases h
  · split at h
    · next hok => exact .inl ⟨rfl, of_decide_eq_true hok⟩
    · exact absurd h fateAddresses_ne_opens
  · split at h
    · next mac hmac =>
      split at h
      · next hexpects => exact .inr ⟨rfl, mac, hmac, hexpects⟩
      · exact absurd h fateResponse_ne_opens
    · cases h
  · cases h
  · split at h
    · exact absurd h fateDestination_ne_opens
    · cases h

omit [AddressText] in
/-- What an offer does: it settles the agreed extensions. Without one, nothing happens to them,
and no session is entered. -/
def Settles (cfg : ProtocolConfig) (offer : Option Offer) (p q : Peer) : Prop :=
  match offer with
  | some o => q.mutualExtensions = o.settle cfg p.mutualExtensions
  | none => Aside p q

omit [AddressText] in
/-- What keeps the standing settles nothing. -/
theorem Settles.of_standing {cfg : ProtocolConfig} {q : Peer} (h : SameStanding p q) :
    Settles cfg none p q := Overlooks.other (R := Aside) p q h

omit [AddressText] in
/-- What comes after the extensions. -/
theorem settles_within {α : Type} {m : PeerM α} (hm : Within SameExtensions m)
    {cfg : ProtocolConfig} {o : Offer} {q : Peer} (hq : Settles cfg (some o) p q) :
    wp m (fun _ r => Settles cfg (some o) p r) (fun _ r => Settles cfg (some o) p r) q :=
  (hm.wp q).mono (fun _ _ h => Eq.trans h hq) fun _ _ h => Eq.trans h hq

/-- Entering a session keeps the extensions that were agreed on before it. -/
theorem sameExtensions_enterSession {info : Peer → PeerInfo} :
    Within SameExtensions (enterSession d s info) :=
  overlooks_enterSession (within_modify fun _ => rfl)

/-- A modem adds the common ones of the extensions that an opening lists. -/
theorem settles_handlePeerInitialization
    (hfate : fate d p "Session_Initialization" pm = .opens)
    (hok : validateIpDataItems d p [] pm.dataItems = .ok []) {offer : Option Offer}
    (hoffer : offerOf d p "Session_Initialization" pm = offer) :
    wp (handlePeerInitialization d s pm) (fun _ q => Settles d.cfg offer p q)
      (fun _ q => Settles d.cfg offer p q) p := by
  simp only [handlePeerInitialization, wp_bind, wp_get, hok, wp_lift_ok, ne_eq, not_true_eq_false,
    if_false]
  refine (wp_storePeerProperties p).mono (fun _ q hq => ?_) fun _ q hq => ?_
  · obtain ⟨hread, hq⟩ := hq
    have hsame : q.mutualExtensions = p.mutualExtensions := congrArg Standing.mutualExtensions hq
    have hrest : Within SameExtensions (do
        sendPeerInitializationResponse d s
        enterSession d s getInfo
        advertisePeer d s) :=
      within_bind overlooks_sendPeerInitializationResponse fun _ =>
        within_bind sameExtensions_enterSession fun _ => overlooks_advertisePeer
    simp only [offerOf, hfate, hread, and_self, if_true] at hoffer
    rw [addMutualExtensions, wp_bind]
    refine wp_lift (fun extensions hext => ?_) fun e hext => ?_
    · simp only [hext] at hoffer
      subst hoffer
      simp only [← wp_bind]
      cases extensions with
      | none => exact settles_within hrest hsame
      | some extensions =>
        refine settles_within hrest ?_
        change q.mutualExtensions ++ _ = p.mutualExtensions ++ _
        rw [hsame]
    · simp only [hext] at hoffer
      subst hoffer
      exact .of_standing hq
  · obtain ⟨hread, hq⟩ := hq
    simp only [offerOf, hread, Bool.false_eq_true, and_false, if_false] at hoffer
    subst hoffer
    exact .of_standing hq

/-- A router takes over the extensions that the answer lists. -/
theorem settles_handlePeerInitializationResponse (hp : p.QueueOk)
    (hfate : fate d p "Session_Initialization_Response" pm = .opens)
    {name : String} (hname : pm.getSignalName d.cfg = .ok name) {mac : Option DlepMac}
    (hmac : ifPresent (pm.getMac d.cfg) = .ok mac) (hexpects : p.expects pm (mac.getD []) = true)
    {offer : Option Offer} (hoffer : offerOf d p "Session_Initialization_Response" pm = offer) :
    wp (handlePeerInitializationResponse d s pm) (fun _ q => Settles d.cfg offer p q)
      (fun _ q => Settles d.cfg offer p q) p := by
  simp only [handlePeerInitializationResponse, handleResponse, wp_bind, hname, hmac, wp_lift_ok]
  refine (wp_acceptResponse_of_expects hp hexpects).mono (fun ok q hq => ?_) fun _ _ h => h.elim
  obtain ⟨rfl, hq⟩ := hq
  simp only [if_true, wp_pure, wp_bind]
  refine (wp_storePeerProperties q).mono (fun _ r hr => ?_) fun _ r hr => ?_
  · obtain ⟨hread, hr⟩ := hr
    have hsame : r.mutualExtensions = p.mutualExtensions :=
      congrArg Standing.mutualExtensions (hr.trans hq)
    have hrest : Within SameExtensions (do
        let _ ← onPdp (PeerData.updateDataItems d.cfg pm.dataItems)
        enterSession d s fun p => { getInfo p with dataItems := pm.dataItems }) :=
      within_bind overlooks_onPdp fun _ => sameExtensions_enterSession
    simp only [offerOf, hfate, hread, and_self, if_true] at hoffer
    rw [setMutualExtensions, wp_bind]
    refine wp_lift (fun extensions hext => ?_) fun e hext => ?_
    · simp only [hext] at hoffer
      subst hoffer
      simp only [← wp_bind]
      cases extensions with
      | none => exact settles_within hrest hsame
      | some extensions => exact settles_within hrest rfl
    · simp only [hext] at hoffer
      subst hoffer
      exact .of_standing (hr.trans hq)
  · obtain ⟨hread, hr⟩ := hr
    simp only [offerOf, hread, Bool.false_eq_true, and_false, if_false] at hoffer
    subst hoffer
    exact .of_standing (hr.trans hq)

/-- By cases on the handler: only the two messages of the handshake settle anything. -/
theorem settles_dispatch (hp : p.QueueOk) {name : String}
    (hname : pm.getSignalName d.cfg = .ok name) {offer : Option Offer}
    (hoffer : offerOf d p name pm = offer) :
    wp (dispatch d s name pm) (fun _ q => Settles d.cfg offer p q)
      (fun _ q => Settles d.cfg offer p q) p := by
  by_cases hfate : fate d p name pm = .opens
  · rcases of_fate_opens hfate with ⟨rfl, hok⟩ | ⟨rfl, mac, hmac, hexpects⟩
    · exact settles_handlePeerInitialization hfate hok hoffer
    · exact settles_handlePeerInitializationResponse hp hfate hname hmac hexpects hoffer
  · simp only [offerOf, hfate, false_and, if_false] at hoffer
    subst hoffer
    exact overlooks_dispatch (R := Aside) hp (aside_of_fate hfate)

/-- The check of the status may end the session, and enters none. -/
theorem aside_checkStatusCodeFailure : Within Aside (checkStatusCodeFailure d s pm) := by
  refine within_bind within_lift fun name => within_ite (fun _ => within_pure) fun _ => ?_
  refine within_bind within_lift fun status => ?_
  cases status with
  | none => exact within_pure
  | some status =>
    refine within_bind within_lift fun info => within_ite (fun _ => ?_) fun _ => within_pure
    exact within_bind aside_terminate fun _ => within_pure

/-- What the bytes of a message do to the agreed extensions. -/
theorem settles_handlePeerSignal (hp : p.QueueOk) {buf : Bytes} {offer : Option Offer}
    (hoffer : (match handledOf d s p buf with
      | some (name, pm) => offerOf d p name pm
      | none => none) = offer) :
    wp (handlePeerSignal d s buf) (fun _ q => Settles d.cfg offer p q)
      (fun _ q => Settles d.cfg offer p q) p := by
  unfold handledOf at hoffer
  rw [handlePeerSignal, wp_bind]
  refine wp_lift (fun r hr => ?_) fun e hr => ?_
  · obtain ⟨err, pm⟩ := r
    rw [hr] at hoffer
    cases err with
    | cons b err =>
      subst hoffer
      exact aside_terminate.wp p
    | nil =>
      dsimp only at hoffer
      simp only [ne_eq, not_true_eq_false, if_false]
      rw [wp_bind]
      have hsame := (@aside_checkStatusCodeFailure _ d s pm).wp p
      have hwhich := @wp_checkStatusCodeFailure _ d s pm p
      refine wp_of_run (fun ended q hrun => ?_) fun e q hrun => ?_
      · rw [wp, hrun] at hsame hwhich
        rw [hrun] at hoffer
        cases ended with
        | true =>
          subst hoffer
          exact hsame
        | false =>
          obtain rfl : q = p := hwhich.2
          simp only [Bool.false_eq_true, if_false, wp_bind]
          refine wp_lift (fun name hname => ?_) fun e hname => ?_
          · rw [hname] at hoffer
            exact settles_dispatch hp hname hoffer
          · rw [hname] at hoffer
            subst hoffer
            exact .of_standing rfl
      · rw [wp, hrun] at hsame
        rw [hrun] at hoffer
        subst hoffer
        exact hsame
  · rw [hr] at hoffer
    subst hoffer
    exact .of_standing rfl

/-- An offer is read from a message that is given to its handler. -/
theorem exists_of_offer {st : Step} {o : Offer} (h : st.offer p = some o) :
    ∃ buf pm name, nextMessage st.d p = some buf ∧ received st.d buf = .ok ([], pm) ∧
      pm.getSignalName st.d.cfg = .ok name ∧ fate st.d p name pm = .opens ∧
      ifPresent (pm.getExtensions st.d.cfg) = .ok o.extensions ∧
      o.answer = decide (name = "Session_Initialization_Response") := by
  unfold Step.offer at h
  split at h
  · next name pm hhandled =>
    obtain ⟨buf, _, hnext, hhandled⟩ := exists_of_handled hhandled
    obtain ⟨hreceived, hname⟩ := received_of_handledOf hhandled
    unfold offerOf at h
    split at h
    · next hgood =>
      split at h
      · next extensions hext =>
        obtain rfl := Option.some.inj h
        exact ⟨buf, pm, name, hnext, hreceived, hname, hgood.1, hext, rfl⟩
      · cases h
    · cases h
  · cases h

omit [AddressText] in
/-- The receive buffer is not what was settled. -/
theorem Settles.drop {cfg : ProtocolConfig} {offer : Option Offer} {q : Peer} (n : Nat)
    (h : Settles cfg offer p q) :
    Settles cfg offer p { q with signalRecv := q.signalRecv.drop n } := by
  cases offer with
  | none => exact h
  | some o => exact h

/-- Without a message, nothing is agreed on and no session is entered. -/
theorem aside_step (hp : p.QueueOk) {st : Step} (hmsg : st.input ≠ .message) :
    Aside p (p.step st) := by
  refine overlooks_step (R := Aside) hp (aside_of_fate ?_)
  unfold Step.fate
  split
  · next hinput => exact absurd hinput hmsg
  · split <;> simp
  · simp
  · simp
  · simp

/-- What a step does to the agreed extensions. -/
theorem settles_step (hp : p.QueueOk) (st : Step) :
    Settles st.d.cfg (st.offer p) p (p.step st) := by
  by_cases hmsg : st.input = .message
  · cases hnext : nextMessage st.d p with
    | none =>
      rw [step_of_nextMessage_none hmsg hnext]
      simp only [Step.offer, Step.handled, hmsg, hnext]
      exact .of_standing rfl
    | some buf =>
      refine step_of_nextMessage hmsg hnext (fun _ n hq => hq.drop n)
        (settles_handlePeerSignal hp ?_)
      rw [Step.offer, Step.handled, hmsg, hnext]
  · have hoffer : st.offer p = none := by
      unfold Step.offer Step.handled
      split
      · next heq =>
        split at heq
        · next hinput _ => exact absurd hinput hmsg
        · cases heq
      · rfl
    rw [hoffer]
    exact aside_step hp hmsg

end

end Peer

/-! ## Runs -/

/-- A peer, and the extensions that were listed in the last message of the handshake it has
accepted. A message without a list lists none. -/
structure Negotiation where
  peer : Peer
  offered : List ExtensionIdType := []

namespace Negotiation

open Peer

section

variable [AddressText]

def step (n : Negotiation) (st : Step) : Negotiation where
  peer := n.peer.step st
  offered :=
    match st.offer n.peer with
    | some o => o.extensions.getD []
    | none => n.offered

end

/-- What is expected: the agreed extensions are a set, and both sides have each of them. -/
def Agreed (cfg : ProtocolConfig) (n : Negotiation) : Prop :=
  n.peer.mutualExtensions.Nodup ∧
    ∀ extid ∈ n.peer.mutualExtensions, extid ∈ cfg.getExtensionIds ∧ extid ∈ n.offered

end Negotiation

namespace Peer

/-- A modem that has agreed on nothing gets a list that names no common extension twice; a router
gets a list of extensions of its own, none of them twice; and a message without a list comes when
nothing is agreed on. -/
def Offer.Agreeable (o : Offer) (cfg : ProtocolConfig) (agreed : List ExtensionIdType) : Prop :=
  match o.answer, o.extensions with
  | false, some extensions =>
    agreed = [] ∧ (extensions.filter fun extid => cfg.getExtensionIds.contains extid).Nodup
  | true, some extensions => extensions.Nodup ∧ ∀ extid ∈ extensions, extid ∈ cfg.getExtensionIds
  | _, none => agreed = []

instance {o : Offer} {cfg : ProtocolConfig} {agreed : List ExtensionIdType} :
    Decidable (o.Agreeable cfg agreed) :=
  match o with
  | ⟨false, some extensions⟩ => inferInstanceAs (Decidable
      (agreed = [] ∧ (extensions.filter fun extid => cfg.getExtensionIds.contains extid).Nodup))
  | ⟨true, some extensions⟩ => inferInstanceAs (Decidable
      (extensions.Nodup ∧ ∀ extid ∈ extensions, extid ∈ cfg.getExtensionIds))
  | ⟨false, none⟩ => inferInstanceAs (Decidable (agreed = []))
  | ⟨true, none⟩ => inferInstanceAs (Decidable (agreed = []))

/-- The offer that the step receives, if any, is agreeable. -/
def Step.Agreeable [AddressText] (st : Step) (p : Peer) : Prop :=
  ∀ o ∈ st.offer p, o.Agreeable st.d.cfg p.mutualExtensions

instance [AddressText] {st : Step} {p : Peer} : Decidable (st.Agreeable p) :=
  inferInstanceAs (Decidable (∀ o ∈ st.offer p, o.Agreeable st.d.cfg p.mutualExtensions))

/-- Of the extensions that are agreed on and offered, an offer leaves a set exactly if it is
agreeable. -/
theorem Offer.agreeable_iff {o : Offer} {cfg : ProtocolConfig} {agreed : List ExtensionIdType}
    (hown : ∀ extid ∈ agreed, extid ∈ cfg.getExtensionIds) :
    ((o.settle cfg agreed).Nodup ∧ ∀ extid ∈ o.settle cfg agreed,
      extid ∈ cfg.getExtensionIds ∧ extid ∈ o.extensions.getD []) ↔ o.Agreeable cfg agreed := by
  obtain ⟨answer, extensions⟩ := o
  cases extensions with
  | none =>
    have hempty : (agreed.Nodup ∧ ∀ extid ∈ agreed, extid ∈ cfg.getExtensionIds ∧
        extid ∈ ([] : List ExtensionIdType)) ↔ agreed = [] := by
      constructor
      · rintro ⟨_, hall⟩
        refine List.eq_nil_iff_forall_not_mem.2 fun extid hmem => ?_
        exact absurd (hall extid hmem).2 List.not_mem_nil
      · rintro rfl
        simp
    cases answer with
    | false => exact hempty
    | true => exact hempty
  | some extensions =>
    cases answer with
    | true =>
      simp only [Offer.settle, Offer.Agreeable, Option.getD_some]
      exact and_congr_right fun _ => ⟨fun h x hx => (h x hx).1, fun h x hx => ⟨h x hx, hx⟩⟩
    | false =>
      simp only [Offer.settle, Offer.Agreeable, Option.getD_some]
      constructor
      · rintro ⟨hnodup, hall⟩
        obtain ⟨_, hcommon, hdisjoint⟩ := List.nodup_append.1 hnodup
        refine ⟨List.eq_nil_iff_forall_not_mem.2 fun extid hmem => ?_, hcommon⟩
        have hoffered := (hall extid (List.mem_append_left _ hmem)).2
        refine hdisjoint extid hmem extid (List.mem_filter.2 ⟨hoffered, ?_⟩) rfl
        simpa using hown extid hmem
      · rintro ⟨rfl, hcommon⟩
        refine ⟨hcommon, fun extid hmem => ?_⟩
        obtain ⟨hoffered, hhas⟩ := List.mem_filter.1 hmem
        exact ⟨by simpa using hhas, hoffered⟩

end Peer

namespace Negotiation

open Peer

variable [AddressText]

/-- One step keeps the agreement exactly if its offer is agreeable. -/
theorem agreed_step_iff {cfg : ProtocolConfig} {n : Negotiation} {st : Step} (hp : n.peer.QueueOk)
    (hcfg : st.d.cfg = cfg) (h : Agreed cfg n) :
    Agreed cfg (n.step st) ↔ st.Agreeable n.peer := by
  have hsettles := settles_step hp st
  unfold Agreed Step.Agreeable
  simp only [Negotiation.step]
  cases hoffer : st.offer n.peer with
  | none =>
    rw [hoffer] at hsettles
    rw [hsettles.1]
    simpa [Agreed] using h
  | some o =>
    rw [hoffer] at hsettles
    rw [show (n.peer.step st).mutualExtensions = _ from hsettles]
    rw [← hcfg] at h ⊢
    rw [Offer.agreeable_iff fun extid hmem => (h.2 extid hmem).1]
    simp

/-- In a run from the construction of a peer, the agreement holds in every state exactly if every
offer is agreeable. -/
theorem agreed_iff_agreeable {cfg : ProtocolConfig} {peerId : PeerId} {now : Nat} {p : Peer}
    (hp : Peer.create cfg peerId now = .ok p) {steps : List Step}
    (hcfg : ∀ st ∈ steps, st.d.cfg = cfg) :
    (∀ pre, pre <+: steps → Agreed cfg (run step { peer := p } pre)) ↔
      Along step (fun n st => st.Agreeable n.peer) { peer := p } steps := by
  have hok : p.QueueOk := (queueInv_of_create hp).ok
  have hempty : p.mutualExtensions = [] := by rw [create_ok hp]
  refine forall_prefix_iff_along (P := fun _ st => True ∧ st.d.cfg = cfg)
    (I := fun n => n.peer.QueueOk) (fun n st hn hagreed hst => ?_)
      (along_true.and_inputs hcfg) hok ?_
  · exact ⟨queueOk_step st hn, agreed_step_iff hn hst.2 hagreed⟩
  · simp [Agreed, hempty]

end Negotiation

end Dlep
