import Dlep.Peer.Addresses

/-!
# How far a message gets

What a received message makes a peer do, as far as it can be told before the message is handled:
it may leave the data of the peer and the client alone (`quiet`), change what is stored
(`stores`), call the client (`client`), or open the session (`handshake`). The decision is the one
the handler comes to. In every case the session may be closed at the end, but nothing follows
that.
-/

namespace Dlep

open Std Calls Relation

namespace Peer

/-- How far a message gets. -/
inductive Reach where
  | quiet
  | stores
  | client
  | handshake
  deriving DecidableEq, Repr

/-- The kinds of moves that a message may cause, until the session closes. The opening of the
session is not one of them, since it happens only once. -/
def Reach.kinds : Reach → Finset Kind
  | .quiet => {.quiet, .send, .queue}
  | .stores => {.quiet, .send, .queue, .interest, .store}
  | .client => {.quiet, .send, .queue, .interest, .store, .callback}
  | .handshake => {.quiet, .send, .queue, .store, .init}

/-- Every message may lead to messages on a queue. -/
theorem Reach.queue_mem (r : Reach) : .queue ∈ r.kinds := by
  cases r <;> decide

/-- Moves of the given kinds, and then perhaps the end of the session. -/
def Phased (ks : Finset Kind) (p p' : Peer) : Prop :=
  p.QueueOk → ∃ q, Moves ks p q ∧ Moves {.quiet, .queue, .down} q p'

/-- The kinds of moves before the session opens: nothing is stored. -/
def openingKinds : Finset Kind := {.quiet, .send, .queue, .init}

/-- The session opens, once. -/
def Starts (p p' : Peer) : Prop :=
  p.QueueOk → ∃ q r, Moves (Reach.kinds .handshake) p q ∧ Move .up q r ∧
    Moves (Reach.kinds .handshake) r p'

/-- The session opens, or nothing is stored. -/
def Opens (p p' : Peer) : Prop :=
  p.QueueOk → Moves openingKinds p p' ∨ ∃ q r, Moves (Reach.kinds .handshake) p q ∧ Move .up q r ∧
    Moves (Reach.kinds .handshake) r p'

/-- What a message of the given reach leads to. -/
def Reach.Leads : Reach → Peer → Peer → Prop
  | .handshake => Opens
  | r => Phased r.kinds

/-- Moves without an end of the session. -/
theorem Phased.of_evolves {ks : Finset Kind} {p p' : Peer} (h : Evolves ks p p') : Phased ks p p' :=
  fun hp => ⟨p', h hp, .refl⟩

/-- The end of the session alone. -/
theorem Phased.of_closing {ks : Finset Kind} {p p' : Peer}
    (h : Evolves {.quiet, .queue, .down} p p') : Phased ks p p' :=
  fun hp => ⟨p, .refl, h hp⟩

/-- Moves before what comes in phases. -/
theorem Evolves.phased {ks : Finset Kind} {p q p' : Peer} (h : Evolves ks p q)
    (h' : Phased ks q p') : Phased ks p p' := by
  intro hp
  obtain ⟨r, hqr, hclose⟩ := h' ((h hp).queueOk hp)
  exact ⟨r, (h hp).trans hqr, hclose⟩

/-- An end of the session after what comes in phases. -/
theorem Phased.closing {ks : Finset Kind} {p q p' : Peer} (h : Phased ks p q)
    (h' : Evolves {.quiet, .queue, .down} q p') : Phased ks p p' := by
  intro hp
  obtain ⟨r, hpr, hrq⟩ := h hp
  exact ⟨r, hpr, hrq.trans (h' (hrq.queueOk (hpr.queueOk hp)))⟩

/-- Moves before the session opens store nothing. -/
theorem Opens.of_evolves {p p' : Peer} (h : Evolves openingKinds p p') : Opens p p' :=
  fun hp => .inl (h hp)

/-- Starting a session opens it. -/
theorem Starts.opens {p p' : Peer} (h : Starts p p') : Opens p p' := fun hp => .inr (h hp)

/-- Moves after the session has started. -/
theorem Starts.evolves {p q p' : Peer} (h : Starts p q)
    (h' : Evolves (Reach.kinds .handshake) q p') : Starts p p' := by
  intro hp
  obtain ⟨r, t, hpr, hup, htq⟩ := h hp
  have hq := htq.queueOk (hup.queueOk (hpr.queueOk hp))
  exact ⟨r, t, hpr, hup, htq.trans (h' hq)⟩

/-- Moves before the session starts. -/
theorem Evolves.starts {p q p' : Peer} (h : Evolves (Reach.kinds .handshake) p q)
    (h' : Starts q p') : Starts p p' := by
  intro hp
  obtain ⟨r, t, hqr, hup, htp'⟩ := h' ((h hp).queueOk hp)
  exact ⟨r, t, (h hp).trans hqr, hup, htp'⟩

/-- Moves that store nothing before the session opens. -/
theorem Evolves.opens {p q p' : Peer} (h : Evolves openingKinds p q) (h' : Opens q p') :
    Opens p p' := by
  intro hp
  rcases h' ((h hp).queueOk hp) with hmoves | hstarts
  · exact .inl ((h hp).trans hmoves)
  · exact (Evolves.starts (h.mono (by decide)) fun _ => hstarts).opens hp

/-- Moves that store nothing after the session opens. -/
theorem Opens.evolves {p q p' : Peer} (h : Opens p q) (h' : Evolves openingKinds q p') :
    Opens p p' := by
  intro hp
  rcases h hp with hmoves | hstarts
  · exact .inl (hmoves.trans (h' (hmoves.queueOk hp)))
  · exact (Starts.evolves (fun _ => hstarts) (h'.mono (by decide))).opens hp

/-- Every message may lead to nothing. -/
theorem Reach.Leads.refl (r : Reach) (p : Peer) : r.Leads p p := by
  cases r with
  | handshake => exact Opens.of_evolves (.refl p)
  | _ => exact Phased.of_evolves (.refl p)

/-- What a message leads to may go on quietly. -/
theorem Reach.Leads.quiet {r : Reach} {p q p' : Peer} (h : r.Leads p q) (h' : Move .quiet q p') :
    r.Leads p p' := by
  cases r with
  | handshake => exact Opens.evolves h (.single h' (by decide))
  | _ => exact Phased.closing h (.single h' (by decide))

/-- What every move keeps, every message keeps. -/
theorem Reach.Leads.keeps {r : Reach} {P : Peer → Prop} {p p' : Peer}
    (hmove : ∀ k q q', Move k q q' → P q → P q') (h : r.Leads p p') (hok : p.QueueOk) (hp : P p) :
    P p' := by
  have hmoves : ∀ {ks q q'}, Moves ks q q' → P q → P q' := fun hm => hm.keeps fun k _ => hmove k
  cases r with
  | handshake =>
    rcases h hok with hpp' | ⟨q, r, hpq, hup, hrp'⟩
    · exact hmoves hpp' hp
    · exact hmoves hrp' (hmove _ _ _ hup (hmoves hpq hp))
  | _ =>
    obtain ⟨q, hpq, hqp'⟩ := h hok
    exact hmoves hqp' (hmoves hpq hp)

section

variable [AddressText] (d : DlepView)

/-- The addresses can be added and dropped. -/
def addressesOk (p : Peer) (existing items : DataItems) : Bool :=
  validateIpDataItems d p existing items = .ok []

/-- A destination that is up at a router. -/
def reachUp (p : Peer) (mac : DlepMac) (items : DataItems) : Reach :=
  if p.peerPdp.validDestination mac then .quiet
  else if addressesOk d p [] items then .client
  else .quiet

omit [AddressText] in
/-- A destination that is announced to a modem. -/
def reachAnnounce (p : Peer) (mac : DlepMac) : Reach :=
  if p.peerPdp.validDestination mac then .quiet
  else if d.localPdp.validDestination mac then .stores
  else .client

/-- A response about a destination. -/
def reachUpResponse (p : Peer) (pm : ProtocolMessage) (mac : DlepMac) : Reach :=
  if expects p pm mac then
    match ifPresent (pm.getStatus d.cfg) with
    | .ok status =>
      if status = some "Not_Interested" then
        if p.isNotInterested mac then .quiet else .stores
      else if status = none ∨ status = some "Success" then
        if d.modem then .quiet else reachUp d p mac pm.dataItems
      else .quiet
    | .error _ => .quiet
  else .quiet

/-- An update of a destination. -/
def reachUpdate (p : Peer) (pm : ProtocolMessage) (mac : DlepMac) : Reach :=
  match p.peerPdp.getDestinationData mac, pm.getDataItemsNoMac d.cfg with
  | some dd, .ok items => if addressesOk d p dd.ipDataItems items then .client else .quiet
  | _, _ => .quiet

/-- A message about a destination. -/
def reachDestination (p : Peer) (name : String) (pm : ProtocolMessage) (mac : DlepMac) : Reach :=
  match name with
  | "Destination_Update" => reachUpdate d p pm mac
  | "Destination_Up" => if d.modem then reachAnnounce d p mac else reachUp d p mac pm.dataItems
  | "Destination_Up_Response" => reachUpResponse d p pm mac
  | "Destination_Announce" => reachAnnounce d p mac
  | "Destination_Announce_Response" => reachUpResponse d p pm mac
  | "Destination_Down" =>
    if p.peerPdp.validDestination mac || d.localPdp.validDestination mac then .client else .quiet
  | "Link_Characteristics_Request" =>
    match d.localPdp.getDestinationData mac, pm.getDataItemsNoMac d.cfg with
    | some _, .ok (_ :: _) => .client
    | _, _ => .quiet
  | "Link_Characteristics_Response" =>
    if expects p pm mac && p.peerPdp.validDestination mac then .client else .quiet
  | _ => .quiet

/-- A message that is valid and that does not carry a status that ends the session. -/
def reach (p : Peer) (name : String) (pm : ProtocolMessage) : Reach :=
  match name with
  | "Session_Update" =>
    if addressesOk d p p.peerPdp.ipDataItems pm.dataItems then .client else .quiet
  | "Session_Initialization" => if addressesOk d p [] pm.dataItems then .handshake else .quiet
  | "Session_Initialization_Response" =>
    match ifPresent (pm.getMac d.cfg) with
    | .ok mac => if expects p pm (mac.getD []) then .handshake else .quiet
    | .error _ => .quiet
  | name =>
    match pm.getMac d.cfg with
    | .ok mac => reachDestination d p name pm mac
    | .error _ => .quiet

/-- Does the status end the session? -/
def isFailure (cfg : ProtocolConfig) : Option String → Bool
  | none => false
  | some status =>
    match cfg.getStatusCodeInfo status with
    | .ok info => info.failureMode = .terminate
    | .error _ => false

/-- Does the message carry a status that ends the session? -/
def statusEnds (pm : ProtocolMessage) : Bool :=
  match pm.getSignalName d.cfg, ifPresent (pm.getStatus d.cfg) with
  | .ok name, .ok status =>
    if name = "Session_Termination" ∨ name = "Session_Termination_Response" then false
    else isFailure d.cfg status
  | _, _ => false

/-- How far the bytes of a message get. -/
def reachOf (p : Peer) (buf : Bytes) : Reach :=
  match received d buf with
  | .ok ([], pm) =>
    if statusEnds d pm then .quiet
    else
      match pm.getSignalName d.cfg with
      | .ok name => reach d p name pm
      | .error _ => .quiet
  | _ => .quiet

end

/-! ## The handlers -/

section

variable [AddressText] {d : DlepView} {s : Surroundings}

/-- From `p` the call leads to a state related to `p`. -/
def LeadsFrom {α : Type} (R : Peer → Peer → Prop) (m : PeerM α) (p : Peer) : Prop :=
  wp m (fun _ p' => R p p') (fun _ p' => R p p') p

omit [AddressText] in
/-- A call that moves by some kinds leads to moves of these kinds. -/
theorem phased_of_within {α : Type} {ks : Finset Kind} {m : PeerM α}
    (h : Within (Evolves ks) m) (p : Peer) : LeadsFrom (Phased ks) m p :=
  (h.wp p).mono (fun _ _ h => .of_evolves h) fun _ _ h => .of_evolves h

omit [AddressText] in
/-- A computation that throws leads to nothing. -/
theorem phased_lift_bind {α β : Type} {ks : Finset Kind} {x : Except Exn α} {work : α → PeerM β}
    {p : Peer} (hwork : ∀ a, x = .ok a → LeadsFrom (Phased ks) (work a) p) :
    LeadsFrom (Phased ks) (liftM x >>= work) p :=
  wp_bind.2 (wp_lift hwork fun _ _ => .of_evolves (.refl p))

/-- Ending the session is possible whatever the kinds are. -/
theorem phased_terminate {ks : Finset Kind} {status : String} {reason : Bytes} (p : Peer) :
    LeadsFrom (Phased ks) (terminate d s status reason) p :=
  (within_terminate.wp p).mono (fun _ _ h => .of_closing h) fun _ _ h => .of_closing h

omit [AddressText] in
/-- A call on the data that brings no new metric is a move that stores. -/
theorem within_onPdp {α : Type} {m : EStateM Exn PeerData α} (h : Within PeerData.NoNewMetrics m) :
    Within (Evolves {.store}) (onPdp m) :=
  within_zoom fun p => .single (.store (h p.peerPdp)) (by simp)

/-- Storing a destination is a move that stores. -/
theorem within_addDestinationChecked {mac : DlepMac} {items : DataItems} :
    Within (Evolves {.store}) (addDestinationChecked d mac items) :=
  within_bind (within_onPdp PeerData.noNewMetrics_addDestination) fun _ => within_lift

omit [AddressText] in
/-- Asking the client is a move that calls it. -/
theorem within_askClient {mac : DlepMac} {items : DataItems} :
    Within (Evolves {.callback}) (askClient s mac items) :=
  within_bind within_get fun _ => within_bind (within_callClient rfl) fun _ => within_pure

/-- A destination that is admitted is stored, and the client is asked. -/
theorem within_admitDestination {mac : DlepMac} {items : DataItems} :
    Within (Evolves (Reach.kinds .client)) (admitDestination d s mac items) := by
  refine within_bind (widen within_regainInterest (by decide)) fun _ => ?_
  refine within_bind (widen within_askClient (by decide)) fun _ =>
    within_ite (fun _ => ?_) fun _ => ?_
  · exact within_bind (widen within_addDestinationChecked (by decide)) fun _ => within_pure
  · exact within_pure

/-- The answer to a destination is sent. -/
theorem within_answerUp {name status : String} {mac : DlepMac} :
    Within (Evolves {.send}) (answerUp d s name status mac) :=
  within_bind within_lift fun _ =>
    within_ite (fun _ => within_sendSimpleResponse) fun _ => within_pure

/-- The handler of Destination Up goes as far as `reachUp` says. -/
theorem leads_handleDestinationUp {pm : ProtocolMessage} {mac : DlepMac}
    (hmac : pm.getMac d.cfg = .ok mac) (p : Peer) :
    LeadsFrom (Phased (reachUp d p mac pm.dataItems).kinds) (handleDestinationUp d s pm) p := by
  simp only [LeadsFrom, handleDestinationUp, hmac, wp_bind, wp_lift_ok]
  refine wp_lift (fun name _ => ?_) fun _ _ => .of_evolves (.refl p)
  simp only [upStatus, wp_bind, wp_get]
  by_cases hvalid : p.peerPdp.validDestination mac
  · rw [if_pos hvalid, reachUp, if_pos hvalid, wp_pure]
    exact phased_of_within (widen within_answerUp (by decide)) p
  · rw [if_neg hvalid]
    simp only [takeDestination, wp_bind, wp_get]
    refine wp_lift (fun err herr => ?_) fun _ _ => .of_evolves (.refl p)
    split
    · rw [wp_bind]
      exact (phased_terminate p).mono (fun _ _ h => h) fun _ _ h => h
    · next hempty =>
      have hok : addressesOk d p [] pm.dataItems = true := by
        simp [addressesOk, herr, not_not.1 hempty]
      rw [reachUp, if_neg hvalid, if_pos hok, wp_bind]
      refine (within_admitDestination.wp p).mono (fun status p' h => ?_) fun _ _ h => .of_evolves h
      exact ((widen within_answerUp (by decide)).wp_trans h).mono (fun _ _ h => .of_evolves h)
        fun _ _ h => .of_evolves h

omit [AddressText] in
/-- The queues may be taken to be good. -/
theorem leads_of_queueOk {α : Type} {R : Peer → Peer → Prop} {m : PeerM α} {p : Peer}
    (h : p.QueueOk → LeadsFrom (fun p p' => p.QueueOk → R p p') m p) :
    LeadsFrom (fun p p' => p.QueueOk → R p p') m p :=
  wp_after.2 fun hp => wp_after.1 (h hp) hp

/-- An expected response is accepted; any other closes the session. -/
theorem wp_handleResponse {pm : ProtocolMessage} {mac : Option DlepMac}
    (hmac : ifPresent (pm.getMac d.cfg) = .ok mac) {p : Peer} (hp : p.QueueOk) :
    wp (handleResponse d s pm)
      (fun ok p' => ok = p.expects pm (mac.getD []) ∧
        if ok then Moves {.queue} p p' else Evolves {.quiet, .queue, .down} p p')
      (fun _ p' => if p.expects pm (mac.getD []) then Moves {.queue} p p'
        else Evolves {.quiet, .queue, .down} p p') p := by
  simp only [handleResponse, hmac, wp_bind, wp_lift_ok]
  have hrefl : if p.expects pm (mac.getD []) then Moves {.queue} p p
      else Evolves {.quiet, .queue, .down} p p := by
    split
    · exact .refl
    · exact .refl p
  refine wp_lift (fun name _ => ?_) fun _ _ => hrefl
  refine (wp_acceptResponse hp).mono (fun ok p' h => ?_) fun _ p' h => ?_
  · obtain ⟨hok, h⟩ := h
    cases ok with
    | true => exact ⟨hok, h⟩
    | false =>
      obtain rfl : p' = p := h
      simp only [← hok, Bool.false_eq_true, if_false, wp_bind, wp_pure, true_and]
      exact within_terminate.wp p'
  · split
    · exact h
    · exact fun _ => h.mono (by decide)

/-- A response that asks for no more work. -/
theorem leads_handleResponse {pm : ProtocolMessage} {ks : Finset Kind} (hks : .queue ∈ ks)
    (p : Peer) : LeadsFrom (Phased ks) (handleResponse d s pm) p := by
  refine leads_of_queueOk fun hp => ?_
  have hqueue : ∀ {p'}, Moves {.queue} p p' → Phased ks p p' := fun h =>
    .of_evolves fun _ => h.mono (by simpa using hks)
  cases hmac : ifPresent (pm.getMac d.cfg) with
  | error e =>
    simp only [LeadsFrom, handleResponse, hmac, wp_bind, wp_lift_error]
    exact wp_lift (fun _ _ => hqueue .refl) fun _ _ => hqueue .refl
  | ok mac =>
    refine (wp_handleResponse hmac hp).mono (fun ok p' h => ?_) fun _ p' h => ?_
    · cases ok with
      | true => exact hqueue h.2
      | false => exact Phased.of_closing h.2
    · split at h
      · exact hqueue h
      · exact Phased.of_closing h

/-- A handler whose message is a response does its work only if the response is expected. -/
theorem leads_afterResponse {pm : ProtocolMessage} {mac : Option DlepMac}
    (hmac : ifPresent (pm.getMac d.cfg) = .ok mac) {R : Peer → Peer → Prop} {work : PeerM Unit}
    {p : Peer}
    (hqueue : p.expects pm (mac.getD []) = true → ∀ p', Moves {.queue} p p' → R p p')
    (hclose : p.expects pm (mac.getD []) = false → ∀ p', Evolves {.quiet, .queue, .down} p p' →
      R p p')
    (hwork : p.expects pm (mac.getD []) = true → ∀ p', Moves {.queue} p p' →
      wp work (fun _ r => R p r) (fun _ r => R p r) p') :
    LeadsFrom (fun p p' => p.QueueOk → R p p')
      (do if ← handleResponse d s pm then work else pure ()) p := by
  refine leads_of_queueOk fun hp => ?_
  rw [LeadsFrom, wp_bind]
  refine (wp_handleResponse hmac hp).mono (fun ok p' h => ?_) fun _ p' h _ => ?_
  · obtain ⟨hok, h⟩ := h
    cases ok with
    | true => exact (hwork hok.symm p' h).mono (fun _ _ h _ => h) fun _ _ h _ => h
    | false => exact fun _ => hclose hok.symm p' h
  · cases hexp : p.expects pm (mac.getD []) with
    | true => exact hqueue hexp p' (by simpa [hexp] using h)
    | false => exact hclose hexp p' (by simpa [hexp] using h)

/-- The same for a message that does not open the session. -/
theorem phased_afterResponse {pm : ProtocolMessage} {mac : Option DlepMac}
    (hmac : ifPresent (pm.getMac d.cfg) = .ok mac) {ks : Finset Kind} {work : PeerM Unit} {p : Peer}
    (hks : .queue ∈ ks)
    (hwork : p.expects pm (mac.getD []) = true → ∀ p', p'.peerPdp = p.peerPdp →
      p'.notInterestedDestinations = p.notInterestedDestinations → LeadsFrom (Phased ks) work p') :
    LeadsFrom (Phased ks)
      (do if ← handleResponse d s pm then work else pure ()) p := by
  refine leads_of_queueOk fun hp => ?_
  have hqueue : ∀ {p'}, Moves {.queue} p p' → Evolves ks p p' := fun h _ =>
    h.mono (by simpa using hks)
  refine leads_afterResponse hmac (fun _ p' h => Phased.of_evolves (hqueue h) hp)
    (fun _ p' h => Phased.of_closing h hp) fun hexp p' h => ?_
  have hsame := hwork hexp p' (h.peerPdp (by decide)) (h.notInterested (by decide))
  refine hsame.mono (fun _ _ h' => ?_) fun _ _ h' => ?_
  · exact (hqueue h).phased h' hp
  · exact (hqueue h).phased h' hp

/-- The check of addresses depends on the data of the peer only. -/
theorem validateIpDataItems_congr {p p' : Peer} (h : p'.peerPdp = p.peerPdp)
    (existing items : DataItems) :
    validateIpDataItems d p' existing items = validateIpDataItems d p existing items := by
  have howner : ∀ di, ipOwner d p' di = ipOwner d p di := fun di => by simp only [ipOwner, h]
  induction items with
  | nil => rfl
  | cons ndi items ih => simp only [validateIpDataItems, howner, ih]

/-- How far a destination gets depends on the data of the peer only. -/
theorem reachUp_congr {p p' : Peer} (h : p'.peerPdp = p.peerPdp) (mac : DlepMac)
    (items : DataItems) : reachUp d p' mac items = reachUp d p mac items := by
  have hok : addressesOk d p' [] items = addressesOk d p [] items :=
    decide_eq_decide.2 (by rw [validateIpDataItems_congr h])
  simp only [reachUp, hok, h]

omit [AddressText] in
/-- To lose interest twice is the same as once. -/
theorem notInterested_eq_self {p : Peer} {mac : DlepMac} (h : p.isNotInterested mac = true) :
    { p with notInterestedDestinations := p.notInterestedDestinations.insert mac } = p := by
  have hset : p.notInterestedDestinations.insert mac = p.notInterestedDestinations := by
    refine ExtTreeSet.ext_mem fun k => ?_
    rw [ExtTreeSet.mem_insert]
    refine ⟨fun hk => hk.elim (fun heq => ?_) id, .inr⟩
    obtain rfl := compare_eq_iff_eq.1 heq
    exact ExtTreeSet.contains_iff_mem.1 h
  rw [hset]

omit [AddressText] in
/-- What is there is present. -/
theorem ifPresent_ok {α : Type} {x : Except Exn α} {a : α} (h : x = .ok a) :
    ifPresent x = .ok (some a) := by
  rw [h, ifPresent]

/-- The handler of Destination Up Response goes as far as `reachUpResponse` says. -/
theorem leads_handleDestinationUpResponse {pm : ProtocolMessage} {mac : DlepMac}
    (hmac : pm.getMac d.cfg = .ok mac) (p : Peer) :
    LeadsFrom (Phased (reachUpResponse d p pm mac).kinds)
      (handleDestinationUpResponse d s pm) p := by
  simp only [LeadsFrom, handleDestinationUpResponse, hmac, wp_bind, wp_lift_ok]
  refine wp_lift (fun _ _ => ?_) fun _ _ => .of_evolves (.refl p)
  rw [← wp_bind]
  refine phased_afterResponse (ifPresent_ok hmac) (Reach.queue_mem _) fun hexp p' hpdp hset => ?_
  have hinterest : p'.isNotInterested mac = p.isNotInterested mac := by
    simp only [isNotInterested, hset]
  rw [Option.getD_some] at hexp
  simp only [reachUpResponse, if_pos hexp, LeadsFrom, checkUpStatus, wp_bind]
  refine wp_lift (fun status hstatus => ?_) fun _ _ => .of_evolves (.refl p')
  simp only [hstatus]
  have hup :
    LeadsFrom (Phased (if d.modem then Reach.quiet else reachUp d p mac pm.dataItems).kinds)
      (if d.modem then pure () else handleDestinationUp d s pm) p' := by
    split
    · exact .of_evolves (.refl p')
    · rw [← reachUp_congr hpdp]
      exact leads_handleDestinationUp hmac p'
  rcases status with _ | status
  · simpa [LeadsFrom] using hup
  · by_cases hnot : status = "Not_Interested"
    · simp only [hnot, if_true, wp_bind, wp_pure, Bool.false_eq_true, if_false]
      split
      · next hin =>
        rw [← hinterest] at hin
        rw [notInterested, wp_modify, notInterested_eq_self hin]
        exact .of_evolves (.refl p')
      · exact phased_of_within (widen within_notInterested (by decide)) p'
    · by_cases hsuccess : status = "Success"
      · simpa [LeadsFrom, hnot, hsuccess] using hup
      · simp only [hnot, hsuccess, if_false, wp_pure, decide_false, Bool.false_eq_true]
        exact .of_evolves (.refl p')

/-- The answer to an announcement is sent, or recorded as owed. -/
theorem within_answerAnnounce {responseName status : String} {mac : DlepMac} :
    Within (Evolves {.send, .store}) (answerAnnounce d s responseName status mac) :=
  within_ite (fun _ => widen within_setNeedsResponse (by decide)) fun _ =>
    widen within_sendSimpleResponse (by decide)

/-- The handler of Destination Announce goes as far as `reachAnnounce` says. -/
theorem leads_handleDestinationAnnounce {pm : ProtocolMessage} {mac : DlepMac}
    (hmac : pm.getMac d.cfg = .ok mac) (p : Peer) :
    LeadsFrom (Phased (reachAnnounce d p mac).kinds) (handleDestinationAnnounce d s pm) p := by
  unfold handleDestinationAnnounce
  rw [hmac, lift_ok_bind]
  refine phased_lift_bind fun name _ => phased_lift_bind fun responseName _ => ?_
  refine phased_lift_bind fun _ _ => ?_
  simp only [LeadsFrom, wp_bind, wp_get]
  by_cases hvalid : p.peerPdp.validDestination mac
  · rw [if_pos hvalid, reachAnnounce, if_pos hvalid]
    simp only [answerAnnounce, reduceIte, String.reduceEq]
    exact phased_of_within (widen within_sendSimpleResponse (by decide)) p
  · rw [if_neg hvalid, reachAnnounce, if_neg hvalid]
    simp only [PeerData.validDestination_eq_isSome]
    cases d.localPdp.getDestinationData mac with
    | some dd =>
      rw [if_pos Option.isSome_some]
      refine phased_of_within ?_ p
      refine within_bind (widen within_regainInterest (by decide)) fun _ => ?_
      refine within_bind (widen within_addDestinationChecked (by decide)) fun _ => ?_
      refine within_bind (widen within_setNeedsResponse (by decide)) fun _ => ?_
      exact widen within_destinationUp (by decide)
    | none =>
      refine phased_of_within ?_ p
      refine within_bind (widen within_regainInterest (by decide)) fun _ => ?_
      refine within_bind (widen within_addDestinationChecked (by decide)) fun _ => ?_
      refine within_bind (widen within_askClient (by decide)) fun _ => ?_
      exact widen within_answerAnnounce (by decide)

/-- The handler of Destination Update goes as far as `reachUpdate` says. -/
theorem leads_handleDestinationUpdate {pm : ProtocolMessage} {mac : DlepMac}
    (hmac : pm.getMac d.cfg = .ok mac) (p : Peer) :
    LeadsFrom (Phased (reachUpdate d p pm mac).kinds) (handleDestinationUpdate d s pm) p := by
  unfold handleDestinationUpdate reachUpdate
  rw [hmac, lift_ok_bind, LeadsFrom, wp_bind, wp_get]
  cases p.peerPdp.getDestinationData mac with
  | none => exact phased_terminate p
  | some dd =>
    refine phased_lift_bind fun items hitems => phased_lift_bind fun err herr => ?_
    rw [hitems]
    by_cases hempty : err = []
    · have hok : addressesOk d p dd.ipDataItems items = true := by simp [addressesOk, herr, hempty]
      simp only [hempty, hok, ne_eq, not_true_eq_false, if_false, if_true]
      refine phased_of_within ?_ p
      refine within_bind (widen (within_onPdp PeerData.noNewMetrics_onDestination) (by decide))
        fun _ => ?_
      exact widen (within_callClient rfl) (by decide)
    · rw [if_pos hempty]
      exact phased_terminate p

omit [AddressText] in
/-- A destination that neither side has is left alone. -/
theorem wp_dropDestination {mac : DlepMac} (p : Peer) :
    wp (dropDestination d mac)
      (fun known p' => if known then
          (p.peerPdp.validDestination mac || d.localPdp.validDestination mac) = true ∧
            Evolves {.interest, .store} p p'
        else p' = p)
      (fun _ p' => p' = p) p := by
  simp only [dropDestination, onPdp, PeerData.removeDestination, wp_bind, wp_zoom, wp_get]
  by_cases hvalid : p.peerPdp.validDestination mac
  · simp only [hvalid, if_true, wp_bind, wp_modify, wp_pure, Bool.true_or, true_and]
    exact .single (.store fun h => h) (by simp)
  · simp only [hvalid, Bool.false_eq_true, if_false, wp_pure, Bool.false_or]
    split
    · next hlocal =>
      simp only [wp_bind, notInterested, wp_modify, wp_pure, if_true]
      exact ⟨hlocal, .single (.interest _) (by simp)⟩
    · simp

/-- The handler of Destination Down reaches the client if somebody has the destination. -/
theorem leads_handleDestinationDown {pm : ProtocolMessage} {mac : DlepMac}
    (hmac : pm.getMac d.cfg = .ok mac) (p : Peer) :
    LeadsFrom (Phased (if p.peerPdp.validDestination mac || d.localPdp.validDestination mac
      then Reach.client else .quiet).kinds) (handleDestinationDown d s pm) p := by
  unfold handleDestinationDown
  rw [hmac, lift_ok_bind, LeadsFrom, wp_bind]
  refine (wp_dropDestination p).mono (fun known p' h => ?_) fun _ p' h => ?_
  rotate_left
  · obtain rfl : p' = p := h
    exact .of_evolves (.refl p')
  cases known with
  | true =>
    obtain ⟨hknown, hmoves⟩ := h
    rw [if_pos hknown]
    have hrest : Within (Evolves (Reach.kinds .client)) (do
        let items ← pm.getDataItemsNoMac d.cfg
        callClient (.destinationDown (← get).peerId mac items)
        sendSimpleResponse d s "Destination_Down_Response" "Success" []
          (some mac) : PeerM Unit) := by
      refine within_bind within_lift fun _ => within_bind within_get fun _ => ?_
      refine within_bind (widen (within_callClient rfl) (by decide)) fun _ => ?_
      exact widen within_sendSimpleResponse (by decide)
    exact (hrest.wp_trans (hmoves.mono (by decide))).mono (fun _ _ h => .of_evolves h)
      fun _ _ h => .of_evolves h
  | false =>
    obtain rfl : p' = p := h
    exact phased_terminate p'

/-- The handler of Destination Down Response only writes the queues. -/
theorem leads_handleDestinationDownResponse {pm : ProtocolMessage} {mac : DlepMac}
    (hmac : pm.getMac d.cfg = .ok mac) (p : Peer) :
    LeadsFrom (Phased (Reach.kinds .quiet)) (handleDestinationDownResponse d s pm) p := by
  unfold handleDestinationDownResponse
  rw [hmac, lift_ok_bind]
  exact wp_bind.2 (leads_handleResponse (by decide) p)

/-- The handler of Link Characteristics Request goes as far as `reachDestination` says. -/
theorem leads_handleLinkCharacteristicsRequest {pm : ProtocolMessage} {mac : DlepMac}
    (hmac : pm.getMac d.cfg = .ok mac) (p : Peer) :
    LeadsFrom (Phased (reachDestination d p "Link_Characteristics_Request" pm mac).kinds)
      (handleLinkCharacteristicsRequest d s pm) p := by
  unfold handleLinkCharacteristicsRequest
  rw [hmac, lift_ok_bind]
  refine phased_lift_bind fun items hitems => ?_
  simp only [reachDestination, hitems]
  cases d.localPdp.getDestinationData mac with
  | none => exact phased_terminate p
  | some dd =>
    cases items with
    | nil =>
      simp only [if_true]
      refine phased_lift_bind fun metrics _ => ?_
      exact phased_of_within (widen within_linkCharacteristicsResponse (by decide)) p
    | cons di items =>
      simp only [reduceCtorEq, if_false]
      refine phased_of_within ?_ p
      exact within_bind within_get fun _ => widen (within_callClient rfl) (by decide)

/-- The handler of Link Characteristics Response reaches the client if it is expected and the
destination is there. -/
theorem leads_handleLinkCharacteristicsResponse {pm : ProtocolMessage} {mac : DlepMac}
    (hmac : pm.getMac d.cfg = .ok mac) (p : Peer) :
    LeadsFrom (Phased (if expects p pm mac && p.peerPdp.validDestination mac then Reach.client
      else .quiet).kinds) (handleLinkCharacteristicsResponse d s pm) p := by
  unfold handleLinkCharacteristicsResponse
  rw [hmac, lift_ok_bind]
  refine phased_afterResponse (ifPresent_ok hmac) (Reach.queue_mem _) fun hexp p' hpdp _ => ?_
  rw [Option.getD_some] at hexp
  rw [LeadsFrom, wp_bind, wp_get, hexp, ← hpdp, PeerData.validDestination_eq_isSome]
  cases p'.peerPdp.getDestinationData mac with
  | none => exact phased_terminate p'
  | some dd =>
    simp only [Option.isSome_some, Bool.and_self, if_true]
    refine phased_of_within ?_ p'
    refine within_bind within_lift fun _ => ?_
    refine within_bind (widen (within_onPdp PeerData.noNewMetrics_onDestination) (by decide))
      fun _ => within_bind within_get fun _ => ?_
    exact widen (within_callClient rfl) (by decide)

/-- The handler of Session Update reaches the client if the addresses can be added and dropped. -/
theorem leads_handlePeerUpdate {pm : ProtocolMessage} (p : Peer) :
    LeadsFrom (Phased (if addressesOk d p p.peerPdp.ipDataItems pm.dataItems then Reach.client
      else .quiet).kinds) (handlePeerUpdate d s pm) p := by
  unfold handlePeerUpdate
  rw [LeadsFrom, wp_bind, wp_get]
  refine phased_lift_bind fun err herr => ?_
  by_cases hempty : err = []
  · have hok : addressesOk d p p.peerPdp.ipDataItems pm.dataItems = true := by
      simp [addressesOk, herr, hempty]
    simp only [hempty, hok, ne_eq, not_true_eq_false, if_false, if_true]
    refine phased_of_within ?_ p
    refine within_bind (widen (within_onPdp PeerData.noNewMetrics_updateDataItems) (by decide))
      fun _ => within_bind (widen (within_callClient rfl) (by decide)) fun _ => ?_
    exact widen within_sendSimpleResponse (by decide)
  · rw [if_pos hempty]
    exact phased_terminate p

omit [AddressText] in
/-- Stopping a peer may end whatever was under way. -/
theorem leads_stopPeer {ks : Finset Kind} {p q : Peer} (h : Phased ks p q) :
    wp (stopPeer d) (fun _ p' => Phased ks p p') (fun _ p' => Phased ks p p') q :=
  (within_stopPeer.wp q).mono (fun _ _ h' => h.closing (h'.mono (by decide)))
    fun _ _ h' => h.closing (h'.mono (by decide))

/-- The handler of Session Termination ends the session. -/
theorem leads_handlePeerTermination (p : Peer) :
    LeadsFrom (Phased (Reach.kinds .quiet)) (handlePeerTermination d s) p :=
  wp_bind.2 ((phased_of_within (widen within_sendSimpleResponse (by decide)) p).mono
    (fun _ _ h => leads_stopPeer h) fun _ _ h => h)

/-- The handler of Session Termination Response stops a peer that is terminating. -/
theorem leads_handlePeerTerminationResponse {pm : ProtocolMessage} (p : Peer) :
    LeadsFrom (Phased (Reach.kinds .quiet)) (handlePeerTerminationResponse d s pm) p := by
  refine wp_bind.2 (wp_get.2 ?_)
  split
  · exact wp_bind.2 ((leads_handleResponse (by decide) p).mono (fun _ _ h => leads_stopPeer h)
      fun _ _ h => h)
  · exact .of_evolves (.refl p)

/-! ## The handshake -/

omit [AddressText] in
/-- What is remembered of the peer is written quietly. -/
theorem within_storePeerProperties {pm : ProtocolMessage} :
    Within (Evolves {.quiet}) (storePeerProperties d pm) := by
  have hquiet : ∀ {f : Peer → Peer}, (∀ p, Move .quiet p (f p)) →
      Within (Evolves {.quiet}) (modify f : PeerM Unit) :=
    fun hf => within_modify fun p => .single (hf p) (by simp)
  refine within_bind (within_bind within_lift fun peerType => ?_) fun _ =>
    within_bind ?_ fun _ => ?_
  · cases peerType with
    | some peerType => exact hquiet fun _ => .quiet rfl rfl rfl rfl le_rfl rfl
    | none => exact within_pure
  · unfold storeExperimentNames
    split
    · exact hquiet fun _ => .quiet rfl rfl rfl rfl le_rfl rfl
    · exact within_pure
    · exact within_pure
    · exact within_throw
  · refine within_bind within_lift fun _ => within_bind ?_ fun _ =>
      within_bind within_lift fun _ => ?_
    · exact hquiet fun _ => .quiet rfl rfl rfl rfl le_rfl rfl
    · exact hquiet fun _ => .quiet rfl rfl rfl rfl le_rfl rfl

omit [AddressText] in
/-- The extensions are written quietly. -/
theorem within_addMutualExtensions {pm : ProtocolMessage} :
    Within (Evolves {.quiet}) (addMutualExtensions d pm) := by
  refine within_bind within_lift fun extensions => ?_
  cases extensions with
  | some extensions =>
    exact within_modify fun _ => .single (.quiet rfl rfl rfl rfl le_rfl rfl) (by simp)
  | none => exact within_pure

omit [AddressText] in
/-- The extensions are written quietly. -/
theorem within_setMutualExtensions {pm : ProtocolMessage} :
    Within (Evolves {.quiet}) (setMutualExtensions d pm) := by
  refine within_bind within_lift fun extensions => ?_
  cases extensions with
  | some extensions =>
    exact within_modify fun _ => .single (.quiet rfl rfl rfl rfl le_rfl rfl) (by simp)
  | none => exact within_pure

/-- The answer to an opening is shown to the client and sent. -/
theorem within_sendPeerInitializationResponse :
    Within (Evolves {.send, .init}) (sendPeerInitializationResponse d s) := by
  refine within_bind within_get fun _ => within_bind within_lift fun _ => ?_
  refine within_bind (widen within_letClientModify (by decide)) fun _ => ?_
  exact within_ite (fun _ => widen within_sendSessionMessage (by decide)) fun _ => within_pure

/-- The session opens once, and the destinations follow. -/
theorem within_enterSession {info : Peer → PeerInfo} :
    Within Starts (enterSession d s info) := by
  refine within_of_wp fun p => ?_
  simp only [enterSession, setState, callClient, emit, wp_bind, wp_modify, wp_get]
  have hup : ∀ i, Starts p
      { p with pstate := .inSession, trace := p.trace ++ [.client (.peerUp i)] } :=
    fun i _ => ⟨p, _, .refl, .up i, .refl⟩
  have hsend : Within (Evolves (Reach.kinds .handshake)) (sendAllDestinations d s) :=
    within_forM fun _ _ => widen within_destinationUp (by decide)
  exact (hsend.wp _).mono (fun _ _ h => (hup _).evolves h) fun _ _ h => (hup _).evolves h

omit [AddressText] in
/-- A router is advertised to other modems. -/
theorem within_advertisePeer : Within (Evolves {.send}) (advertisePeer d s) := by
  refine within_ite (fun _ => ?_) fun _ => within_pure
  split
  · exact within_modify fun _ => .single (.advertise _) (by simp)
  · exact within_pure

omit [AddressText] in
/-- What comes before the opening of the session. -/
theorem within_opens_bind {α β : Type} {m : PeerM α} {f : α → PeerM β}
    (hm : Within (Evolves openingKinds) m) (hf : ∀ a, Within Opens (f a)) :
    Within Opens (m >>= f) :=
  within_seq hm hf (fun _ _ h => .of_evolves h) fun _ _ _ h h' => h.opens h'

/-- The handler of Session Initialization opens the session if the addresses can be added. -/
theorem leads_handlePeerInitialization {pm : ProtocolMessage} (p : Peer) :
    LeadsFrom (if addressesOk d p [] pm.dataItems then Reach.handshake else .quiet).Leads
      (handlePeerInitialization d s pm) p := by
  unfold handlePeerInitialization
  rw [LeadsFrom, wp_bind, wp_get, wp_bind]
  refine wp_lift (fun err herr => ?_) fun _ _ => .refl _ p
  by_cases hempty : err = []
  · have hok : addressesOk d p [] pm.dataItems = true := by simp [addressesOk, herr, hempty]
    simp only [hempty, hok, ne_eq, not_true_eq_false, if_false, if_true]
    have hrest : Within Opens (do
        storePeerProperties d pm
        addMutualExtensions d pm
        sendPeerInitializationResponse d s
        enterSession d s getInfo
        advertisePeer d s) := by
      refine within_opens_bind (widen within_storePeerProperties (by decide)) fun _ => ?_
      refine within_opens_bind (widen within_addMutualExtensions (by decide)) fun _ => ?_
      refine within_opens_bind (widen within_sendPeerInitializationResponse (by decide)) fun _ => ?_
      exact within_seq within_enterSession (fun _ => within_advertisePeer) (fun _ _ h => h.opens)
        fun _ _ _ h h' => h.opens.evolves (h'.mono (by decide))
    exact hrest.wp p
  · have hbad : addressesOk d p [] pm.dataItems = false := by simp [addressesOk, herr, hempty]
    rw [if_pos hempty, hbad]
    exact phased_terminate p

/-- The data items of a known message are stored, and then the session opens. -/
theorem within_storeAndEnter {items : DataItems} {info : Peer → PeerInfo}
    (hitems : items.Known d.cfg) :
    Within Opens (do
      let _ ← onPdp (PeerData.updateDataItems d.cfg items)
      enterSession d s info) := by
  refine within_of_wp fun p => wp_bind.2 ?_
  have hstore : Within (Evolves {.store}) (onPdp (PeerData.updateDataItems d.cfg items)) :=
    within_onPdp PeerData.noNewMetrics_updateDataItems
  have hthrow : wp (onPdp (PeerData.updateDataItems d.cfg items)) (fun _ _ => True)
      (fun _ q => q = p) p :=
    wp_zoom.2 ((PeerData.wp_updateDataItems hitems p.peerPdp).mono (fun _ _ _ => trivial)
      fun _ pd h => by rw [h.1])
  refine ((hstore.wp p).and hthrow).mono (fun _ q h => ?_) fun _ q h => ?_
  · have hq : Evolves (Reach.kinds .handshake) p q := h.1.mono (by decide)
    exact (within_enterSession.wp q).mono (fun _ _ h' => (hq.starts h').opens)
      fun _ _ h' => (hq.starts h').opens
  · rw [h.2]
    exact .of_evolves (.refl p)

/-- The handler of Session Initialization Response opens the session if it is expected. -/
theorem leads_handlePeerInitializationResponse {pm : ProtocolMessage} {mac : Option DlepMac}
    (hmac : ifPresent (pm.getMac d.cfg) = .ok mac) (hknown : pm.dataItems.Known d.cfg) (p : Peer) :
    LeadsFrom (if expects p pm (mac.getD []) then Reach.handshake else .quiet).Leads
      (handlePeerInitializationResponse d s pm) p := by
  have hrest : Within Opens (do
      storePeerProperties d pm
      setMutualExtensions d pm
      let _ ← onPdp (PeerData.updateDataItems d.cfg pm.dataItems)
      enterSession d s fun p => { getInfo p with dataItems := pm.dataItems }) := by
    refine within_opens_bind (widen within_storePeerProperties (by decide)) fun _ => ?_
    refine within_opens_bind (widen within_setMutualExtensions (by decide)) fun _ => ?_
    exact within_storeAndEnter hknown
  cases hexp : expects p pm (mac.getD []) with
  | true =>
    change LeadsFrom Opens (handlePeerInitializationResponse d s pm) p
    refine leads_of_queueOk fun hp => ?_
    have hqueue : ∀ {p'}, Moves {.queue} p p' → Evolves openingKinds p p' :=
      fun h _ => h.mono (by decide)
    refine leads_afterResponse hmac (fun _ p' h => Opens.of_evolves (hqueue h) hp)
      (fun h => absurd h (by simp [hexp])) fun _ p' h => ?_
    exact (hrest.wp p').mono (fun _ _ h' => (hqueue h).opens h' hp)
      fun _ _ h' => (hqueue h).opens h' hp
  | false =>
    exact phased_afterResponse hmac (Reach.queue_mem .quiet) fun h => absurd h (by simp [hexp])

/-! ## Dispatch -/

omit [AddressText] in
/-- What comes in phases is no handshake. -/
theorem Reach.Leads.of_phased {r : Reach} (hr : r ≠ .handshake) {p p' : Peer}
    (h : Phased r.kinds p p') : r.Leads p p' := by
  cases r with
  | handshake => exact absurd rfl hr
  | _ => exact h

/-- A destination that comes up opens no session. -/
theorem reachUp_ne_handshake {p : Peer} {mac : DlepMac} {items : DataItems} :
    reachUp d p mac items ≠ .handshake := by
  unfold reachUp
  split
  · simp
  · split <;> simp

omit [AddressText] in
/-- A destination that is announced opens no session. -/
theorem reachAnnounce_ne_handshake {p : Peer} {mac : DlepMac} :
    reachAnnounce d p mac ≠ .handshake := by
  unfold reachAnnounce
  split
  · simp
  · split <;> simp

/-- A response about a destination opens no session. -/
theorem reachUpResponse_ne_handshake {p : Peer} {pm : ProtocolMessage} {mac : DlepMac} :
    reachUpResponse d p pm mac ≠ .handshake := by
  unfold reachUpResponse
  split
  · split
    · split
      · split <;> simp
      · split
        · split
          · simp
          · exact reachUp_ne_handshake
        · simp
    · simp
  · simp

/-- A message about a destination opens no session. -/
theorem reachDestination_ne_handshake {p : Peer} {name : String} {pm : ProtocolMessage}
    {mac : DlepMac} : reachDestination d p name pm mac ≠ .handshake := by
  unfold reachDestination
  split
  · unfold reachUpdate
    split
    · split <;> simp
    · simp
  · split
    · exact reachAnnounce_ne_handshake
    · exact reachUp_ne_handshake
  · exact reachUpResponse_ne_handshake
  · exact reachAnnounce_ne_handshake
  · exact reachUpResponse_ne_handshake
  · split <;> simp
  · split <;> simp
  · split <;> simp
  · simp

/-- A message about a destination, whose handler looks for the MAC address first. -/
theorem leads_of_getMac {name : String} {pm : ProtocolMessage} {m : PeerM Unit}
    {work : DlepMac → PeerM Unit} {p : Peer} (hm : m = liftM (pm.getMac d.cfg) >>= work)
    (hok : ∀ mac, pm.getMac d.cfg = .ok mac →
      LeadsFrom (Phased (reachDestination d p name pm mac).kinds) m p) :
    LeadsFrom (match pm.getMac d.cfg with
      | .ok mac => reachDestination d p name pm mac
      | .error _ => .quiet).Leads m p := by
  cases hmac : pm.getMac d.cfg with
  | ok mac =>
    exact (hok mac hmac).mono (fun _ _ h => .of_phased reachDestination_ne_handshake h)
      fun _ _ h => .of_phased reachDestination_ne_handshake h
  | error e =>
    rw [hm, hmac, LeadsFrom, wp_bind, wp_lift_error]
    exact .refl _ p

/-- A modem takes a Destination Up for an announcement. -/
theorem dispatch_destinationUp {pm : ProtocolMessage} : dispatch d s "Destination_Up" pm =
    if d.modem then handleDestinationAnnounce d s pm else handleDestinationUp d s pm := rfl

/-- A message that is dispatched leads where its reach says. -/
theorem leads_dispatch {name : String} {pm : ProtocolMessage} (hknown : pm.dataItems.Known d.cfg)
    (p : Peer) :
    LeadsFrom (reach d p name pm).Leads (dispatch d s name pm) p := by
  have hquiet : ∀ {name m}, (∀ mac, reachDestination d p name pm mac = .quiet) →
      LeadsFrom (Phased (Reach.kinds .quiet)) m p →
      LeadsFrom (match pm.getMac d.cfg with
        | .ok mac => reachDestination d p name pm mac
        | .error _ => .quiet).Leads (m : PeerM Unit) p := by
    intro name m hname h
    cases pm.getMac d.cfg with
    | ok mac =>
      simp only [hname]
      exact h
    | error e => exact h
  unfold dispatch
  split
  · exact .refl _ p
  · exact leads_of_getMac rfl fun mac h => leads_handleDestinationUpdate h p
  · have hup : ∀ mac, reachDestination d p "Destination_Up" pm mac =
        if d.modem then reachAnnounce d p mac else reachUp d p mac pm.dataItems := fun _ => rfl
    cases hmodem : d.modem with
    | true =>
      refine leads_of_getMac rfl fun mac h => ?_
      rw [hup, hmodem]
      exact leads_handleDestinationAnnounce h p
    | false =>
      refine leads_of_getMac rfl fun mac h => ?_
      rw [hup, hmodem]
      exact leads_handleDestinationUp h p
  · exact leads_of_getMac rfl fun mac h => leads_handleDestinationUpResponse h p
  · exact leads_of_getMac rfl fun mac h => leads_handleDestinationAnnounce h p
  · exact leads_of_getMac rfl fun mac h => leads_handleDestinationUpResponse h p
  · exact leads_of_getMac rfl fun mac h => leads_handleDestinationDown h p
  · exact leads_of_getMac rfl fun mac h => leads_handleDestinationDownResponse h p
  · exact leads_of_getMac rfl fun mac h => leads_handleLinkCharacteristicsRequest h p
  · exact leads_of_getMac rfl fun mac h => leads_handleLinkCharacteristicsResponse h p
  · have hne : (if addressesOk d p p.peerPdp.ipDataItems pm.dataItems then Reach.client
        else .quiet) ≠ .handshake := by split <;> simp
    exact (leads_handlePeerUpdate p).mono (fun _ _ h => .of_phased hne h)
      fun _ _ h => .of_phased hne h
  · exact hquiet (fun _ => rfl) (wp_bind.2 (leads_handleResponse (by decide) p))
  · exact leads_handlePeerInitialization p
  · change LeadsFrom (match ifPresent (pm.getMac d.cfg) with
      | .ok mac => if expects p pm (mac.getD []) then Reach.handshake else .quiet
      | .error _ => .quiet).Leads _ p
    cases hmac : ifPresent (pm.getMac d.cfg) with
    | ok mac => exact leads_handlePeerInitializationResponse hmac hknown p
    | error e =>
      simp only [LeadsFrom, handlePeerInitializationResponse, handleResponse, hmac, wp_bind,
        wp_lift_error]
      exact wp_lift (fun _ _ => .refl _ p) fun _ _ => .refl _ p
  · exact hquiet (fun _ => rfl) (leads_handlePeerTermination p)
  · exact hquiet (fun _ => rfl) (leads_handlePeerTerminationResponse p)
  · exact .refl _ p

omit [AddressText] in
/-- The status of a message that ends the session anyway is not looked at. -/
theorem statusEnds_of_termination {pm : ProtocolMessage} {name : String}
    (hname : pm.getSignalName d.cfg = .ok name)
    (hend : name = "Session_Termination" ∨ name = "Session_Termination_Response") :
    statusEnds d pm = false := by
  rw [statusEnds, hname]
  split
  · next h _ =>
    obtain rfl := Except.ok.inj h
    exact if_pos hend
  · rfl

/-- The check of the status ends the session exactly if the status does. -/
theorem wp_checkStatusCodeFailure {pm : ProtocolMessage} (p : Peer) :
    wp (checkStatusCodeFailure d s pm)
      (fun ended p' => ended = statusEnds d pm ∧
        if ended then Evolves {.quiet, .queue, .down} p p' else p' = p)
      (fun _ p' => if statusEnds d pm then Evolves {.quiet, .queue, .down} p p' else p' = p) p := by
  have hstay : if statusEnds d pm then Evolves {.quiet, .queue, .down} p p else p = p := by
    split
    · exact .refl p
    · rfl
  unfold checkStatusCodeFailure
  rw [wp_bind]
  refine wp_lift (fun name hname => ?_) fun _ _ => hstay
  split
  · next hend => simp [statusEnds_of_termination hname hend]
  · next hend =>
    rw [wp_bind]
    refine wp_lift (fun status hstatus => ?_) fun _ _ => hstay
    have hends : statusEnds d pm = isFailure d.cfg status := by
      simp only [statusEnds, hname, hstatus, if_neg hend]
    rcases status with _ | status
    · simp [hends, isFailure]
    · rw [wp_bind]
      refine wp_lift (fun info hinfo => ?_) fun _ _ => hstay
      split
      · next hmode =>
        simp only [wp_bind, wp_pure, hends, isFailure, hinfo, hmode, decide_true, if_true, true_and]
        exact within_terminate.wp p
      · next hmode => simp [hends, isFailure, hinfo, hmode]

/-- Every message leads where its reach says. -/
theorem leads_handlePeerSignal {buf : Bytes} (p : Peer) :
    LeadsFrom (reachOf d p buf).Leads (handlePeerSignal d s buf) p := by
  unfold handlePeerSignal
  rw [LeadsFrom, wp_bind]
  refine wp_lift (fun result hresult => ?_) fun _ _ => .refl _ p
  obtain ⟨err, pm⟩ := result
  simp only [reachOf, hresult]
  cases err with
  | cons b err =>
    simp only [ne_eq, reduceCtorEq, not_false_eq_true, if_true]
    exact phased_terminate p
  | nil =>
    simp only [ne_eq, not_true_eq_false, if_false, wp_bind]
    refine (wp_checkStatusCodeFailure p).mono (fun ended p' h => ?_) fun _ p' h => ?_
    · obtain ⟨hended, h⟩ := h
      rw [← hended]
      cases ended with
      | true => exact Phased.of_closing h
      | false =>
        obtain rfl : p' = p := h
        simp only [Bool.false_eq_true, if_false, wp_bind]
        refine wp_lift (fun name hname => ?_) fun _ _ => .refl _ p'
        rw [hname]
        exact leads_dispatch (known_of_received hresult) p'
    · cases hends : statusEnds d pm with
      | true =>
        rw [hends] at h
        exact Phased.of_closing h
      | false =>
        rw [hends] at h
        obtain rfl : p' = p := h
        exact .refl _ p'

end

end Peer

end Dlep
