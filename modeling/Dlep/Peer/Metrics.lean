import Dlep.Peer.Session

/-!
# The metrics that a modem declares

The response that opens a session declares the metrics of the modem, and later updates are checked
against what was declared. But the check is part of the update, and the declaration is stored by
an update: a peer starts without metrics, so that a declaration with a metric is refused as a
whole, and no peer ever has metrics.
-/

namespace Dlep

open Std Calls Relation Runs

/-- The metrics among the data items are stored, each with the last value given for its id. -/
def PeerData.Records (cfg : ProtocolConfig) (items : DataItems) (pd : PeerData) : Prop :=
  ∀ di ∈ items, cfg.isMetric di.id none = .ok true →
    pd.metricDataItems[di.id]? = (items.filter fun di' => di'.id = di.id).getLast?

/-- Every metric among the data items has the id of a data item that was declared. -/
def DataItems.Declared (cfg : ProtocolConfig) (declared items : DataItems) : Prop :=
  ∀ di ∈ items, cfg.isMetric di.id none = .ok true → ∃ di' ∈ declared, di'.id = di.id

/-- Where no metric was declared, an update of what was declared has none. -/
theorem DataItems.Declared.noMetrics {cfg : ProtocolConfig} {declared items : DataItems}
    (h : items.Known cfg) (hdeclared : DataItems.Declared cfg declared items)
    (hnone : PeerData.NoMetrics cfg declared) : PeerData.NoMetrics cfg items := by
  intro di hdi
  obtain ⟨metric, hmetric⟩ := (h.classified di hdi).isMetric
  cases metric with
  | false => exact hmetric
  | true =>
    obtain ⟨di', hdi', hid⟩ := hdeclared di hdi hmetric
    have := hnone di' hdi'
    rw [hid, hmetric] at this
    cases this

namespace Peer

section

variable [AddressText]

/-- The step handles the valid message `pm` of the given name. -/
structure Handles (p : Peer) (st : Step) (name : String) (pm : ProtocolMessage) : Prop where
  input : st.input = .message
  next : ∃ buf, nextMessage st.d p = some buf ∧ received st.d buf = .ok ([], pm)
  name : pm.getSignalName st.d.cfg = .ok name

/-- A router accepts the response `pm`: it is a success, and the outstanding message expects it. -/
structure Accepts (p : Peer) (st : Step) (pm : ProtocolMessage) : Prop extends
    Handles p st "Session_Initialization_Response" pm where
  router : st.d.modem = false
  success : pm.getStatus st.d.cfg = .ok "Success"
  outstanding : ∃ mac, ifPresent (pm.getMac st.d.cfg) = .ok mac ∧ p.expects pm (mac.getD []) = true

/-- The router handles an update `pm` of what was declared: it passes the check of the status, every
metric was declared, and the addresses can be added and dropped. -/
structure Updates (cfg : ProtocolConfig) (declared : DataItems) (p : Peer) (st : Step)
    (pm : ProtocolMessage) : Prop extends Handles p st "Session_Update" pm where
  sameConfig : st.d.cfg = cfg
  router : st.d.modem = false
  passes : checkStatusCodeFailure st.d st.s pm p = .ok false p
  metrics : DataItems.Declared cfg declared pm.dataItems
  addresses : addressesOk st.d p p.peerPdp.ipDataItems pm.dataItems = true

/-- The response to an update, with a status of success. -/
def successResponse (d : DlepView) : Except Exn ProtocolMessage :=
  composeChecked d "Session_Update_Response" (addStatusAndMac d.cfg "Success" [] none)
    "send_simple_response"

/-- The step sends the response, unless responses are suppressed. -/
def AnswersSuccess (p : Peer) (st : Step) : Prop :=
  shouldSendResponse st.s → ∃ ack, successResponse st.d = .ok ack ∧
    (p.step st).trace.getLast? = some (.send ack.msgbuf)

/-- The metrics of an accepted response are recorded, and in every later run every update of them is
answered with success and recorded. -/
def KeepsMetrics (p : Peer) (st : Step) (pm : ProtocolMessage) (later : List Step) : Prop :=
  PeerData.Records st.d.cfg pm.dataItems (p.step st).peerPdp ∧
    ∀ pre st' post pm', later = pre ++ st' :: post →
      Updates st.d.cfg pm.dataItems (run step (p.step st) pre) st' pm' →
      AnswersSuccess (run step (p.step st) pre) st' ∧
        PeerData.Records st.d.cfg pm'.dataItems (run step (p.step st) (pre ++ [st'])).peerPdp

/-! ## No peer has metrics -/

omit [AddressText] in
/-- A move brings no metric to a peer that has none. -/
theorem Move.metrics {k : Kind} {p p' : Peer} (hm : Move k p p')
    (hp : p.peerPdp.metricDataItems = ∅) : p'.peerPdp.metricDataItems = ∅ := by
  cases hm with
  | quiet _ hpdp _ _ _ _ => rw [hpdp, hp]
  | store hmetrics => exact hmetrics hp
  | _ => exact hp

/-- Good queues, and no metrics. -/
structure Bare (p : Peer) : Prop where
  queues : p.QueueOk
  metrics : p.peerPdp.metricDataItems = ∅

/-- A step brings no metric to a peer that has none. -/
theorem Bare.step {p : Peer} (hp : Bare p) (st : Step) : Bare (p.step st) :=
  ⟨queueOk_step st hp.queues,
    step_keeps (fun _ _ _ hm => hm.metrics) st hp.queues hp.metrics⟩

/-- A run brings no metric to a peer that has none. -/
theorem Bare.run {p : Peer} (hp : Bare p) (steps : List Step) : Bare (run Peer.step p steps) :=
  along_true.invariant (fun _ st hq _ => hq.step st) hp

/-- A new peer has no metrics. -/
theorem bare_of_create {cfg : ProtocolConfig} {peerId : PeerId} {now : Nat} {p : Peer}
    (h : Peer.create cfg peerId now = .ok p) : Bare p := by
  refine ⟨(sound_of_create h).queues, ?_⟩
  rw [create_ok h]

omit [AddressText] in
/-- Without metrics, exactly a list without metrics is recorded. -/
theorem records_iff {cfg : ProtocolConfig} {items : DataItems} {pd : PeerData}
    (hitems : items.Known cfg) (hpd : pd.metricDataItems = ∅) :
    PeerData.Records cfg items pd ↔ PeerData.NoMetrics cfg items := by
  constructor
  · intro h di hdi
    obtain ⟨metric, hmetric⟩ := (hitems.classified di hdi).isMetric
    cases metric with
    | false => exact hmetric
    | true =>
      have hlast := h di hdi hmetric
      rw [hpd, ExtTreeMap.getElem?_empty] at hlast
      have hmem : di ∈ items.filter fun di' => di'.id = di.id := by simp [hdi]
      rw [List.getLast?_eq_none_iff.1 hlast.symm] at hmem
      cases hmem
  · intro h di hdi hmetric
    rw [h di hdi] at hmetric
    cases hmetric

/-- A response with a status can be built only if the status has an id. -/
theorem exists_statusId {d : DlepView} {ack : ProtocolMessage} (h : successResponse d = .ok ack) :
    ∃ id, d.cfg.getDataItemId "Status" none = .ok id := by
  obtain ⟨_, hcompose, _⟩ := bind_eq_ok.1 h
  obtain ⟨pm, _, hcompose⟩ := bind_eq_ok.1 hcompose
  obtain ⟨_, hbuild, _⟩ := bind_eq_ok.1 hcompose
  obtain ⟨_, hstatus, _⟩ := bind_eq_ok.1 hbuild
  simp only [addStatusUnlessEmpty, ne_eq, String.reduceEq, not_false_eq_true, if_true,
    ProtocolMessage.addStatus, bind_eq_ok] at hstatus
  obtain ⟨_, _, _, _, hnamed⟩ := hstatus
  have hof : ∀ {value pm'}, ProtocolMessage.addNamed d.cfg "Status" value pm = .ok pm' →
      ∃ id, d.cfg.getDataItemId "Status" none = .ok id := by
    intro value pm' hadd
    obtain ⟨_, hdi, _⟩ := bind_eq_ok.1 hadd
    obtain ⟨id, hid, _⟩ := bind_eq_ok.1 hdi
    exact ⟨id, hid⟩
  split at hnamed
  · exact hof hnamed
  · exact hof hnamed

/-- An update without metrics is answered with success. -/
theorem wp_handlePeerUpdate {d : DlepView} {s : Surroundings} {p : Peer} {pm ack : ProtocolMessage}
    (hack : successResponse d = .ok ack) (hitems : pm.dataItems.Known d.cfg)
    (hnone : PeerData.NoMetrics d.cfg pm.dataItems) (hp : p.peerPdp.metricDataItems = ∅)
    (haddresses : addressesOk d p p.peerPdp.ipDataItems pm.dataItems = true) :
    wp (handlePeerUpdate d s pm)
      (fun _ q => shouldSendResponse s → q.trace.getLast? = some (.send ack.msgbuf))
      (fun _ _ => False) p := by
  obtain ⟨id, hid⟩ := exists_statusId hack
  have hvalid : validateIpDataItems d p p.peerPdp.ipDataItems pm.dataItems = .ok [] :=
    of_decide_eq_true haddresses
  simp only [handlePeerUpdate, wp_bind, wp_get, hvalid, wp_lift_ok, ne_eq, not_true_eq_false,
    if_false]
  refine wp_zoom.2 ((PeerData.wp_updateDataItems hitems p.peerPdp).mono (fun status pd h => ?_)
    fun _ _ h => h.2 ⟨id, hid⟩)
  obtain rfl := h (by rw [hp]; exact PeerData.hasUnknownMetric_empty.2 hnone)
  simp only [callClient, emit, wp_modify, sendSimpleResponse]
  split
  · have hack' : composeChecked d "Session_Update_Response"
        (addStatusAndMac d.cfg "Success" [] none) "send_simple_response" = .ok ack := hack
    simp [hack', sendSessionMessage, emit]
  · next hno => exact fun h => absurd h hno

/-- The data items of a valid message are known. -/
theorem Handles.known {p : Peer} {st : Step} {name : String} {pm : ProtocolMessage}
    (h : Handles p st name pm) : pm.dataItems.Known st.d.cfg := by
  obtain ⟨buf, _, hbuf⟩ := h.next
  exact known_of_received hbuf

/-- The answer depends on the configuration and the role only. -/
theorem successResponse_congr {d d' : DlepView} (hcfg : d'.cfg = d.cfg)
    (hmodem : d'.modem = d.modem) :
    successResponse d' = successResponse d := by
  simp only [successResponse, composeChecked, compose, hcfg, hmodem]

/-- An update without metrics is answered with success by a peer that has none. -/
theorem Updates.answersSuccess {cfg : ProtocolConfig} {declared : DataItems} {p : Peer} {st : Step}
    {pm ack : ProtocolMessage} (h : Updates cfg declared p st pm)
    (hack : successResponse st.d = .ok ack) (hp : p.peerPdp.metricDataItems = ∅)
    (hnone : PeerData.NoMetrics st.d.cfg pm.dataItems) : AnswersSuccess p st := by
  obtain ⟨buf, hnext, hbuf⟩ := h.next
  intro hsend
  refine ⟨ack, hack, step_of_nextMessage (P := fun q => q.trace.getLast? = some (.send ack.msgbuf))
    h.input hnext (fun _ _ hq => hq) ?_⟩
  refine wp_handlePeerSignal_of_pass hbuf h.passes h.name ?_
  exact (wp_handlePeerUpdate hack h.known hnone hp h.addresses).mono (fun _ _ hq => hq hsend)
    fun _ _ hfalse => hfalse.elim

/-- In every reachable state, the declared metrics are kept exactly if none is declared. -/
theorem keepsMetrics_iff {cfg : ProtocolConfig} {peerId : PeerId} {now : Nat} {p : Peer}
    (hp : Peer.create cfg peerId now = .ok p) {steps : List Step} {st : Step}
    {pm ack : ProtocolMessage} (hst : Accepts (run step p steps) st pm)
    (hack : successResponse st.d = .ok ack) (later : List Step) :
    KeepsMetrics (run step p steps) st pm later ↔ PeerData.NoMetrics st.d.cfg pm.dataItems := by
  have hbare := (bare_of_create hp).run steps |>.step st
  have hknown := hst.toHandles.known
  constructor
  · exact fun h => (records_iff hknown hbare.metrics).1 h.1
  · intro hnone
    refine ⟨(records_iff hknown hbare.metrics).2 hnone, ?_⟩
    intro pre st' post pm' _ hupdate
    have hknown' := hupdate.toHandles.known
    have hnone' := DataItems.Declared.noMetrics (hupdate.sameConfig ▸ hknown') hupdate.metrics hnone
    have hack' : successResponse st'.d = .ok ack := by
      rw [successResponse_congr hupdate.sameConfig (hupdate.router.trans hst.router.symm), hack]
    refine ⟨hupdate.answersSuccess hack' (hbare.run pre).metrics
      (hupdate.sameConfig.symm ▸ hnone'), ?_⟩
    exact (records_iff (hupdate.sameConfig ▸ hknown') (hbare.run _).metrics).2 hnone'

/-- A received message of which a check is known. -/
theorem exists_received {d : DlepView} {buf : Bytes} {check : ProtocolMessage → Bool}
    (h : (match received d buf with
      | .ok ([], pm) => check pm
      | _ => false) = true) : ∃ pm, received d buf = .ok ([], pm) ∧ check pm = true := by
  split at h
  · next pm heq => exact ⟨pm, heq, h⟩
  · cases h

end

/-- The response of a modem with the metrics the configuration asks for. -/
def initializationResponseBytes : Bytes :=
  [0, 2, 0, 78,
    0, 1, 0, 1, 0,
    0, 4, 0, 1, 0,
    0, 5, 0, 4, 0, 0, 234, 96,
    0, 12, 0, 8, 0, 0, 0, 0, 0, 0, 0, 9,
    0, 13, 0, 8, 0, 0, 0, 0, 0, 0, 0, 9,
    0, 14, 0, 8, 0, 0, 0, 0, 0, 0, 0, 7,
    0, 15, 0, 8, 0, 0, 0, 0, 0, 0, 0, 7,
    0, 16, 0, 8, 0, 0, 0, 0, 0, 0, 0, 5]

/-- A router that has opened the session, and to which the response is on its way. -/
def openingRouter : List Step := bareSteps false [.start, .receive initializationResponseBytes]

def bareMessage (modem : Bool) : Step := ⟨bareView modem, bareSurroundings, .message⟩

attribute [local instance] plainText

/-- The router accepts the response, which declares metrics. -/
theorem accepts_declaration :
    ∃ pm, Accepts (run step barePeer openingRouter) (bareMessage false) pm ∧
      ∃ di ∈ pm.dataItems, rfc8175.isMetric di.id none = .ok true := by
  obtain ⟨pm, hpm, hcheck⟩ :=
    @exists_received plainText (bareView false) initializationResponseBytes
    (fun pm => pm.getSignalName rfc8175 = .ok "Session_Initialization_Response" ∧
      pm.getStatus rfc8175 = .ok "Success" ∧ ifPresent (pm.getMac rfc8175) = .ok none ∧
      (run step barePeer openingRouter).expects pm [] = true ∧
      pm.dataItems.any fun di => rfc8175.isMetric di.id none = .ok true) (by decide +kernel)
  simp only [decide_eq_true_eq] at hcheck
  obtain ⟨hname, hstatus, hmac, hexpects, hmetric⟩ := hcheck
  obtain ⟨di, hdi, hmetric⟩ := List.any_eq_true.1 hmetric
  refine ⟨pm, ⟨⟨rfl, ⟨_, ?_, hpm⟩, hname⟩, rfl, hstatus, none, hmac, hexpects⟩, di, hdi, ?_⟩
  · decide +kernel
  · exact of_decide_eq_true hmetric

/-- A router accepts the response of a modem of the shipped configuration. -/
theorem keepsMetrics_iff_declaration :
    ∃ pm, Accepts (run step barePeer openingRouter) (bareMessage false) pm ∧
      (KeepsMetrics (run step barePeer openingRouter) (bareMessage false) pm [] ↔
        PeerData.NoMetrics rfc8175 pm.dataItems) := by
  obtain ⟨pm, hpm, _⟩ := accepts_declaration
  have hack : (successResponse (bareView false)).isOk = true := by decide +kernel
  cases hsuccess : successResponse (bareView false) with
  | error e => simp [hsuccess, Except.isOk, Except.toBool] at hack
  | ok ack =>
    exact ⟨pm, hpm,
      @keepsMetrics_iff plainText rfc8175 (str "peer") 0 barePeer rfl _ _ _ ack hpm hsuccess []⟩

/-- The response with metrics is accepted, and none of them is recorded. -/
theorem declaration_not_recorded :
    ∃ pm, Accepts (run step barePeer openingRouter) (bareMessage false) pm ∧
      ¬ KeepsMetrics (run step barePeer openingRouter) (bareMessage false) pm [] := by
  obtain ⟨pm, hpm, di, hdi, hmetric⟩ := accepts_declaration
  refine ⟨pm, hpm, fun h => ?_⟩
  have hcreate : Peer.create rfc8175 (str "peer") 0 = .ok barePeer := rfl
  have hbare := ((bare_of_create hcreate).run openingRouter).step (bareMessage false)
  have hnone := (records_iff hpm.toHandles.known hbare.metrics).1 h.1 di hdi
  have hcontra : Except.ok true = Except.ok false := hmetric.symm.trans hnone
  cases hcontra

end Peer

end Dlep
