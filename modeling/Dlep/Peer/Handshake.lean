import Dlep.Peer.Extensions

/-!
# The handshake of two nodes

A router opens the session with all its extensions, a modem answers with those that it has as
well, and the router takes these over. Each of them reads what the other one has handed to the
session. If both configurations agree on what the handshake needs of them, and nobody else puts
extensions into the messages, then both nodes end up with the extensions that both of them have.
-/

namespace Dlep

open Std Calls Runs ProtocolMessage

/-- What the configurations of two nodes must have in common for a handshake. -/
structure ProtocolConfig.Compatible (cfg cfg' : ProtocolConfig) : Prop where
  sizes : cfg.SameSizes cfg'
  opening : cfg.SharesMessage cfg' "Session_Initialization"
  answer : cfg.SharesMessage cfg' "Session_Initialization_Response"
  extensions : cfg.SharesDataItem cfg' "Extensions_Supported" .vExtid

/-- Two configurations are compatible with each other. -/
theorem ProtocolConfig.Compatible.symm {cfg cfg' : ProtocolConfig} (h : cfg.Compatible cfg') :
    cfg'.Compatible cfg :=
  ⟨h.sizes.symm, h.opening.symm, h.answer.symm, h.extensions.symm⟩

/-- The list of extensions as a message carries it: an empty list is left out. -/
def extensionItems (id : DataItemIdType) (extensions : List ExtensionIdType) : DataItems :=
  if extensions = [] then [] else [.mk id (.vExtid extensions)]

/-- The data items carry exactly the given extensions. -/
def Carry (cfg : ProtocolConfig) (extensions : List ExtensionIdType) (items : DataItems) : Prop :=
  ∃ id, cfg.getDataItemId "Extensions_Supported" none = .ok id ∧
    (items.filter fun di => di.id = id) = extensionItems id extensions

/-- Only one of two parts carries extensions. -/
theorem Carry.append {cfg : ProtocolConfig} {extensions extensions' : List ExtensionIdType}
    {more more' : DataItems} (h : Carry cfg extensions more) (h' : Carry cfg extensions' more')
    (hone : extensions = [] ∨ extensions' = []) :
    Carry cfg (extensions ++ extensions') (more ++ more') := by
  obtain ⟨id, hid, hlists⟩ := h
  obtain ⟨id', hid', hlists'⟩ := h'
  obtain rfl := Except.ok.inj (hid.symm.trans hid')
  refine ⟨id, hid, ?_⟩
  rw [List.filter_append, hlists, hlists']
  rcases hone with rfl | rfl
  · simp [extensionItems]
  · simp [extensionItems]

/-- The message of a peer for the handshake carries the extensions. -/
def Carries (cfg : ProtocolConfig) (name : String) (extensions : List ExtensionIdType)
    (pm : ProtocolMessage) : Prop :=
  ∃ items body, Frames cfg name pm items body ∧ Carry cfg extensions items

namespace Peer

variable [AddressText] {cfg cfg' : ProtocolConfig} {name : String} {pm pm' : ProtocolMessage}
  {extensions : List ExtensionIdType}

/-! ## Reading -/

omit [AddressText] in
/-- The extensions of a message that carries them. -/
theorem ifPresent_getExtensions (h : Carry cfg extensions pm.dataItems) :
    ifPresent (pm.getExtensions cfg) = .ok (if extensions = [] then none else some extensions) := by
  obtain ⟨id, hid, hlists⟩ := h
  have hfind : (pm.dataItems.find? fun di => di.id = id) =
      (extensionItems id extensions).head? := by
    rw [← hlists, List.head?_filter]
  rw [ProtocolMessage.getExtensions, getDataItemValue, hid, ok_bind, hfind, extensionItems]
  by_cases hempty : extensions = []
  · rw [if_pos hempty, if_pos hempty]
    rfl
  · rw [if_neg hempty, if_neg hempty]
    rfl

/-- What is received without an error is parsed without an error. -/
theorem accepts_of_received {d : DlepView} {buf : Bytes} (h : received d buf = .ok ([], pm)) :
    ProtocolMessage.Accepts d.cfg false buf (str "handle_peer_signal") {} pm := by
  obtain ⟨⟨err, pm₁⟩, hparse, h⟩ := bind_eq_ok.1 h
  dsimp only at h
  split at h
  · next herr =>
    obtain ⟨hnil, _⟩ := Prod.mk.inj (Except.ok.inj h)
    exact absurd hnil herr
  · next herr =>
    obtain ⟨_, _, h⟩ := bind_eq_ok.1 h
    obtain ⟨_, rfl⟩ := Prod.mk.inj (Except.ok.inj h)
    obtain rfl := not_not.1 herr
    exact hparse

/-- The other node finds the extensions that a message carries. -/
theorem carry_of_received {d : DlepView} (hcompat : cfg.Compatible d.cfg)
    (hshared : cfg.SharesMessage d.cfg name) (hpm : Carries cfg name extensions pm)
    (h : received d pm.msgbuf = .ok ([], pm')) : Carry d.cfg extensions pm'.dataItems := by
  obtain ⟨items, body, hframes, id, hid, hlists⟩ := hpm
  obtain ⟨id', hid₁, hid', _, htype⟩ := hcompat.extensions
  obtain rfl := Except.ok.inj (hid.symm.trans hid₁)
  refine ⟨id, hid', ?_⟩
  rw [← hlists]
  refine hframes.extensions_across hcompat.sizes hshared hid' htype (accepts_of_received h) ?_
  intro di hdi hsame
  have hmem : di ∈ extensionItems id extensions := by
    rw [← hlists]
    exact List.mem_filter.2 ⟨hdi, decide_eq_true hsame⟩
  unfold extensionItems at hmem
  split at hmem
  · cases hmem
  · exact ⟨extensions, List.mem_singleton.1 hmem⟩

/-- The offer of a message that carries extensions. -/
def offering (name : String) (extensions : List ExtensionIdType) : Offer where
  answer := name = "Session_Initialization_Response"
  extensions := if extensions = [] then none else some extensions

/-- A message of the other node is the next one, if it arrives first. -/
theorem nextMessage_of_receive {d : DlepView} {s : Surroundings} {p q : Peer}
    (hcompat : cfg.Compatible d.cfg) (hshared : cfg.SharesMessage d.cfg name)
    (hpm : Carries cfg name extensions pm) {more : Bytes} (hbuffer : p.signalRecv = [])
    (hq : q = p.step ⟨d, s, .receive (pm.msgbuf ++ more)⟩) : nextMessage d q = some pm.msgbuf := by
  obtain ⟨items, body, hframes, _⟩ := hpm
  have hsize := hframes.isCompleteMessage_append (hframes.shared hshared).1 more
  have hrecv : q.signalRecv = pm.msgbuf ++ more := by
    rw [hq]
    change p.signalRecv ++ _ = _
    rw [hbuffer, List.nil_append]
  rw [nextMessage, hrecv]
  simp only [isCompleteMessage_across hcompat.sizes, hsize, List.take_left]

/-- Where nothing arrives, there is nothing to read. -/
theorem nextMessage_of_nothing {d : DlepView} {s : Surroundings} {p : Peer}
    (hbuffer : p.signalRecv = []) : nextMessage d (p.step ⟨d, s, .receive []⟩) = none := by
  have hrecv : (p.step ⟨d, s, .receive []⟩).signalRecv = [] := by
    change p.signalRecv ++ [] = []
    rw [hbuffer, List.nil_append]
  have hpos := d.cfg.signalIdSize.2.1
  have hshort : ([] : Bytes).length < d.cfg.signalIdSize.1 + d.cfg.signalLengthSize.1 := by
    rw [List.length_nil]
    omega
  simp only [nextMessage, hrecv, isCompleteMessage, if_pos hshort]

/-- The other node gives a message its name. -/
theorem getSignalName_of_received {d : DlepView} (hcompat : cfg.Compatible d.cfg)
    (hshared : cfg.SharesMessage d.cfg name) (hpm : Carries cfg name extensions pm)
    (h : received d pm.msgbuf = .ok ([], pm')) : pm'.getSignalName d.cfg = .ok name := by
  obtain ⟨items, body, hframes, _⟩ := hpm
  exact hframes.getSignalName_across hcompat.sizes hshared (accepts_of_received h)

/-- A peer reads a message of the handshake of the other node. If it enters the session with it, the
offer is what the message carries. -/
theorem settle_of_read {d : DlepView} {s : Surroundings} {p q : Peer}
    (hcompat : cfg.Compatible d.cfg) (hshared : cfg.SharesMessage d.cfg name)
    (hpm : Carries cfg name extensions pm) {more : Bytes} (hp : p.QueueOk)
    (hbuffer : p.signalRecv = []) (hstate : p.pstate ≠ .inSession)
    (hq : q = p.step ⟨d, s, .receive (pm.msgbuf ++ more)⟩)
    (hdone : (q.step ⟨d, s, .message⟩).pstate = .inSession) :
    (q.step ⟨d, s, .message⟩).mutualExtensions =
      (offering name extensions).settle d.cfg p.mutualExtensions := by
  have hok : q.QueueOk := hq ▸ queueOk_step _ hp
  have haside : Aside p q := hq ▸ aside_step hp (by simp)
  have hnext := nextMessage_of_receive hcompat hshared hpm hbuffer hq
  have hsettles := settles_step hok ⟨d, s, .message⟩
  cases hoffer : (Step.mk d s .message).offer q with
  | none =>
    rw [hoffer] at hsettles
    exact absurd (haside.2 (hsettles.2 hdone)) hstate
  | some o =>
    rw [hoffer] at hsettles
    rw [show (q.step ⟨d, s, .message⟩).mutualExtensions = _ from hsettles, haside.1]
    obtain ⟨buf, pm', name', hbuf, hreceived, hname, _, hext, hanswer⟩ := exists_of_offer hoffer
    obtain rfl := Option.some.inj (hnext.symm.trans hbuf)
    have hsame := getSignalName_of_received hcompat hshared hpm hreceived
    obtain rfl := Except.ok.inj (hsame.symm.trans hname)
    have hlist := ifPresent_getExtensions (carry_of_received hcompat hshared hpm hreceived)
    obtain ⟨answer, listed⟩ := o
    obtain rfl : answer = _ := hanswer
    obtain rfl := Except.ok.inj (hlist.symm.trans hext)
    rfl

/-! ## Writing -/

/-- The function puts data items into a message that carry exactly the given extensions. -/
def PutsExtensions (cfg : ProtocolConfig) (extensions : List ExtensionIdType)
    (build : ProtocolMessage → Except Exn ProtocolMessage) : Prop :=
  ∀ (name : String) (pm pm' : ProtocolMessage) (items : DataItems), Building cfg name pm items →
    build pm = .ok pm' → ∃ more, Building cfg name pm' (items ++ more) ∧ Carry cfg extensions more

/-- Of two functions in a row at most one may put extensions in. -/
theorem PutsExtensions.bind {f g : ProtocolMessage → Except Exn ProtocolMessage}
    {extensions' : List ExtensionIdType} (hf : PutsExtensions cfg extensions f)
    (hg : PutsExtensions cfg extensions' g) (hone : extensions = [] ∨ extensions' = []) :
    PutsExtensions cfg (extensions ++ extensions') fun pm => f pm >>= g := by
  intro name pm pm' items hpm h
  obtain ⟨pm₁, h₁, h₂⟩ := bind_eq_ok.1 h
  obtain ⟨more, hpm₁, hmore⟩ := hf _ _ _ _ hpm h₁
  obtain ⟨more', hpm', hmore'⟩ := hg _ _ _ _ hpm₁ h₂
  exact ⟨more ++ more', by simpa using hpm', hmore.append hmore' hone⟩

/-- Data items with other ids carry no extensions. -/
theorem putsExtensions_of_puts {P : DataItem → Prop} {id : DataItemIdType}
    {build : ProtocolMessage → Except Exn ProtocolMessage}
    (hid : cfg.getDataItemId "Extensions_Supported" none = .ok id) (h : Puts cfg P build)
    (hother : ∀ di, P di → di.id ≠ id) : PutsExtensions cfg [] build := by
  intro name pm pm' items hpm hbuild
  obtain ⟨more, hmore, hall⟩ := h _ _ _ _ hpm hbuild
  refine ⟨more, hmore, id, hid, ?_⟩
  rw [extensionItems, if_pos rfl]
  exact List.filter_eq_nil_iff.2 fun di hdi => by simpa using hother di (hall di hdi)

/-- The common data items list no extensions. -/
theorem putsExtensions_addCommonDataItems {client : ClientParameters} {id : DataItemIdType}
    (hid : cfg.getDataItemId "Extensions_Supported" none = .ok id) :
    PutsExtensions cfg [] (addCommonDataItems cfg client) := by
  refine putsExtensions_of_puts hid puts_addCommonDataItems ?_
  rintro di ⟨diName, hmem, hname⟩ rfl
  rw [getDataItemId_inj hname hid] at hmem
  exact absurd hmem (by decide)

/-- The list of extensions is put in if it is not empty. -/
theorem putsExtensions_addExtensionsIfAny {id : DataItemIdType}
    (hid : cfg.getDataItemId "Extensions_Supported" none = .ok id) :
    PutsExtensions cfg extensions (addExtensionsIfAny cfg extensions) := by
  intro name pm pm' items hpm h
  unfold addExtensionsIfAny at h
  split at h
  · next hempty =>
    obtain rfl := Except.ok.inj h
    exact ⟨[], by simpa using hpm, id, hid, by simp [extensionItems, hempty]⟩
  · next hne =>
    obtain ⟨di, hdi, hadd⟩ := bind_eq_ok.1 h
    obtain ⟨id', hid', hdi⟩ := bind_eq_ok.1 hdi
    obtain rfl := Except.ok.inj hdi
    obtain rfl := Except.ok.inj (hid.symm.trans hid')
    refine ⟨[.mk id (.vExtid extensions)], .addDataItem hpm hadd, id, hid, ?_⟩
    rw [extensionItems, if_neg hne]
    exact List.filter_cons_of_pos (decide_eq_true rfl)

variable {d : DlepView} {s : Surroundings} {p : Peer}

/-- A composed message carries what was put into it, whatever its check says. -/
theorem carries_of_compose {build : ProtocolMessage → Except Exn ProtocolMessage} {func : String}
    {err : Bytes} (hbuild : PutsExtensions d.cfg extensions build)
    (h : compose d name build func = .ok (err, pm)) : Carries d.cfg name extensions pm := by
  obtain ⟨header, hheader, h⟩ := bind_eq_ok.1 h
  obtain ⟨pm₀, hpm₀, h⟩ := bind_eq_ok.1 h
  obtain ⟨items, hitems, hcarry⟩ := hbuild _ _ _ _ (.addHeader hheader) hpm₀
  obtain ⟨body, hframes⟩ := hitems.frames
  obtain ⟨_, hparse⟩ := parse_of_parseAndValidate h
  exact ⟨_, body, hframes.parse hparse, hcarry⟩

/-- An opening carries all extensions of the configuration. -/
theorem carries_initializationMessage {id : DataItemIdType}
    (hid : d.cfg.getDataItemId "Extensions_Supported" none = .ok id)
    (h : initializationMessage d s = .ok pm) :
    Carries d.cfg "Session_Initialization" d.cfg.getExtensionIds pm := by
  obtain ⟨⟨err, pm'⟩, hcompose, h⟩ := bind_eq_ok.1 h
  obtain ⟨_, _, h⟩ := bind_eq_ok.1 h
  obtain rfl := Except.ok.inj h
  have hcommon : PutsExtensions d.cfg [] (addCommonDataItems d.cfg s.params) :=
    putsExtensions_addCommonDataItems hid
  have hown : PutsExtensions d.cfg d.cfg.getExtensionIds
      (addExtensionsIfAny d.cfg d.cfg.getExtensionIds) := putsExtensions_addExtensionsIfAny hid
  exact carries_of_compose (hcommon.bind hown (.inl rfl)) hcompose

/-- The modem itself has no data item that lists extensions. -/
def NoExtensionItems (d : DlepView) : Prop :=
  ∀ di ∈ d.localPdp.getDataItems, d.cfg.getDataItemId "Extensions_Supported" none ≠ .ok di.id

/-- The answer carries the agreed extensions. -/
theorem carries_initializationResponse {id : DataItemIdType}
    (hid : d.cfg.getDataItemId "Extensions_Supported" none = .ok id) (hitems : NoExtensionItems d)
    (h : initializationResponse d s p = .ok pm) :
    Carries d.cfg "Session_Initialization_Response" p.mutualExtensions pm := by
  obtain ⟨⟨err, pm'⟩, hcompose, h⟩ := bind_eq_ok.1 h
  obtain rfl := Except.ok.inj h
  have hallowed : PutsExtensions d.cfg [] (addAllowedDataItems d.cfg d.localPdp.getDataItems) := by
    refine putsExtensions_of_puts hid (puts_addAllowedDataItems hitems) ?_
    rintro di hdi rfl
    exact hdi hid
  have hcommon : PutsExtensions d.cfg [] (addCommonDataItems d.cfg s.params) :=
    putsExtensions_addCommonDataItems hid
  have hagreed : PutsExtensions d.cfg p.mutualExtensions
      (addExtensionsIfAny d.cfg p.mutualExtensions) := putsExtensions_addExtensionsIfAny hid
  have hputs := hcommon.bind (hagreed.bind hallowed (.inr rfl)) (.inl rfl)
  rw [List.append_nil, List.nil_append] at hputs
  exact carries_of_compose hputs hcompose

/-- If the client changes the data items of a message, it leaves the extensions in it. -/
def KeepsExtensions (s : Surroundings) (cfg : ProtocolConfig) (extensions : List ExtensionIdType) :
    Prop :=
  ∀ peerId items items', s.peerInit peerId items = some items' → Carry cfg extensions items'

/-- The client's changes leave the extensions in the message, and nothing else happens. -/
theorem wp_letClientModify (hclient : KeepsExtensions s d.cfg extensions)
    (hpm : Carries d.cfg name extensions pm) :
    wp (letClientModify d s pm)
      (fun pm' q => Carries d.cfg name extensions pm' ∧
        q = { p with trace := p.trace ++ [.client (.peerInit p.peerId pm.dataItems)] })
      (fun _ q => q = { p with trace := p.trace ++ [.client (.peerInit p.peerId pm.dataItems)] })
        p := by
  simp only [letClientModify, callClient, emit, wp_bind, wp_get, wp_modify]
  split
  · exact ⟨hpm, rfl⟩
  · next items' hinit =>
    rw [wp_bind]
    refine wp_lift (fun r hr => ?_) fun _ _ => rfl
    obtain ⟨err, pm'⟩ := r
    obtain ⟨items, body, hframes, _⟩ := hpm
    obtain ⟨body', hframes'⟩ := hframes.rebuild hr
    exact ⟨⟨items', body', hframes', hclient _ _ _ hinit⟩, rfl⟩

/-! ## The opening -/

omit [AddressText] in
/-- The bytes that a peer has handed to its session. -/
def handed (p : Peer) : Bytes := (p.trace.filterMap Event.handed).flatten

omit [AddressText] in
/-- Further events add the bytes that they hand over. -/
theorem handed_of_append {q : Peer} {events : List Event} (h : q.trace = p.trace ++ events) :
    q.handed = p.handed ++ (events.filterMap Event.handed).flatten := by
  rw [handed, h, List.filterMap_append, List.flatten_append]
  rfl

omit [AddressText] in
/-- A request hands its message over, or nothing. -/
theorem handed_sendRequest (hp : QueueInv p) {now : Nat} :
    wp (sendRequest cfg now pm) (fun _ q => q.handed = p.handed ∨ q.handed = p.handed ++ pm.msgbuf)
      (fun _ q => q.handed = p.handed ∨ q.handed = p.handed ++ pm.msgbuf) p := by
  rw [sendRequest, wp_bind]
  refine wp_lift (fun rp hrp => ?_) fun _ _ => .inl rfl
  obtain ⟨q, events, hrun, htrace, hevents⟩ :=
    @sendNew_handed now rp (ResponsePending.make_queued hrp) p hp
  refine wp_of_ok hrun ?_
  rw [handed_of_append htrace, hevents]
  split
  · rw [(ResponsePending.make_ok hrp).1]
    exact .inr (by simp)
  · exact .inl (by simp)

/-- A router hands over at most its Session Initialization when it starts. -/
theorem handed_startPeer {id : DataItemIdType} (hmodem : d.modem = false)
    (hid : d.cfg.getDataItemId "Extensions_Supported" none = .ok id)
    (hclient : KeepsExtensions s d.cfg d.cfg.getExtensionIds) (hp : QueueInv p) :
    (after (startPeer d s) p).handed = p.handed ∨
      ∃ pm, Carries d.cfg "Session_Initialization" d.cfg.getExtensionIds pm ∧
        (after (startPeer d s) p).handed = p.handed ++ pm.msgbuf := by
  refine (wp_after (P := fun q : Peer => q.handed = p.handed ∨
    ∃ pm, Carries d.cfg "Session_Initialization" d.cfg.getExtensionIds pm ∧
      q.handed = p.handed ++ pm.msgbuf)).1 ?_
  rw [startPeer, wp_bind]
  refine wp_lift (fun heartbeatMsg _ => ?_) fun _ _ => .inl rfl
  simp only [wp_bind, wp_modify, hmodem, Bool.false_eq_true, if_false]
  obtain ⟨q, hq⟩ : ∃ q : Peer, q = { p with heartbeatMsg } := ⟨_, rfl⟩
  have hquiet : Move .quiet p q := by
    rw [hq]
    exact .quiet rfl rfl rfl rfl le_rfl rfl
  have hhanded : q.handed = p.handed := by rw [hq]; rfl
  rw [← hq, ← hhanded]
  refine wp_lift (fun pm hpm => ?_) fun _ _ => .inl rfl
  refine (wp_letClientModify hclient (carries_initializationMessage hid hpm)).mono
    (fun pm' r hr => ?_) fun _ r hr => .inl ?_
  · obtain ⟨hcarries, hr⟩ := hr
    have hinit : Move .init q r := hr ▸ .init pm.dataItems
    have hsame : r.handed = q.handed := by
      rw [handed_of_append (congrArg Peer.trace hr)]
      simp [Event.handed]
    have hsend := @handed_sendRequest d.cfg pm' r (hinit.queueInv (hquiet.queueInv hp)) s.now
    rw [← hsame]
    exact hsend.mono (fun _ _ h => h.imp_right fun h => ⟨pm', hcarries, h⟩)
      fun _ _ h => h.imp_right fun h => ⟨pm', hcarries, h⟩
  · rw [handed_of_append (congrArg Peer.trace hr)]
    simp [Event.handed]

/-! ## The answer -/

/-- A message is given to its handler, or nothing is agreed on and no session is entered. -/
theorem wp_handlePeerSignal_of_dispatch {buf : Bytes} {P : Peer → Prop}
    (haside : ∀ q, Aside p q → P q)
    (hdispatch : ∀ pm name, received d buf = .ok ([], pm) → pm.getSignalName d.cfg = .ok name →
      wp (dispatch d s name pm) (fun _ q => P q) (fun _ q => P q) p) :
    wp (handlePeerSignal d s buf) (fun _ q => P q) (fun _ q => P q) p := by
  refine wp_handlePeerSignal_of_handled (haside p (Std.Refl.refl p))
    (fun _ _ => haside _ (aside_terminate p)) fun name pm hhandled => ?_
  obtain ⟨hreceived, hname⟩ := received_of_handledOf hhandled
  exact wp_after.1 (hdispatch pm name hreceived hname)

/-- The peer has handed over a response with the agreed extensions, and what came after it. -/
def Answers (cfg : ProtocolConfig) (p q : Peer) : Prop :=
  ∃ pm more, Carries cfg "Session_Initialization_Response" q.mutualExtensions pm ∧
    q.handed = p.handed ++ (pm.msgbuf ++ more)

omit [AddressText] in
/-- Quiet moves hand over nothing. -/
theorem trace_of_quiet {q : Peer} (h : Moves {.quiet} p q) : q.trace = p.trace := by
  refine Moves.keeps (P := fun q => q.trace = p.trace) (fun k hk r r' hm hr => ?_) h rfl
  obtain rfl := Finset.mem_singleton.1 hk
  cases hm with
  | quiet _ _ _ _ _ htrace => exact htrace.trans hr

omit [AddressText] in
/-- What was recorded stays. -/
def Grows (p q : Peer) : Prop := p.trace <+: q.trace

instance : Std.Refl Grows := ⟨fun p => List.prefix_refl p.trace⟩

instance : IsTrans Peer Grows := ⟨fun _ _ _ h h' => List.IsPrefix.trans h h'⟩

omit [AddressText] in
/-- Sending a message adds to the history. -/
theorem grows_sendMessageExpectingResponse {now : Nat} {rp : ResponsePending} :
    Within Grows (sendMessageExpectingResponse now rp) := by
  refine within_bind within_get fun _ => within_ite (fun _ => within_pure) fun _ => ?_
  refine within_bind (within_ite (fun _ => within_pure) fun _ => ?_) fun _ => ?_
  · exact within_modify fun _ => List.prefix_append _ _
  · refine within_bind within_get fun _ => ?_
    split
    · exact within_ite (fun _ => within_modify fun _ => List.prefix_append _ _) fun _ => within_pure
    · exact within_throw

instance : Closed Grows where
  other p q _ _ _ htrace := by
    obtain ⟨events, hevents, _⟩ := htrace
    exact ⟨events, hevents.symm⟩
  send now rp _ _ := by
    refine within_bind within_get fun _ => ?_
    refine within_bind (within_modify fun p => List.prefix_refl p.trace) fun _ => ?_
    exact grows_sendMessageExpectingResponse
  resend now p _ head _ _ _ _ := grows_sendMessageExpectingResponse p

/-- A modem that answers hands over the response before it does anything else. -/
theorem wp_sendPeerInitializationResponse {id : DataItemIdType}
    (hid : d.cfg.getDataItemId "Extensions_Supported" none = .ok id) (hitems : NoExtensionItems d)
    (hsends : shouldSendResponse s = true) (hclient : KeepsExtensions s d.cfg p.mutualExtensions) :
    wp (sendPeerInitializationResponse d s)
      (fun _ q => q.mutualExtensions = p.mutualExtensions ∧
        ∃ pm, Carries d.cfg "Session_Initialization_Response" p.mutualExtensions pm ∧
          q.handed = p.handed ++ pm.msgbuf)
      (fun _ q => q.pstate = p.pstate) p := by
  rw [sendPeerInitializationResponse, wp_bind, wp_get, wp_bind]
  refine wp_lift (fun pm hpm => ?_) fun _ _ => rfl
  rw [wp_bind]
  refine (wp_letClientModify hclient (carries_initializationResponse hid hitems hpm)).mono
    (fun pm' q hq => ?_) fun _ q hq => by rw [hq]
  obtain ⟨hcarries, hq⟩ := hq
  rw [if_pos hsends]
  refine ⟨by rw [hq], pm', hcarries, ?_⟩
  have htrace : ({ q with trace := q.trace ++ [.send pm'.msgbuf] } : Peer).trace =
      p.trace ++ [.client (.peerInit p.peerId pm.dataItems), .send pm'.msgbuf] := by
    rw [hq]
    simp
  exact (handed_of_append htrace).trans (congrArg (p.handed ++ ·) (List.append_nil _))

omit [AddressText] in
/-- What comes after a response stands behind it. -/
theorem answers_of_grows {q t : Peer} {extensions : List ExtensionIdType}
    (hcarries : Carries cfg "Session_Initialization_Response" extensions pm)
    (hext : q.mutualExtensions = extensions) (hsent : q.handed = p.handed ++ pm.msgbuf)
    (h : SameExtensions q t ∧ Grows q t) : Answers cfg p t := by
  obtain ⟨events, hevents⟩ := h.2
  refine ⟨pm, (events.filterMap Event.handed).flatten, ?_, ?_⟩
  · rw [show t.mutualExtensions = q.mutualExtensions from h.1, hext]
    exact hcarries
  · rw [handed_of_append hevents.symm, hsent, List.append_assoc]

/-- Whoever enters the session as a modem has answered. -/
theorem answers_handlePeerInitialization {id : DataItemIdType} (hp : p.QueueOk)
    (hid : d.cfg.getDataItemId "Extensions_Supported" none = .ok id) (hitems : NoExtensionItems d)
    (hsends : shouldSendResponse s = true) {listed : Option (List ExtensionIdType)}
    (hlisted : ifPresent (pm.getExtensions d.cfg) = .ok listed)
    (hclient : KeepsExtensions s d.cfg (Offer.settle ⟨false, listed⟩ d.cfg p.mutualExtensions))
    (hstate : p.pstate ≠ .inSession) :
    wp (handlePeerInitialization d s pm) (fun _ q => q.pstate = .inSession → Answers d.cfg p q)
      (fun _ q => q.pstate = .inSession → Answers d.cfg p q) p := by
  have haside : ∀ q, Aside p q → q.pstate = .inSession → Answers d.cfg p q := fun q hq hdone =>
    absurd (hq.2 hdone) hstate
  rw [handlePeerInitialization, wp_bind, wp_get, wp_bind]
  refine wp_lift (fun err _ => ?_) fun _ _ => haside p (Std.Refl.refl p)
  split
  · exact (aside_terminate.wp p).mono (fun _ q hq => haside q hq) fun _ q hq => haside q hq
  · have hstore := (@wp_storePeerProperties d pm p).and (within_storePeerProperties.wp p)
    rw [wp_bind]
    refine hstore.mono (fun _ q hq => ?_) fun _ q hq => haside q (Overlooks.other p q hq.1.2)
    obtain ⟨⟨_, hsame⟩, hmoves⟩ := hq
    have hhanded : q.handed = p.handed := by rw [handed, trace_of_quiet (hmoves hp), handed]
    have hagreed : q.mutualExtensions = p.mutualExtensions :=
      congrArg Standing.mutualExtensions hsame
    rw [wp_bind, addMutualExtensions, wp_bind, hlisted, wp_lift_ok]
    -- the extensions are settled, and nothing else has changed
    have hrest : ∀ r : Peer, r.mutualExtensions = Offer.settle ⟨false, listed⟩ d.cfg
      p.mutualExtensions →
        r.handed = q.handed → r.pstate = q.pstate →
        wp (do
          sendPeerInitializationResponse d s
          enterSession d s getInfo
          advertisePeer d s) (fun _ q => q.pstate = .inSession → Answers d.cfg p q)
          (fun _ q => q.pstate = .inSession → Answers d.cfg p q) r := by
      intro r hr hsent hrpstate
      rw [← hr] at hclient
      rw [wp_bind]
      refine (wp_sendPeerInitializationResponse hid hitems hsends hclient).mono (fun _ t ht => ?_)
        fun _ t ht hdone => ?_
      · obtain ⟨hext, pm₂, hcarries, htsent⟩ := ht
        have hkeeps : Within SameExtensions (do
            enterSession d s getInfo
            advertisePeer d s) :=
          within_bind sameExtensions_enterSession fun _ => overlooks_advertisePeer
        have hgrows : Within Grows (do
            enterSession d s getInfo
            advertisePeer d s) := within_bind closed_enterSession fun _ => closed_advertisePeer
        refine ((hkeeps.wp t).and (hgrows.wp t)).mono (fun _ u hu _ => ?_) fun _ u hu _ => ?_
        · exact answers_of_grows hcarries hext (htsent.trans (by rw [hsent, hhanded])) hu
        · exact answers_of_grows hcarries hext (htsent.trans (by rw [hsent, hhanded])) hu
      · have hsame : q.pstate = p.pstate := congrArg Standing.pstate hsame
        exact absurd (hsame.symm.trans (hrpstate.symm.trans (ht.symm.trans hdone))) hstate
    cases listed with
    | none => exact hrest q hagreed rfl rfl
    | some extensions =>
      refine hrest _ ?_ rfl rfl
      change q.mutualExtensions ++ _ = p.mutualExtensions ++ _
      rw [hagreed]

end Peer

/-! ## The handshake -/

/-- A handshake: the router starts. The modem makes some steps, then reads what the router has
handed to the session, and answers. The router waits, and then reads what the modem has handed to
the session. -/
structure Handshake where
  router : Peer
  modem : Peer
  /-- What each of them sees of its node and of its surroundings meanwhile. -/
  opening : DlepView × Surroundings
  answering : DlepView × Surroundings
  settling : DlepView × Surroundings
  /-- What happens to the modem before it reads, and to the router while it waits. -/
  preparing : List Peer.Step
  waiting : List Peer.Step

namespace Handshake

open Peer

section

variable [AddressText] (h : Handshake)

/-- The router after its start. -/
def opened : Peer := h.router.step ⟨h.opening.1, h.opening.2, .start⟩

/-- The modem before it reads. -/
def prepared : Peer := run step h.modem h.preparing

/-- The modem after its answer. -/
def answered : Peer :=
  run step h.prepared
    [⟨h.answering.1, h.answering.2, .receive h.opened.handed⟩,
      ⟨h.answering.1, h.answering.2, .message⟩]

/-- The router after it has read the answer. -/
def settled : Peer :=
  run step (run step h.opened h.waiting)
    [⟨h.settling.1, h.settling.2, .receive h.answered.handed⟩,
      ⟨h.settling.1, h.settling.2, .message⟩]

/-- The handshake is one between new peers, of a router with the first configuration and of a
modem with the second. Neither reads in between, and the modem has handed nothing over before its
answer. -/
structure Between (cfg cfg' : ProtocolConfig) : Prop where
  router : ∃ peerId now, Peer.create cfg peerId now = .ok h.router
  modem : ∃ peerId now, Peer.create cfg' peerId now = .ok h.modem
  opening : h.opening.1.cfg = cfg ∧ h.opening.1.modem = false
  answering : h.answering.1.cfg = cfg' ∧ h.answering.1.modem = true
  settling : h.settling.1.cfg = cfg ∧ h.settling.1.modem = false
  preparing : ∀ st ∈ h.preparing, st.input ≠ .message ∧ ∀ bytes, st.input ≠ .receive bytes
  waiting : ∀ st ∈ h.waiting, st.input ≠ .message ∧ ∀ bytes, st.input ≠ .receive bytes
  silent : h.prepared.handed = []

/-- Both peers have entered the session. -/
def Completed : Prop := h.answered.pstate = .inSession ∧ h.settled.pstate = .inSession

/-- The configurations agree on what the handshake needs, and nobody but the library puts extensions
into its messages: the modem itself lists none, and the clients leave those in the messages that are
there. The modem does not withhold its response. -/
structure Plain (cfg cfg' : ProtocolConfig) : Prop where
  compatible : cfg.Compatible cfg'
  sends : shouldSendResponse h.answering.2 = true
  items : NoExtensionItems h.answering.1
  routerClient : KeepsExtensions h.opening.2 cfg cfg.getExtensionIds
  modemClient : KeepsExtensions h.answering.2 cfg'
    (cfg.getExtensionIds.filter fun extid => cfg'.getExtensionIds.contains extid)

end

variable [AddressText] {h : Handshake} {cfg cfg' : ProtocolConfig}

omit [AddressText] in
/-- A modem that had agreed on nothing settles on the extensions it shares with the opening. -/
theorem settle_opening {extensions : List ExtensionIdType} :
    Offer.settle ⟨false, if extensions = [] then none else some extensions⟩ cfg [] =
      extensions.filter fun extid => cfg.getExtensionIds.contains extid := by
  split
  · next hempty =>
    rw [hempty]
    rfl
  · rfl

omit [AddressText] in
/-- A router settles on what the answer lists. -/
theorem settle_answer {extensions : List ExtensionIdType} :
    (offering "Session_Initialization_Response" extensions).settle cfg [] = extensions := by
  unfold offering Offer.settle
  by_cases hempty : extensions = []
  · simp [hempty]
  · simp [hempty]

/-- A peer that waits for a message of the handshake. -/
structure Waits (p : Peer) : Prop where
  queues : p.QueueOk
  buffer : p.signalRecv = []
  state : p.pstate ≠ .inSession
  agreed : p.mutualExtensions = []

/-- A new peer waits for the handshake. -/
theorem waits_of_create {peerId : PeerId} {now : Nat} {p : Peer}
    (hp : Peer.create cfg peerId now = .ok p) : Waits p := by
  refine ⟨(queueInv_of_create hp).ok, ?_, ?_, ?_⟩
  · rw [create_ok hp]
  · rw [create_ok hp]
    simp
  · rw [create_ok hp]

/-- A peer waits until it reads. -/
theorem Waits.step {p : Peer} (h : Waits p) {st : Step}
    (hst : st.input ≠ .message ∧ ∀ bytes, st.input ≠ .receive bytes) : Waits (p.step st) := by
  have haside : Aside p (p.step st) := aside_step h.queues hst.1
  have hbuffer : SameBuffer p (p.step st) := closed_step hst.1 hst.2 p
  exact ⟨queueOk_step st h.queues, Eq.trans hbuffer h.buffer, fun hdone => h.state (haside.2 hdone),
    haside.1.trans h.agreed⟩

/-- A peer that receives and reads nothing goes on waiting. -/
theorem Waits.run {p : Peer} (h : Waits p) {steps : List Step}
    (hsteps : ∀ st ∈ steps, st.input ≠ .message ∧ ∀ bytes, st.input ≠ .receive bytes) :
    Waits (Runs.run Peer.step p steps) :=
  (along_true.and_inputs hsteps).invariant (fun _ _ hp hst => hp.step hst.2) h

/-- What the router hands over when it starts: nothing, or a message with its extensions. -/
theorem handed_opened (hh : h.Between cfg cfg') (hplain : h.Plain cfg cfg') :
    h.opened.handed = [] ∨
      ∃ pm, Carries cfg "Session_Initialization" cfg.getExtensionIds pm ∧
        h.opened.handed = pm.msgbuf := by
  obtain ⟨peerId, now, hcreate⟩ := hh.router
  obtain ⟨hcfg, hrole⟩ := hh.opening
  obtain ⟨id, hid, _⟩ := hplain.compatible.extensions
  have hclient := hplain.routerClient
  rw [← hcfg] at hid hclient ⊢
  have hempty : h.router.handed = [] := by
    rw [create_ok hcreate]
    rfl
  have hstart := handed_startPeer hrole hid hclient (queueInv_of_create hcreate)
  rwa [hempty] at hstart

/-- A modem that waits for the opening, and enters the session when it reads it, has answered. -/
theorem Waits.answers {d : DlepView} {s : Surroundings} {p q : Peer} (hp : Waits p)
    (hcompat : cfg.Compatible d.cfg) {extensions : List ExtensionIdType} {pm : ProtocolMessage}
    (hcarries : Carries cfg "Session_Initialization" extensions pm) {more : Bytes}
    (hq : q = p.step ⟨d, s, .receive (pm.msgbuf ++ more)⟩) (hitems : NoExtensionItems d)
    (hsends : shouldSendResponse s = true)
    (hclient : KeepsExtensions s d.cfg
      (extensions.filter fun extid => d.cfg.getExtensionIds.contains extid))
    (hdone : (q.step ⟨d, s, .message⟩).pstate = .inSession) :
    Answers d.cfg q (q.step ⟨d, s, .message⟩) := by
  have haside : Aside p q := hq ▸ aside_step hp.queues (by simp)
  have hstate : q.pstate ≠ .inSession := fun hin => hp.state (haside.2 hin)
  have hnext := nextMessage_of_receive hcompat hcompat.opening hcarries hp.buffer hq
  obtain ⟨id, _, hid, _⟩ := hcompat.extensions
  refine step_of_nextMessage (P := fun r => r.pstate = .inSession → Answers d.cfg q r)
    rfl hnext (fun _ _ hr => hr) ?_ hdone
  refine wp_handlePeerSignal_of_dispatch (fun r hr hin => absurd (hr.2 hin) hstate) ?_
  intro pm' name hreceived hname
  have hsame := getSignalName_of_received hcompat hcompat.opening hcarries hreceived
  obtain rfl := Except.ok.inj (hsame.symm.trans hname)
  have hlist := ifPresent_getExtensions
    (carry_of_received hcompat hcompat.opening hcarries hreceived)
  refine answers_handlePeerInitialization (hq ▸ queueOk_step _ hp.queues) hid hitems hsends hlist
    ?_ hstate
  rw [haside.1, hp.agreed, settle_opening]
  exact hclient

/-- The modem agrees on the extensions that both have, and hands over a response with them. -/
theorem answers_of_completed (hh : h.Between cfg cfg') (hplain : h.Plain cfg cfg')
    (hdone : h.answered.pstate = .inSession) :
    h.answered.mutualExtensions =
        (cfg.getExtensionIds.filter fun extid => cfg'.getExtensionIds.contains extid) ∧
      ∃ pm more, Carries cfg' "Session_Initialization_Response" h.answered.mutualExtensions pm ∧
        h.answered.handed = pm.msgbuf ++ more := by
  obtain ⟨peerId, now, hcreate⟩ := hh.modem
  have hwaits : Waits h.prepared := (waits_of_create hcreate).run hh.preparing
  obtain ⟨q, hq⟩ : ∃ q : Peer, q =
      h.prepared.step ⟨h.answering.1, h.answering.2, .receive h.opened.handed⟩ := ⟨_, rfl⟩
  have hanswered : h.answered = q.step ⟨h.answering.1, h.answering.2, .message⟩ := by
    rw [hq]
    rfl
  rw [hanswered] at hdone ⊢
  have hcompat := hplain.compatible
  have hclient := hplain.modemClient
  rw [← hh.answering.1] at hcompat hclient ⊢
  rcases handed_opened hh hplain with hnothing | ⟨pm, hcarries, hhanded⟩
  · -- there is nothing to read, so that the session is not entered
    have haside : Aside h.prepared q := hq ▸ aside_step hwaits.queues (by simp)
    rw [hnothing] at hq
    rw [step_of_nextMessage_none rfl (hq ▸ nextMessage_of_nothing hwaits.buffer)] at hdone
    exact absurd (haside.2 hdone) hwaits.state
  · rw [hhanded, ← List.append_nil pm.msgbuf] at hq
    have hread := settle_of_read hcompat hcompat.opening hcarries hwaits.queues hwaits.buffer
      hwaits.state hq hdone
    rw [hwaits.agreed] at hread
    refine ⟨hread.trans settle_opening, ?_⟩
    obtain ⟨pm', more, hcarries', hhanded'⟩ :=
      hwaits.answers hcompat hcarries hq hplain.items hplain.sends hclient hdone
    have hquiet : q.handed = [] := by
      have htrace : q.trace = h.prepared.trace := by rw [hq]; rfl
      rw [handed, htrace]
      exact hh.silent
    refine ⟨pm', more, hcarries', ?_⟩
    rw [hhanded', hquiet, List.nil_append]

/-- The router takes over what the modem has agreed on. -/
theorem settled_of_completed (hh : h.Between cfg cfg') (hplain : h.Plain cfg cfg')
    (hdone : h.Completed) : h.settled.mutualExtensions = h.answered.mutualExtensions := by
  obtain ⟨_, pm, more, hcarries, hhanded⟩ := answers_of_completed hh hplain hdone.1
  obtain ⟨peerId, now, hcreate⟩ := hh.router
  have hopened : Waits h.opened := (waits_of_create hcreate).step ⟨by simp, by simp⟩
  have hwaits : Waits (run Peer.step h.opened h.waiting) := hopened.run hh.waiting
  have hcompat := hplain.compatible.symm
  rw [← hh.settling.1] at hcompat
  have hin : ((run Peer.step h.opened h.waiting).step
      ⟨h.settling.1, h.settling.2, .receive (pm.msgbuf ++ more)⟩ |>.step
        ⟨h.settling.1, h.settling.2, .message⟩).pstate = .inSession := by
    rw [← hhanded]
    exact hdone.2
  have hread :=
    settle_of_read hcompat hcompat.answer hcarries hwaits.queues hwaits.buffer hwaits.state
    rfl hin
  rw [hwaits.agreed, settle_answer, ← hhanded] at hread
  exact hread

/-- The agreement holds in every state of a run from the construction of a peer exactly if every
offer that the peer receives is agreeable. After a plain handshake between two nodes, both have
agreed on the extensions that both of them have. -/
theorem extensions_agree :
    (∀ (cfg : ProtocolConfig) (peerId : PeerId) (now : Nat) (p : Peer) (steps : List Step),
      Peer.create cfg peerId now = .ok p → (∀ st ∈ steps, st.d.cfg = cfg) →
        ((∀ pre, pre <+: steps → Negotiation.Agreed cfg (run Negotiation.step { peer := p } pre)) ↔
          Along Negotiation.step (fun n st => st.Agreeable n.peer) { peer := p } steps)) ∧
      ∀ (h : Handshake) (cfg cfg' : ProtocolConfig), h.Between cfg cfg' → h.Plain cfg cfg' →
        h.Completed → ∀ extid,
          (extid ∈ h.answered.mutualExtensions ↔
            extid ∈ cfg.getExtensionIds ∧ extid ∈ cfg'.getExtensionIds) ∧
          (extid ∈ h.settled.mutualExtensions ↔
            extid ∈ cfg.getExtensionIds ∧ extid ∈ cfg'.getExtensionIds) := by
  refine ⟨fun cfg peerId now p steps hp hcfg => Negotiation.agreed_iff_agreeable hp hcfg, ?_⟩
  intro h cfg cfg' hh hplain hdone extid
  obtain ⟨hagreed, _⟩ := answers_of_completed hh hplain hdone.1
  rw [settled_of_completed hh hplain hdone, hagreed]
  simp [List.mem_filter]

end Handshake

/-! ## A handshake -/

/-- A configuration without the Multi-Hop extension. -/
def singleHop : ProtocolConfig :=
  { rfc8175 with moduleInfoMap := rfc8175.moduleInfoMap.erase "Multi-Hop" }

/-- A modem without the Multi-Hop extension, which has the metrics that a modem declares. -/
def singleHopView : DlepView :=
  { Peer.bareView true with
    cfg := singleHop
    localPdp :=
      { peerId := str "local"
        metricDataItems := .ofList
          ([12, 13, 14, 15, 16].map fun id => (id, DataItem.mk id (.u64 1000))) } }

/-- The clock of the modem ticks before the opening arrives, and an update of its data items comes
in between; the clock of the router ticks before the answer arrives. -/
def singleHopHandshake : Handshake where
  router := Peer.barePeer
  modem := Peer.barePeer
  opening := (Peer.bareView false, Peer.bareSurroundings)
  answering := (singleHopView, Peer.bareSurroundings)
  settling := (Peer.bareView false, Peer.bareSurroundings)
  preparing := [.start, .acktivityTimeout, .peerUpdate []].map fun input =>
    ⟨singleHopView, Peer.bareSurroundings, input⟩
  waiting := Peer.bareSteps false [.acktivityTimeout]

/-- A Session Initialization of this library, with both extensions. -/
def openingWithExtensions : Bytes :=
  [0, 1, 0, 25,
    0, 5, 0, 4, 0, 0, 234, 96,
    0, 4, 0, 5, 0, 110, 111, 100, 101,
    0, 6, 0, 4, 255, 241, 255, 244]

namespace Handshake

open Peer

attribute [local instance] plainText

/-- The sample handshake is one between new peers. -/
theorem singleHopHandshake_between : singleHopHandshake.Between rfc8175 singleHop where
  router := ⟨str "peer", 0, rfl⟩
  modem := ⟨str "peer", 0, rfl⟩
  opening := ⟨rfl, rfl⟩
  answering := ⟨rfl, rfl⟩
  settling := ⟨rfl, rfl⟩
  preparing := by simp [singleHopHandshake]
  waiting := by simp [singleHopHandshake, bareSteps]
  silent := by decide +kernel

/-- In the sample handshake nobody adds extensions. -/
theorem singleHopHandshake_plain : singleHopHandshake.Plain rfc8175 singleHop where
  compatible :=
    { sizes := ⟨rfl, rfl, rfl, rfl, rfl⟩
      opening := ⟨1, rfl, rfl⟩
      answer := ⟨2, rfl, rfl⟩
      extensions := ⟨6, rfl, rfl, rfl, rfl⟩ }
  sends := by decide
  items := by
    have hids : ∀ di ∈ singleHopView.localPdp.getDataItems, di.id ≠ 6 := by decide +kernel
    have hsix : singleHopHandshake.answering.1.cfg.getDataItemId
        "Extensions_Supported" none = .ok 6 :=
      rfl
    intro di hdi hid
    exact hids di hdi (Except.ok.inj (hid.symm.trans hsix))
  routerClient := by
    intro peerId items items' hinit
    cases hinit
  modemClient := by
    intro peerId items items' hinit
    cases hinit

/-- A modem with one extension of its own, and the handshake with a router that has two. -/
theorem extensions_agree_singleHop :
    (∀ pre, pre <+: bareSteps true [.receive openingWithExtensions, .message] →
      Negotiation.Agreed rfc8175 (run Negotiation.step { peer := barePeer } pre)) ∧
      ∀ extid, (extid ∈ singleHopHandshake.answered.mutualExtensions ↔
          extid ∈ rfc8175.getExtensionIds ∧ extid ∈ singleHop.getExtensionIds) ∧
        (extid ∈ singleHopHandshake.settled.mutualExtensions ↔
          extid ∈ rfc8175.getExtensionIds ∧ extid ∈ singleHop.getExtensionIds) := by
  have hdone : singleHopHandshake.Completed := by
    unfold Completed
    decide +kernel
  exact ⟨(extensions_agree.1 rfc8175 (str "peer") 0 barePeer
      (bareSteps true [.receive openingWithExtensions, .message]) rfl
        (by simp [bareSteps, bareView])).2
      (by decide +kernel),
    extensions_agree.2 singleHopHandshake rfc8175 singleHop singleHopHandshake_between
      singleHopHandshake_plain hdone⟩

/-- A router sends its Session Initialization again because the answer is late: the modem adds the
same extensions a second time. -/
theorem openingWithExtensions_twice :
    Peer.create rfc8175 (str "peer") 0 = .ok barePeer ∧
      (run Negotiation.step { peer := barePeer } (bareSteps true
        [.receive (openingWithExtensions ++ openingWithExtensions), .message,
          .message])).peer.pstate =
          .inSession ∧
      ¬ Negotiation.Agreed rfc8175 (run Negotiation.step { peer := barePeer } (bareSteps true
        [.receive (openingWithExtensions ++ openingWithExtensions), .message, .message])) := by
  obtain ⟨hopen, htwice⟩ :
      (run Negotiation.step { peer := barePeer } (bareSteps true
        [.receive (openingWithExtensions ++ openingWithExtensions), .message,
          .message])).peer.pstate =
          .inSession ∧
      ¬ (run Negotiation.step { peer := barePeer } (bareSteps true
        [.receive (openingWithExtensions ++ openingWithExtensions), .message,
          .message])).peer.mutualExtensions.Nodup := by decide +kernel
  exact ⟨rfl, hopen, fun h => htwice h.1⟩

end Handshake

end Dlep
