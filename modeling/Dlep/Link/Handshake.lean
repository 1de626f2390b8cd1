import Dlep.Link
import Dlep.ProtocolMessage.Checked

/-!
# The two clients of a session

The client of a router is told that the session is up only after the client of the modem was told
so. The answer of a modem is handed over in the step in which its client is told; a modem never
opens a session itself; and of the other messages that it composes none can be taken for the
answer, since what a simple response carries is not enough for one. So a router that enters the
session has read the answer, and what it reads was handed over by the modem.
-/

namespace Dlep

open Std Calls Runs ProtocolMessage

/-! ## The name of a message that was read -/

namespace ProtocolMessage

variable [AddressText] {cfg cfg' : ProtocolConfig} {name : String} {buf logPrefix : Bytes}
  {pm₀ pm : ProtocolMessage}

/-- The id of a message that was parsed stands in front of its bytes. -/
theorem signalId_of_parseBody {q q' : ProtocolMessage}
    (h : parseBody cfg q (.whole 0 buf) = (q', .ok ())) :
    q'.isSignal = q.isSignal ∧
      ∃ w, buf = BigEndian.encode cfg.signalIdSize q'.signalId.toNat ++ w ∧
        q'.signalId.toNat < 256 ^ cfg.signalIdSize.1 := by
  unfold parseBody at h
  split at h
  · cases h
  · next id c₁ hid =>
    obtain ⟨w, hpass, hlt, hfits, rfl⟩ := takes_deserializeField 4 cfg.signalIdSize.2.2 _ _ _ hid
    obtain ⟨hbuf, _⟩ := passes_whole hpass
    have hnat : (UInt32.ofNat id).toNat = id := UInt32.toNat_ofNat_of_lt' hlt
    dsimp only at h
    split at h
    · cases h
    · split at h
      · cases h
      · obtain ⟨rfl, _⟩ := Prod.mk.inj h
        refine ⟨rfl, c₁.bytes, ?_, ?_⟩
        · rw [hnat]
          exact hbuf
        · rw [hnat]
          exact hfits

/-- The name of a message that was parsed is the name in its buffer. -/
theorem bufferName_of_parseBuffer (h : parseBuffer cfg buf false logPrefix pm₀ = .ok ([], pm))
    (hname : pm.getSignalName cfg = .ok name) : bufferName cfg buf = some name := by
  have hread : ∃ q, parseBody cfg q (.whole 0 buf) = (pm, .ok ()) ∧ q.isSignal = false := by
    unfold parseBuffer parse at h
    simp only [Bool.false_eq_true, if_false, false_and, prefixMismatch, List.length_nil,
      List.drop_zero] at h
    split at h
    · next q _ hbody =>
      obtain ⟨_, rfl⟩ := Prod.mk.inj (Except.ok.inj h)
      exact ⟨_, hbody, rfl⟩
    · next q cls what hbody =>
      obtain ⟨hwhat, _⟩ := Prod.mk.inj (Except.ok.inj h)
      obtain rfl := withLogPrefix_eq_nil.1 hwhat
      exact absurd rfl (hasText_parseBody hbody cls)
    · cases h
  obtain ⟨q, hbody, hsignal⟩ := hread
  obtain ⟨hsame, w, hbuf, hfits⟩ := signalId_of_parseBody hbody
  have htake : buf.take cfg.signalIdSize.1 =
      BigEndian.encode cfg.signalIdSize pm.signalId.toNat := by
    rw [hbuf, List.take_append_of_le_length (by simp), List.take_of_length_le (by simp)]
  have hlength : cfg.signalIdSize.1 ≤ buf.length := by
    rw [hbuf, List.length_append, BigEndian.length_encode]
    omega
  rw [bufferName, if_pos hlength, htake, BigEndian.decode_encode hfits, UInt32.ofNat_toNat]
  unfold getSignalName at hname
  split at hname
  · cases hname
  · rw [hsame, hsignal] at hname
    exact cfg.getMessageName_eq_ok.1 hname

omit [AddressText] in
/-- A name that both configurations have for a message, with one id, is given by both of them. -/
theorem bufferName_across (hsizes : cfg.SameSizes cfg') (hshared : cfg.SharesMessage cfg' name)
    (h : bufferName cfg' buf = some name) : bufferName cfg buf = some name := by
  obtain ⟨id, hid, hid'⟩ := hshared
  have hright : ∀ c : ProtocolConfig, c.getSignalId name = .ok (id, false) →
      c.messageMap.right name = some id := by
    intro c hc
    unfold ProtocolConfig.getSignalId at hc
    split at hc
    · cases hc
    · split at hc
      · next hmsg =>
        obtain ⟨rfl, _⟩ := Prod.mk.inj (Except.ok.inj hc)
        exact hmsg
      · cases hc
  unfold bufferName at h ⊢
  rw [hsizes.signalId] at h
  split at h
  · next hlong =>
    rw [if_pos hlong]
    have hsame := cfg'.messageMap.left_eq_some_iff_right.1 h
    rw [hright cfg' hid'] at hsame
    rw [← Option.some.inj hsame]
    exact cfg.messageMap.left_eq_some_iff_right.2 (hright cfg hid)
  · cases h

end ProtocolMessage

/-! ## The answer of a modem -/

namespace Peer

/-- Has the client heard that the session is up? -/
def HeardUp (p : Peer) : Prop := ∃ e ∈ p.trace, e.isPeerUp = true

/-- The configuration of a modem in which no message but the answer itself is the answer to an
opening message. A simple response cannot be one, since an answer must have a data item that
simple responses do not have. -/
structure ReservesAnswer (cfg : ProtocolConfig) : Prop where
  orderly : cfg.Orderly
  opening : ∀ request, cfg.getMessageResponseName request ≠ .ok "Session_Initialization"
  owed : ∀ request, request = "Destination_Up" ∨ request = "Destination_Announce" →
    cfg.getMessageResponseName request ≠ .ok "Session_Initialization_Response"
  needs : ∀ siginfo, cfg.getSignalInfo "Session_Initialization_Response" = .ok siginfo →
    (siginfo.dataItems.map SubDataItem.id).Nodup ∧
      ∃ ref ∈ siginfo.dataItems, (ref.occurs = .one ∨ ref.occurs = .oneOrMore) ∧
        cfg.getDataItemId "Status" none ≠ .ok ref.id ∧
          cfg.getDataItemId "MAC_Address" none ≠ .ok ref.id

/-- The messages other than those that open a session. -/
def Ordinary (cfg : ProtocolConfig) (name : String) : Prop :=
  cfg.signalMap.right name = none ∧ name ≠ "Session_Initialization" ∧
    name ≠ "Session_Initialization_Response"

section

variable [AddressText] {d : DlepView} {s : Surroundings}

/-- A simple response is not an answer to an opening message. -/
theorem not_answer_of_simple (hcfg : ReservesAnswer d.cfg) {status : String} {message : Bytes}
    {mac : Option DlepMac} {pm : ProtocolMessage} :
    composeChecked d "Session_Initialization_Response" (addStatusAndMac d.cfg status message mac)
      "send_simple_response" ≠ .ok pm := by
  intro h
  obtain ⟨⟨err, pm'⟩, hcompose, h⟩ := bind_eq_ok.1 h
  obtain ⟨_, hassert, _⟩ := bind_eq_ok.1 h
  obtain rfl : err = [] := by simpa using assertThat_ok.1 hassert
  obtain ⟨header, hheader, hcompose⟩ := bind_eq_ok.1 hcompose
  obtain ⟨pm₀, hpm₀, hvalid⟩ := bind_eq_ok.1 hcompose
  obtain ⟨items, hbuilding, hnamed⟩ :=
    puts_addStatusAndMac _ _ _ _ (.addHeader hheader) hpm₀
  rw [List.nil_append] at hbuilding
  obtain ⟨body, hframes⟩ := hbuilding.frames
  obtain ⟨⟨siginfo, hinfo, _, hoccurs⟩, _⟩ :=
    (hframes.parseAndValidate_iff d.modem (str "send_simple_response")).1 ⟨_, hvalid⟩
  obtain ⟨hnodup, ref, href, hrequired, hstatus, hmac⟩ := hcfg.needs siginfo hinfo
  have hallows := ((validateOccurrences_eq_nil hnodup).1 hoccurs).1 ref href
  have hnone : countId items ref.id = 0 := by
    refine List.countP_eq_zero.2 fun di hdi hsame => ?_
    obtain ⟨diName, hname, hid⟩ := hnamed di hdi
    rw [of_decide_eq_true hsame] at hid
    have heither : diName = "Status" ∨ diName = "MAC_Address" := by simpa using hname
    rcases heither with rfl | rfl
    · exact hstatus hid
    · exact hmac hid
  rw [hnone] at hallows
  rcases hrequired with hone | hmore
  · simp [hone, Occurs.Allows, Reading.machine] at hallows
  · simp [hmore, Occurs.Allows, Reading.machine] at hallows

/-- A modem that reserves the answer composes none but ordinary messages in its calls. -/
theorem speaks_ordinary (hcfg : ReservesAnswer d.cfg) (hmodem : d.modem = true) :
    Speaks (Ordinary d.cfg) d where
  composed name hname := by
    obtain ⟨hmem, hne⟩ := List.mem_filter.1 hname
    exact ⟨hcfg.orderly.messages name hmem, by simpa using hne⟩
  opening h := absurd (hmodem.symm.trans h) (by decide)
  response name status message mac pm hname hpm := by
    have hopening : name ≠ "Session_Initialization_Response" := by
      rintro rfl
      exact not_answer_of_simple hcfg hpm
    rcases hname with rfl | rfl | rfl | ⟨hne, request, hrequest⟩
    · exact ⟨hcfg.orderly.messages _ (by decide), by decide, by decide⟩
    · exact ⟨hcfg.orderly.messages _ (by decide), by decide, by decide⟩
    · exact ⟨hcfg.orderly.messages _ (by decide), by decide, by decide⟩
    · refine ⟨(hcfg.orderly.responses request name hrequest hne).1, ?_, hopening⟩
      rintro rfl
      exact hcfg.opening request hrequest
  owed request name hrequest h hne := by
    refine ⟨(hcfg.orderly.responses request name h hne).1, ?_, ?_⟩
    · rintro rfl
      exact hcfg.opening request h
    · rintro rfl
      exact hcfg.owed request hrequest h

omit [AddressText] in
/-- What the client has heard it has heard later. -/
theorem HeardUp.grows {p q : Peer} (hp : HeardUp p) (h : Grows p q) : HeardUp q := by
  obtain ⟨e, he, hup⟩ := hp
  exact ⟨e, h.subset he, hup⟩

/-- Whoever enters the session tells its client. -/
theorem heardUp_enterSession {info : Peer → PeerInfo} (p : Peer) :
    wp (enterSession d s info) (fun _ q => HeardUp q) (fun _ q => HeardUp q) p := by
  simp only [enterSession, setState, callClient, emit, wp_bind, wp_modify, wp_get]
  have hup : ∀ (q : Peer) (told : PeerInfo), q.trace = p.trace ++ [.client (.peerUp told)] →
      HeardUp q := fun q told hq => ⟨.client (.peerUp told), by rw [hq]; simp, rfl⟩
  have hrest : Within Grows (sendAllDestinations d s) :=
    within_forM fun _ _ => closed_destinationUp
  exact (hrest.wp _).mono (fun _ q hq => (hup _ _ rfl).grows hq)
    fun _ q hq => (hup _ _ rfl).grows hq

omit [AddressText] in
/-- Advertising a peer adds to its history. -/
theorem grows_advertisePeer : Within Grows (advertisePeer d s) := by
  refine within_ite (fun _ => ?_) fun _ => within_pure
  split
  · exact closed_emit rfl
  · exact within_pure

/-- A modem that is asked to open the session tells its client, or hands over no answer. -/
theorem heardUp_handlePeerInitialization (hcfg : ReservesAnswer d.cfg) (hmodem : d.modem = true)
    {pm : ProtocolMessage} (p : Peer) :
    HeardUp (after (handlePeerInitialization d s pm) p) ∨
      (speech d.cfg (Ordinary d.cfg)).Hands p (after (handlePeerInitialization d s pm) p) := by
  have hutters := utters_speech (s := s) (speaks_ordinary hcfg hmodem)
  refine (wp_after (P := fun q => HeardUp q ∨ (speech d.cfg (Ordinary d.cfg)).Hands p q)).1 ?_
  simp only [handlePeerInitialization, wp_bind, wp_get]
  refine wp_lift (fun err _ => ?_) fun _ _ => .inr (Std.Refl.refl p)
  split
  · exact ((permits_terminate hutters).wp p).mono (fun _ _ hq => .inr hq) fun _ _ hq => .inr hq
  · have hbefore : Within (speech d.cfg (Ordinary d.cfg)).Hands (do
        storePeerProperties d pm
        addMutualExtensions d pm
        let pm ← initializationResponse d s (← get)
        letClientModify d s pm : PeerM ProtocolMessage) := by
      refine within_bind permits_storePeerProperties fun _ => ?_
      refine within_bind permits_addMutualExtensions fun _ => ?_
      refine within_bind within_get fun _ => within_bind within_lift fun pm' => ?_
      refine within_bind within_get fun _ => within_bind (permits_emit rfl) fun _ => ?_
      split
      · exact within_pure
      · exact within_bind within_lift fun _ => within_pure
    -- from here on nothing fails until the client is told
    have hafter : ∀ q : Peer, wp (do
        enterSession d s getInfo
        advertisePeer d s : PeerM Unit)
          (fun _ q => HeardUp q ∨ (speech d.cfg (Ordinary d.cfg)).Hands p q)
          (fun _ q => HeardUp q ∨ (speech d.cfg (Ordinary d.cfg)).Hands p q) q := by
      intro q
      rw [wp_bind]
      refine (heardUp_enterSession q).mono (fun _ r hr => ?_) fun _ r hr => .inl hr
      exact (grows_advertisePeer.wp r).mono (fun _ _ ht => .inl (hr.grows ht))
        fun _ _ ht => .inl (hr.grows ht)
    have hwp := hbefore.wp p
    simp only [sendPeerInitializationResponse, wp_bind, wp_get] at hwp hafter ⊢
    refine hwp.mono (fun _ q hq => hq.mono (fun _ q hq => hq.mono (fun _ q hq => hq.mono
      (fun _ q _ => ?_) ?_) ?_) ?_) ?_
    · split
      · rw [sendSessionMessage, emit, wp_modify]
        exact hafter _
      · exact hafter _
    all_goals exact fun _ q hq => .inr hq

/-- A step of a modem tells its client that the session is up, or hands over no message that opens a
session. -/
theorem heardUp_or_ordinary_step {input : Input} (hcfg : ReservesAnswer d.cfg)
    (hmodem : d.modem = true) (p : Peer) : HeardUp (p.step ⟨d, s, input⟩) ∨
      (speech d.cfg (Ordinary d.cfg)).Hands p (p.step ⟨d, s, input⟩) := by
  have hspeaks := speaks_ordinary hcfg hmodem
  have hother : input ≠ .message →
      (speech d.cfg (Ordinary d.cfg)).Hands p (p.step ⟨d, s, input⟩) := by
    intro hne
    refine speaks_step hspeaks fun pm hhandled => ?_
    obtain ⟨_, hmsg, _⟩ := exists_of_handled hhandled
    exact absurd hmsg hne
  cases input with
  | message =>
    cases hnext : nextMessage d p with
    | none =>
      rw [step_of_nextMessage_none rfl hnext]
      exact .inr (Std.Refl.refl p)
    | some buf =>
      refine step_of_nextMessage (P := fun q => HeardUp q ∨
        (speech d.cfg (Ordinary d.cfg)).Hands p q)
        rfl hnext (fun q n hq => ?_) ?_
      · rcases hq with hup | hhands
        · exact .inl hup
        · exact .inr (IsTrans.trans _ q _ hhands (Permits.other _ _ rfl rfl rfl rfl rfl))
      · refine wp_handlePeerSignal (R := (speech d.cfg (Ordinary d.cfg)).Hands)
          (utters_speech hspeaks)
          (fun _ hq => .inr hq) fun name pm hhandled => ?_
        by_cases hopening : name = "Session_Initialization"
        · subst hopening
          exact heardUp_handlePeerInitialization hcfg hmodem p
        · exact .inr (Speech.hands_dispatch (composes_speech hspeaks)
            (received_of_handledOf hhandled).2 fun h => absurd h hopening)
  | _ => exact .inr (hother (by simp))

/-! ## The session of a router -/

omit [AddressText] in
/-- Only the opening of the session is told. -/
theorem Move.heardUp {k : Kind} {p p' : Peer} (hm : Move k p p') (hk : k ≠ .up) (h : HeardUp p') :
    HeardUp p := by
  obtain ⟨e, he, hup⟩ := h
  cases hm with
  | quiet _ _ _ _ _ htrace => exact ⟨e, htrace ▸ he, hup⟩
  | up info => exact absurd rfl hk
  | interest _ => exact ⟨e, he, hup⟩
  | store _ => exact ⟨e, he, hup⟩
  | @callback _ call hcall =>
    refine ⟨e, (List.mem_append.1 he).resolve_right fun hnew => ?_, hup⟩
    obtain rfl := List.mem_singleton.1 hnew
    cases call with
    | peerUp info => cases hcall
    | _ => cases hup
  | down _ hrest =>
    refine ⟨e, (List.mem_append.1 he).resolve_right fun hnew => ?_, hup⟩
    rcases hrest with rfl | rfl
    · obtain rfl := List.mem_singleton.1 hnew
      cases hup
    · have heither : e = .client (.peerDown p.peerId) ∨
          e = .clearDestinations := by simpa using hnew
      rcases heither with rfl | rfl
      · cases hup
      · cases hup
  | _ =>
    refine ⟨e, (List.mem_append.1 he).resolve_right fun hnew => ?_, hup⟩
    obtain rfl := List.mem_singleton.1 hnew
    cases hup

omit [AddressText] in
/-- A move that cannot report the session up leaves what the client has heard. -/
theorem Moves.heardUp {ks : Finset Kind} {p p' : Peer} (h : Moves ks p p') (hks : .up ∉ ks)
    (hup : HeardUp p') : HeardUp p := by
  by_contra hnot
  exact h.keeps (P := fun q => ¬ HeardUp q)
    (fun k hk _ _ hm hq hq' => hq (hm.heardUp (fun hkup => hks (hkup ▸ hk)) hq')) hnot hup

omit [AddressText] in
/-- A message other than those of the handshake leaves what the client has heard. -/
theorem Phased.heardUp {r : Reach} (hr : r ≠ .handshake) {p p' : Peer} (h : Phased r.kinds p p')
    (hp : p.QueueOk) (hup : HeardUp p') : HeardUp p := by
  obtain ⟨q, hpq, hqp'⟩ := h hp
  refine hpq.heardUp ?_ (hqp'.heardUp (by decide) hup)
  cases r <;> decide

/-- Only the two opening messages reach the handlers that report a session up. -/
theorem reach_ne_handshake {p : Peer} {name : String} {pm : ProtocolMessage}
    (hopening : name ≠ "Session_Initialization")
    (hanswer : name ≠ "Session_Initialization_Response") :
    reach d p name pm ≠ .handshake := by
  unfold reach
  split
  · split <;> decide
  · exact absurd rfl hopening
  · exact absurd rfl hanswer
  · split
    · exact reachDestination_ne_handshake
    · decide

/-- The client is told that the session is up in a step that handles an opening message, or the
answer to one. -/
theorem handled_of_heardUp {st : Step} {p : Peer} (hp : p.QueueOk) (hup : HeardUp (p.step st))
    (hnot : ¬ HeardUp p) : ∃ name pm, st.handled p = some (name, pm) ∧
      (name = "Session_Initialization" ∨ name = "Session_Initialization_Response") := by
  by_cases hmsg : st.input = .message
  · cases hnext : nextMessage st.d p with
    | none =>
      rw [step_of_nextMessage_none hmsg hnext] at hup
      exact absurd hup hnot
    | some buf =>
      by_contra hno
      refine step_of_nextMessage (P := fun q => ¬ HeardUp q) hmsg hnext (fun q n hq => hq) ?_ hup
      refine wp_handlePeerSignal_of_handled hnot (fun status reason => ?_)
        fun name pm hhandled => ?_
      · exact fun h => hnot (Moves.heardUp (within_terminate p hp) (by decide) h)
      · obtain ⟨hreceived, hname⟩ := received_of_handledOf hhandled
        have hstep : st.handled p = some (name, pm) := by
          rw [Step.handled, hmsg, hnext]
          exact hhandled
        have hreach : reach st.d p name pm ≠ .handshake :=
          reach_ne_handshake (fun h => hno ⟨name, pm, hstep, .inl h⟩)
            fun h => hno ⟨name, pm, hstep, .inr h⟩
        have hleads :=
          wp_after.1 (@leads_dispatch _ st.d st.s name pm (known_of_received hreceived) p)
        cases hr : reach st.d p name pm with
        | handshake => exact absurd hr hreach
        | _ =>
          rw [hr] at hleads
          exact fun h => hnot (Phased.heardUp (by decide) hleads hp h)
  · exact absurd (Moves.heardUp (step_evolves hmsg p hp) (by decide) hup) hnot

end

end Peer

namespace Link

section

variable [AddressText] {cfg : Side → ProtocolConfig} {l : Link}

/-- The modem reserves the answer to an opening message, and both sides agree on the messages that
open a session. -/
structure Agreeing (cfg : Side → ProtocolConfig) : Prop where
  modem : Peer.ReservesAnswer (cfg .modem)
  router : (cfg .router).Orderly
  sizes : (cfg .modem).SameSizes (cfg .router)
  opening : (cfg .modem).SharesMessage (cfg .router) "Session_Initialization"
  answer : (cfg .modem).SharesMessage (cfg .router) "Session_Initialization_Response"

/-- The client of the modem has heard that the session is up, or no message that opens a session was
handed over; and the client of the router has not heard of it alone. -/
structure Together (cfg : Side → ProtocolConfig) (l : Link) : Prop where
  inv : Inv cfg (fun side => Peer.Speakable (cfg side)) l
  modem : (l.peer .modem).HeardUp ∨
    (Peer.speech (cfg .modem) (Peer.Ordinary (cfg .modem))).Holds (l.peer .modem) ∧
    ∀ buf ∈ sent (l.peer .modem), Peer.Spoken (cfg .modem) (Peer.Ordinary (cfg .modem)) buf
  router : (l.peer .router).HeardUp → (l.peer .modem).HeardUp

/-- Sides that agree use names of messages only. -/
theorem Agreeing.speaking (h : Agreeing cfg) :
    Speaking cfg fun side => Peer.Speakable (cfg side) := by
  refine speaking_of_orderly (fun side => ?_) h.sizes
  cases side with
  | modem => exact h.modem.orderly
  | router => exact h.router

/-- In a new session nobody has heard anything. -/
theorem together_of_fresh (hl : Fresh cfg l) : Together cfg l := by
  obtain ⟨_, _, hmodem⟩ := hl.created .modem
  obtain ⟨_, _, hrouter⟩ := hl.created .router
  refine ⟨inv_of_fresh hl, .inr ⟨Peer.Speech.holds_of_create hmodem, fun buf hbuf => ?_⟩,
    fun hup => ?_⟩
  · rw [(sent_of_create hmodem).1] at hbuf
    cases hbuf
  · have hnone := Peer.create_ok hrouter
    obtain ⟨e, he, _⟩ := hup
    rw [hnone] at he
    cases he

/-- A router enters the session only with a message that the modem handed over. -/
theorem heardUp_of_router (hcfg : Agreeing cfg) {st : Peer.Step}
    (hproper : Proper cfg (.act .router st)) (hl : Together cfg l)
    (hup : ((l.peer .router).step st).HeardUp) : (l.peer .modem).HeardUp := by
  by_cases hold : (l.peer .router).HeardUp
  · exact hl.router hold
  · obtain ⟨name, pm, hhandled, hname⟩ :=
      Peer.handled_of_heardUp (hl.inv.holds .router).queues hup hold
    obtain ⟨buf, _, hnext, hof⟩ := Peer.exists_of_handled hhandled
    obtain ⟨hreceived, hsignal⟩ := Peer.received_of_handledOf hof
    -- what is read was handed over by the modem
    obtain ⟨later, hsent⟩ := hl.inv.next hproper.1 hnext
    have hmem : buf ∈ sent (l.peer .modem) := by
      rw [show sent (l.peer .modem) = _ from hsent]
      simp
    have hread := bufferName_of_parseBuffer (Peer.accepts_of_received hreceived) hsignal
    rw [hproper.1] at hread
    have hshared : (cfg .modem).SharesMessage (cfg .router) name := by
      rcases hname with rfl | rfl
      · exact hcfg.opening
      · exact hcfg.answer
    have hspoken := bufferName_across hcfg.sizes hshared hread
    refine hl.modem.resolve_right fun hordinary => ?_
    rcases hordinary.2 buf hmem with rfl | ⟨name', pm', items, body, hname', hframes, rfl⟩
    · exact absurd hmem (by simp [sent])
    · rw [bufferName_of_frames hframes hname'.1] at hspoken
      obtain rfl := Option.some.inj hspoken
      rcases hname with h | h
      · exact hname'.2.1 h
      · exact hname'.2.2 h

/-- Every step of a session keeps the invariant: the router hears of it only through the modem's
answer. -/
theorem together_step (hcfg : Agreeing cfg) {input : Input} (hproper : Proper cfg input)
    (hl : Together cfg l) : Together cfg (l.step input) := by
  have hinv := inv_step hcfg.speaking hproper hl.inv
  cases input with
  | act side st =>
    obtain ⟨_, events, htrace, _⟩ := hands_act hcfg.speaking hproper (hl.inv.holds side)
    have hgrows : (l.peer side).HeardUp → ((l.peer side).step st).HeardUp := fun hup =>
      hup.grows ⟨events, htrace.symm⟩
    cases side with
    | modem =>
      refine ⟨hinv, ?_, fun hup => ?_⟩
      · simp only [step, Function.update_self]
        have hreserves : Peer.ReservesAnswer st.d.cfg := hproper.1 ▸ hcfg.modem
        have hstep : ((l.peer .modem).step st).HeardUp ∨
            (Peer.speech st.d.cfg (Peer.Ordinary st.d.cfg)).Hands (l.peer .modem)
              ((l.peer .modem).step st) :=
          Peer.heardUp_or_ordinary_step hreserves hproper.2.1 (l.peer .modem)
        rw [hproper.1] at hstep
        rcases hl.modem with hup | hordinary
        · exact .inl (hgrows hup)
        · exact hstep.imp id fun hhands => handed_sent hhands hordinary.1 hordinary.2
      · simp only [step, Function.update_self]
        exact hgrows (hl.router (by simpa [step, Side.other] using hup))
    | router =>
      have hother : (l.step (.act .router st)).peer .modem = l.peer .modem := by
        simp [step]
      refine ⟨hinv, ?_, fun hup => ?_⟩
      · rw [hother]
        exact hl.modem
      · rw [hother]
        exact heardUp_of_router hcfg hproper hl (by simpa [step] using hup)
  | arrive side d s n =>
    have hup : ∀ side', ((l.step (.arrive side d s n)).peer side').HeardUp ↔
        (l.peer side').HeardUp := by
      intro side'
      rw [Peer.HeardUp, trace_arrive, Peer.HeardUp]
    refine ⟨hinv, ?_, fun h => (hup _).2 (hl.router ((hup _).1 h))⟩
    rcases hl.modem with hmodem | ⟨hholds, hspoken⟩
    · exact .inl ((hup _).2 hmodem)
    · refine .inr ⟨holds_arrive hholds, ?_⟩
      rw [sent, trace_arrive]
      exact hspoken

/-- In every run of a session, the client of the router has heard that the session is up only if the
client of the modem has. -/
theorem modem_heardUp_of_router (hcfg : Agreeing cfg) (hl : Fresh cfg l) {inputs : List Input}
    (hrun : Along step (fun _ input => Proper cfg input) l inputs)
    (hup : ((run step l inputs).peer .router).HeardUp) :
    ((run step l inputs).peer .modem).HeardUp :=
  (hrun.invariant (I := Together cfg) (fun _ _ hl hproper => together_step hcfg hproper hl)
    (together_of_fresh hl)).router hup

end

/-- The shipped configuration reserves the answer. -/
theorem rfc8175_reservesAnswer : Peer.ReservesAnswer rfc8175 where
  orderly := rfc8175_orderly
  opening request h := by
    obtain ⟨siginfo, hinfo, hname⟩ := ProtocolConfig.exists_of_getMessageResponseName h
    have hall : ∀ siginfo ∈ rfc8175.signalInfoMap.toList.map Prod.snd ++
        rfc8175.messageInfoMap.toList.map Prod.snd, ∀ name ∈
          (rfc8175.responseNameOf siginfo).toOption,
          name ≠ "Session_Initialization" := by decide +kernel
    exact hall siginfo hinfo "Session_Initialization" (by simp [hname, Except.toOption]) rfl
  owed request hrequest h := by
    have hboth : ∀ request ∈ ["Destination_Up", "Destination_Announce"],
        ∀ name ∈ (rfc8175.getMessageResponseName request).toOption,
          name ≠ "Session_Initialization_Response" := by decide +kernel
    exact hboth request (by simpa using hrequest) _ (by simp [h, Except.toOption]) rfl
  needs siginfo h := by
    have hall : ∀ siginfo ∈ (rfc8175.getSignalInfo "Session_Initialization_Response").toOption,
        (siginfo.dataItems.map SubDataItem.id).Nodup ∧
          ∃ ref ∈ siginfo.dataItems, (ref.occurs = .one ∨ ref.occurs = .oneOrMore) ∧
            rfc8175.getDataItemId "Status" none ≠ .ok ref.id ∧
              rfc8175.getDataItemId "MAC_Address" none ≠ .ok ref.id := by decide +kernel
    exact hall siginfo (by simp [h, Except.toOption])

/-- Both sides with the shipped configuration agree. -/
theorem agreeing_rfc8175 : Agreeing fun _ => rfc8175 where
  modem := rfc8175_reservesAnswer
  router := rfc8175_orderly
  sizes := ⟨rfl, rfl, rfl, rfl, rfl⟩
  opening := ⟨1, rfl, rfl⟩
  answer := ⟨2, rfl, rfl⟩

attribute [local instance] plainText

/-- A modem that has the metrics that an answer must have. -/
def readyView : DlepView := { Peer.bareView true with localPdp := singleHopView.localPdp }

/-- The opening message and its answer. -/
def handshake : List Input := [
  .act .router ⟨Peer.bareView false, Peer.bareSurroundings, .start⟩,
  .arrive .modem readyView Peer.bareSurroundings 100,
  .act .modem ⟨readyView, Peer.bareSurroundings, .message⟩,
  .arrive .router (Peer.bareView false) Peer.bareSurroundings 200,
  .act .router ⟨Peer.bareView false, Peer.bareSurroundings, .message⟩]

/-- After the sample handshake both clients have heard that the session is up. -/
theorem modem_heardUp_of_router_handshake :
    ((run step bareLink handshake).peer .modem).HeardUp := by
  have hup : ∃ e ∈ ((run step bareLink handshake).peer .router).trace, e.isPeerUp = true := by
    decide +kernel
  exact @modem_heardUp_of_router plainText (fun _ => rfc8175) bareLink
    agreeing_rfc8175 fresh_bareLink
    handshake ⟨⟨rfl, rfl, by simp⟩, rfl, ⟨rfl, rfl, by simp⟩, rfl, ⟨rfl, rfl, by simp⟩, trivial⟩ hup

end Link

end Dlep
