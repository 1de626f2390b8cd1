import Dlep.Peer.Owners
import Dlep.Peer.Run
import Dlep.Peer.Session

/-!
# Destinations that are refused

The peer brings a destination up, and the handler refuses it: the peer has it already, or its
addresses cannot be added, or the client does not want it. A router asks first and stores the
destination if the answer is a success. A modem stores it first, and does not take it back.
-/

namespace Dlep

open Std Calls

namespace Peer

/-- What the client says to a destination; an empty answer is a yes. -/
def clientStatus (s : Surroundings) (p : Peer) (mac : DlepMac) (items : DataItems) : String :=
  if s.destinationUp p.peerId mac items = "" then "Success" else s.destinationUp p.peerId mac items

section

variable [AddressText] (d : DlepView) (s : Surroundings) (p : Peer) (mac : DlepMac)
    (items : DataItems)

/-- The status that a router has for a destination, `none` if it ends the session
(`Peer.cpp:1405`). -/
def upVerdict : Option String :=
  if p.peerPdp.validDestination mac then some "Invalid_Message"
  else if validateIpDataItems d p [] items = .ok [] then some (clientStatus s p mac items)
  else none

omit [AddressText] in
/-- The status that a modem has for a destination; one that it has itself is a success
(`Peer.cpp:1552`). -/
def announceVerdict : String :=
  if p.peerPdp.validDestination mac then "Invalid_Message"
  else if d.localPdp.validDestination mac then "Success"
  else clientStatus s p mac items

/-- The destination is refused: its status is no success, or the session ends. -/
def Refuses : Prop :=
  if d.modem then announceVerdict d s p mac items ≠ "Success"
  else upVerdict d s p mac items ≠ some "Success"

end

section

variable [AddressText] {d : DlepView} {s : Surroundings} {pm : ProtocolMessage} {p : Peer}
  {mac : DlepMac} {name : String}

omit [AddressText] in
/-- The client is asked, and nothing is stored. -/
theorem wp_askClient {items : DataItems} :
    wp (askClient s mac items)
      (fun status q => status = clientStatus s p mac items ∧ q = { p with
        trace := p.trace ++ [.client (.destinationUp p.peerId mac items)] })
      (fun _ _ => False) p := ⟨rfl, rfl⟩

/-! ## Routers -/

/-- A router that refuses a destination has its status, and has stored nothing. -/
theorem wp_upStatus_of_refused {items : DataItems}
    (hrefused : upVerdict d s p mac items ≠ some "Success") :
    wp (upStatus d s mac items)
      (fun status q => status = upVerdict d s p mac items ∧ KeepsPdp p q)
      (fun _ q => upVerdict d s p mac items = none ∧ KeepsPdp p q) p := by
  unfold upVerdict at hrefused ⊢
  rw [upStatus, wp_bind, wp_get]
  split
  · exact ⟨rfl, rfl⟩
  · next hvalid =>
    rw [if_neg hvalid] at hrefused
    simp only [takeDestination, wp_bind, wp_get]
    refine wp_lift (fun err herr => ?_) fun e he => ?_
    · split
      · next hne =>
        have hbad : validateIpDataItems d p [] items ≠ .ok [] := by simpa [herr] using hne
        rw [if_neg hbad, wp_bind]
        exact (keeps_terminate.wp p).mono (fun _ q hq => ⟨rfl, hq⟩) fun _ q hq => ⟨rfl, hq⟩
      · next hnil =>
        rw [not_not.1 hnil] at herr
        rw [if_pos herr] at hrefused ⊢
        rw [wp_bind, admitDestination, wp_bind, regainInterest, wp_modify, wp_bind]
        refine wp_askClient.mono (fun status q hq => ?_) fun _ _ h => h.elim
        obtain ⟨rfl, rfl⟩ := hq
        have hne : clientStatus s p mac items ≠ "Success" := fun h => hrefused (congrArg some h)
        split
        · next heq => exact absurd heq hne
        · exact ⟨rfl, rfl⟩
    · rw [if_neg (by simp [he])]
      exact ⟨rfl, rfl⟩

/-- A router stores nothing of a destination that it refuses. -/
theorem keeps_handleDestinationUp_of_refused (hmac : pm.getMac d.cfg = .ok mac)
    (hrefused : upVerdict d s p mac pm.dataItems ≠ some "Success") :
    KeepsPdp p (after (handleDestinationUp d s pm) p) := by
  refine (wp_after (P := KeepsPdp p)).1 ?_
  rw [handleDestinationUp, hmac, wp_bind, wp_lift_ok, wp_bind]
  refine wp_lift (fun name _ => ?_) fun _ _ => rfl
  rw [wp_bind]
  refine (wp_upStatus_of_refused hrefused).mono (fun status q hq => ?_) fun _ q hq => hq.2
  cases status with
  | none => exact hq.2
  | some status =>
    refine Within.wp_trans ?_ hq.2
    refine within_bind within_lift fun _ => within_ite (fun _ => ?_) fun _ => within_pure
    exact keeps_sendSimpleResponse

/-! ## Modems -/

/-- A modem that is asked for a destination it does not have, and refuses it, has stored it. -/
theorem stores_handleDestinationAnnounce {responseName : String}
    (hknown : pm.dataItems.Known d.cfg) (hmac : pm.getMac d.cfg = .ok mac)
    (hname : pm.getSignalName d.cfg = .ok name)
    (hresponse : d.cfg.getMessageResponseName name = .ok responseName) (hne : responseName ≠ "")
    (hnew : p.peerPdp.validDestination mac = false)
    (hlocal : d.localPdp.validDestination mac = false)
    (hrefused : clientStatus s p mac pm.dataItems ≠ "Success") :
    (after (handleDestinationAnnounce d s pm) p).peerPdp.validDestination mac = true := by
  refine (wp_after (P := fun q : Peer => q.peerPdp.validDestination mac = true)).1 ?_
  simp only [handleDestinationAnnounce, hmac, hname, hresponse, wp_bind, wp_lift_ok, assertThat,
    hne, ne_eq, not_false_eq_true, decide_true, if_true, wp_get, hnew, Bool.false_eq_true, if_false,
    regainInterest, wp_modify]
  rw [addDestinationChecked, wp_bind, onPdp, wp_zoom]
  refine (PeerData.wp_addDestination_created hknown.classified hnew).mono (fun ok pd hpd => ?_)
    fun _ _ h => h.elim
  obtain ⟨rfl, dd, _, rfl⟩ := hpd
  have hnone : d.localPdp.getDestinationData mac = none := by
    rw [PeerData.validDestination_eq_isSome] at hlocal
    simpa using hlocal
  rw [hnone]
  show wp (askClient s mac pm.dataItems >>= fun status =>
    answerAnnounce d s responseName status mac)
    _ _ _
  rw [wp_bind]
  refine wp_askClient.mono (fun status q hq => ?_) fun _ _ h => h.elim
  obtain ⟨rfl, rfl⟩ := hq
  rw [answerAnnounce]
  split
  · next heq => exact absurd heq hrefused
  · refine (keeps_sendSimpleResponse.wp _).mono (fun _ r hr => ?_) fun _ r hr => ?_
    · rw [show r.peerPdp = _ from hr]
      exact ExtTreeMap.contains_insert_self
    · rw [show r.peerPdp = _ from hr]
      exact ExtTreeMap.contains_insert_self

/-- A modem stores nothing of a destination that it has. -/
theorem keeps_handleDestinationAnnounce_of_known (hmac : pm.getMac d.cfg = .ok mac)
    (hknown : p.peerPdp.validDestination mac = true) :
    KeepsPdp p (after (handleDestinationAnnounce d s pm) p) := by
  refine (wp_after (P := KeepsPdp p)).1 ?_
  rw [handleDestinationAnnounce, hmac, wp_bind, wp_lift_ok, wp_bind]
  refine wp_lift (fun name _ => ?_) fun _ _ => rfl
  rw [wp_bind]
  refine wp_lift (fun responseName _ => ?_) fun _ _ => rfl
  rw [wp_bind]
  refine wp_lift (fun _ _ => ?_) fun _ _ => rfl
  rw [wp_bind, wp_get, if_pos hknown, answerAnnounce, if_neg (by decide)]
  exact keeps_sendSimpleResponse.wp p

/-- Without a response to be sent, the handler gives up at once. -/
theorem keeps_handleDestinationAnnounce_of_noResponse (hname : pm.getSignalName d.cfg = .ok name)
    (hno : ¬ ∃ responseName, d.cfg.getMessageResponseName name = .ok responseName ∧
      responseName ≠ "") :
    KeepsPdp p (after (handleDestinationAnnounce d s pm) p) := by
  refine (wp_after (P := KeepsPdp p)).1 ?_
  rw [handleDestinationAnnounce, wp_bind]
  refine wp_lift (fun mac _ => ?_) fun _ _ => rfl
  rw [hname, wp_bind, wp_lift_ok, wp_bind]
  refine wp_lift (fun responseName hresponse => ?_) fun _ _ => rfl
  rw [wp_bind]
  refine wp_lift (fun _ hok => ?_) fun _ _ => rfl
  exact absurd ⟨responseName, hresponse, by simpa using hok⟩ hno

/-! ## Traces of a refusal -/

/-- The handler of a message of this name judges a destination. -/
def Judges (d : DlepView) (name : String) : Prop :=
  name = "Destination_Up" ∨ d.modem = true ∧ name = "Destination_Announce"

/-- A refused destination leaves no trace: the peer has the destinations and the data that it had.
-/
def NoTrace (d : DlepView) (s : Surroundings) (buf : Bytes) (p : Peer) : Prop :=
  ∀ (name : String) (pm : ProtocolMessage) (mac : DlepMac), handledOf d s p buf = some (name, pm) →
    Judges d name → pm.getMac d.cfg = .ok mac → Refuses d s p mac pm.dataItems →
    (after (handlePeerSignal d s buf) p).peerPdp = p.peerPdp

/-- A modem is brought a destination that neither the peer nor itself has, and the client refuses
it: the destination is stored before the client is asked (`Peer.cpp:1572`). -/
def StoredFirst (d : DlepView) (s : Surroundings) (buf : Bytes) (p : Peer) : Prop :=
  ∃ (name : String) (pm : ProtocolMessage) (mac : DlepMac) (responseName : String),
    handledOf d s p buf = some (name, pm) ∧ Judges d name ∧ pm.getMac d.cfg = .ok mac ∧
    d.modem = true ∧ d.cfg.getMessageResponseName name = .ok responseName ∧ responseName ≠ "" ∧
    p.peerPdp.validDestination mac = false ∧ d.localPdp.validDestination mac = false ∧
    s.destinationUp p.peerId mac pm.dataItems ∉ ["", "Success"]

omit [AddressText] in
/-- The client refuses with any status but an empty one or success. -/
theorem clientStatus_ne_success_iff {items : DataItems} :
    clientStatus s p mac items ≠ "Success" ↔
      s.destinationUp p.peerId mac items ∉ ["", "Success"] := by
  unfold clientStatus
  split
  · next h => simp [h]
  · next h => simp [h]

/-- At a modem the message goes to the handler of announcements. -/
theorem dispatch_announce {pm : ProtocolMessage} (hjudges : Judges d name)
    (hmodem : d.modem = true) :
    dispatch d s name pm = handleDestinationAnnounce d s pm := by
  rcases hjudges with rfl | ⟨_, rfl⟩
  · rw [dispatch_destinationUp, if_pos hmodem]
  · rfl

/-- A message that is handled does what its handler does. -/
theorem after_handlePeerSignal {buf : Bytes} (h : handledOf d s p buf = some (name, pm)) :
    after (handlePeerSignal d s buf) p = after (dispatch d s name pm) p :=
  (wp_after (P := (· = after (dispatch d s name pm) p))).1
    (wp_handlePeerSignal_of_handledOf h (wp_after.2 rfl))

/-- Whatever the state, whatever arrives and whatever the client says: a refused destination
leaves no trace, exactly if it is not one that a modem stores before it asks its client. -/
theorem noTrace_iff_not_storedFirst {buf : Bytes} :
    NoTrace d s buf p ↔ ¬ StoredFirst d s buf p := by
  constructor
  · rintro hnone ⟨name, pm, mac, responseName, hhandled, hjudges, hmac, hmodem, hresponse, hne,
      hnew, hlocal, hclient⟩
    have hrefused := clientStatus_ne_success_iff.2 hclient
    have hsame := hnone name pm mac hhandled hjudges hmac (by
      rw [Refuses, if_pos hmodem, announceVerdict, if_neg (by simp [hnew]),
        if_neg (by simp [hlocal])]
      exact hrefused)
    obtain ⟨hreceived, hname⟩ := received_of_handledOf hhandled
    have hstored :=
      stores_handleDestinationAnnounce (known_of_received hreceived) hmac hname hresponse
      hne hnew hlocal hrefused
    rw [← dispatch_announce hjudges hmodem, ← after_handlePeerSignal hhandled,
      hsame, hnew] at hstored
    cases hstored
  · intro hno name pm mac hhandled hjudges hmac hrefused
    obtain ⟨_, hname⟩ := received_of_handledOf hhandled
    rw [after_handlePeerSignal hhandled]
    cases hmodem : d.modem with
    | false =>
      obtain rfl : name = "Destination_Up" := by simpa [Judges, hmodem] using hjudges
      rw [Refuses, if_neg (by simp [hmodem])] at hrefused
      have hdispatch : dispatch d s "Destination_Up" pm = handleDestinationUp d s pm := by
        rw [dispatch_destinationUp, hmodem]
        rfl
      rw [hdispatch]
      exact keeps_handleDestinationUp_of_refused hmac hrefused
    | true =>
      rw [Refuses, if_pos hmodem] at hrefused
      rw [dispatch_announce hjudges hmodem]
      cases hvalid : p.peerPdp.validDestination mac with
      | true => exact keeps_handleDestinationAnnounce_of_known hmac hvalid
      | false =>
        -- the client refuses it, and what is left is that no response has a name
        rw [announceVerdict, if_neg (by simp [hvalid])] at hrefused
        cases hlocal : d.localPdp.validDestination mac with
        | true => exact absurd (if_pos hlocal) hrefused
        | false =>
          rw [if_neg (by simp [hlocal])] at hrefused
          refine keeps_handleDestinationAnnounce_of_noResponse hname
            fun ⟨responseName, hresponse, hne⟩ => ?_
          exact hno ⟨name, pm, mac, responseName, hhandled, hjudges, hmac, hmodem, hresponse, hne,
            hvalid, hlocal, clientStatus_ne_success_iff.1 hrefused⟩

end

/-! ## A client that is not interested -/

attribute [local instance] plainText

/-- A client that wants no destination. -/
def uninterested : Surroundings := { bareSurroundings with destinationUp _ _ _ := "Not_Interested" }

/-- The modem has announced `0a:0b`, its client does not want it, and it is stored. -/
theorem announce_stored_before_refusal :
    ¬ NoTrace (bareView true) uninterested destinationAnnounce barePeer := by
  intro h
  obtain ⟨hhandled, hstored⟩ :
      (match handledOf (bareView true) uninterested barePeer destinationAnnounce with
        | some (name, pm) =>
          decide (name = "Destination_Announce" ∧ pm.getMac rfc8175 = .ok [10, 11])
        | none => false) = true ∧
      (after (handlePeerSignal (bareView true) uninterested destinationAnnounce)
        barePeer).peerPdp.validDestination [10, 11] = true := by decide +kernel
  split at hhandled
  · next name pm heq =>
    obtain ⟨rfl, hmac⟩ := of_decide_eq_true hhandled
    have hrefused : Refuses (bareView true) uninterested barePeer [10, 11] pm.dataItems := by
      show "Not_Interested" ≠ "Success"
      decide
    rw [h _ pm [10, 11] heq (.inr ⟨rfl, rfl⟩) hmac hrefused] at hstored
    revert hstored
    decide
  · cases hhandled

end Peer

end Dlep
