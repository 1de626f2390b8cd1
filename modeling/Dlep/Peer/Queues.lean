import Dlep.Lib.FlightQueue
import Dlep.Peer.Session

/-!
# The queues of messages that wait for a response

For every key, a MAC address or the empty one of the session's own messages, the events of the
peer are a legal history of a queue with one element in flight, and the queue itself is the one
the history leaves. What is known of such histories then holds for the messages.
-/

namespace Dlep

open Std Calls Relation Runs FlightQueue

namespace ResponsePending

/-- The object without what sending it changes. -/
def object (rp : ResponsePending) : ResponsePending :=
  { rp with queued := true, sendTime := 0, sendTries := 0 }

/-- Sending does not change the identity of an object. -/
@[simp] theorem uid_object (rp : ResponsePending) : rp.object.uid = rp.uid := rfl

/-- One object awaits one response. -/
theorem responseId_eq_of_object_eq {rp rp' : ResponsePending} (h : rp.object = rp'.object) :
    rp.responseId = rp'.responseId := by
  injection h

end ResponsePending

namespace Peer

/-- What an event is for the queue of a key. -/
def queueAction (key : DlepMac) : Event → Option (Action ResponsePending)
  | .enqueue rp => if rp.destination = key then some (.put rp.object) else none
  | .transmit rp => if rp.destination = key then some (.send rp.object) else none
  | .accept rp _ mac => if mac = key then some (.take rp.object) else none
  | _ => none

/-- The history of the queue of a key. -/
def history (key : DlepMac) (trace : List Event) : List (Action ResponsePending) :=
  trace.filterMap (queueAction key)

/-- The queue of a key. -/
def queue (p : Peer) (key : DlepMac) : List ResponsePending := (p.responsesPending[key]?).getD []

/-- The queues are what their histories leave, and identities are not used again. -/
structure QueueInv (p : Peer) : Prop where
  ok : p.QueueOk
  legal : ∀ key, Legal (history key p.trace)
  queue : ∀ key, (p.queue key).map ResponsePending.object = waiting (history key p.trace)
  fresh : ∀ key, ∀ rp ∈ puts (history key p.trace), rp.uid < p.nextUid
  expected : ∀ rp id mac, .accept rp id mac ∈ p.trace → rp.responseId = id

/-- One more event goes on with the history of its queue. -/
theorem history_append {key : DlepMac} {trace : List Event} {e : Event} :
    history key (trace ++ [e]) = history key trace ++ (queueAction key e).toList := by
  simp only [history, List.filterMap_append, List.append_cancel_left_eq]
  cases he : queueAction key e <;> simp [he]

/-- An event that is not about a queue. -/
theorem QueueInv.append {p p' : Peer} (h : QueueInv p) (events : List Event) (hok : p'.QueueOk)
    (htrace : p'.trace = p.trace ++ events)
    (hevents : ∀ e ∈ events, ∀ key, queueAction key e = none)
    (hqueues : p'.responsesPending = p.responsesPending) (huid : p.nextUid ≤ p'.nextUid) :
    QueueInv p' := by
  have hhistory : ∀ key, history key p'.trace = history key p.trace := by
    intro key
    have hnone : events.filterMap (queueAction key) = [] :=
      List.filterMap_eq_nil_iff.2 fun e he => hevents e he key
    simp only [history, htrace, List.filterMap_append, hnone, List.append_nil]
  refine ⟨hok, fun key => ?_, fun key => ?_, fun key rp hrp => ?_, fun rp id mac hmem => ?_⟩
  · rw [hhistory]
    exact h.legal key
  · rw [hhistory, Peer.queue, hqueues]
    exact h.queue key
  · rw [hhistory] at hrp
    exact Nat.lt_of_lt_of_le (h.fresh key rp hrp) huid
  · rw [htrace] at hmem
    rcases List.mem_append.1 hmem with hold | hnew
    · exact h.expected rp id mac hold
    · exact absurd (hevents _ hnew mac) (by simp [queueAction])

/-- An event about the queue of one key: the others stay. -/
theorem QueueInv.action {p p' : Peer} {e : Event} {key : DlepMac} {act : Action ResponsePending}
    (h : QueueInv p) (hok : p'.QueueOk) (htrace : p'.trace = p.trace ++ [e])
    (hact : ∀ k, queueAction k e = if key = k then some act else none)
    (hothers : ∀ k, key ≠ k → p'.queue k = p.queue k) (huid : p.nextUid ≤ p'.nextUid)
    (hlegal : Legal (history key p.trace ++ [act]))
    (hqueue : (p'.queue key).map ResponsePending.object = waiting (history key p.trace ++ [act]))
    (hfresh : ∀ rp ∈ puts [act], rp.uid < p'.nextUid)
    (hexpected : ∀ rp id mac, e = .accept rp id mac → rp.responseId = id) : QueueInv p' := by
  have hhistory : ∀ k, history k p'.trace =
      if key = k then history k p.trace ++ [act] else history k p.trace := by
    intro k
    rw [htrace, history_append, hact k]
    split
    · rfl
    · simp
  refine ⟨hok, fun k => ?_, fun k => ?_, fun k rp hrp => ?_, fun rp id mac hmem => ?_⟩
  · rw [hhistory]
    split
    · next hk => exact hk ▸ hlegal
    · exact h.legal k
  · rw [hhistory]
    split
    · next hk => exact hk ▸ hqueue
    · next hk => rw [hothers k hk, h.queue k]
  · rw [hhistory] at hrp
    split at hrp
    · rw [puts_append] at hrp
      rcases List.mem_append.1 hrp with hold | hnew
      · exact Nat.lt_of_lt_of_le (h.fresh k rp hold) huid
      · exact hfresh rp hnew
    · exact Nat.lt_of_lt_of_le (h.fresh k rp hrp) huid
  · rw [htrace] at hmem
    rcases List.mem_append.1 hmem with hold | hnew
    · exact h.expected rp id mac hold
    · exact hexpected rp id mac (List.mem_singleton.1 hnew).symm

/-- Every move keeps the queues what their histories leave. -/
theorem Move.queueInv {k : Kind} {p p' : Peer} (hm : Move k p p') (hp : QueueInv p) :
    QueueInv p' := by
  have hok := hm.queueOk hp.ok
  cases hm with
  | quiet _ _ hqueues _ huid htrace =>
    exact hp.append [] hok (by simp [htrace]) (by simp) hqueues huid
  | @enqueue _ rp huid =>
    have hnew : rp.object ∉ puts (history rp.destination p.trace) := fun hmem =>
      absurd (hp.fresh _ _ hmem) (by simp [huid])
    refine hp.action hok rfl (fun k => rfl) (fun k hk => ?_) (Nat.le_succ _)
      (.put (hp.legal _) hnew)
      ?_ ?_ (by simp)
    · simp [Peer.queue, ExtTreeMap.getElem?_insert, hk]
    · rw [waiting_put, ← hp.queue]
      simp [Peer.queue, ResponsePending.object]
    · simp [huid]
  | @transmit _ now mac rp rest hhead =>
    obtain rfl := ((hp.ok _ _ hhead).2 rp (by simp)).2
    have hqueue : p.queue rp.destination = rp :: rest := by simp [Peer.queue, hhead]
    have hwaiting := hp.queue rp.destination
    rw [hqueue, List.map_cons] at hwaiting
    refine hp.action hok rfl (fun k => rfl) (fun k hk => ?_) le_rfl
      (.send (hp.legal _) (by simp [← hwaiting])) ?_ (by simp) (by simp)
    · simp [Peer.queue, ExtTreeMap.getElem?_insert, hk]
    · rw [waiting_send, ← hwaiting]
      simp [Peer.queue, ResponsePending.object]
  | @accept _ mac rp rest queues id hhead hid hqueues =>
    have hqueue : p.queue mac = rp :: rest := by simp [Peer.queue, hhead]
    have hwaiting := hp.queue mac
    rw [hqueue, List.map_cons] at hwaiting
    refine hp.action hok rfl (fun k => rfl) (fun k hk => ?_) le_rfl
      (.take (hp.legal _) (by simp [← hwaiting])) ?_ (by simp) ?_
    · simp only [Peer.queue, hqueues]
      split
      · simp [ExtTreeMap.getElem?_erase, hk]
      · simp [ExtTreeMap.getElem?_insert, hk]
    · rw [waiting_take, ← hwaiting]
      simp only [Peer.queue, hqueues, List.tail_cons]
      split
      · next hrest => simp [hrest]
      · simp
    · rintro _ _ _ ⟨⟩
      exact hid
  | interest _ => exact hp.append [] hok (by simp) (by simp) rfl le_rfl
  | store _ => exact hp.append [] hok (by simp) (by simp) rfl le_rfl
  | down _ hrest =>
    refine hp.append _ hok rfl ?_ rfl le_rfl
    rcases hrest with rfl | rfl
    · simp [queueAction]
    · simp [queueAction]
  | _ => exact hp.append _ hok rfl (by simp [queueAction]) rfl le_rfl

/-- A new message is put on its queue, unless the peer is not interested in its destination, and is
sent if it is the first there. -/
theorem sendNew_trace {now : Nat} {rp : ResponsePending} (hqueued : rp.queued = false) {p : Peer}
    (hp : QueueInv p) :
    ∃ q, sendNew now rp p = .ok () q ∧ q.trace = p.trace ++
      if p.isNotInterested rp.destination then []
      else if p.queue rp.destination = [] then
        [.enqueue { rp with uid := p.nextUid },
          .transmit { rp with uid := p.nextUid, queued := true }]
      else [.enqueue { rp with uid := p.nextUid }] := by
  have hwp : wp (sendNew now rp) (fun _ q => q.trace = p.trace ++
      if p.isNotInterested rp.destination then []
      else if p.queue rp.destination = [] then
        [.enqueue { rp with uid := p.nextUid },
          .transmit { rp with uid := p.nextUid, queued := true }]
      else [.enqueue { rp with uid := p.nextUid }]) (fun _ _ => False) p := by
    have hfresh : ¬ ({ rp with uid := p.nextUid } :
      ResponsePending).queued = true := by simp [hqueued]
    simp only [sendNew, sendMessageExpectingResponse, enqueue, sendIfHead, if_neg hfresh, wp_bind,
      wp_get, wp_modify]
    split
    · next hint =>
      have hint : p.isNotInterested rp.destination = true := hint
      simp [hint]
    · next hint =>
      have hint : p.isNotInterested rp.destination = false := Bool.not_eq_true _ ▸ hint
      simp only [wp_bind, wp_modify, wp_get, ExtTreeMap.getElem?_insert_self]
      cases hold : p.responsesPending[rp.destination]? with
      | none =>
        have hqueue : p.queue rp.destination = [] := by simp [Peer.queue, hold]
        simp [transmit, hint, hqueue]
      | some waiting =>
        obtain ⟨hne, _⟩ := hp.ok _ _ hold
        obtain ⟨head, rest, rfl⟩ := List.exists_cons_of_ne_nil hne
        have hqueue : p.queue rp.destination = head :: rest := by simp [Peer.queue, hold]
        have huid : ¬ head.uid = p.nextUid := by
          have hmem : head.object ∈ puts (history rp.destination p.trace) := by
            rw [(hp.legal _).puts_eq, ← hp.queue, hqueue]
            simp
          exact Nat.ne_of_lt (hp.fresh _ head.object hmem)
        simp [hint, hqueue, huid]
  obtain ⟨_, q, hrun, htrace⟩ := hwp.exists_ok
  exact ⟨q, hrun, htrace⟩

/-! ## Every order of calls -/

section

variable [AddressText]

/-- What can happen to the queues: anything that happens to a peer, and besides, in any order, calls
with new objects, responses, and changes of the destinations the peer is not interested in. -/
inductive QueueStep where
  | step (st : Step)
  | send (now : Nat) (rp : ResponsePending) (hrp : rp.queued = false)
  | response (d : DlepView) (s : Surroundings) (pm : ProtocolMessage)
  | interest (macs : ExtTreeSet DlepMac)

def queueStep (p : Peer) : QueueStep → Peer
  | .step st => p.step st
  | .send now rp _ => after (sendNew now rp) p
  | .response d s pm => after (handleResponse d s pm) p
  | .interest macs => { p with notInterestedDestinations := macs }

/-- Whatever happens to the queues, they are what their histories leave. -/
theorem queueInv_queueStep {p : Peer} (qs : QueueStep) (hp : QueueInv p) :
    QueueInv (p.queueStep qs) := by
  have hmove : ∀ k q q', Move k q q' → QueueInv q → QueueInv q' := fun _ _ _ hm => hm.queueInv
  cases qs with
  | step st => exact step_keeps hmove st hp.ok hp
  | send now rp hrp => exact (within_sendNew hrp p hp.ok).keeps (fun k _ => hmove k) hp
  | response d s pm =>
    obtain ⟨q, hpq, hqp'⟩ := wp_after.1
      (leads_handleResponse (d := d) (s := s) (Finset.mem_singleton_self Kind.queue) p) hp.ok
    exact hqp'.keeps (fun k _ => hmove k) (hpq.keeps (fun k _ => hmove k) hp)
  | interest macs => exact hmove _ _ _ (.interest macs) hp

/-- What is known of the queue of a key: it is what its history says, a message is put on it once,
messages are transmitted for the first time in the order in which they were put, only the message
at the front is transmitted, and before another one is transmitted, the response it expects was
accepted for the key. -/
structure Fifo (key : DlepMac) (p : Peer) : Prop where
  queue : (p.queue key).map ResponsePending.object = waiting (history key p.trace)
  once : (puts (history key p.trace)).Nodup
  order : (sends (history key p.trace)).eraseDups.Sublist (puts (history key p.trace))
  head : ∀ pre rp post, p.trace = pre ++ .transmit rp :: post → rp.destination = key →
    (waiting (history key pre)).head? = some rp.object
  answered : ∀ pre mid post rp rp', p.trace = pre ++ .transmit rp :: mid ++ .transmit rp' :: post →
    rp.destination = key → rp'.destination = key → rp.uid ≠ rp'.uid →
    ∃ acc, acc.object = rp.object ∧ .accept acc rp.responseId key ∈ mid

omit [AddressText] in
/-- A queue that is what its history leaves is in order. -/
theorem QueueInv.fifo {p : Peer} (h : QueueInv p) (key : DlepMac) : Fifo key p := by
  have hsend : ∀ {rp}, rp.destination = key →
      queueAction key (.transmit rp) = some (.send rp.object) := fun hrp => if_pos hrp
  refine ⟨h.queue key, (h.legal key).nodup, (h.legal key).order, ?_, ?_⟩
  · intro pre rp post htrace hrp
    have hlegal := h.legal key
    rw [htrace, history, List.filterMap_append, List.filterMap_cons_some (hsend hrp)] at hlegal
    exact hlegal.head
  · intro pre mid post rp rp' htrace hrp hrp' hne
    have hlegal := h.legal key
    rw [htrace, history, List.filterMap_append, List.filterMap_append,
      List.filterMap_cons_some (hsend hrp), List.filterMap_cons_some (hsend hrp')] at hlegal
    have hobject : rp.object ≠ rp'.object := fun heq =>
      hne (by rw [← rp.uid_object, heq, rp'.uid_object])
    obtain ⟨e, he, haction⟩ := List.mem_filterMap.1 (hlegal.take_mem hobject)
    -- the only event that takes an object off a queue is its acceptance
    cases e with
    | accept acc id mac =>
      simp only [queueAction, Option.ite_none_right_eq_some, Option.some.injEq,
        Action.take.injEq] at haction
      obtain ⟨rfl, hacc⟩ := haction
      have hid := h.expected acc id mac (by simp [htrace, he])
      rw [ResponsePending.responseId_eq_of_object_eq hacc] at hid
      exact ⟨acc, hacc, hid ▸ he⟩
    | enqueue acc => simp [queueAction] at haction
    | transmit acc => simp [queueAction] at haction
    | _ => cases haction

/-- The queues of a new peer are empty. -/
theorem queueInv_of_create {cfg : ProtocolConfig} {peerId : PeerId} {now : Nat} {p : Peer}
    (h : Peer.create cfg peerId now = .ok p) : QueueInv p := by
  have hok := (sound_of_create h).queues
  obtain rfl := create_ok h
  exact ⟨hok, fun _ => .nil, fun _ => by simp [Peer.queue, history, waiting],
    fun _ => by simp [history, puts], by simp⟩

/-- In every order of calls, the queue of every key is first in, first out, with one message in
flight. -/
theorem fifo_of_run {cfg : ProtocolConfig} {peerId : PeerId} {now : Nat} {p : Peer}
    (hp : Peer.create cfg peerId now = .ok p) (steps : List QueueStep) (key : DlepMac) :
    Fifo key (run queueStep p steps) := by
  have hrun : QueueInv (run queueStep p steps) :=
    along_true.invariant (fun _ qs hq _ => queueInv_queueStep qs hq) (queueInv_of_create hp)
  exact hrun.fifo key

end

/-- A message that waits for a Destination Up Response. -/
def upRequest : ResponsePending where
  uid := 0
  responseId := 8
  responseName := "Destination_Up_Response"
  destination := [10, 11]
  queued := false
  msgBuffer := []
  sendTime := 0
  sendTries := 0

attribute [local instance] plainText

/-- Two messages for one destination, of which the second is sent when the first is answered. -/
def twoRequests : List QueueStep :=
  [.send 0 upRequest rfl, .send 0 upRequest rfl] ++
    (bareSteps true [.receive ProtocolMessage.upResponse.msgbuf, .message]).map .step

/-- Both messages of the sample run are sent. -/
theorem fifo_of_run_twoRequests :
    (sends (history [10, 11] (run queueStep barePeer twoRequests).trace)).length = 2 ∧
      Fifo [10, 11] (run queueStep barePeer twoRequests) :=
  ⟨by decide +kernel, @fifo_of_run plainText rfc8175 (str "peer") 0 barePeer rfl twoRequests _⟩

end Peer

end Dlep
