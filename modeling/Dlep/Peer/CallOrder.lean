import Dlep.Peer.InFlight
import Dlep.Peer.Messages

/-!
# The order of the calls about a destination

A message that a destination is up or down expects a response, and waits on the queue of the
destination until those before it are answered. A message about an update expects none and is sent
at once. So an update overtakes what waits: the messages are sent in the order of the calls exactly
if no update is made while an earlier message waits behind another one.
-/

namespace Dlep

open Std Calls Runs FlightQueue

namespace Peer

/-! ## When a message is sent -/

/-- Is the event the sending of the message that was put on its queue? -/
def isTransmitOf (rp : ResponsePending) : Event → Bool
  | .transmit sent => sent.object = rp.object
  | _ => false

/-- When the message that was made at position `i` of the trace is first sent: at once, or when it
is first taken from its queue. -/
def sentAt (events : List Event) (i : Nat) : Option Nat :=
  match events[i]? with
  | some (.send _) => some i
  | some (.enqueue rp) => events.findIdx? (isTransmitOf rp)
  | _ => none

/-- If the second message is sent, the first one is sent before it. -/
def SentBefore : Option Nat → Option Nat → Prop
  | _, none => True
  | none, some _ => False
  | some t', some t => t' < t

instance : DecidableRel SentBefore
  | _, none => .isTrue trivial
  | none, some _ => .isFalse id
  | some t', some t => inferInstanceAs (Decidable (t' < t))

/-- One message is sent before another if the second is never sent without the first being sent
earlier. -/
theorem sentBefore_iff {a b : Option Nat} :
    SentBefore a b ↔ ∀ t, b = some t → ∃ t' < t, a = some t' := by
  cases a <;> cases b <;> simp [SentBefore]

/-- The messages, given by the positions at which they were made, are first sent in this order. -/
def InOrder (events : List Event) (made : List Nat) : Prop :=
  made.Pairwise fun i j => SentBefore (sentAt events i) (sentAt events j)

instance {events : List Event} {made : List Nat} : Decidable (InOrder events made) :=
  inferInstanceAs (Decidable (List.Pairwise _ _))

section

variable {events : List Event} {mac : DlepMac} {rp : ResponsePending}

/-- One object has one destination. -/
theorem destination_of_object_eq {rp rp' : ResponsePending} (h : rp.object = rp'.object) :
    rp.destination = rp'.destination := by
  injection h

/-- The messages sent for a destination are the objects of its transmissions. -/
theorem mem_sends_history {a : ResponsePending} :
    a ∈ sends (history mac events) ↔
      ∃ sent, .transmit sent ∈ events ∧ sent.destination = mac ∧ sent.object = a := by
  simp only [sends, history, List.mem_filterMap]
  constructor
  · rintro ⟨act, ⟨e, he, hact⟩, ha⟩
    cases e with
    | transmit sent =>
      simp only [queueAction, Option.ite_none_right_eq_some, Option.some.injEq] at hact
      obtain ⟨hdest, rfl⟩ := hact
      exact ⟨sent, he, hdest, Option.some.inj ha⟩
    | enqueue put =>
      simp only [queueAction, Option.ite_none_right_eq_some, Option.some.injEq] at hact
      obtain ⟨_, rfl⟩ := hact
      cases ha
    | accept taken id key =>
      simp only [queueAction, Option.ite_none_right_eq_some, Option.some.injEq] at hact
      obtain ⟨_, rfl⟩ := hact
      cases ha
    | _ => cases hact
  · rintro ⟨sent, hsent, hdest, rfl⟩
    exact ⟨.send sent.object, ⟨.transmit sent, hsent, if_pos hdest⟩, rfl⟩

/-- A message that was sent was sent from its queue. -/
theorem mem_sends_of_isTransmitOf {e : Event} (he : e ∈ events) (hsent : isTransmitOf rp e = true)
    (hdest : rp.destination = mac) : rp.object ∈ sends (history mac events) := by
  cases e with
  | transmit sent =>
    have hobject : sent.object = rp.object := by simpa [isTransmitOf] using hsent
    exact mem_sends_history.2 ⟨sent, he, (destination_of_object_eq hobject).trans hdest, hobject⟩
  | _ => cases hsent

/-- What is enqueued for a destination is put in its history. -/
theorem mem_puts_history (h : .enqueue rp ∈ events) (hdest : rp.destination = mac) :
    rp.object ∈ puts (history mac events) := by
  simp only [puts, history, List.mem_filterMap]
  exact ⟨.put rp.object, ⟨.enqueue rp, h, if_pos hdest⟩, rfl⟩

/-- The first position is not behind any other. -/
theorem exists_findIdx?_le {α : Type} {p : α → Bool} {l : List α} {k : Nat} {a : α}
    (hk : l[k]? = some a) (ha : p a) : ∃ t ≤ k, l.findIdx? p = some t := by
  obtain ⟨hlt, rfl⟩ := List.getElem?_eq_some_iff.1 hk
  cases hfind : l.findIdx? p with
  | none =>
    have hnone := List.findIdx?_eq_none_iff.1 hfind l[k] (List.getElem_mem hlt)
    rw [hnone] at ha
    cases ha
  | some t =>
    obtain ⟨_, _, hfirst⟩ := List.findIdx?_eq_some_iff_getElem.1 hfind
    refine ⟨t, ?_, rfl⟩
    by_contra hlt'
    exact hfirst k (by omega) ha

/-- The trace at the moment at which a message is first sent. -/
theorem split_of_findIdx? {t : Nat} (h : events.findIdx? (isTransmitOf rp) = some t) :
    ∃ pre sent post, events = pre ++ .transmit sent :: post ∧ pre.length = t ∧
      sent.object = rp.object := by
  obtain ⟨hlt, hsent, _⟩ := List.findIdx?_eq_some_iff_getElem.1 h
  obtain ⟨e, he⟩ : ∃ e, events[t] = e := ⟨_, rfl⟩
  rw [he] at hsent
  cases e with
  | transmit sent =>
    refine ⟨events.take t, sent, events.drop (t + 1), ?_, ?_, by simpa [isTransmitOf] using hsent⟩
    · rw [← he, List.getElem_cons_drop, List.take_append_drop]
    · rw [List.length_take]
      omega
  | _ => cases hsent

/-- The history of its queue at that moment. -/
theorem history_transmit {sent : ResponsePending} {pre post : List Event}
    (hobject : sent.object = rp.object) (hdest : rp.destination = mac) :
    history mac (pre ++ .transmit sent :: post) =
      history mac pre ++ .send rp.object :: history mac post := by
  have hsent : queueAction mac (.transmit sent) = some (.send rp.object) := by
    rw [← hobject]
    exact if_pos ((destination_of_object_eq hobject).trans hdest)
  rw [history, List.filterMap_append, List.filterMap_cons_some hsent]
  rfl

/-- A message is sent after it was made. -/
theorem lt_of_findIdx? (hlegal : Legal (history mac events)) {i t : Nat}
    (hi : events[i]? = some (.enqueue rp)) (hdest : rp.destination = mac)
    (h : events.findIdx? (isTransmitOf rp) = some t) : i < t := by
  obtain ⟨pre, sent, post, rfl, rfl, hobject⟩ := split_of_findIdx? h
  rw [history_transmit hobject hdest] at hlegal
  by_contra hge
  -- otherwise it was put twice: before it was sent, and at position `i`
  have hbefore : rp.object ∈ puts (history mac pre) := by
    rw [hlegal.of_append.puts_eq]
    exact List.mem_append_right _ (List.mem_of_head? hlegal.head)
  have hafter : rp.object ∈ puts (history mac post) := by
    refine mem_puts_history (List.mem_of_getElem? (i := i - pre.length - 1) ?_) hdest
    rw [List.getElem?_append_right (by omega)] at hi
    obtain ⟨n, hn⟩ : ∃ n, i - pre.length = n + 1 := by
      cases hn : i - pre.length with
      | zero => simp [hn] at hi
      | succ n => exact ⟨n, rfl⟩
    rw [hn, List.getElem?_cons_succ] at hi
    rw [hn]
    exact hi
  have hnodup := hlegal.nodup
  rw [puts_append, List.nodup_append] at hnodup
  refine hnodup.2.2 _ hbefore _ ?_ rfl
  change rp.object ∈ puts ([.send rp.object] ++ history mac post)
  rw [puts_append]
  exact List.mem_append_right _ hafter

/-- A message is sent after those that were made before it. -/
theorem exists_findIdx?_lt (hlegal : Legal (history mac events))
    (hprompt : Prompt (history mac events)) {i j t : Nat} (hij : i < j) {rp' : ResponsePending}
    (hi : events[i]? = some (.enqueue rp')) (hdest' : rp'.destination = mac)
    (hj : events[j]? = some (.enqueue rp)) (hdest : rp.destination = mac)
    (h : events.findIdx? (isTransmitOf rp) = some t) :
    ∃ t' < t, events.findIdx? (isTransmitOf rp') = some t' := by
  have horder : [rp'.object, rp.object].Sublist (puts (history mac events)) := by
    have hpair : [Event.enqueue rp', .enqueue rp].Sublist events := by
      obtain ⟨hilt, hi⟩ := List.getElem?_eq_some_iff.1 hi
      obtain ⟨hjlt, hj⟩ := List.getElem?_eq_some_iff.1 hj
      have hall : events.Pairwise fun a b => [a, b].Sublist events :=
        List.pairwise_iff_forall_sublist.2 fun h => h
      have := List.pairwise_iff_getElem.1 hall i j hilt hjlt hij
      rwa [hi, hj] at this
    have hputs : puts (history mac [.enqueue rp', .enqueue rp]) = [rp'.object, rp.object] := by
      simp [history, queueAction, hdest, hdest', puts]
    rw [← hputs]
    exact puts_sublist (hpair.filterMap _)
  obtain ⟨pre, sent, post, hevents, rfl, hobject⟩ := split_of_findIdx? h
  have hsplit := hevents ▸ history_transmit hobject hdest
  obtain ⟨sent', hmem, _, hobject'⟩ :=
    mem_sends_history.1 (hprompt.sent_before hlegal hsplit horder)
  obtain ⟨k, hklt, hk⟩ := List.getElem_of_mem hmem
  have hk : events[k]? = some (.transmit sent') := by
    rw [hevents, List.getElem?_append_left hklt, List.getElem?_eq_getElem hklt, hk]
  obtain ⟨t', hle, ht'⟩ := exists_findIdx?_le (p := isTransmitOf rp') hk (by simpa [isTransmitOf])
  exact ⟨t', by omega, ht'⟩

end

/-! ## Queues whose head is sent at once -/

/-- The queues are what their histories leave, and the head of the queue of the destination was sent
as soon as it got there. -/
structure PromptAt (mac : DlepMac) (p : Peer) : Prop where
  queues : QueueInv p
  prompt : Prompt (history mac p.trace)

/-- Further events go on with the history of every queue. -/
theorem history_append_list {key : DlepMac} {events more : List Event} :
    history key (events ++ more) = history key events ++ history key more := List.filterMap_append

/-- The queue holds what its history leaves waiting. -/
theorem PromptAt.waiting {mac : DlepMac} {p : Peer} (hp : PromptAt mac p) :
    waiting (history mac p.trace) = (p.queue mac).map ResponsePending.object :=
  (hp.queues.queue mac).symm

/-- What is not about the queue of the destination does not count. -/
theorem PromptAt.append {mac : DlepMac} {p q : Peer} (hp : PromptAt mac p) (hq : QueueInv q)
    {events : List Event} (htrace : q.trace = p.trace ++ events)
    (hevents : ∀ e ∈ events, queueAction mac e = none) : PromptAt mac q := by
  have hnone : history mac events = [] := List.filterMap_eq_nil_iff.2 hevents
  refine ⟨hq, ?_⟩
  rw [htrace, history_append_list, hnone, List.append_nil]
  exact hp.prompt

/-- Only the queues, the identities and the history matter. -/
theorem PromptAt.congr {mac : DlepMac} {p q : Peer} (hp : PromptAt mac p)
    (hqueues : q.responsesPending = p.responsesPending) (huid : q.nextUid = p.nextUid)
    (htrace : q.trace = p.trace) : PromptAt mac q := by
  have hok : q.QueueOk := by
    unfold QueueOk
    rw [hqueues]
    exact hp.queues.ok
  have hsame : q.trace = p.trace ++ [] := by rw [htrace, List.append_nil]
  exact hp.append (hp.queues.append [] hok hsame (by simp) hqueues huid.symm.le) hsame (by simp)

/-- An event that is not about a queue is no action on one. -/
theorem queueAction_of_not_isQueue {e : Event} (he : e.isQueue = false) (key : DlepMac) :
    queueAction key e = none := by
  cases e with
  | enqueue rp => cases he
  | transmit rp => cases he
  | accept rp id mac => cases he
  | _ => rfl

/-- A new message is put at the end, and sent at once if nothing waits. -/
theorem promptAt_sendNew {mac : DlepMac} {now : Nat} {rp : ResponsePending}
    (hqueued : rp.queued = false) {p : Peer} (hp : PromptAt mac p) :
    PromptAt mac (after (sendNew now rp) p) := by
  obtain ⟨q, hrun, htrace⟩ := @sendNew_trace now rp hqueued p hp.queues
  have hafter : after (sendNew now rp) p = q := by simp [after, hrun]
  have hq : QueueInv q :=
    hafter ▸ (within_sendNew hqueued p hp.queues.ok).keeps (fun _ _ _ _ hm => hm.queueInv) hp.queues
  rw [hafter]
  by_cases hdest : rp.destination = mac
  · subst hdest
    split at htrace
    · exact hp.append hq htrace (by simp)
    · split at htrace
      · next hempty =>
        refine ⟨hq, ?_⟩
        have hfirst :=
          hp.prompt.put_first (a := ({ rp with uid := p.nextUid } : ResponsePending).object)
          (by rw [hp.waiting, hempty, List.map_nil])
        rw [htrace, history_append_list]
        simpa [history, queueAction, ResponsePending.object] using hfirst
      · next hne =>
        refine ⟨hq, ?_⟩
        have hbehind := hp.prompt.put_behind
          (a := ({ rp with uid := p.nextUid } : ResponsePending).object)
          (by simpa [hp.waiting] using hne)
        rw [htrace, history_append_list]
        simpa [history, queueAction] using hbehind
  · refine hp.append hq htrace ?_
    split
    · simp
    · split
      · simp [queueAction, hdest]
      · simp [queueAction, hdest]

/-- Sending the head once more changes no order. -/
theorem promptAt_resend {mac key : DlepMac} {now : Nat} {p : Peer} {head : ResponsePending}
    {rest : List ResponsePending} (hqueue : p.responsesPending[key]? = some (head :: rest))
    (hp : PromptAt mac p) : PromptAt mac (after (sendMessageExpectingResponse now head) p) := by
  obtain ⟨hqueued, rfl⟩ := (hp.queues.ok _ _ hqueue).2 head (by simp)
  have hq := (@within_sendMessageExpectingResponse now head hqueued p hp.queues.ok).keeps
    (fun _ _ _ _ hm => hm.queueInv) hp.queues
  revert hq
  refine wp_sendMessageExpectingResponse_head (P := fun q => QueueInv q → PromptAt mac q)
    hqueue hqueued
    (fun _ _ => hp) fun _ hq => ?_
  by_cases hdest : head.destination = mac
  · subst hdest
    refine ⟨hq, ?_⟩
    rw [history_append]
    simpa [queueAction] using hp.prompt.send
  · exact hp.append hq rfl (by simp [queueAction, hdest])

instance {mac : DlepMac} : Closed fun p q => PromptAt mac p → PromptAt mac q where
  refl _ h := h
  trans _ _ _ h h' hp := h' (h hp)
  other p q hqueues huid _ htrace hp := by
    obtain ⟨events, htrace, hevents⟩ := htrace
    have hok : q.QueueOk := by
      unfold QueueOk
      rw [hqueues]
      exact hp.queues.ok
    have hnone : ∀ e ∈ events, ∀ key, queueAction key e = none := fun e he =>
      queueAction_of_not_isQueue (hevents e he)
    have hq : QueueInv q := hp.queues.append events hok htrace hnone hqueues huid.symm.le
    exact hp.append hq htrace fun e he => hnone e he mac
  send _ _ hqueued _ _ := promptAt_sendNew hqueued
  resend _ _ _ _ _ _ hqueue _ := promptAt_resend hqueue

/-- A response that is accepted takes the head off its queue, and the next message is sent if the
peer is still interested. -/
theorem acceptResponse_trace {s : Surroundings} {pm : ProtocolMessage} {key : DlepMac} {p : Peer}
    (hp : QueueInv p) :
    (after (acceptResponse s pm key) p).trace = p.trace ∨
      ∃ rp rest id, p.queue key = rp :: rest ∧
        (after (acceptResponse s pm key) p).trace = p.trace ++ .accept rp id key ::
          if p.isNotInterested key then [] else (rest.take 1).map .transmit := by
  refine (wp_after (P := fun q : Peer => q.trace = p.trace ∨ ∃ rp rest id,
    p.queue key = rp :: rest ∧
    q.trace = p.trace ++ .accept rp id key ::
      if p.isNotInterested key then [] else (rest.take 1).map .transmit)).1 ?_
  simp only [acceptResponse, wp_bind, wp_get]
  split
  · exact .inl rfl
  · exact .inl rfl
  · next rp rest hqueue =>
    have hhead : p.queue key = rp :: rest := by simp [Peer.queue, hqueue]
    split
    · exact .inl rfl
    · next id _ =>
      split
      · rw [wp_bind]
        refine wp_after.2 (.inr ⟨rp, rest, id, hhead, ?_⟩)
        cases rest with
        | nil =>
          refine (wp_after (P := fun q : Peer => q.trace = _)).1 ?_
          simp [popResponse]
        | cons next rest =>
          obtain ⟨hqueued, rfl⟩ := (hp.ok _ _ hqueue).2 next (by simp)
          refine (wp_after (P := fun q : Peer => q.trace = _)).1 ?_
          simp only [popResponse, wp_bind, wp_modify]
          refine wp_after.2 (wp_sendMessageExpectingResponse_head
            (P := fun q : Peer => q.trace = p.trace ++ .accept rp id next.destination ::
              if p.isNotInterested next.destination then []
              else ((next :: rest).take 1).map .transmit)
            ExtTreeMap.getElem?_insert_self hqueued (fun hint => ?_) fun hint => ?_)
          · have hint : p.isNotInterested next.destination = true := hint
            simp [hint]
          · have hint : p.isNotInterested next.destination = false := hint
            simp [hint]
      · exact .inl rfl

/-- After a response the next message is sent, if the peer is interested. -/
theorem promptAt_acceptResponse {mac key : DlepMac} {s : Surroundings} {pm : ProtocolMessage}
    {p : Peer} (hinterest : p.isNotInterested mac = false) (hp : PromptAt mac p) :
    PromptAt mac (after (acceptResponse s pm key) p) := by
  have hmoves : Moves {.queue} p (after (acceptResponse s pm key) p) := by
    refine wp_after.1 ((wp_acceptResponse hp.queues.ok).mono (fun ok q hq => ?_) fun _ _ hq => hq)
    cases ok with
    | true => exact hq.2
    | false =>
      obtain rfl : q = p := by simpa using hq.2
      exact .refl
  have hq := hmoves.keeps (fun _ _ _ _ hm => hm.queueInv) hp.queues
  rcases @acceptResponse_trace s pm key p hp.queues with hsame | ⟨rp, rest, id, hqueue, htrace⟩
  · have htrace : (after (acceptResponse s pm key) p).trace = p.trace ++ [] := by simpa using hsame
    exact hp.append hq htrace (by simp)
  · have hdest : ∀ next ∈ rest, next.destination = key := by
      intro next hnext
      cases hpending : p.responsesPending[key]? with
      | none => simp [Peer.queue, hpending] at hqueue
      | some q =>
        obtain rfl : q = rp :: rest := by simpa [Peer.queue, hpending] using hqueue
        exact ((hp.queues.ok _ _ hpending).2 next (by simp [hnext])).2
    by_cases hkey : key = mac
    · subst hkey
      rw [if_neg (by simp [hinterest])] at htrace
      have hlegal := hp.queues.legal key
      refine ⟨hq, ?_⟩
      rw [htrace, history_append_list]
      cases rest with
      | nil =>
        have hlast := hp.prompt.take_last hlegal (by rw [hp.waiting, hqueue]; rfl)
        simpa [history, queueAction] using hlast
      | cons next rest =>
        have hnext := hp.prompt.take_next hlegal (by rw [hp.waiting, hqueue]; rfl)
        simpa [history, queueAction, hdest next (by simp)] using hnext
    · refine hp.append hq htrace fun e he => ?_
      rcases List.mem_cons.1 he with rfl | he
      · simp [queueAction, hkey]
      · split at he
        · cases he
        · obtain ⟨next, hnext, rfl⟩ := List.mem_map.1 he
          have := hdest next (List.mem_of_mem_take hnext)
          simp [queueAction, this, hkey]

/-! ## Runs -/

/-- Is the event a message that the call about the destination makes? A call that brings the
destination up may also answer a message of the peer, and then it makes none. -/
def Input.makes (mac : DlepMac) : Input → Event → Bool
  | .destinationUp about _, .enqueue _ => about = mac
  | .destinationDown about _, .enqueue _ => about = mac
  | .destinationUpdate about _, .send _ => about = mac
  | _, _ => false

/-- An update makes a message at once; the other calls about the destination put one on a queue. -/
theorem Input.makes_iff {mac : DlepMac} {input : Input} {e : Event} : input.makes mac e = true ↔
    (∃ items buf, input = .destinationUpdate mac items ∧ e = .send buf) ∨
      ∃ items rp, (input = .destinationUp mac items ∨ input = .destinationDown mac items) ∧
        e = .enqueue rp := by
  constructor
  · intro h
    unfold Input.makes at h
    split at h
    · next about items rp =>
      obtain rfl := of_decide_eq_true h
      exact .inr ⟨items, rp, .inl rfl, rfl⟩
    · next about items rp =>
      obtain rfl := of_decide_eq_true h
      exact .inr ⟨items, rp, .inr rfl, rfl⟩
    · next about items buf =>
      obtain rfl := of_decide_eq_true h
      exact .inl ⟨items, buf, rfl, rfl⟩
    · cases h
  · rintro (⟨items, buf, rfl, rfl⟩ | ⟨items, rp, rfl | rfl, rfl⟩)
    all_goals exact decide_eq_true rfl

section

variable [AddressText]

/-- The positions of the messages that a step makes about the destination. -/
def madeBy (mac : DlepMac) (p : Peer) (st : Step) : List Nat :=
  (List.range (p.step st).trace.length).filter fun i =>
    p.trace.length ≤ i ∧ ((p.step st).trace[i]?).any (st.input.makes mac)

/-- The positions of the messages about the destination, in the order of the calls. -/
def calls (mac : DlepMac) : Peer → List Step → List Nat
  | _, [] => []
  | p, st :: steps => madeBy mac p st ++ calls mac (p.step st) steps

/-- A peer, with the positions of the messages that the calls about a destination have made so
far. -/
structure Called where
  peer : Peer
  made : List Nat := []

def Called.step (mac : DlepMac) (c : Called) (st : Step) : Called where
  peer := c.peer.step st
  made := c.made ++ madeBy mac c.peer st

/-- Does the message that was made at this position wait behind the head of the queue? -/
def waitsBehind (mac : DlepMac) (p : Peer) (i : Nat) : Bool :=
  match p.trace[i]? with
  | some (.enqueue rp) => rp.object ∈ ((p.queue mac).map ResponsePending.object).tail
  | _ => false

/-- An update is made, of which a message can be composed, while a message that was made before
waits behind another one. -/
def Step.overtakes (mac : DlepMac) (c : Called) (st : Step) : Bool :=
  match st.input with
  | .destinationUpdate about items =>
    about = mac ∧
      (destinationMessage st.d "Destination_Update" about items "destination_update").isOk ∧
      c.made.any (waitsBehind mac c.peer)
  | _ => false

/-- The messages of two pieces of a run are those of the first and then those of the second. -/
theorem calls_append {mac : DlepMac} {p : Peer} {steps more : List Step} :
    calls mac p (steps ++ more) = calls mac p steps ++ calls mac (run step p steps) more := by
  induction steps generalizing p with
  | nil => rfl
  | cons st steps ih => rw [List.cons_append, calls, calls, ih, List.append_assoc, run_cons]

/-- The second component of the run records what `calls` computes. -/
theorem run_called {mac : DlepMac} {c : Called} {steps : List Step} :
    run (Called.step mac) c steps = ⟨run step c.peer steps, c.made ++ calls mac c.peer steps⟩ := by
  induction steps generalizing c with
  | nil => simp [calls]
  | cons st steps ih =>
    rw [run_cons, ih]
    simp [Called.step, calls]

omit [AddressText] in
/-- A message waits behind the head exactly if its object is in the tail of the queue. -/
theorem waitsBehind_iff {mac : DlepMac} {p : Peer} {i : Nat} : waitsBehind mac p i = true ↔
    ∃ rp, p.trace[i]? = some (.enqueue rp) ∧
      rp.object ∈ ((p.queue mac).map ResponsePending.object).tail := by
  unfold waitsBehind
  split
  · next rp hrp => simp [hrp]
  · next hnot =>
    simp only [Bool.false_eq_true, false_iff]
    rintro ⟨rp, hrp, _⟩
    exact hnot rp hrp

/-- What it means for a step to overtake, read off the step and the queue before it. -/
theorem overtakes_iff {mac : DlepMac} {c : Called} {st : Step} : st.overtakes mac c = true ↔
    ∃ items pm, st.input = .destinationUpdate mac items ∧
      destinationMessage st.d "Destination_Update" mac items "destination_update" = .ok pm ∧
      ∃ i ∈ c.made, waitsBehind mac c.peer i = true := by
  obtain ⟨d, s, input⟩ := st
  cases input with
  | destinationUpdate about items =>
    simp only [Step.overtakes, decide_eq_true_eq, List.any_eq_true, Input.destinationUpdate.injEq]
    constructor
    · rintro ⟨rfl, hok, hbehind⟩
      cases hpm : destinationMessage d "Destination_Update" about items "destination_update" with
      | error e => simp [hpm, Except.isOk, Except.toBool] at hok
      | ok pm => exact ⟨items, pm, ⟨rfl, rfl⟩, hpm, hbehind⟩
    · rintro ⟨_, pm, ⟨rfl, rfl⟩, hpm, hbehind⟩
      exact ⟨rfl, by rw [hpm]; rfl, hbehind⟩
  | _ => simp [Step.overtakes]

/-- A message is made by a step at a position of the trace that is new. -/
theorem mem_madeBy {mac : DlepMac} {p : Peer} {st : Step} {i : Nat} :
    i ∈ madeBy mac p st ↔ p.trace.length ≤ i ∧
      ∃ e, (p.step st).trace[i]? = some e ∧ st.input.makes mac e = true := by
  simp only [madeBy, List.mem_filter, List.mem_range, decide_eq_true_eq, Option.any_eq_true]
  constructor
  · rintro ⟨_, hle, e, he, hmakes⟩
    exact ⟨hle, e, he, hmakes⟩
  · rintro ⟨hle, e, he, hmakes⟩
    exact ⟨(List.getElem?_eq_some_iff.1 he).1, hle, e, he, hmakes⟩

/-- A step sends the heads of the queue at once, as long as the peer is interested. -/
theorem promptAt_step {mac : DlepMac} {p : Peer} (st : Step)
    (hinterest : p.isNotInterested mac = false) (hp : PromptAt mac p) :
    PromptAt mac (p.step st) := by
  by_cases hmsg : st.input = .message
  · cases hnext : nextMessage st.d p with
    | none =>
      rw [step_of_nextMessage_none hmsg hnext]
      exact hp
    | some buf =>
      have hsignal : wp (handlePeerSignal st.d st.s buf)
          (fun _ q => PromptAt mac p → PromptAt mac q)
          (fun _ q => PromptAt mac p → PromptAt mac q) p :=
        closed_handlePeerSignal (R := fun p q => PromptAt mac p → PromptAt mac q)
          fun _ _ _ _ _ _ _ _ => promptAt_acceptResponse hinterest
      refine step_of_nextMessage hmsg hnext (fun q n hq => hq.congr rfl rfl rfl) ?_
      exact hsignal.mono (fun _ _ h => h hp) fun _ _ h => h hp
  · by_cases hreceive : ∃ bytes, st.input = .receive bytes
    · obtain ⟨bytes, hbytes⟩ := hreceive
      obtain ⟨d, s, input⟩ := st
      subst hbytes
      exact hp.congr rfl rfl rfl
    · exact closed_step (R := fun p q => PromptAt mac p → PromptAt mac q) hmsg
        (fun bytes h => hreceive ⟨bytes, h⟩) p hp

omit [AddressText] in
/-- A message about the destination is put on the queue of the destination. -/
theorem sendRequest_enqueues {cfg : ProtocolConfig} {now : Nat} {pm : ProtocolMessage}
    {mac : DlepMac} (hmac : pm.getMac cfg = .ok mac) {p : Peer} (hp : QueueInv p) :
    wp (sendRequest cfg now pm)
      (fun _ q => ∃ events, q.trace = p.trace ++ events ∧
        ∀ rp, .enqueue rp ∈ events → rp.destination = mac)
      (fun _ q => ∃ events, q.trace = p.trace ++ events ∧
        ∀ rp, .enqueue rp ∈ events → rp.destination = mac) p := by
  rw [sendRequest, wp_bind]
  refine wp_lift (fun rp hrp => ?_) fun _ _ => ⟨[], by simp, by simp⟩
  obtain ⟨q, hrun, htrace⟩ := @sendNew_trace now rp (ResponsePending.make_queued hrp) p hp
  refine wp_of_ok hrun ⟨_, htrace, fun rp' hmem => ?_⟩
  have hdest := ResponsePending.destination_of_make hmac hrp
  split at hmem
  · cases hmem
  · split at hmem
    · obtain rfl : rp' = { rp with uid := p.nextUid } := by simpa using hmem
      exact hdest
    · obtain rfl : rp' = { rp with uid := p.nextUid } := by simpa using hmem
      exact hdest

/-- What a call that brings a destination up puts on a queue is about the destination. -/
theorem destinationUp_enqueues {d : DlepView} {s : Surroundings} {mac : DlepMac} {items : DataItems}
    (htypes : d.cfg.TypesMac) {p : Peer} (hp : QueueInv p) :
    ∃ events, (after (destinationUp d s mac items) p).trace = p.trace ++ events ∧
      ∀ rp, .enqueue rp ∈ events → rp.destination = mac := by
  refine (wp_after (P := fun q : Peer => ∃ events, q.trace = p.trace ++ events ∧
    ∀ rp, .enqueue rp ∈ events → rp.destination = mac)).1 ?_
  simp only [destinationUp, wp_bind, wp_get]
  split
  · simp only [wp_bind, wp_modify]
    refine wp_lift (fun pm _ => ?_) fun _ _ => ⟨[], by simp, by simp⟩
    exact ⟨[.send pm.msgbuf], rfl, by simp⟩
  · rw [wp_bind]
    refine wp_lift (fun pm hpm => ?_) fun _ _ => ⟨[], by simp, by simp⟩
    exact sendRequest_enqueues (getMac_upMessage htypes hpm) hp

/-- Taking a destination down enqueues messages about it only. -/
theorem destinationDown_enqueues {d : DlepView} {s : Surroundings} {mac : DlepMac}
    {items : DataItems} (htypes : d.cfg.TypesMac) {p : Peer} (hp : QueueInv p) :
    ∃ events, (after (destinationDown d s mac items) p).trace = p.trace ++ events ∧
      ∀ rp, .enqueue rp ∈ events → rp.destination = mac := by
  refine (wp_after (P := fun q : Peer => ∃ events, q.trace = p.trace ++ events ∧
    ∀ rp, .enqueue rp ∈ events → rp.destination = mac)).1 ?_
  rw [destinationDown, wp_bind]
  refine wp_lift (fun pm hpm => ?_) fun _ _ => ⟨[], by simp, by simp⟩
  exact sendRequest_enqueues (getMac_destinationMessage htypes hpm) hp

/-- An update is sent at once to a peer that is interested, and puts nothing on a queue. -/
theorem trace_destinationUpdate {d : DlepView} {mac : DlepMac} {items : DataItems} {p : Peer}
    (hinterest : p.isNotInterested mac = false) :
    (after (destinationUpdate d mac items) p).trace = p.trace ++
      ((destinationMessage d "Destination_Update" mac items "destination_update").toOption.map
        fun pm => Event.send pm.msgbuf).toList := by
  refine (wp_after (P := fun q : Peer => q.trace = p.trace ++ _)).1 ?_
  simp only [destinationUpdate, wp_bind, wp_get, hinterest, Bool.false_eq_true, if_false]
  refine wp_lift (fun pm hpm => ?_) fun e he => ?_
  · rw [hpm]
    rfl
  · rw [he]
    exact (List.append_nil _).symm

omit [AddressText] in
/-- A move adds to the history. -/
theorem Move.trace_prefix {k : Kind} {p p' : Peer} (hm : Move k p p') : p.trace <+: p'.trace := by
  cases hm with
  | quiet _ _ _ _ _ htrace => rw [htrace]
  | interest macs => exact List.prefix_refl _
  | store _ => exact List.prefix_refl _
  | _ => exact List.prefix_append _ _

/-- What has happened has happened. -/
theorem trace_prefix_step {p : Peer} (st : Step) (hp : p.QueueOk) : p.trace <+: (p.step st).trace :=
  step_keeps (P := fun q => p.trace <+: q.trace) (fun _ _ _ hm h => h.trans hm.trace_prefix) st hp
    (List.prefix_refl _)

/-- A run adds to the history. -/
theorem trace_prefix_run {p : Peer} (steps : List Step) (hp : p.QueueOk) :
    p.trace <+: (run step p steps).trace :=
  (along_true.invariant (I := fun q : Peer => q.QueueOk ∧ p.trace <+: q.trace)
    (fun _ st hq _ => ⟨queueOk_step st hq.1, hq.2.trans (trace_prefix_step st hq.1)⟩)
    ⟨hp, List.prefix_refl _⟩).2

omit [AddressText] in
/-- What holds of the messages made so far: each of them was sent at once or put on the queue of the
destination. -/
structure Recorded (mac : DlepMac) (made : List Nat) (events : List Event) : Prop where
  sorted : made.Pairwise (· < ·)
  lt : ∀ i ∈ made, i < events.length
  event : ∀ i ∈ made, (∃ buf, events[i]? = some (.send buf)) ∨
    ∃ rp, events[i]? = some (.enqueue rp) ∧ rp.destination = mac

omit [AddressText] in
/-- Before a message was sent at once, those on the queue that were made before it were sent. -/
def Alone (made : List Nat) (events : List Event) : Prop :=
  ∀ i ∈ made, ∀ buf, events[i]? = some (.send buf) → ∀ j ∈ made, j < i → ∀ rp,
    events[j]? = some (.enqueue rp) → ∃ k < i, ∃ e, events[k]? = some e ∧ isTransmitOf rp e

omit [AddressText] in
/-- In a sorted list, the order of the elements is that of their places. -/
theorem rel_of_sorted {R : Nat → Nat → Prop} {l : List Nat} (hsorted : l.Pairwise (· < ·))
    (h : l.Pairwise R) {i j : Nat} (hi : i ∈ l) (hj : j ∈ l) (hij : i < j) : R i j := by
  obtain ⟨a, ha, rfl⟩ := List.getElem_of_mem hi
  obtain ⟨b, hb, rfl⟩ := List.getElem_of_mem hj
  rcases Nat.lt_trichotomy a b with hab | rfl | hab
  · exact List.pairwise_iff_getElem.1 h a b ha hb hab
  · exact absurd hij (lt_irrefl _)
  · have hlt := List.pairwise_iff_getElem.1 hsorted b a hb ha hab
    exact absurd hij (Nat.lt_asymm hlt)

omit [AddressText] in
/-- The messages on the queue keep their order, so that only those that are sent at once can come
too early. -/
theorem Recorded.inOrder_iff {mac : DlepMac} {made : List Nat} {events : List Event}
    (h : Recorded mac made events) (hlegal : Legal (history mac events))
    (hprompt : Prompt (history mac events)) : InOrder events made ↔ Alone made events := by
  constructor
  · intro horder i hi buf hbuf j hj hji rp hrp
    have hsent : sentAt events i = some i := by rw [sentAt, hbuf]
    obtain ⟨t', hlt, ht'⟩ := sentBefore_iff.1 (rel_of_sorted h.sorted horder hj hi hji) i hsent
    rw [sentAt, hrp] at ht'
    obtain ⟨hlength, hfirst, _⟩ := List.findIdx?_eq_some_iff_getElem.1 ht'
    exact ⟨t', hlt, events[t'], List.getElem?_eq_getElem hlength, hfirst⟩
  · intro halone
    refine h.sorted.imp_of_mem fun {i j} hi hj hij => sentBefore_iff.2 fun t ht => ?_
    unfold sentAt at ht ⊢
    rcases h.event j hj with ⟨buf, hbuf⟩ | ⟨rp, hrp, hdest⟩
    · rw [hbuf] at ht
      obtain rfl := Option.some.inj ht
      rcases h.event i hi with ⟨buf', hbuf'⟩ | ⟨rp', hrp', hdest'⟩
      · exact ⟨i, hij, by rw [hbuf']⟩
      · obtain ⟨k, hk, e, he, hsent⟩ := halone j hj buf hbuf i hi hij rp' hrp'
        obtain ⟨t', hle, ht'⟩ := exists_findIdx?_le he hsent
        exact ⟨t', by omega, by rw [hrp']; exact ht'⟩
    · rw [hrp] at ht
      rcases h.event i hi with ⟨buf', hbuf'⟩ | ⟨rp', hrp', hdest'⟩
      · have hlt := lt_of_findIdx? hlegal hrp hdest ht
        exact ⟨i, by omega, by rw [hbuf']⟩
      · obtain ⟨t', hlt, ht'⟩ := exists_findIdx?_lt hlegal hprompt hij hrp' hdest' hrp hdest ht
        exact ⟨t', hlt, by rw [hrp']; exact ht'⟩

omit [AddressText] in
/-- What was made stays as it was. -/
theorem Recorded.mono {mac : DlepMac} {made : List Nat} {events more : List Event}
    (h : Recorded mac made events) : Recorded mac made (events ++ more) := by
  refine ⟨h.sorted, fun i hi => ?_, fun i hi => ?_⟩
  · rw [List.length_append]
    have := h.lt i hi
    omega
  · rw [List.getElem?_append_left (h.lt i hi)]
    exact h.event i hi

/-- What a call puts on a queue is on the queue of the destination. -/
theorem destination_of_makes {mac : DlepMac} {p : Peer} {st : Step} (hp : QueueInv p)
    (htypes : st.d.cfg.TypesMac) {i : Nat} (hi : p.trace.length ≤ i) {rp : ResponsePending}
    (he : (p.step st).trace[i]? = some (.enqueue rp))
    (hmakes : st.input.makes mac (.enqueue rp) = true) : rp.destination = mac := by
  have hnew : ∀ {events}, (p.step st).trace = p.trace ++ events → .enqueue rp ∈ events := by
    intro events htrace
    rw [htrace, List.getElem?_append_right hi] at he
    exact List.mem_of_getElem? he
  obtain ⟨d, s, input⟩ := st
  obtain ⟨_, _, -, hsend⟩ | ⟨items, _, rfl | rfl, -⟩ := Input.makes_iff.1 hmakes
  · cases hsend
  · obtain ⟨events, htrace, hevents⟩ := @destinationUp_enqueues _ d s mac items htypes p hp
    exact hevents rp (hnew htrace)
  · obtain ⟨events, htrace, hevents⟩ := @destinationDown_enqueues _ d s mac items htypes p hp
    exact hevents rp (hnew htrace)

/-- One step keeps the record of the messages, and adds those that it makes. -/
theorem recorded_step {mac : DlepMac} {made : List Nat} {p : Peer} {st : Step} (hp : QueueInv p)
    (htypes : st.d.cfg.TypesMac) (h : Recorded mac made p.trace) :
    Recorded mac (made ++ madeBy mac p st) (p.step st).trace := by
  obtain ⟨more, hmore⟩ := trace_prefix_step st hp.ok
  have hold : Recorded mac made (p.step st).trace := hmore ▸ h.mono
  refine ⟨?_, fun i hi => ?_, fun i hi => ?_⟩
  · refine List.pairwise_append.2 ⟨h.sorted, List.pairwise_lt_range.filter _, fun i hi j hj => ?_⟩
    exact Nat.lt_of_lt_of_le (h.lt i hi) (mem_madeBy.1 hj).1
  · rcases List.mem_append.1 hi with hi | hi
    · exact hold.lt i hi
    · obtain ⟨_, e, he, _⟩ := mem_madeBy.1 hi
      exact (List.getElem?_eq_some_iff.1 he).1
  · rcases List.mem_append.1 hi with hi | hi
    · exact hold.event i hi
    · obtain ⟨hle, e, he, hmakes⟩ := mem_madeBy.1 hi
      obtain ⟨_, buf, -, rfl⟩ | ⟨_, rp, -, rfl⟩ := Input.makes_iff.1 hmakes
      · exact .inl ⟨buf, he⟩
      · exact .inr ⟨rp, he, destination_of_makes hp htypes hle he hmakes⟩

/-- What a step makes at once is a message of an update. -/
theorem exists_update_of_send {mac : DlepMac} {p : Peer} {st : Step} {buf : Bytes}
    (hmakes : st.input.makes mac (.send buf) = true) (hinterest : p.isNotInterested mac = false) :
    ∃ items, st.input = .destinationUpdate mac items ∧ (p.step st).trace = p.trace ++
      ((destinationMessage st.d "Destination_Update" mac items "destination_update").toOption.map
        fun pm => Event.send pm.msgbuf).toList := by
  obtain ⟨d, s, input⟩ := st
  obtain ⟨items, _, rfl, -⟩ | ⟨_, _, -, henqueue⟩ := Input.makes_iff.1 hmakes
  · exact ⟨items, rfl, trace_destinationUpdate hinterest⟩
  · cases henqueue

/-- What was there before a step is at the same place after it. -/
theorem getElem?_trace_step {p : Peer} (st : Step) (hp : p.QueueOk) {i : Nat}
    (hi : i < p.trace.length) :
    (p.step st).trace[i]? = p.trace[i]? := by
  obtain ⟨more, hmore⟩ := trace_prefix_step st hp
  rw [← hmore, List.getElem?_append_left hi]

omit [AddressText] in
/-- What was put on a queue by a call is on the queue of the destination. -/
theorem Recorded.destination {mac : DlepMac} {made : List Nat} {events : List Event}
    (h : Recorded mac made events) {i : Nat} (hi : i ∈ made) {rp : ResponsePending}
    (hrp : events[i]? = some (.enqueue rp)) : rp.destination = mac := by
  rcases h.event i hi with ⟨buf, hbuf⟩ | ⟨rp', hrp', hdest⟩
  · cases hrp.symm.trans hbuf
  · obtain rfl := Event.enqueue.inj (Option.some.inj (hrp.symm.trans hrp'))
    exact hdest

section

variable {mac : DlepMac} {p : Peer} {made : List Nat} {st : Step} (hp : PromptAt mac p)
  (hinterest : p.isNotInterested mac = false) (hrec : Recorded mac made p.trace)

include hp hinterest hrec

/-- If no message comes too early, the update of a step overtakes nothing. -/
theorem not_overtakes_of_alone (h : Alone (made ++ madeBy mac p st) (p.step st).trace) :
    st.overtakes mac ⟨p, made⟩ = false := by
  by_contra hover
  obtain ⟨items, pm, hinput, hpm, j, hj, hbehind⟩ :=
    overtakes_iff.1 (Bool.eq_true_of_not_eq_false hover)
  obtain ⟨rp, hrp, hwaits⟩ := waitsBehind_iff.1 hbehind
  have htrace : (p.step st).trace = p.trace ++ [.send pm.msgbuf] := by
    obtain ⟨d, s, _⟩ := st
    subst hinput
    have hsends := @trace_destinationUpdate _ d mac items p hinterest
    rwa [hpm] at hsends
  have hlast : (p.step st).trace[p.trace.length]? = some (.send pm.msgbuf) := by
    rw [htrace, List.getElem?_concat_length]
  have hmade : p.trace.length ∈ madeBy mac p st :=
    mem_madeBy.2 ⟨le_rfl, _, hlast, Input.makes_iff.2 (.inl ⟨items, _, hinput, rfl⟩)⟩
  have hold := getElem?_trace_step st hp.queues.ok (hrec.lt j hj)
  obtain ⟨k, hk, e, he, hsent⟩ := h _ (List.mem_append_right _ hmade) _ hlast j
    (List.mem_append_left _ hj) (hrec.lt j hj) rp (hold.trans hrp)
  rw [getElem?_trace_step st hp.queues.ok hk] at he
  -- what waits behind another message was not sent before
  refine (hp.queues.legal mac).not_mem_sends_of_mem_tail ?_
    (mem_sends_of_isTransmitOf (List.mem_of_getElem? he) hsent (hrec.destination hj hrp))
  rw [hp.waiting]
  exact hwaits

omit hinterest in
/-- Before an update that overtakes nothing, all that was made was sent. -/
theorem sent_of_not_overtakes (hst : st.overtakes mac ⟨p, made⟩ = false) {items : DataItems}
    {pm : ProtocolMessage} (hinput : st.input = .destinationUpdate mac items)
    (hpm : destinationMessage st.d "Destination_Update" mac items "destination_update" = .ok pm)
    {j : Nat} (hj : j ∈ made) {rp : ResponsePending} (hrp : p.trace[j]? = some (.enqueue rp)) :
    ∃ k < p.trace.length, ∃ e, p.trace[k]? = some e ∧ isTransmitOf rp e := by
  have hput := mem_puts_history (List.mem_of_getElem? hrp) (hrec.destination hj hrp)
  rcases hp.prompt.sent _ hput with hsent | hbehind
  · obtain ⟨sent, hmem, _, hobject⟩ := mem_sends_history.1 hsent
    obtain ⟨k, hk, htransmit⟩ := List.getElem_of_mem hmem
    refine ⟨k, hk, .transmit sent, ?_, by simpa [isTransmitOf] using hobject⟩
    rw [List.getElem?_eq_getElem hk, htransmit]
  · rw [hp.waiting] at hbehind
    have hover : st.overtakes mac ⟨p, made⟩ = true :=
      overtakes_iff.2 ⟨items, pm, hinput, hpm, j, hj, waitsBehind_iff.2 ⟨rp, hrp, hbehind⟩⟩
    rw [hst] at hover
    cases hover

/-- A step decides whether its own message comes too early. -/
theorem alone_step_iff (halone : Alone made p.trace) :
    Alone (made ++ madeBy mac p st) (p.step st).trace ↔ st.overtakes mac ⟨p, made⟩ = false := by
  refine ⟨not_overtakes_of_alone hp hinterest hrec, fun hst i hi buf hbuf j hj hji rp hrp => ?_⟩
  have hsame : ∀ {k}, k < p.trace.length → (p.step st).trace[k]? = p.trace[k]? :=
    getElem?_trace_step st hp.queues.ok
  have hearlier : j < p.trace.length → j ∈ made := fun hlt =>
    (List.mem_append.1 hj).resolve_right fun hnew => absurd (mem_madeBy.1 hnew).1 (by omega)
  rcases List.mem_append.1 hi with hi | hi
  · have hlt := hrec.lt i hi
    rw [hsame hlt] at hbuf
    rw [hsame (by omega)] at hrp
    obtain ⟨k, hk, e, he, hsent⟩ := halone i hi buf hbuf j (hearlier (by omega)) hji rp hrp
    exact ⟨k, hk, e, (hsame (by omega)).trans he, hsent⟩
  · obtain ⟨hle, e, he, hmakes⟩ := mem_madeBy.1 hi
    obtain rfl : e = .send buf := Option.some.inj (he.symm.trans hbuf)
    obtain ⟨items, hinput, htrace⟩ := exists_update_of_send hmakes hinterest
    cases hpm : destinationMessage st.d "Destination_Update" mac items "destination_update" with
    | error err =>
      rw [hpm] at htrace
      have hnone : (p.step st).trace = p.trace := htrace.trans (List.append_nil _)
      have hlt := (List.getElem?_eq_some_iff.1 (hnone ▸ hbuf)).1
      omega
    | ok pm =>
      rw [hpm] at htrace
      have hone : (p.step st).trace = p.trace ++ [.send pm.msgbuf] := htrace
      have hlength := (List.getElem?_eq_some_iff.1 (hone ▸ hbuf)).1
      rw [List.length_append, List.length_singleton] at hlength
      rw [hsame (by omega)] at hrp
      obtain ⟨k, hk, e, he, hsent⟩ :=
        sent_of_not_overtakes hp hrec hst hinput hpm (hearlier (by omega)) hrp
      exact ⟨k, by omega, e, (hsame hk).trans he, hsent⟩

end

/-- What a peer keeps of the messages that the calls have made. -/
structure Called.Kept (mac : DlepMac) (c : Called) : Prop where
  prompt : PromptAt mac c.peer
  recorded : Recorded mac c.made c.peer.trace

omit [AddressText] in
/-- The messages are in order exactly if none was sent at once while earlier ones waited. -/
theorem Called.Kept.inOrder_iff {mac : DlepMac} {c : Called} (h : c.Kept mac) :
    InOrder c.peer.trace c.made ↔ Alone c.made c.peer.trace :=
  h.recorded.inOrder_iff (h.prompt.queues.legal mac) h.prompt.prompt

/-- One step keeps the invariant, as long as the peer is interested. -/
theorem Called.Kept.step {mac : DlepMac} {c : Called} {st : Step} (h : c.Kept mac)
    (htypes : st.d.cfg.TypesMac) (hinterest : c.peer.isNotInterested mac = false) :
    (c.step mac st).Kept mac :=
  ⟨promptAt_step st hinterest h.prompt, recorded_step h.prompt.queues htypes h.recorded⟩

omit [AddressText] in
/-- What does not come too early in the end did not before. -/
theorem alone_of_append {mac : DlepMac} {made new : List Nat} {events more : List Event}
    (hrec : Recorded mac made events) (h : Alone (made ++ new) (events ++ more)) :
    Alone made events := by
  intro i hi buf hbuf j hj hji rp hrp
  have hlt := hrec.lt i hi
  have hsame : ∀ {k}, k < events.length → (events ++ more)[k]? = events[k]? :=
    List.getElem?_append_left
  obtain ⟨k, hk, e, he, hsent⟩ := h i (List.mem_append_left _ hi) buf ((hsame hlt).trans hbuf) j
    (List.mem_append_left _ hj) hji rp ((hsame (by omega)).trans hrp)
  rw [hsame (by omega)] at he
  exact ⟨k, hk, e, he, hsent⟩

/-- In every run in which the peer is interested in the destination: the messages about the
destination are first sent in the order of the calls exactly if no update of which a message can
be composed is made while a message of an earlier call waits behind another one. -/
theorem inOrder_iff_not_overtakes {cfg : ProtocolConfig} {peerId : PeerId} {now : Nat} {p : Peer}
    {steps : List Step} {mac : DlepMac} (hp : Peer.create cfg peerId now = .ok p)
    (htypes : ∀ st ∈ steps, st.d.cfg.TypesMac)
    (hinterest : Along step (fun q _ => q.isNotInterested mac = false) p steps) :
    InOrder (run step p steps).trace (calls mac p steps) ↔
      Along (Called.step mac) (fun c st => st.overtakes mac c = false) { peer := p } steps := by
  have hmeets : Along (Called.step mac)
      (fun c st => c.peer.isNotInterested mac = false ∧ st.d.cfg.TypesMac) { peer := p } steps :=
    Along.and_inputs
      ((along_of_map (P := fun (q : Peer) (_ : Step) => q.isNotInterested mac = false)
        (f := Called.peer) fun _ _ => rfl).2 hinterest) htypes
  have hstart : Called.Kept mac { peer := p } := by
    refine ⟨⟨queueInv_of_create hp, ?_⟩, ⟨.nil, by simp, by simp⟩⟩
    obtain rfl := create_ok hp
    exact .nil
  have hkeeps : ∀ pre, pre <+: steps → (run (Called.step mac) { peer := p } pre).Kept mac := by
    rintro pre ⟨post, rfl⟩
    exact (along_append.1 hmeets).1.invariant (fun c st hc hst => hc.step hst.2 hst.1) hstart
  have hiff := forall_prefix_iff_along (R := fun c : Called => Alone c.made c.peer.trace)
    (fun c st hc halone hst =>
      ⟨hc.step hst.2 hst.1, alone_step_iff hc.prompt hst.1 hc.recorded halone⟩)
    hmeets hstart (by simp [Alone])
  rw [← hiff]
  have hrun : run (Called.step mac) { peer := p } steps = ⟨run step p steps, calls mac p steps⟩ :=
    run_called
  have hwhole := (hkeeps steps (List.prefix_refl _)).inOrder_iff
  rw [hrun] at hwhole
  rw [hwhole]
  constructor
  · rintro halone pre ⟨post, rfl⟩
    have hpre := hkeeps pre (List.prefix_append _ _)
    rw [run_called, List.nil_append] at hpre ⊢
    obtain ⟨more, hmore⟩ := trace_prefix_run post hpre.prompt.queues.ok
    rw [calls_append, run_append, ← hmore] at halone
    exact alone_of_append hpre.recorded halone
  · intro hall
    have hend := hall steps (List.prefix_refl _)
    rwa [hrun] at hend

end

attribute [local instance] plainText

/-- In a session, a modem brings a destination up, and down and up again before the router has
answered. -/
def upDownUpAgain : List Input :=
  [.receive sessionInitialization, .message, .destinationUp [10, 11] [],
    .destinationDown [10, 11] [], .destinationUp [10, 11] []]

/-- The first two messages are answered, and the destination is updated; it is updated again while a
request for link characteristics waits behind the third message. -/
def updateAfterAnswers : List Step :=
  bareSteps true (upDownUpAgain ++ [.receive ProtocolMessage.upResponse.msgbuf, .message,
    .receive downResponse, .message, .destinationUpdate [10, 11] [],
    .linkCharacteristicsRequest [10, 11] [.mk 16 (.u64 7)], .destinationUpdate [10, 11] []])

/-- The update is made while the last message is in flight; and, before that, while a request for
link characteristics waits behind it. -/
theorem inOrder_iff_not_overtakes_updateAfterAnswers :
    (calls [10, 11] barePeer updateAfterAnswers).length = 5 ∧
      InOrder (run step barePeer updateAfterAnswers).trace
        (calls [10, 11] barePeer updateAfterAnswers) := by
  have htypes : ∀ st ∈ updateAfterAnswers, st.d.cfg.TypesMac := by
    intro st hst
    obtain ⟨_, _, rfl⟩ := List.mem_map.1 hst
    rfl
  obtain ⟨hcalls, hinterest, hover⟩ :
      (calls [10, 11] barePeer updateAfterAnswers).length = 5 ∧
      Along step (fun q _ => q.isNotInterested [10, 11] = false) barePeer updateAfterAnswers ∧
      Along (Called.step [10, 11])
        (fun c st => st.overtakes [10, 11] c = false) { peer := barePeer }
        updateAfterAnswers := by
    decide +kernel
  exact ⟨hcalls, (@inOrder_iff_not_overtakes plainText rfc8175 (str "peer") 0 barePeer
    updateAfterAnswers [10, 11] rfl htypes hinterest).2 hover⟩

/-- The destination is updated before the first message is answered. -/
def updateBeforeAnswers : List Step :=
  bareSteps true (upDownUpAgain ++ [.destinationUpdate [10, 11] []])

/-- The update is sent, and the two messages before it are not. -/
theorem updateBeforeAnswers_overtakes :
    Peer.create rfc8175 (str "peer") 0 = .ok barePeer ∧
      (run step barePeer updateBeforeAnswers).pstate = .inSession ∧
      Along step (fun q _ => q.isNotInterested [10, 11] = false) barePeer updateBeforeAnswers ∧
      ¬ InOrder (run step barePeer updateBeforeAnswers).trace
        (calls [10, 11] barePeer updateBeforeAnswers) := by
  refine ⟨rfl, ?_⟩
  decide +kernel

end Peer

end Dlep
