import Dlep.Peer.InFlight
import Dlep.Peer.Standing
import Dlep.Peer.Termination

/-!
# Retransmissions

A message that expects a response is sent again if its response is late, but not too often. The
times at which it was sent are recorded in the run, and the message itself knows their number and
the last one.
-/

namespace Dlep

open Std Calls Runs

namespace Peer

/-- Events, and when they happened. -/
abbrev Timeline := List (Nat × Event)

/-- The times at which an object was sent. -/
def timesOf (uid : Nat) (h : Timeline) : List Nat :=
  h.filterMap fun
    | (t, .transmit rp) => if rp.uid = uid then some t else none
    | _ => none

/-- The events of a call at one time. -/
def stamp (now : Nat) (events : List Event) : Timeline := events.map fun e => (now, e)

section

variable {uid now : Nat} {h h' : Timeline}

/-- The times of two pieces of a timeline are those of the first and then those of the second. -/
theorem timesOf_append : timesOf uid (h ++ h') = timesOf uid h ++ timesOf uid h' :=
  List.filterMap_append

/-- Events that transmit nothing have no times. -/
theorem timesOf_stamp {events : List Event} (hidle : ∀ e ∈ events, ∀ rp, e ≠ .transmit rp) :
    timesOf uid (stamp now events) = [] := by
  rw [timesOf, List.filterMap_eq_nil_iff]
  intro te hte
  obtain ⟨e, he, rfl⟩ := List.mem_map.1 hte
  cases e with
  | transmit rp => exact absurd rfl (hidle _ he rp)
  | _ => rfl

/-- One transmission has one time, if it is of the object. -/
theorem timesOf_transmit {rp : ResponsePending} :
    timesOf uid (stamp now [.transmit rp]) = if rp.uid = uid then [now] else [] := by
  by_cases hid : rp.uid = uid
  · simp [stamp, timesOf, hid]
  · simp [stamp, timesOf, hid]

end

/-- Times that are far apart, and one more. -/
theorem pairwise_concat {ts : List Nat} {gap now : Nat} (h : ts.Pairwise fun t t' => t + gap < t')
    (hlast : ∀ t ∈ ts.getLast?, t + gap < now) :
    (ts ++ [now]).Pairwise fun t t' => t + gap < t' := by
  refine List.pairwise_append.2 ⟨h, List.pairwise_singleton _ _, fun t ht t' ht' => ?_⟩
  obtain rfl := List.mem_singleton.1 ht'
  induction ts using List.reverseRecOn with
  | nil => cases ht
  | append_singleton ts last _ =>
    have hnow := hlast last List.getLast?_concat
    rcases List.mem_append.1 ht with hearlier | heq
    · have hgap := (List.pairwise_append.1 h).2.2 t hearlier last (List.mem_singleton_self _)
      omega
    · rwa [List.mem_singleton.1 heq]

/-- A queue: the message at its head knows how often it was sent and when it was sent last, and the
others were not sent. -/
structure PacedQueue (h : Timeline) (mac : DlepMac) (q : List ResponsePending) : Prop where
  ne_nil : q ≠ []
  member : ∀ rp ∈ q, rp.queued = true ∧ rp.destination = mac
  distinct : (q.map ResponsePending.uid).Nodup
  head : ∀ head ∈ q.head?, head.sendTries.toNat = (timesOf head.uid h).length ∧
    ∀ t ∈ (timesOf head.uid h).getLast?, head.sendTime = t
  rest : ∀ rp ∈ q.tail, rp.sendTries = 0 ∧ timesOf rp.uid h = []

/-- Nothing was sent too often or too soon, and the queues know how often and when. -/
structure Paced (limit timeout : UInt32) (h : Timeline) (p : Peer) : Prop where
  queue : ∀ (mac : DlepMac) (q : List ResponsePending), p.responsesPending[mac]? = some q →
    PacedQueue h mac q ∧ ∀ rp ∈ q, rp.uid < p.nextUid
  apart : ∀ (mac mac' : DlepMac) (q q' : List ResponsePending), p.responsesPending[mac]? = some q →
    p.responsesPending[mac']? = some q' → ∀ rp ∈ q, ∀ rp' ∈ q', rp.uid = rp'.uid → mac = mac'
  unsent : ∀ uid, p.nextUid ≤ uid → timesOf uid h = []
  few : ∀ uid, (timesOf uid h).length ≤ limit.toNat
  spaced : ∀ uid, (timesOf uid h).Pairwise fun t t' => t + timeout.toNat < t'

section

variable {limit timeout : UInt32} {h h' : Timeline} {p p' : Peer} {mac : DlepMac}
  {q : List ResponsePending}

/-- Queues that know the pace are good. -/
theorem Paced.queueOk (hp : Paced limit timeout h p) : p.QueueOk := by
  intro mac q hq
  obtain ⟨hpaced, _⟩ := hp.queue mac q hq
  exact ⟨hpaced.ne_nil, hpaced.member⟩

/-- Only the times of the objects of the queue matter. -/
theorem PacedQueue.congr (hq : PacedQueue h mac q)
    (hsent : ∀ rp ∈ q, timesOf rp.uid h' = timesOf rp.uid h) :
    PacedQueue h' mac q where
  ne_nil := hq.ne_nil
  member := hq.member
  distinct := hq.distinct
  head head hhead := by
    rw [hsent head (List.mem_of_head? hhead)]
    exact hq.head head hhead
  rest rp hrp := by
    rw [hsent rp (List.mem_of_mem_tail hrp)]
    exact hq.rest rp hrp

/-- Nothing was sent, and the queues are as they were. -/
theorem Paced.idle (hp : Paced limit timeout h p)
    (hqueues : p'.responsesPending = p.responsesPending) (huid : p.nextUid ≤ p'.nextUid)
    (hsent : ∀ uid, timesOf uid h' = timesOf uid h) :
    Paced limit timeout h' p' where
  queue mac q hq := by
    rw [hqueues] at hq
    obtain ⟨hpaced, hfresh⟩ := hp.queue mac q hq
    exact ⟨hpaced.congr fun rp _ => hsent rp.uid,
      fun rp hrp => Nat.lt_of_lt_of_le (hfresh rp hrp) huid⟩
  apart mac mac' q q' hq hq' := by
    rw [hqueues] at hq hq'
    exact hp.apart mac mac' q q' hq hq'
  unsent uid hle := by
    rw [hsent]
    exact hp.unsent uid (Nat.le_trans huid hle)
  few uid := by
    rw [hsent]
    exact hp.few uid
  spaced uid := by
    rw [hsent]
    exact hp.spaced uid

/-- One queue is replaced, by objects that were in it or that are new, and nothing that is not in
it was sent. -/
theorem Paced.insert (hp : Paced limit timeout h p)
    (hqueues : ∀ key : DlepMac, p'.responsesPending[key]? =
      if mac = key then some q else p.responsesPending[key]?)
    (hq : PacedQueue h' mac q)
    (hold : ∀ rp ∈ q, rp.uid < p'.nextUid ∧
      ((∃ q', p.responsesPending[mac]? = some q' ∧ ∃ rp' ∈ q', rp'.uid = rp.uid) ∨
        p.nextUid ≤ rp.uid))
    (huid : p.nextUid ≤ p'.nextUid)
    (hsent : ∀ uid, timesOf uid h' = timesOf uid h ∨ (∃ rp ∈ q, rp.uid = uid) ∧
      (timesOf uid h').length ≤ limit.toNat ∧
      (timesOf uid h').Pairwise fun t t' => t + timeout.toNat < t') :
    Paced limit timeout h' p' := by
  -- nothing in another queue is in this one
  have hother : ∀ (key : DlepMac) (q' : List ResponsePending), mac ≠ key →
      p.responsesPending[key]? = some q' → ∀ rp' ∈ q', ∀ rp ∈ q, rp.uid ≠ rp'.uid := by
    intro key q' hne hq' rp' hrp' rp hrp heq
    rcases (hold rp hrp).2 with ⟨q'', hq'', rp'', hrp'', heq'⟩ | hnew
    · exact hne (hp.apart _ _ _ _ hq'' hq' rp'' hrp'' rp' hrp' (heq'.trans heq))
    · have hlt := (hp.queue key q' hq').2 rp' hrp'
      omega
  refine ⟨fun key q' hq' => ?_, fun key key' q₁ q₂ hq₁ hq₂ rp₁ hrp₁ rp₂ hrp₂ heq => ?_,
    fun uid hle => ?_, fun uid => ?_, fun uid => ?_⟩
  · rw [hqueues] at hq'
    split at hq'
    · next hkey =>
      obtain rfl := Option.some.inj hq'
      exact ⟨hkey ▸ hq, fun rp hrp => (hold rp hrp).1⟩
    · next hne =>
      obtain ⟨hpaced, hfresh⟩ := hp.queue key q' hq'
      refine ⟨hpaced.congr fun rp' hrp' => ?_,
        fun rp hrp => Nat.lt_of_lt_of_le (hfresh rp hrp) huid⟩
      rcases hsent rp'.uid with hsame | ⟨⟨rp, hrp, heq⟩, _⟩
      · exact hsame
      · exact absurd heq (hother key q' hne hq' rp' hrp' rp hrp)
  · rw [hqueues] at hq₁ hq₂
    split at hq₁
    · next hkey =>
      split at hq₂
      · next hkey' => exact hkey.symm.trans hkey'
      · next hne =>
        obtain rfl := Option.some.inj hq₁
        exact absurd heq (hother key' q₂ hne hq₂ rp₂ hrp₂ rp₁ hrp₁)
    · next hne =>
      split at hq₂
      · next hkey' =>
        obtain rfl := Option.some.inj hq₂
        exact absurd heq.symm (hother key q₁ hne hq₁ rp₁ hrp₁ rp₂ hrp₂)
      · exact hp.apart _ _ _ _ hq₁ hq₂ rp₁ hrp₁ rp₂ hrp₂ heq
  · rcases hsent uid with hsame | ⟨⟨rp, hrp, rfl⟩, _⟩
    · rw [hsame]
      exact hp.unsent uid (Nat.le_trans huid hle)
    · exact absurd (hold rp hrp).1 (Nat.not_lt.2 hle)
  · rcases hsent uid with hsame | ⟨_, hfew, _⟩
    · rw [hsame]
      exact hp.few uid
    · exact hfew
  · rcases hsent uid with hsame | ⟨_, _, hspaced⟩
    · rw [hsame]
      exact hp.spaced uid
    · exact hspaced

/-- The head of a queue is sent: not too often, and not too soon. -/
theorem Paced.transmit {now : Nat} {head : ResponsePending} {rest : List ResponsePending}
    (hp : Paced limit timeout h p)
    (hqueue : p.responsesPending[head.destination]? = some (head :: rest))
    (htries : head.sendTries < limit)
    (hlate : ∀ t ∈ (timesOf head.uid h).getLast?, t + timeout.toNat < now) :
    Paced limit timeout (h ++ stamp now [.transmit head])
      { p with
        responsesPending := p.responsesPending.insert head.destination
          ({ head with sendTime := now, sendTries := head.sendTries + 1 } :: rest)
        trace := p.trace ++ [.transmit head] } := by
  obtain ⟨hpaced, hfresh⟩ := hp.queue _ _ hqueue
  obtain ⟨hcount, hlast⟩ := hpaced.head head rfl
  have hlimit : head.sendTries.toNat < limit.toNat := UInt32.lt_iff_toNat_lt.1 htries
  have hself : timesOf head.uid (h ++ stamp now [.transmit head]) =
      timesOf head.uid h ++ [now] := by
    rw [timesOf_append, timesOf_transmit, if_pos rfl]
  have hothers : ∀ uid, head.uid ≠ uid →
      timesOf uid (h ++ stamp now [.transmit head]) = timesOf uid h := by
    intro uid hne
    rw [timesOf_append, timesOf_transmit, if_neg hne, List.append_nil]
  have hdistinct : ∀ rp ∈ rest, head.uid ≠ rp.uid := fun rp hrp heq =>
    (List.nodup_cons.1 hpaced.distinct).1 (List.mem_map.2 ⟨rp, hrp, heq.symm⟩)
  refine hp.insert (q := { head with sendTime := now, sendTries := head.sendTries + 1 } :: rest)
    getElem?_insert_queue ⟨by simp, ?_, hpaced.distinct, fun rp hrp => ?_, fun rp hrp => ?_⟩
    (fun rp hrp => ⟨?_, .inl ⟨_, hqueue, ?_⟩⟩) le_rfl fun uid => ?_
  · exact List.forall_mem_cons.2 (List.forall_mem_cons.1 hpaced.member)
  · obtain rfl := Option.some.inj hrp
    dsimp only
    rw [hself, List.length_append, List.getLast?_concat, ← hcount]
    refine ⟨?_, fun t ht => Option.some.inj ht⟩
    have hbig := limit.toNat_lt
    rw [UInt32.toNat_add, UInt32.toNat_one, Nat.mod_eq_of_lt (by omega), List.length_singleton]
  · rw [hothers rp.uid (hdistinct rp hrp)]
    exact hpaced.rest rp hrp
  · rcases List.mem_cons.1 hrp with rfl | hrest
    · exact hfresh head (List.mem_cons_self ..)
    · exact hfresh rp (List.mem_cons_of_mem _ hrest)
  · rcases List.mem_cons.1 hrp with rfl | hrest
    · exact ⟨head, List.mem_cons_self .., rfl⟩
    · exact ⟨rp, List.mem_cons_of_mem _ hrest, rfl⟩
  · rcases eq_or_ne head.uid uid with rfl | hne
    · refine .inr ⟨⟨_, List.mem_cons_self .., rfl⟩, ?_, ?_⟩
      · rw [hself, List.length_append, ← hcount, List.length_singleton]
        omega
      · rw [hself]
        exact pairwise_concat (hp.spaced _) hlate
    · exact .inl (hothers uid hne)

/-- A new message is put on its queue. -/
theorem Paced.enqueue {now : Nat} {rp : ResponsePending} (hp : Paced limit timeout h p)
    (htries : rp.sendTries = 0) (huid : rp.uid = p.nextUid) :
    Paced limit timeout (h ++ stamp now [.enqueue rp])
      { p with
        nextUid := p.nextUid + 1
        responsesPending := p.responsesPending.insert rp.destination
          ((p.responsesPending[rp.destination]?).getD [] ++ [{ rp with queued := true }])
        trace := p.trace ++ [.enqueue rp] } := by
  have hsent : ∀ uid, timesOf uid (h ++ stamp now [.enqueue rp]) = timesOf uid h := by
    intro uid
    rw [timesOf_append, timesOf_stamp (by simp), List.append_nil]
  have hnew : timesOf rp.uid h = [] := hp.unsent _ huid.ge
  have hfresh : ∀ rp' ∈ (p.responsesPending[rp.destination]?).getD [], rp'.uid < p.nextUid := by
    intro rp' hrp'
    cases hold : p.responsesPending[rp.destination]? with
    | none =>
      rw [hold] at hrp'
      cases hrp'
    | some q =>
      rw [hold] at hrp'
      exact (hp.queue _ _ hold).2 rp' hrp'
  refine hp.insert (q := (p.responsesPending[rp.destination]?).getD [] ++
    [{ rp with queued := true }])
    getElem?_insert_queue ?_ (fun rp' hrp' => ?_) (Nat.le_succ _) fun uid => .inl (hsent uid)
  · refine PacedQueue.congr ?_ fun rp' _ => hsent rp'.uid
    cases hold : p.responsesPending[rp.destination]? with
    | none =>
      refine ⟨by simp, by simp, by simp, fun head hhead => ?_, nofun⟩
      obtain rfl := Option.some.inj hhead
      simp [hnew, htries]
    | some q =>
      obtain ⟨hpaced, _⟩ := hp.queue _ _ hold
      rw [hold] at hfresh
      obtain ⟨head, rest, rfl⟩ := List.exists_cons_of_ne_nil hpaced.ne_nil
      refine ⟨by simp, fun rp' hrp' => ?_, ?_, hpaced.head, fun rp' hrp' => ?_⟩
      · rcases List.mem_append.1 hrp' with hmem | hlast
        · exact hpaced.member rp' hmem
        · obtain rfl := List.mem_singleton.1 hlast
          exact ⟨rfl, rfl⟩
      · rw [Option.getD_some, List.map_append, List.nodup_append]
        refine ⟨hpaced.distinct, by simp, fun a ha b hb hab => ?_⟩
        obtain ⟨rp', hrp', rfl⟩ := List.mem_map.1 ha
        obtain rfl : b = rp.uid := by simpa using hb
        have hlt := hfresh rp' hrp'
        omega
      · rcases List.mem_append.1 (show rp' ∈ rest ++ _ from hrp') with hmem | hlast
        · exact hpaced.rest rp' hmem
        · obtain rfl := List.mem_singleton.1 hlast
          exact ⟨htries, hnew⟩
  · rcases List.mem_append.1 hrp' with hmem | hlast
    · refine ⟨Nat.lt_succ_of_lt (hfresh rp' hmem), ?_⟩
      cases hold : p.responsesPending[rp.destination]? with
      | none =>
        rw [hold] at hmem
        cases hmem
      | some q =>
        rw [hold] at hmem
        exact .inl ⟨q, rfl, rp', hmem, rfl⟩
    · obtain rfl := List.mem_singleton.1 hlast
      refine ⟨?_, .inr huid.ge⟩
      show rp.uid < p.nextUid + 1
      omega

/-- The only message of a queue is taken off. -/
theorem Paced.erase (hp : Paced limit timeout h p)
    (hqueues : ∀ key : DlepMac, p'.responsesPending[key]? =
      if mac = key then none else p.responsesPending[key]?)
    (huid : p'.nextUid = p.nextUid) (hsent : ∀ uid, timesOf uid h' = timesOf uid h) :
    Paced limit timeout h' p' := by
  have hold : ∀ (key : DlepMac) (q : List ResponsePending), p'.responsesPending[key]? = some q →
      p.responsesPending[key]? = some q := by
    intro key q hq
    rw [hqueues] at hq
    split at hq
    · cases hq
    · exact hq
  refine ⟨fun key q hq => ?_, fun key key' q q' hq hq' => ?_, fun uid hle => ?_,
    fun uid => ?_, fun uid => ?_⟩
  · obtain ⟨hpaced, hfresh⟩ := hp.queue key q (hold key q hq)
    exact ⟨hpaced.congr fun rp _ => hsent rp.uid, huid ▸ hfresh⟩
  · exact hp.apart key key' q q' (hold key q hq) (hold key' q' hq')
  · rw [hsent]
    exact hp.unsent uid (huid ▸ hle)
  · rw [hsent]
    exact hp.few uid
  · rw [hsent]
    exact hp.spaced uid

/-- The head of a queue is taken off, and the next message becomes the head. -/
theorem Paced.pop {head next : ResponsePending} {rest : List ResponsePending}
    (hp : Paced limit timeout h p) (hqueue : p.responsesPending[mac]? = some (head :: next :: rest))
    (hqueues : ∀ key : DlepMac, p'.responsesPending[key]? =
      if mac = key then some (next :: rest) else p.responsesPending[key]?)
    (huid : p'.nextUid = p.nextUid) (hsent : ∀ uid, timesOf uid h' = timesOf uid h) :
    Paced limit timeout h' p' := by
  obtain ⟨hpaced, hfresh⟩ := hp.queue _ _ hqueue
  have htail : PacedQueue h mac (next :: rest) := by
    refine ⟨by simp, (List.forall_mem_cons.1 hpaced.member).2,
      (List.nodup_cons.1 hpaced.distinct).2, fun head' hhead' => ?_, fun rp hrp =>
        hpaced.rest rp (List.mem_cons_of_mem _ hrp)⟩
    obtain rfl := Option.some.inj hhead'
    obtain ⟨htries, hnone⟩ := hpaced.rest next (List.mem_cons_self ..)
    simp [htries, hnone]
  refine hp.insert hqueues (htail.congr fun rp _ => hsent rp.uid)
    (fun rp hrp => ⟨?_, .inl ?_⟩) huid.ge
    fun uid => .inl (hsent uid)
  · rw [huid]
    exact hfresh rp (List.mem_cons_of_mem _ hrp)
  · exact ⟨_, hqueue, rp, List.mem_cons_of_mem _ hrp, rfl⟩

end

/-! ## Calls -/

/-- The call goes on from a history, and nothing is sent too often or too soon. -/
def GoesOn (s : Surroundings) (h : Timeline) (p q : Peer) : Prop :=
  ∃ events, q.trace = p.trace ++ events ∧ Paced s.sendTries s.ackTimeout (h ++ stamp s.now events) q

/-- The call keeps the pace. -/
def KeepsPace (s : Surroundings) (p q : Peer) : Prop :=
  ∀ h, Paced s.sendTries s.ackTimeout h p → GoesOn s h p q

section

variable {s : Surroundings} {p : Peer}

/-- Nothing was sent. -/
theorem goesOn_idle {h : Timeline} {q : Peer} {events : List Event}
    (hp : Paced s.sendTries s.ackTimeout h p) (htrace : q.trace = p.trace ++ events)
    (hidle : ∀ e ∈ events, ∀ rp, e ≠ .transmit rp)
    (hqueues : q.responsesPending = p.responsesPending)
    (huid : p.nextUid ≤ q.nextUid) : GoesOn s h p q := by
  refine ⟨events, htrace, hp.idle hqueues huid fun uid => ?_⟩
  rw [timesOf_append, timesOf_stamp hidle, List.append_nil]

instance : Std.Refl (KeepsPace s) where
  refl _ _ hp := goesOn_idle hp (List.append_nil _).symm (by simp) rfl le_rfl

instance : IsTrans Peer (KeepsPace s) where
  trans p q r hpq hqr h hp := by
    obtain ⟨events, htrace, hq⟩ := hpq h hp
    obtain ⟨events', htrace', hr⟩ := hqr _ hq
    refine ⟨events ++ events', by rw [htrace', htrace, List.append_assoc], ?_⟩
    rwa [stamp, List.map_append, ← List.append_assoc]

instance : Idle (KeepsPace s) where
  other p q hqueues huid _ hevents h hp := by
    obtain ⟨events, htrace, hidle⟩ := hevents
    refine goesOn_idle hp htrace (fun e he rp heq => ?_) hqueues huid.ge
    subst heq
    cases hidle _ he

/-- A new message has not been sent before. -/
theorem keepsPace_sendNew (htries : 0 < s.sendTries) {rp : ResponsePending}
    (hqueued : rp.queued = false)
    (hnew : rp.sendTries = 0) : Within (KeepsPace s) (sendNew s.now rp) := by
  intro p h hp
  refine wp_after.1 ?_
  have hfresh : ¬ ({ rp with uid := p.nextUid } :
    ResponsePending).queued = true := by simp [hqueued]
  simp only [sendNew, sendMessageExpectingResponse, enqueue, sendIfHead, if_neg hfresh, wp_bind,
    wp_get, wp_modify]
  split
  · exact goesOn_idle hp (List.append_nil _).symm (by simp) rfl (Nat.le_succ _)
  · have hput : Paced s.sendTries s.ackTimeout
        (h ++ stamp s.now [.enqueue { rp with uid := p.nextUid }]) _ :=
      hp.enqueue hnew rfl
    simp only [wp_bind, wp_modify, wp_get, ExtTreeMap.getElem?_insert_self]
    cases hold : p.responsesPending[rp.destination]? with
    | none =>
      simp only [Option.getD_none, List.nil_append, if_true, transmit, wp_modify]
      have hunsent : timesOf p.nextUid
          (h ++ stamp s.now [.enqueue { rp with uid := p.nextUid }]) = [] := by
        rw [timesOf_append, timesOf_stamp (by simp), List.append_nil]
        exact hp.unsent _ le_rfl
      rw [hold] at hput
      have hsent : Paced s.sendTries s.ackTimeout
          (h ++ stamp s.now [.enqueue { rp with uid := p.nextUid }] ++
            stamp s.now [.transmit { rp with uid := p.nextUid, queued := true }]) _ :=
        hput.transmit ExtTreeMap.getElem?_insert_self (hnew ▸ htries) (by simp [hunsent])
      refine ⟨_, List.append_assoc .., ?_⟩
      rwa [List.append_assoc h] at hsent
    | some q =>
      obtain ⟨hpaced, hfresh⟩ := hp.queue _ _ hold
      obtain ⟨head, rest, rfl⟩ := List.exists_cons_of_ne_nil hpaced.ne_nil
      have hne : ¬ head.uid = p.nextUid := Nat.ne_of_lt (hfresh head (List.mem_cons_self ..))
      simp only [Option.getD_some, List.cons_append, if_neg hne, wp_pure]
      rw [hold] at hput
      exact ⟨_, rfl, hput⟩

/-- A message that is on its queue is sent if it is the head: neither too often nor too soon. -/
theorem goesOn_sendMessageExpectingResponse {h : Timeline} {mac : DlepMac} {head : ResponsePending}
    {rest : List ResponsePending} (hp : Paced s.sendTries s.ackTimeout h p)
    (hqueue : p.responsesPending[mac]? = some (head :: rest))
    (htries : head.sendTries < s.sendTries)
    (hlate : ∀ t ∈ (timesOf head.uid h).getLast?, t + s.ackTimeout.toNat < s.now) :
    GoesOn s h p (after (sendMessageExpectingResponse s.now head) p) := by
  obtain ⟨hpaced, _⟩ := hp.queue _ _ hqueue
  obtain ⟨hqueued, rfl⟩ := hpaced.member head (List.mem_cons_self ..)
  refine wp_sendMessageExpectingResponse_head hqueue hqueued (fun _ => ?_) fun _ => ?_
  · exact goesOn_idle hp (List.append_nil _).symm (by simp) rfl le_rfl
  · exact ⟨_, rfl, hp.transmit hqueue htries hlate⟩

/-- The surroundings allow at least one try. -/
theorem sending_keepsPace (htries : 0 < s.sendTries) : Sending s (KeepsPace s) where
  send _ hqueued hnew := keepsPace_sendNew htries hqueued hnew
  resend p mac head rest hqueue hlate hlimit h hp := by
    refine goesOn_sendMessageExpectingResponse hp hqueue hlimit fun t ht => ?_
    obtain ⟨hpaced, _⟩ := hp.queue _ _ hqueue
    obtain rfl := (hpaced.head head rfl).2 t ht
    exact hlate

/-- The message behind an answered one is sent for the first time. -/
theorem keepsPace_acceptResponse (htries : 0 < s.sendTries) {pm : ProtocolMessage} {mac : DlepMac} :
    KeepsPace s p (after (acceptResponse s pm mac) p) := by
  intro h hp
  have hsame : GoesOn s h p p := goesOn_idle hp (List.append_nil _).symm (by simp) rfl le_rfl
  refine wp_after.1 ?_
  simp only [acceptResponse, wp_bind, wp_get]
  split
  · exact hsame
  · exact hsame
  · next rp rest hqueue =>
    split
    · exact hsame
    · next id hid =>
      split
      · rw [wp_bind]
        have hsent : ∀ uid, timesOf uid (h ++ stamp s.now [.accept rp id mac]) = timesOf uid h := by
          intro uid
          rw [timesOf_append, timesOf_stamp (by simp), List.append_nil]
        cases rest with
        | nil =>
          have hqueues : ∀ key : DlepMac, (p.responsesPending.erase mac)[key]? =
              if mac = key then none else p.responsesPending[key]? := by
            intro key
            simp only [ExtTreeMap.getElem?_erase, Std.compare_eq_iff_eq]
          exact ⟨_, rfl, hp.erase hqueues rfl hsent⟩
        | cons next rest =>
          simp only [popResponse, wp_bind, wp_modify, wp_pure]
          obtain ⟨htriesNext, hunsent⟩ := (hp.queue _ _ hqueue).1.rest next (List.mem_cons_self ..)
          have hpop : Paced s.sendTries s.ackTimeout (h ++ stamp s.now [.accept rp id mac])
              { p with
                responsesPending := p.responsesPending.insert mac (next :: rest)
                trace := p.trace ++ [.accept rp id mac] } :=
            hp.pop hqueue getElem?_insert_queue rfl hsent
          have hnext := goesOn_sendMessageExpectingResponse hpop ExtTreeMap.getElem?_insert_self
            (htriesNext ▸ htries) (by simp [hsent, hunsent])
          refine wp_after.2 ?_
          obtain ⟨events, htrace, hq⟩ := hnext
          refine ⟨_, htrace.trans (List.append_assoc ..), ?_⟩
          rwa [stamp, List.map_append, ← List.append_assoc]
      · exact hsame

end

/-! ## Runs -/

section

variable [AddressText]

/-- What a run records, and when. -/
def timeline (p : Peer) : List Step → Timeline
  | [] => []
  | st :: steps =>
    stamp st.s.now ((p.step st).trace.drop p.trace.length) ++ timeline (p.step st) steps

/-- Every step keeps the pace. -/
theorem keepsPace_step {st : Step} (htries : 0 < st.s.sendTries) (p : Peer) :
    KeepsPace st.s p (p.step st) := by
  have hsending := sending_keepsPace htries
  by_cases hmsg : st.input = .message
  · cases hnext : nextMessage st.d p with
    | none =>
      rw [step_of_nextMessage_none hmsg hnext]
      exact Std.Refl.refl p
    | some buf =>
      have hdrop : ∀ (q : Peer) (n : Nat), KeepsPace st.s p q →
          KeepsPace st.s p { q with signalRecv := q.signalRecv.drop n } := by
        intro q n hq h hp
        obtain ⟨events, htrace, hpaced⟩ := hq h hp
        exact ⟨events, htrace, hpaced.idle rfl le_rfl fun _ => rfl⟩
      exact step_of_nextMessage hmsg hnext hdrop
        (closed_handlePeerSignal fun _ _ _ _ _ _ _ _ => keepsPace_acceptResponse htries)
  · by_cases hreceive : ∃ bytes, st.input = .receive bytes
    · obtain ⟨bytes, hbytes⟩ := hreceive
      obtain ⟨d, s, input⟩ := st
      subst hbytes
      exact fun h hp => goesOn_idle hp (List.append_nil _).symm (by simp) rfl le_rfl
    · exact closed_step hmsg (fun bytes h => hreceive ⟨bytes, h⟩) p

/-- Every run keeps the pace, and the timeline is what the run records. -/
theorem paced_run {limit timeout : UInt32} (hlimit : 0 < limit) {steps : List Step}
    (hsteps : ∀ st ∈ steps, st.s.sendTries = limit ∧ st.s.ackTimeout = timeout) {h : Timeline}
    {p : Peer} (hp : Paced limit timeout h p) :
    Paced limit timeout (h ++ timeline p steps) (run step p steps) ∧
      (run step p steps).trace = p.trace ++ (timeline p steps).map Prod.snd := by
  induction steps generalizing h p with
  | nil =>
    rw [timeline, List.append_nil]
    exact ⟨hp, (List.append_nil _).symm⟩
  | cons st steps ih =>
    obtain ⟨⟨rfl, rfl⟩, hrest⟩ := List.forall_mem_cons.1 hsteps
    obtain ⟨events, htrace, hnext⟩ := keepsPace_step hlimit p h hp
    have hstamp : (stamp st.s.now events).map Prod.snd = events := by simp [stamp]
    rw [timeline, run_cons, ← List.append_assoc, htrace, List.drop_left]
    obtain ⟨hpaced, hrun⟩ := ih hrest hnext
    refine ⟨hpaced, ?_⟩
    rw [hrun, htrace, List.map_append, hstamp, List.append_assoc]

/-! ## The last try -/

section

variable {d : DlepView} {s : Surroundings} {p : Peer}

/-- A message whose last try is late ends the session, whatever is sent again before it is looked
at. -/
theorem retransmit_pstate {mac : DlepMac} {head : ResponsePending} {rest : List ResponsePending}
    {macs : List DlepMac} (hmac : mac ∈ macs) (hp : p.QueueOk)
    (hqueue : p.responsesPending[mac]? = some (head :: rest))
    (hlate : head.sendTime + s.ackTimeout.toNat < s.now) (htries : s.sendTries ≤ head.sendTries) :
    (after (retransmit d s macs) p).pstate = .terminating := by
  refine (wp_after (P := fun q : Peer => q.pstate = .terminating)).1 ?_
  induction macs generalizing p with
  | nil => cases hmac
  | cons key macs ih =>
    simp only [retransmit, wp_bind, wp_get]
    by_cases hkey : key = mac
    · subst hkey
      simp only [hqueue, if_pos hlate, if_neg (UInt32.not_lt.2 htries)]
      exact wp_after.2 (pstate_terminate _)
    · have hrest : mac ∈ macs := (List.mem_cons.1 hmac).resolve_left (Ne.symm hkey)
      split
      · next first others hfirst =>
        split
        · split
          · obtain ⟨hqueued, rfl⟩ := (hp _ _ hfirst).2 first (List.mem_cons_self ..)
            refine wp_bind.2 (wp_sendMessageExpectingResponse_queued hfirst hqueued
              (fun _ => ?_) fun _ => ?_)
            · exact ih hrest hp hqueue
            · refine ih hrest (fun mac' q hq => ?_) ?_
              · rw [getElem?_insert_queue] at hq
                split at hq
                · next hmac' =>
                  obtain rfl := Option.some.inj hq
                  obtain ⟨_, hmember⟩ := hp _ _ hfirst
                  subst hmac'
                  exact ⟨by simp, List.forall_mem_cons.2 (List.forall_mem_cons.1 hmember)⟩
                · exact hp mac' q hq
              · rw [getElem?_insert_queue, if_neg hkey, hqueue]
          · exact wp_after.2 (pstate_terminate _)
        · exact ih hrest hp hqueue
      · exact ih hrest hp hqueue

/-- A head that is late and was sent often enough ends the session. -/
theorem checkForRetransmits_pstate {mac : DlepMac} {head : ResponsePending}
    {rest : List ResponsePending} (hp : p.QueueOk)
    (hqueue : p.responsesPending[mac]? = some (head :: rest))
    (hlate : head.sendTime + s.ackTimeout.toNat < s.now) (htries : s.sendTries ≤ head.sendTries) :
    (after (checkForRetransmits d s) p).pstate = .terminating := by
  have hmac : mac ∈ p.responsesPending.keys := by
    rw [ExtTreeMap.mem_keys, ExtTreeMap.mem_iff_isSome_getElem?, hqueue]
    rfl
  exact retransmit_pstate hmac hp hqueue hlate htries

end

/-- With `limit` tries and a timeout that do not change: no message is sent more often than that,
two transmissions of one message are further apart than the timeout, and the session ends when the
messages are looked at and the last try of one of them is late. -/
theorem sent_in_bounds {cfg : ProtocolConfig} {peerId : PeerId} {now : Nat} {p : Peer}
    {limit timeout : UInt32} {steps : List Step} (hp : Peer.create cfg peerId now = .ok p)
    (hlimit : 1 ≤ limit)
    (hsteps : ∀ st ∈ steps, st.s.sendTries = limit ∧ st.s.ackTimeout = timeout) :
    (∀ uid, (timesOf uid (timeline p steps)).length ≤ limit.toNat ∧
      (timesOf uid (timeline p steps)).Pairwise fun t t' => t + timeout.toNat < t') ∧
    ∀ (d : DlepView) (s : Surroundings) (mac : DlepMac) (head : ResponsePending)
      (rest : List ResponsePending), s.sendTries = limit → s.ackTimeout = timeout →
      (run step p steps).pstate ≠ .terminating →
      (run step p steps).responsesPending[mac]? = some (head :: rest) →
      (timesOf head.uid (timeline p steps)).length = limit.toNat →
      (∀ t ∈ (timesOf head.uid (timeline p steps)).getLast?, t + timeout.toNat < s.now) →
      (after (checkForRetransmits d s) (run step p steps)).pstate = .terminating := by
  have hpos : 0 < limit := by
    rw [UInt32.lt_iff_toNat_lt]
    exact UInt32.le_iff_toNat_le.1 hlimit
  have hstart : Paced limit timeout [] p := by
    obtain rfl := create_ok hp
    refine ⟨fun mac q hq => ?_, fun mac mac' q q' hq => ?_, fun _ _ => rfl, fun _ => Nat.zero_le _,
      fun _ => .nil⟩
    · simp at hq
    · simp at hq
  obtain ⟨hpaced, _⟩ := paced_run hpos hsteps hstart
  rw [List.nil_append] at hpaced
  refine ⟨fun uid => ⟨hpaced.few uid, hpaced.spaced uid⟩, ?_⟩
  intro d s mac head rest hs hs' _ hqueue hcount hlast
  obtain ⟨hq, _⟩ := hpaced.queue mac _ hqueue
  obtain ⟨htries, htime⟩ := hq.head head rfl
  have hne : timesOf head.uid (timeline p steps) ≠ [] := by
    intro hnil
    rw [hnil, List.length_nil] at hcount
    rw [UInt32.lt_iff_toNat_lt, ← hcount] at hpos
    exact absurd hpos (Nat.lt_irrefl _)
  obtain ⟨last, hgetLast⟩ := Option.ne_none_iff_exists'.1 (mt List.getLast?_eq_none_iff.1 hne)
  refine checkForRetransmits_pstate hpaced.queueOk hqueue ?_ ?_
  · rw [htime last hgetLast, hs']
    exact hlast last hgetLast
  · rw [hs, UInt32.le_iff_toNat_le, htries, hcount]

end

attribute [local instance] plainText

/-- A modem brings a destination up and hears nothing: it sends the message three times. -/
def unanswered : List Step :=
  [⟨bareView true, bareSurroundings, .destinationUp [10, 11] []⟩,
    ⟨bareView true, { bareSurroundings with now := 4 }, .acktivityTimeout⟩,
    ⟨bareView true, { bareSurroundings with now := 7 }, .acktivityTimeout⟩,
    ⟨bareView true, { bareSurroundings with now := 9 }, .acktivityTimeout⟩]

/-- The message of the sample run is sent three times, and then the session ends. -/
theorem sent_in_bounds_unanswered :
    (∀ uid, (timesOf uid (timeline barePeer unanswered)).length ≤ 3 ∧
      (timesOf uid (timeline barePeer unanswered)).Pairwise fun t t' => t + 3 < t') ∧
    (after (checkForRetransmits (bareView true) { bareSurroundings with now := 13 })
      (run step barePeer unanswered)).pstate = .terminating := by
  obtain ⟨hbounds, hlast⟩ :=
    @sent_in_bounds plainText rfc8175 (str "peer") 0 barePeer 3 3 unanswered rfl
    (by decide) (by simp [unanswered, bareSurroundings])
  obtain ⟨hstate, huid, htimes⟩ :
      (run step barePeer unanswered).pstate ≠ .terminating ∧
      ((run step barePeer unanswered).responsesPending[([10, 11] : DlepMac)]?).map
        (List.map ResponsePending.uid) = some [0] ∧
      timesOf 0 (timeline barePeer unanswered) = [0, 4, 9] := by decide +kernel
  obtain ⟨q, hq, hmap⟩ := Option.map_eq_some_iff.1 huid
  obtain ⟨head, rest, rfl, hhead, _⟩ := List.map_eq_cons_iff.1 hmap
  refine ⟨hbounds, hlast (bareView true) { bareSurroundings with now := 13 }
    [10, 11] head rest rfl rfl
    hstate hq ?_ ?_⟩
  · rw [hhead, htimes]
    decide
  · rw [hhead, htimes]
    decide

end Peer

end Dlep
