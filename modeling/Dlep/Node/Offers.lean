import Dlep.Node.Roster

/-!
# Peer offers

A router connects to a modem whose offer it receives, unless it has a session with it. It looks
for the session when the offer arrives, and writes the map of the peers when the connection is
made. Any number of offers may arrive in between, and each of them leads to a connection of its
own.
-/

namespace Dlep

open Std Calls Runs

namespace Node

/-- The state of a peer, or `none` for `nonexistent`. A modem has one peer only, and does not look
at the name. Source: `Dlep::peer_state` (`Dlep.cpp:596`). -/
def peerState (n : Node) (peerId : PeerId) : Option PeerState :=
  let i := if n.modem then n.listed.head? else n.peers[peerId]?
  (i.bind fun i => n.objects[i]?).map Peer.pstate

end Node

/-- A node, and the names of the peers to which a connect is under way. -/
structure Router where
  node : Node
  connecting : List PeerId := []

namespace Router

/-- What happens to a router: an offer is received, a connect completes, or something else. -/
inductive Input where
  | offer (peerId : PeerId)
  /-- The `k`th of the connects that are under way succeeds, or fails. -/
  | complete (k : Nat) (ok : Bool)
  | node (input : Node.Input)

structure Step where
  s : Surroundings
  input : Input

/-- An offer that leads to the given peer. Source: the end of `PeerDiscovery::handle_peer_offer`
(`PeerDiscovery.cpp:442`), with `Dlep::start_async_connect` (`Dlep.cpp:371`). -/
def handlePeerOffer (r : Router) (peerId : PeerId) : Router :=
  if r.node.modem then r
  else if (r.node.peerState peerId).isSome then r
  else { r with connecting := r.connecting ++ [peerId] }

section

variable [AddressText]

/-- A connect completes. Source: `Dlep::handle_async_make_peer` (`Dlep.cpp:294`). -/
def complete (r : Router) (s : Surroundings) (k : Nat) (ok : Bool) : Router :=
  match r.connecting[k]? with
  | none => r
  | some peerId =>
    { node := if ok then r.node.step ⟨s, .connect peerId⟩ else r.node
      connecting := r.connecting.eraseIdx k }

/-- The state after a step. There are no connections but those that the router asks for. -/
def step (r : Router) (st : Step) : Router :=
  match st.input with
  | .offer peerId => r.handlePeerOffer peerId
  | .complete k ok => r.complete st.s k ok
  | .node (.connect _) => r
  | .node input => { r with node := r.node.step ⟨st.s, input⟩ }

end

end Router

namespace Node

variable {n n' : Node}

/-- A peer leaves the map only if its session is over. -/
def Releases (n n' : Node) : Prop :=
  ∀ (key : PeerId) (i : Nat), n.peers[key]? = some i → n'.peers[key]? ≠ some i →
    ∀ q, n'.objects[i]? = some q → q.pstate = .terminating

/-- For every name there is at most one object whose session is not over. -/
def OneLive (n : Node) : Prop :=
  ∀ (i j : Nat) (p q : Peer), n.objects[i]? = some p → n.objects[j]? = some q →
    p.pstate ≠ .terminating → q.pstate ≠ .terminating → p.peerId = q.peerId → i = j

/-- Every object whose session is not over is in the map under its name. -/
structure LiveListed (n : Node) : Prop where
  queues : n.QueuesOk
  object : ∀ (key : PeerId) (i : Nat), n.peers[key]? = some i → i < n.objects.length
  live : ∀ (i : Nat) (p : Peer), n.objects[i]? = some p → p.pstate ≠ .terminating →
    n.peers[p.peerId]? = some i

/-- Objects that are in the map under one name are one object. -/
theorem LiveListed.oneLive (hn : n.LiveListed) : n.OneLive := by
  intro i j p q hp hq hplive hqlive hsame
  have hi := hn.live i p hp hplive
  rw [hsame, hn.live j q hq hqlive] at hi
  exact (Option.some.inj hi).symm

/-- Where the map stays, nobody leaves it. -/
theorem releases_of_eq (h : n'.peers = n.peers) : n.Releases n' := by
  intro key i hi hgone
  exact absurd (h ▸ hi) hgone

/-- Where the map and the standing of every object stay, whoever is live stays listed. -/
theorem LiveListed.sameRoster (hn : n.LiveListed) (h : SameRoster n n') : n'.LiveListed := by
  refine ⟨h.queues hn.queues, fun key i hi => ?_, fun i q hq hlive => ?_⟩
  · rw [h.length]
    exact hn.object key i (h.peers ▸ hi)
  · obtain ⟨p, hp, hsame⟩ := h.exists_object hq
    have hid : q.peerId = p.peerId := congrArg Peer.Standing.peerId hsame
    have hstate : q.pstate = p.pstate := congrArg Peer.Standing.pstate hsame
    rw [h.peers, hid]
    exact hn.live i p hp (hstate ▸ hlive)

section

variable [AddressText] {s : Surroundings}

/-- A new object takes the place of one whose session is over. -/
theorem LiveListed.connect (hn : n.LiveListed) {peerId : PeerId}
    (hfree : ∀ (i : Nat) (p : Peer), n.peers[peerId]? = some i → n.objects[i]? = some p →
      p.pstate = .terminating) :
    (n.step ⟨s, .connect peerId⟩).LiveListed ∧ n.Releases (n.step ⟨s, .connect peerId⟩) := by
  rcases @step_connect n _ s peerId with hsame | ⟨p₀, hcreate, hroster⟩
  · rw [hsame]
    exact ⟨hn, releases_of_eq rfl⟩
  · obtain rfl := Peer.create_ok hcreate
    have hlookup : ∀ key : PeerId, (n.peers.insert peerId n.objects.length)[key]? =
        if peerId = key then some n.objects.length else n.peers[key]? := by
      intro key
      simp only [ExtTreeMap.getElem?_insert, Std.compare_eq_iff_eq]
    have hold : ∀ {i : Nat} {p : Peer}, n.objects[i]? = some p → p.pstate ≠ .terminating →
        peerId ≠ p.peerId := by
      rintro i p hp hlive rfl
      exact hlive (hfree i p (hn.live i p hp hlive) hp)
    refine ⟨LiveListed.sameRoster ⟨fun i p hp => ?_, fun key i hi => ?_, fun i p hp hlive => ?_⟩
      hroster, fun key i hi hgone q hq => ?_⟩
    · rcases lt_or_ge i n.objects.length with hlt | hge
      · rw [List.getElem?_append_left hlt] at hp
        exact hn.queues i p hp
      · rw [List.getElem?_append_right hge] at hp
        obtain rfl := List.mem_singleton.1 (List.mem_of_getElem? hp)
        exact (Peer.sound_of_create hcreate).queues
    · rw [List.length_append, List.length_singleton]
      rw [hlookup] at hi
      split at hi
      · obtain rfl := Option.some.inj hi
        omega
      · have := hn.object key i hi
        omega
    · rw [hlookup]
      rcases lt_or_ge i n.objects.length with hlt | hge
      · rw [List.getElem?_append_left hlt] at hp
        rw [if_neg (hold hp hlive)]
        exact hn.live i p hp hlive
      · have hlen := (List.getElem?_eq_some_iff.1 hp).1
        rw [List.length_append, List.length_singleton] at hlen
        obtain rfl : i = n.objects.length := by omega
        rw [List.getElem?_append_right le_rfl, Nat.sub_self] at hp
        obtain rfl := Option.some.inj hp
        rw [if_pos rfl]
    · -- only the object under this name has left the map
      obtain ⟨p, hp, hsame⟩ := hroster.exists_object hq
      rw [hroster.peers, hlookup] at hgone
      rw [List.getElem?_append_left (hn.object key i hi)] at hp
      split at hgone
      · next hkey =>
        rw [show q.pstate = p.pstate from congrArg Peer.Standing.pstate hsame]
        exact hfree i p (hkey ▸ hi) hp
      · exact absurd hi hgone

/-- A step of one object keeps it in the map, unless it opens a session that is over. -/
theorem LiveListed.peer (hn : n.LiveListed) {i : Nat} {occasion : Occasion}
    (hopens : ∀ p, n.objects[i]? = some p → p.pstate = .terminating →
      Peer.Step.fate p ⟨n.view i, s, occasion.input⟩ = .opens → n.peers[p.peerId]? = some i) :
    (n.step ⟨s, .peer i occasion⟩).LiveListed := by
  cases hp : n.objects[i]? with
  | none =>
    rw [step_peer_none hp]
    exact hn
  | some p =>
    have hok := hn.queues i p hp
    rw [step_peer hp]
    refine ⟨hn.queues.set hp (Peer.queueOk_step _ hok), fun key j hj => ?_, fun j q hq hlive => ?_⟩
    · rw [List.length_set]
      exact hn.object key j hj
    · rw [getElem?_set hp] at hq
      split at hq
      · next hij =>
        obtain rfl := Option.some.inj hq
        rw [(Peer.ages_step hok _).peerId, ← hij]
        by_cases hstate : p.pstate = .terminating
        · refine hopens p hp hstate (not_not.1 fun hfate => hlive ?_)
          exact Peer.terminating_of_fate hok hfate hstate
        · exact hn.live i p hp hstate
      · exact hn.live j q hq hlive

/-- Cleaning up removes only sessions that are over. -/
theorem LiveListed.cleanup (hn : n.LiveListed) :
    (n.step ⟨s, .cleanup⟩).LiveListed ∧ n.Releases (n.step ⟨s, .cleanup⟩) := by
  have hlookup : ∀ (key : PeerId) (i : Nat), (n.step ⟨s, .cleanup⟩).peers[key]? = some i ↔
      n.peers[key]? = some i ∧ (n.objects[i]?).any (fun p => p.pstate ≠ .terminating) = true := by
    intro key i
    change (n.peers.filter _)[key]? = some i ↔ _
    rw [ExtTreeMap.getElem?_filter', Option.filter_eq_some_iff]
  refine ⟨⟨hn.queues, fun key i hi => hn.object key i ((hlookup key i).1 hi).1,
    fun i p hp hlive => ?_⟩, fun key i hi hgone q hq => ?_⟩
  · refine (hlookup _ i).2 ⟨hn.live i p hp hlive, (Option.any_eq_true _ _).2 ⟨p, hp, ?_⟩⟩
    exact decide_eq_true hlive
  · refine not_not.1 fun hlive => hgone ((hlookup key i).2 ⟨hi, ?_⟩)
    exact (Option.any_eq_true _ _).2 ⟨q, hq, decide_eq_true hlive⟩

omit [AddressText] in
/-- The name stays, the last state is not left, and the queues stay good. -/
structure Ended (p q : Peer) : Prop where
  peerId : q.peerId = p.peerId
  pstate : p.pstate = .terminating → q.pstate = .terminating
  queues : p.QueueOk → q.QueueOk

instance : Std.Refl Ended := ⟨fun _ => ⟨rfl, id, id⟩⟩

instance : IsTrans Peer Ended :=
  ⟨fun _ _ _ h h' => ⟨h'.peerId.trans h.peerId, h'.pstate ∘ h.pstate, h'.queues ∘ h.queues⟩⟩

/-- A session that is terminated is over, and keeps its name. -/
theorem ended_terminate {d : DlepView} {status : String} {reason : Bytes} :
    Within Ended (Peer.terminate d s status reason) := by
  intro p
  exact ⟨(Peer.ages_terminate p).peerId, fun _ => Peer.pstate_terminate p,
    fun hp => (Peer.within_terminate p hp).queueOk hp⟩

/-- All sessions end, and all objects leave the map. -/
theorem LiveListed.terminate (hn : n.LiveListed) :
    (n.step ⟨s, .terminate⟩).LiveListed ∧ n.Releases (n.step ⟨s, .terminate⟩) := by
  have hqueues : ∀ {n' : Node}, Happens (fun _ _ => Ended) n n' → n'.QueuesOk := by
    intro n' h i q hq
    obtain ⟨p, hp, hpq⟩ := h.exists_object hq
    exact hpq.queues (hn.queues i p hp)
  have hlive : ∀ {n' : Node}, Happens (fun _ _ => Ended) n n' → ∀ (i : Nat) (q : Peer),
      n'.objects[i]? = some q → q.pstate ≠ .terminating → n.peers[q.peerId]? = some i := by
    intro n' h i q hq hlive
    obtain ⟨p, hp, hpq⟩ := h.exists_object hq
    rw [hpq.peerId]
    exact hn.live i p hp fun hstate => hlive (hpq.pstate hstate)
  rcases @step_terminate n _ s (fun _ _ => Ended) _ _ (fun d => ended_terminate)
    (fun _ _ p q h => h.pstate) with h | ⟨n', h, heq, hall⟩
  · refine ⟨⟨hqueues h, fun key i hi => ?_, fun i q hq hq' => ?_⟩, releases_of_eq h.peers⟩
    · rw [h.length]
      exact hn.object key i (h.peers ▸ hi)
    · rw [h.peers]
      exact hlive h i q hq hq'
  · rw [heq]
    have hok : n'.QueuesOk := hqueues h
    refine ⟨⟨hok, fun key i hi => ?_, fun i q hq hq' => ?_⟩, fun key i hi _ q hq => ?_⟩
    · simp at hi
    · refine absurd (hall i ?_ q hq) hq'
      exact mem_listed.2 ⟨_, hlive h i q hq hq'⟩
    · exact hall i (mem_listed.2 ⟨key, hi⟩) q hq

end

end Node

namespace Router

section

variable [AddressText] {r : Router}

/-- The step makes a second connection to a peer whose session is not over, or opens a session
that is over for an object that is not in the map any more. -/
def Step.Replaces (st : Step) (r : Router) : Bool :=
  match st.input with
  | .complete k true =>
    ((r.connecting[k]?).bind fun peerId => (r.node.peers[peerId]?).bind fun i =>
      r.node.objects[i]?).any
      fun p => p.pstate ≠ .terminating
  | .node (.peer i occasion) =>
    (r.node.objects[i]?).any fun p =>
      p.pstate = .terminating && Peer.Step.fate p ⟨r.node.view i, st.s, occasion.input⟩ = .opens &&
        r.node.peers[p.peerId]? ≠ some i
  | _ => false

/-- A step that does not replace a peer keeps every live object in the map. -/
theorem liveListed_step {st : Step} (hr : r.node.LiveListed) (hst : st.Replaces r = false) :
    (r.step st).node.LiveListed ∧ r.node.Releases (r.step st).node := by
  have hstay : r.node.LiveListed ∧ r.node.Releases r.node := ⟨hr, Node.releases_of_eq rfl⟩
  obtain ⟨s, input⟩ := st
  cases input with
  | offer peerId =>
    simp only [step, handlePeerOffer]
    split
    · exact hstay
    · split
      · exact hstay
      · exact hstay
  | complete k ok =>
    simp only [step, complete]
    cases hk : r.connecting[k]? with
    | none => exact hstay
    | some peerId =>
      cases ok with
      | false => exact hstay
      | true =>
        refine hr.connect fun i p hi hp => ?_
        simp only [Step.Replaces, hk, Option.bind_some, hi, hp, Option.any_some] at hst
        exact not_not.1 (of_decide_eq_false hst)
  | node input =>
    cases hquiet : input.isQuiet with
    | true =>
      have hnode : (r.step ⟨s, .node input⟩).node = r.node.step ⟨s, input⟩ := by
        cases input with
        | connect peerId => cases hquiet
        | _ => rfl
      have hsame := @Node.sameRoster_step r.node _ ⟨s, input⟩ hquiet
      rw [hnode]
      exact ⟨hr.sameRoster hsame, Node.releases_of_eq hsame.peers⟩
    | false =>
      cases input with
      | connect peerId => exact hstay
      | peer i occasion =>
        refine ⟨hr.peer fun p hp hstate hopens => ?_, ?_⟩
        · refine not_not.1 fun hgone => ?_
          simp [Step.Replaces, hp, hstate, hopens, hgone] at hst
        · refine Node.releases_of_eq ?_
          change (r.node.step _).peers = _
          cases hp : r.node.objects[i]? with
          | none => rw [Node.step_peer_none hp]
          | some p => rw [Node.step_peer hp]
      | cleanup => exact @Node.LiveListed.cleanup r.node _ s hr
      | terminate => exact hr.terminate
      | _ => cases hquiet

/-- In every run of a router in which no connection is made to a peer whose session is not over,
and no object that has left the map opens its session again, an object leaves the map only when
its session is over, and no two objects with the same name have a session that is not over. -/
theorem released_when_over {cfg : ProtocolConfig} {enabled : Bool} {n : Node}
    (hn : Node.create cfg false enabled = .ok n) {connecting : List PeerId} {steps : List Step}
    (h : Along step (fun r st => st.Replaces r = false) ⟨n, connecting⟩ steps) :
    (∀ pre, pre <+: steps → (run step ⟨n, connecting⟩ pre).node.OneLive) ∧
      ∀ pre st, pre ++ [st] <+: steps →
        (run step ⟨n, connecting⟩ pre).node.Releases
          (run step ⟨n, connecting⟩ (pre ++ [st])).node := by
  obtain ⟨hobjects, hpeers⟩ := Node.objects_of_create hn
  have hstart : n.LiveListed := by
    refine ⟨fun i p hp => ?_, fun key i hi => ?_, fun i p hp _ => ?_⟩
    · simp [hobjects] at hp
    · simp [hpeers] at hi
    · simp [hobjects] at hp
  have hlisted : ∀ {pre post}, pre ++ post = steps →
      (run step ⟨n, connecting⟩ pre).node.LiveListed := by
    rintro pre post rfl
    exact (along_append.1 h).1.invariant (I := fun r : Router => r.node.LiveListed)
      (fun r st hr hst => (liveListed_step hr hst).1) hstart
  refine ⟨fun pre ⟨post, hpost⟩ => (hlisted hpost).oneLive, fun pre st ⟨post, hpost⟩ => ?_⟩
  rw [List.append_assoc] at hpost
  obtain ⟨-, hst, -⟩ := along_append.1 (hpost ▸ h : Along step _ _ (pre ++ ([st] ++ post)))
  rw [run_append]
  exact (liveListed_step (hlisted hpost) hst).2

end

attribute [local instance] plainText

/-- Steps of the same router. -/
def bareSteps (inputs : List Input) : List Step :=
  inputs.map fun input => { s := Peer.bareSurroundings, input }

/-- A modem is offered, connected to and lost, and then it comes again. -/
def comeAgain : List Input :=
  [.offer (str "modem"), .complete 0 true, .node (.peer 0 .eof), .offer (str "modem"),
    .node .cleanup, .offer (str "modem"), .complete 0 true]

/-- A modem that was lost is connected to again, under a new object. -/
theorem released_when_over_comeAgain :
    (run step ⟨Node.shipped false, []⟩ (bareSteps comeAgain)).node.OneLive ∧
      ((run step ⟨Node.shipped false, []⟩ (bareSteps comeAgain)).node.objects.map
        fun p => p.pstate) =
        [.terminating, .connected] := by
  obtain ⟨hrun, hstates⟩ :
      Along step (fun r st => st.Replaces r = false) ⟨Node.shipped false, []⟩
        (bareSteps comeAgain) ∧
      ((run step ⟨Node.shipped false, []⟩ (bareSteps comeAgain)).node.objects.map
        fun p => p.pstate) =
        [.terminating, .connected] := by decide +kernel
  have hover := @released_when_over plainText rfc8175 false _ (Node.create_shipped false) [] _ hrun
  exact ⟨hover.1 _ List.prefix_rfl, hstates⟩

/-- Two offers of one modem arrive before the first connect completes. -/
def offeredTwice : List Input := [.offer (str "modem"), .offer (str "modem"), .complete 0 true]

/-- Both connects complete: the second object takes the place of the first in the map, and both are
live. -/
theorem offeredTwice_replaced :
    Node.create rfc8175 false false = .ok (Node.shipped false) ∧
      ¬ (run step ⟨Node.shipped false, []⟩
        (bareSteps (offeredTwice ++ [.complete 0 true]))).node.OneLive ∧
      ¬ (run step ⟨Node.shipped false, []⟩ (bareSteps offeredTwice)).node.Releases
        (run step ⟨Node.shipped false, []⟩
          (bareSteps (offeredTwice ++ [.complete 0 true]))).node := by
  obtain ⟨r, hr⟩ : ∃ r, r = run step ⟨Node.shipped false, []⟩
      (bareSteps (offeredTwice ++ [.complete 0 true])) := ⟨_, rfl⟩
  obtain ⟨hobjects, hmap, hbefore⟩ :
      (r.node.objects.map fun p => (p.peerId, p.pstate)) =
        [(str "modem", .connected), (str "modem", .connected)] ∧
      r.node.peers[str "modem"]? = some 1 ∧
      (run step ⟨Node.shipped false, []⟩ (bareSteps offeredTwice)).node.peers[str "modem"]? =
        some 0 := by
    rw [hr]
    decide +kernel
  obtain ⟨p, rest, hpq, hp, hrest⟩ := List.map_eq_cons_iff.1 hobjects
  obtain ⟨q, rest, rfl, hq, -⟩ := List.map_eq_cons_iff.1 hrest
  obtain ⟨hpid, hpstate⟩ := Prod.mk.inj hp
  obtain ⟨hqid, hqstate⟩ := Prod.mk.inj hq
  refine ⟨Node.create_shipped false, fun h => ?_, fun h => ?_⟩
  · have hsame := h 0 1 p q (by rw [← hr, hpq]; rfl) (by rw [← hr, hpq]; rfl)
      (by rw [hpstate]; decide)
      (by rw [hqstate]; decide) (by rw [hpid, hqid])
    cases hsame
  · have hover := h (str "modem") 0 hbefore (by rw [← hr, hmap]; decide) p (by rw [← hr, hpq]; rfl)
    rw [hpstate] at hover
    cases hover

end Router

end Dlep
