import Dlep.InfoBase.Unchanged
import Dlep.Node.Update
import Dlep.Peer.Handshake

/-!
# Calls with data items that cannot be encoded

The data of the node is changed before the message for the peers is built. A call whose message
cannot be built throws when the first peer is told, and what was changed up to there stays
changed. The call leaves everything as it was exactly if there was nothing to change and nobody
was told anything.
-/

namespace Dlep

open Std Calls LastWrite Runs ProtocolMessage

namespace Peer

section

variable [AddressText] {d d' : DlepView} {s : Surroundings} {name func : String} {mac : DlepMac}
  {items : DataItems} {p : Peer}

/-- A message about a destination does not depend on the data of the node. -/
theorem destinationMessage_congr (hcfg : d'.cfg = d.cfg) (hmodem : d'.modem = d.modem) :
    destinationMessage d' name mac items func = destinationMessage d name mac items func := by
  simp only [destinationMessage, compose, hcfg, hmodem]

/-- The message with an update of a destination. -/
def updateMessage (d : DlepView) (mac : DlepMac) (items : DataItems) : Except Exn ProtocolMessage :=
  destinationMessage d "Destination_Update" mac items "destination_update"

/-- A message that cannot be built: a peer that is interested makes the call throw, and no peer is
changed. -/
theorem wp_destinationUpdate_error {e : Exn} (h : updateMessage d mac items = .error e) :
    wp (destinationUpdate d mac items) (fun _ q => q = p ∧ ¬ p.isNotInterested mac = false)
      (fun _ q => q = p ∧ p.isNotInterested mac = false) p := by
  rw [updateMessage] at h
  simp only [destinationUpdate, wp_bind, wp_get]
  split
  · next hnot => exact ⟨rfl, by simp [hnot]⟩
  · next hint =>
    rw [wp_bind, h, wp_lift_error]
    exact ⟨rfl, by simpa using hint⟩

/-- A message that can be built is sent to a peer that is interested. -/
theorem wp_destinationUpdate_ok {pm : ProtocolMessage} (h : updateMessage d mac items = .ok pm) :
    wp (destinationUpdate d mac items)
      (fun _ q => q = if p.isNotInterested mac then p
        else { p with trace := p.trace ++ [.send pm.msgbuf] })
      (fun _ _ => False) p := by
  rw [updateMessage] at h
  simp only [destinationUpdate, wp_bind, wp_get]
  split
  · next hnot => rfl
  · next hint =>
    rw [wp_bind, h, wp_lift_ok]
    rfl

/-- A request that cannot be built changes no peer. -/
theorem wp_peerUpdate_error {e : Exn} (h : updateRequestOf d items = .error e) :
    wp (peerUpdate d s items) (fun _ q => q = p ∧ ¬ p.pstate = .inSession)
      (fun _ q => q = p ∧ p.pstate = .inSession) p := by
  simp only [peerUpdate, wp_bind, wp_get]
  split
  · next hstate =>
    rw [wp_bind]
    refine wp_lift (fun r hr => ?_) fun _ _ => ⟨rfl, hstate⟩
    obtain ⟨err, pm⟩ := r
    have hmake : ResponsePending.make d.cfg pm = .error e := by
      rw [updateRequestOf, hr] at h
      exact h
    rw [wp_bind, sendRequest, hmake, wp_bind, wp_lift_error]
    exact ⟨rfl, hstate⟩
  · next hstate => exact ⟨rfl, hstate⟩

/-- A session update that can be composed does not throw. -/
theorem wp_peerUpdate_ok {rp : ResponsePending} (h : updateRequestOf d items = .ok rp)
    (hp : QueueInv p) : wp (peerUpdate d s items) (fun _ _ => True) (fun _ _ => False) p := by
  simp only [peerUpdate, wp_bind, wp_get]
  split
  · obtain ⟨⟨err, pm⟩, hcompose, hmake⟩ := bind_eq_ok.1 h
    rw [wp_bind, hcompose, wp_lift_ok, wp_bind]
    exact (requested_sendRequest hmake hp).mono (fun _ _ _ => trivial) fun _ _ hfalse => hfalse
  · trivial

end

end Peer

namespace Node

variable {n : Node}

/-! ## Untouched nodes -/

/-- The data of the node is the same, and so are the queues of all peers and what was handed to
their connections. -/
structure Untouched (n n' : Node) : Prop where
  localPdp : n'.localPdp = n.localPdp
  peers : ∀ (i : Nat) (p : Peer), n.objects[i]? = some p → ∃ q, n'.objects[i]? = some q ∧
    q.responsesPending = p.responsesPending ∧
    q.trace.filterMap Event.handed = p.trace.filterMap Event.handed

/-- A node that stays as it is is untouched. -/
theorem Untouched.refl (n : Node) : Untouched n n := ⟨rfl, fun _ p hp => ⟨p, hp, rfl, rfl⟩⟩

/-- Only the data of the node was written. -/
theorem untouched_localPdp {pd : PeerData} :
    Untouched n { n with localPdp := pd } ↔ pd = n.localPdp :=
  ⟨fun h => h.localPdp, fun h => ⟨h, fun _ p hp => ⟨p, hp, rfl, rfl⟩⟩⟩

/-- Some peer in the map is told of the destination. -/
def Asks (n : Node) (mac : DlepMac) : Prop :=
  ∃ i ∈ n.listed, ∃ p, n.objects[i]? = some p ∧ p.isNotInterested mac = false

/-- A call that changes no peer, and throws at those that want it, leaves the node as it is, and
throws if some peer wants it. -/
theorem wp_forM_unchanged {call : DlepView → PeerM Unit} {js : List Nat} {wanted : Peer → Prop}
    (hobject : ∀ i ∈ js, ∃ p, n.objects[i]? = some p)
    (h : ∀ i ∈ js, ∀ p, n.objects[i]? = some p →
      wp (call (n.view i)) (fun _ q => q = p ∧ ¬ wanted p)
      (fun _ q => q = p ∧ wanted p) p) :
    wp (js.forM fun i => onPeer i call)
      (fun _ n' => n' = n ∧ ¬ ∃ i ∈ js, ∃ p, n.objects[i]? = some p ∧ wanted p)
      (fun _ n' => n' = n ∧ ∃ i ∈ js, ∃ p, n.objects[i]? = some p ∧ wanted p) n := by
  induction js with
  | nil => exact ⟨rfl, by simp⟩
  | cons i js ih =>
    obtain ⟨p, hp⟩ := hobject i List.mem_cons_self
    have hself : { n with objects := n.objects.set i p } = n := by
      obtain ⟨hi, hget⟩ := List.getElem?_eq_some_iff.1 hp
      rw [← hget, List.set_getElem_self]
    rw [List.forM, wp_bind]
    refine wp_onPeer (fun hnone => by simp [hp] at hnone) fun p' hp' => ?_
    obtain rfl := Option.some.inj (hp.symm.trans hp')
    refine (h i List.mem_cons_self p hp).mono ?_ ?_
    · rintro _ q ⟨rfl, hnot⟩
      rw [hself]
      refine (ih (fun j hj => hobject j (List.mem_cons_of_mem _ hj))
        fun j hj => h j (List.mem_cons_of_mem _ hj)).mono ?_ ?_
      · rintro _ n' ⟨rfl, hnone⟩
        refine ⟨rfl, ?_⟩
        rintro ⟨j, hj, r, hr, hwanted⟩
        rcases List.mem_cons.1 hj with rfl | hj
        · obtain rfl := Option.some.inj (hp.symm.trans hr)
          exact hnot hwanted
        · exact hnone ⟨j, hj, r, hr, hwanted⟩
      · rintro _ n' ⟨rfl, j, hj, hwanted⟩
        exact ⟨rfl, j, List.mem_cons_of_mem _ hj, hwanted⟩
    · rintro _ q ⟨rfl, hwanted⟩
      exact ⟨hself, i, List.mem_cons_self, q, hp, hwanted⟩

section

variable [AddressText] {s : Surroundings} {mac : DlepMac} {items : DataItems} {dd : DestinationData}

/-- The update of a destination cannot be encoded. -/
def CannotTell (n : Node) (mac : DlepMac) (items : DataItems) : Prop :=
  ∃ e, Peer.updateMessage (n.view 0) mac items = .error e

omit [AddressText] in
/-- Something more was handed to the connection of a peer. -/
def Louder (n n' : Node) : Prop :=
  ∃ (i : Nat) (p q : Peer), n.objects[i]? = some p ∧ n'.objects[i]? = some q ∧
    (p.trace.filterMap Event.handed).length < (q.trace.filterMap Event.handed).length

omit [AddressText] in
/-- A node of which something more was handed over is not untouched. -/
theorem Louder.not_untouched {n' : Node} (h : Louder n n') : ¬ Untouched n n' := by
  intro huntouched
  obtain ⟨i, p, q, hp, hq, hlt⟩ := h
  obtain ⟨q', hq', _, hsame⟩ := huntouched.peers i p hp
  obtain rfl := Option.some.inj (hq.symm.trans hq')
  rw [hsame] at hlt
  exact lt_irrefl _ hlt

omit [AddressText] in
/-- What was recorded for every peer stays. -/
abbrev Recorded : Node → Node → Prop := Each fun _ _ => Peer.Grows

omit [AddressText] in
/-- What was handed over stays handed over. -/
theorem Louder.recorded {n' n'' : Node} (h : Louder n n') (h' : Recorded n' n'') :
    Louder n n'' := by
  obtain ⟨i, p, q, hp, hq, hlt⟩ := h
  obtain ⟨r, hr, hgrows⟩ := h'.object i q hq
  obtain ⟨events, hevents⟩ := hgrows
  refine ⟨i, p, r, hp, hr, ?_⟩
  rw [← hevents, List.filterMap_append, List.length_append]
  omega

omit [AddressText] in
/-- Storing what is stored changes nothing. -/
theorem withDestination_self (hdd : n.localPdp.destinationData[mac]? = some dd) :
    n.withDestination mac dd = n := by
  have hsame : n.localPdp.destinationData.insert mac dd = n.localPdp.destinationData := by
    refine ExtTreeMap.ext_getElem? fun key => ?_
    rw [ExtTreeMap.getElem?_insert]
    simp only [Std.compare_eq_iff_eq]
    split
    · next hkey => rw [← hkey, hdd]
    · rfl
  rw [withDestination, hsame]

/-- What a destination becomes, and who is told of it. -/
theorem wp_updateDestination (hn : n.Sound) (hitems : ∀ di ∈ items, di.Classified n.cfg)
    (hdd : n.localPdp.destinationData[mac]? = some dd) :
    wp (updateDestination mac items)
      (fun ok n' => ok = true ∧ ∃ dd', (dd' = dd ↔ dd.Subsumes n.cfg items) ∧
        n'.localPdp.destinationData[mac]? = some dd' ∧
        (n.Asks mac → ¬ n.CannotTell mac items ∧ Louder n n') ∧
        (¬ n.Asks mac → n' = n.withDestination mac dd'))
      (fun _ n' => n.Asks mac ∧ n.CannotTell mac items ∧
        ∃ dd', (dd' = dd ↔ dd.Subsumes n.cfg items) ∧ n' = n.withDestination mac dd') n := by
  have hvalid : n.localPdp.validDestination mac = true := by
    rw [PeerData.validDestination, ExtTreeMap.contains_eq_isSome_getElem?, hdd]
    rfl
  simp only [updateDestination, onLocal, PeerData.updateDestination, PeerData.onDestination,
    wp_bind, wp_get, wp_zoom, if_pos hvalid, hdd, wp_pure]
  refine (DestinationData.wp_update_eq_self_iff hitems dd).mono (fun _ dd' hsame => ?_)
    fun _ _ hfalse => hfalse.elim
  simp only [if_true, wp_bind, wp_pure]
  -- the data of the node is written; the peers are told now
  have hsound : (n.withDestination mac dd').Sound := ⟨hn.queues, hn.object, hn.unique⟩
  have hstored : (n.withDestination mac dd').localPdp.destinationData[mac]? = some dd' :=
    ExtTreeMap.getElem?_insert_self
  cases hmsg : Peer.updateMessage (n.view 0) mac items with
  | error e =>
    have htell := @wp_forM_unchanged (n.withDestination mac dd')
      (fun d => Peer.destinationUpdate d mac items) n.listed
        (fun p => p.isNotInterested mac = false)
      (fun i hi => hn.exists_object hi) fun i _ p _ =>
        Peer.wp_destinationUpdate_error ((Peer.destinationMessage_congr rfl rfl).trans hmsg)
    refine htell.mono ?_ ?_
    · rintro _ n' ⟨rfl, hnone⟩
      exact ⟨trivial, dd', hsame, hstored, fun hasks => absurd hasks hnone, fun _ => rfl⟩
    · rintro _ n' ⟨rfl, hsome⟩
      exact ⟨hsome, ⟨e, hmsg⟩, dd', hsame, rfl⟩
  | ok pm =>
    have htell := @Sound.told_tellPeers (n.withDestination mac dd')
      (fun p q => q = if p.isNotInterested mac then p
        else { p with trace := p.trace ++ [.send pm.msgbuf] })
      (fun d => Peer.destinationUpdate d mac items) hsound fun i _ p _ d hcfg hmodem =>
        Peer.wp_destinationUpdate_ok ((Peer.destinationMessage_congr hcfg hmodem).trans hmsg)
    refine htell.mono (fun _ n' htold => ?_) fun _ _ hfalse => hfalse.elim
    have hstays : n'.localPdp.destinationData[mac]? = some dd' := by
      rw [htold.rest]
      exact hstored
    refine ⟨trivial, dd', hsame, hstays, fun hasks => ?_, fun hnot => ?_⟩
    · have hcan : ¬ n.CannotTell mac items := by
        rintro ⟨e, he⟩
        rw [hmsg] at he
        cases he
      refine ⟨hcan, ?_⟩
      obtain ⟨i, hi, p, hp, hint⟩ := hasks
      obtain ⟨q, hq, rfl⟩ := htold.changed i hi p hp
      refine ⟨i, p, _, hp, hq, ?_⟩
      simp [hint, List.filterMap_append, Event.handed]
    · have hobjects : n'.objects = n.objects := by
        refine List.ext_getElem? fun i => ?_
        by_cases hi : i ∈ n.listed
        · obtain ⟨p, hp⟩ := hn.exists_object hi
          obtain ⟨q, hq, rfl⟩ := htold.changed i hi p hp
          have hint : p.isNotInterested mac = true := by
            by_contra hint
            exact hnot ⟨i, hi, p, hp, by simpa using hint⟩
          rw [hq, hp, if_pos hint]
        · exact htold.same i hi
      rw [htold.rest, hobjects]
      rfl

/-- A destination that the node does not have is not updated. -/
theorem updateDestination_absent (hdd : n.localPdp.destinationData[mac]? = none) :
    updateDestination mac items n = .ok false n := by
  have hvalid : ¬ n.localPdp.validDestination mac = true := by
    rw [PeerData.validDestination, ExtTreeMap.contains_eq_isSome_getElem?, hdd]
    simp
  have hwp : wp (updateDestination mac items) (fun ok n' => ok = false ∧ n' = n)
      (fun _ _ => False) n := by
    simp only [updateDestination, onLocal, PeerData.updateDestination, wp_bind, wp_get, wp_zoom,
      if_neg hvalid, wp_pure, Bool.false_eq_true, if_false]
    exact ⟨trivial, trivial⟩
  obtain ⟨ok, n', hrun, rfl, rfl⟩ := hwp.exists_ok
  exact hrun

/-- Another destination stays as it is, and what was recorded stays. -/
structure Spared (mac : DlepMac) (n n' : Node) : Prop where
  data : n'.localPdp.destinationData[mac]? = n.localPdp.destinationData[mac]?
  recorded : Recorded n n'

instance : Std.Refl (Spared mac) := ⟨fun n => ⟨rfl, Std.Refl.refl n⟩⟩

instance : IsTrans Node (Spared mac) :=
  ⟨fun _ _ _ h h' => ⟨h'.data.trans h.data, IsTrans.trans _ _ _ h.recorded h'.recorded⟩⟩

omit [AddressText] in
/-- A call on a peer leaves the destinations of the node. -/
theorem spared_onPeer {α : Type} {i : Nat} {call : DlepView → PeerM α}
    (h : ∀ d, Within Peer.Grows (call d)) : Within (Spared mac) (onPeer i call) := by
  refine within_of_wp fun n => wp_onPeer (fun _ _ => Std.Refl.refl n) fun p hp => ?_
  exact ((h _).wp p).mono (fun _ _ hq => ⟨rfl, each_set hp hq⟩) fun _ _ hq => ⟨rfl, each_set hp hq⟩

/-- An update is about its destination only. -/
theorem spared_updateDestination {dest : DlepMac} (hne : dest ≠ mac) :
    Within (Spared mac) (updateDestination dest items) := by
  refine within_bind within_get fun n₀ => within_bind (within_zoom fun n => ?_) fun ok => ?_
  · have hkeeps : wp (PeerData.updateDestination n₀.cfg dest items)
        (fun _ pd' => pd'.destinationData[mac]? = n.localPdp.destinationData[mac]?)
        (fun _ pd' => pd'.destinationData[mac]? = n.localPdp.destinationData[mac]?) n.localPdp := by
      simp only [PeerData.updateDestination, PeerData.onDestination, wp_bind, wp_get]
      split
      · rw [wp_bind, wp_bind, wp_get]
        split
        · rfl
        · refine wp_zoom.2 (wp_after.2 ?_)
          rw [wp_pure, ExtTreeMap.getElem?_insert, if_neg]
          rwa [Std.compare_eq_iff_eq]
      · rfl
    exact ⟨wp_after.1 hkeeps, rfl, rfl, fun _ p hp => ⟨p, hp, Std.Refl.refl p⟩⟩
  · refine within_ite (fun _ => within_bind ?_ fun _ => within_pure) fun _ => within_pure
    refine within_bind within_get fun _ => within_forM fun _ _ => spared_onPeer fun d => ?_
    exact Peer.closed_destinationUpdate

/-- Updates of destinations, one after the other, leave the node as it is if all the data are
there already, and the first destination of which somebody is told has an update that cannot be
encoded. -/
def SparesAll (n : Node) (items : DataItems) : List DlepMac → Prop
  | [] => True
  | dest :: dests =>
    match n.localPdp.destinationData[dest]? with
    | none => SparesAll n items dests
    | some dd => dd.Subsumes n.cfg items ∧ (n.Asks dest → n.CannotTell dest items) ∧
        (¬ n.Asks dest → SparesAll n items dests)

omit [AddressText] in
/-- Whatever a destination became, it stays so in the updates of the others. -/
theorem not_untouched_of_spared {n₁ n₂ : Node} {dd' : DestinationData}
    (hdd : n.localPdp.destinationData[mac]? = some dd)
    (hdd' : n₁.localPdp.destinationData[mac]? = some dd') (hne : dd' ≠ dd) (h : Spared mac n₁ n₂) :
    ¬ Untouched n n₂ := by
  intro huntouched
  have hstays := h.data
  rw [huntouched.localPdp, hdd, hdd'] at hstays
  exact hne (Option.some.inj hstays).symm

/-- Only a destination was written. -/
theorem untouched_withDestination {dd' : DestinationData}
    (hdd : n.localPdp.destinationData[mac]? = some dd)
    (hsame : dd' = dd ↔ dd.Subsumes n.cfg items) :
    Untouched n (n.withDestination mac dd') ↔ dd.Subsumes n.cfg items := by
  constructor
  · intro huntouched
    by_contra hsub
    exact not_untouched_of_spared hdd ExtTreeMap.getElem?_insert_self (fun h => hsub (hsame.1 h))
      (Std.Refl.refl (n.withDestination mac dd')) huntouched
  · intro hsub
    obtain rfl := hsame.2 hsub
    rw [withDestination_self hdd]
    exact Untouched.refl n

/-- By induction over the destinations: if the updates throw, the node is untouched exactly if all
that came before were spared. -/
theorem untouched_updateDestinations {macs : List DlepMac} (hnodup : macs.Nodup) (hn : n.Sound)
    (hitems : ∀ di ∈ items, di.Classified n.cfg) :
    wp (macs.forM fun dest => do let _ ← updateDestination dest items) (fun _ _ => True)
      (fun _ n' => Untouched n n' ↔ n.SparesAll items macs) n := by
  induction macs with
  | nil => trivial
  | cons dest dests ih =>
    obtain ⟨hdest, hnodup⟩ := List.nodup_cons.1 hnodup
    have hrest : ∀ n₁, wp (dests.forM fun dest => do let _ ← updateDestination dest items)
        (fun _ n' => Spared dest n₁ n') (fun _ n' => Spared dest n₁ n') n₁ := by
      have hothers : Within (Spared dest)
          (dests.forM fun other => do let _ ← updateDestination other items) := by
        refine within_forM fun other hother => within_bind (spared_updateDestination ?_) fun _ =>
          within_pure
        rintro rfl
        exact hdest hother
      exact hothers.wp
    rw [List.forM, wp_bind, wp_bind]
    cases hdd : n.localPdp.destinationData[dest]? with
    | none =>
      refine wp_of_ok (updateDestination_absent hdd) ?_
      simp only [SparesAll, hdd]
      exact ih hnodup
    | some dd =>
      simp only [SparesAll, hdd]
      refine (wp_updateDestination hn hitems hdd).mono ?_ ?_
      · rintro _ n₁ ⟨_, dd', hsame, hdd', hasked, hunasked⟩
        by_cases hasks : n.Asks dest
        · -- a message was sent, and stays sent
          obtain ⟨hcan, hlouder⟩ := hasked hasks
          refine (hrest n₁).mono (fun _ _ _ => trivial) fun _ n₂ hspared => ?_
          refine iff_of_false (hlouder.recorded hspared.recorded).not_untouched ?_
          exact fun h => hcan (h.2.1 hasks)
        · by_cases hsub : dd.Subsumes n.cfg items
          · obtain rfl := hsame.2 hsub
            rw [hunasked hasks, withDestination_self hdd]
            refine (ih hnodup).mono (fun _ _ h => h) fun _ n₂ h => ?_
            rw [h]
            exact ⟨fun hs => ⟨hsub, fun h => absurd h hasks, fun _ => hs⟩, fun h => h.2.2 hasks⟩
          · -- the destination was changed, and stays changed
            refine (hrest n₁).mono (fun _ _ _ => trivial) fun _ n₂ hspared => ?_
            refine iff_of_false ?_ fun h => hsub h.1
            exact not_untouched_of_spared hdd hdd' (fun h => hsub (hsame.1 h)) hspared
      · rintro _ n₁ ⟨hasks, hcannot, dd', hsame, rfl⟩
        rw [untouched_withDestination hdd hsame]
        exact ⟨fun hsub => ⟨hsub, fun _ => hcannot, fun h => absurd hasks h⟩, And.left⟩

/-- An update that is about a destination of a peer changes nothing if it throws. -/
theorem wp_updatePeerDestination_error :
    wp (updatePeerDestination mac items) (fun _ _ => True) (fun _ n' => n' = n) n := by
  simp only [updatePeerDestination, wp_bind, wp_get]
  split
  · trivial
  · next i _ =>
    rw [wp_bind]
    refine wp_onPeer (fun _ _ => rfl) fun p hp => ?_
    cases hmsg : Peer.updateMessage (n.view i) mac items with
    | error e =>
      refine (Peer.wp_destinationUpdate_error hmsg).mono (fun _ _ _ => trivial) ?_
      rintro _ q ⟨rfl, _⟩
      obtain ⟨hi, hget⟩ := List.getElem?_eq_some_iff.1 hp
      rw [← hget, List.set_getElem_self]
    | ok pm =>
      exact (Peer.wp_destinationUpdate_ok hmsg).mono (fun _ _ _ => trivial) fun _ _ hfalse =>
        hfalse.elim

/-! ## New destinations -/

/-- If it throws, the destination is new, and is there now. -/
theorem wp_addDestination_grows (hitems : ∀ di ∈ items, di.Classified n.cfg) :
    wp (addDestination s mac items) (fun _ n' => n'.cfg = n.cfg ∧ n.has ⊆ n'.has)
      (fun _ n' => n.has ⊆ n'.has ∧ mac ∉ n.has ∧ mac ∈ n'.has) n := by
  simp only [addDestination, onLocal, PeerData.addDestination, wp_bind, wp_get, wp_zoom]
  split
  · exact ⟨rfl, fun _ h => h⟩
  · next hmac =>
    obtain ⟨dd, hdd, _⟩ := DestinationData.create_updated mac hitems
    simp only [hdd, wp_bind, wp_lift_ok, wp_modify, wp_pure, if_true]
    have hleaves : Within Leaves (tellPeers fun d => Peer.destinationUp d s mac items) :=
      leaves_tellPeers fun d => queueInv_of_evolves Peer.within_destinationUp
    have hhas : (n.withDestination mac dd).has = insert mac n.has := has_withDestination
    refine (hleaves.wp (n.withDestination mac dd)).mono (fun _ n' hn' => ?_) fun _ n' hn' => ?_
    · rw [hn'.has, hhas]
      exact ⟨hn'.role.cfg, Set.subset_insert _ _⟩
    · rw [hn'.has, hhas]
      exact ⟨Set.subset_insert _ _, hmac, Set.mem_insert _ _⟩

/-- If it throws for one of them, there is a destination that was not there before. -/
theorem wp_addDestinations_grows {macs : List DlepMac}
    (hitems : ∀ di ∈ items, di.Classified n.cfg) :
    wp (macs.forM fun dest => do let _ ← addDestination s dest items) (fun _ _ => True)
      (fun _ n' => ∃ mac, mac ∉ n.has ∧ mac ∈ n'.has) n := by
  induction macs generalizing n with
  | nil => trivial
  | cons dest dests ih =>
    rw [List.forM, wp_bind, wp_bind]
    refine (wp_addDestination_grows hitems).mono ?_ ?_
    · rintro _ n₁ ⟨hcfg, hsub⟩
      rw [wp_pure]
      refine (ih (by rwa [hcfg])).mono (fun _ _ h => h) ?_
      rintro _ n₂ ⟨mac, hnot, hmem⟩
      exact ⟨mac, fun h => hnot (hsub h), hmem⟩
    · rintro _ n₁ ⟨_, hnot, hmem⟩
      exact ⟨dest, hnot, hmem⟩

omit [AddressText] in
/-- A node with a new destination is not untouched. -/
theorem not_untouched_of_new {n' : Node} (hnot : mac ∉ n.has) (hmem : mac ∈ n'.has) :
    ¬ Untouched n n' := by
  intro huntouched
  rw [has, Set.mem_ofPred_eq] at hnot hmem
  rw [huntouched.localPdp] at hmem
  exact hnot hmem

/-! ## The data of the node -/

/-- If it throws, only the data of the node were written. -/
theorem wp_peerUpdate_error (hn : n.Sound) (hitems : ∀ di ∈ items, di.Classified n.cfg) :
    wp (peerUpdate s items) (fun _ _ => True)
      (fun _ n' => Untouched n n' ↔ ∀ statusId, n.cfg.getDataItemId "Status" none = .ok statusId →
        n.localPdp.Subsumes n.cfg statusId items) n := by
  have hunknown := PeerData.hasUnknownMetric_eq hitems n.localPdp.metricDataItems
  simp only [peerUpdate, onLocal, wp_bind, wp_get, wp_zoom]
  cases hid : n.cfg.getDataItemId "Status" none with
  | error e =>
    -- nothing is stored without the number of the status
    simp only [PeerData.updateDataItems, PeerData.updateDataItemsHelper, wp_bind, wp_get, hunknown,
      wp_lift_ok, hid]
    split
    · trivial
    · exact iff_of_true (Untouched.refl n) (by simp)
  | ok statusId =>
    have hall : (∀ id, Except.ok (ε := Exn) statusId = .ok id →
      n.localPdp.Subsumes n.cfg id items) ↔
        n.localPdp.Subsumes n.cfg statusId items :=
      ⟨fun h => h statusId rfl, fun h id hsame => Except.ok.inj hsame ▸ h⟩
    rw [hall]
    cases hany : items.any fun di => decide (n.cfg.isMetric di.id none = .ok true) &&
        !n.localPdp.metricDataItems.contains di.id with
    | true =>
      rw [hany] at hunknown
      simp only [PeerData.updateDataItems, wp_bind, wp_get, hunknown, wp_lift_ok, if_true, wp_pure]
      trivial
    | false =>
      rw [hany] at hunknown
      refine (PeerData.wp_updateDataItems_eq_self_iff hitems hunknown hid).mono ?_
        fun _ _ hfalse => hfalse.elim
      rintro _ pd' ⟨rfl, hsame⟩
      rw [if_pos rfl, wp_bind]
      cases hrequest : Peer.updateRequestOf (n.view 0) items with
      | error e =>
        have htell := @wp_forM_unchanged { n with localPdp := pd' }
          (fun d => do let _ ← Peer.peerUpdate d s items) n.listed (fun p => p.pstate = .inSession)
          (fun i hi => hn.exists_object hi) fun i _ p _ => ?_
        · refine htell.mono (fun _ _ _ => trivial) ?_
          rintro _ n' ⟨rfl, _⟩
          rw [untouched_localPdp, hsame]
        · rw [wp_bind]
          exact Peer.wp_peerUpdate_error ((Peer.updateRequestOf_congr rfl rfl).trans hrequest)
      | ok rp =>
        have hsound : Sound { n with localPdp := pd' } := ⟨hn.queues, hn.object, hn.unique⟩
        have htell := @Sound.told_tellPeers { n with localPdp := pd' } (fun _ _ => True)
          (fun d => do let _ ← Peer.peerUpdate d s items) hsound fun i _ p hp d hcfg hmodem => ?_
        · exact htell.mono (fun _ _ _ => trivial) fun _ _ hfalse => hfalse.elim
        · rw [wp_bind]
          exact Peer.wp_peerUpdate_ok ((Peer.updateRequestOf_congr hcfg hmodem).trans hrequest)
            (hn.queues i p hp)

end

/-! ## The calls -/

/-- The calls of the service that encode data items of the client for all peers. -/
inductive ServiceCall where
  | destinationUp (entry : Option AdvertEntry) (mac : DlepMac) (items : DataItems)
  | destinationUpdate (entry : Option AdvertEntry) (mac : DlepMac) (items : DataItems)
  | peerUpdate (items : DataItems)

namespace ServiceCall

def items : ServiceCall → DataItems
  | destinationUp _ _ items => items
  | destinationUpdate _ _ items => items
  | peerUpdate items => items

/-- What the destination advertisement knows of the address of the call. -/
def entry : ServiceCall → Option AdvertEntry
  | destinationUp entry _ _ => entry
  | destinationUpdate entry _ _ => entry
  | peerUpdate _ => none

section

variable [AddressText]

def run (s : Surroundings) : ServiceCall → NodeM ReturnStatus
  | destinationUp entry mac items => Node.destinationUp s entry mac items
  | destinationUpdate entry mac items => Node.destinationUpdate entry mac items
  | peerUpdate items => Node.peerUpdate s items

/-- A new destination is never spared. An update is, if there is nothing to change, and nobody is
told anything before it throws. -/
def Spares (n : Node) : ServiceCall → Prop
  | destinationUp _ _ _ => False
  | destinationUpdate entry mac items =>
    if n.destAdvertEnabled then ∀ advert, entry = some advert →
      n.SparesAll items advert.destinations
    else n.SparesAll items [mac]
  | peerUpdate items => ∀ statusId, n.cfg.getDataItemId "Status" none = .ok statusId →
      n.localPdp.Subsumes n.cfg statusId items

/-- If bringing a destination up throws, the node has been changed. -/
theorem untouched_destinationUp {s : Surroundings} {entry : Option AdvertEntry} {mac : DlepMac}
    {items : DataItems} (hitems : ∀ di ∈ items, di.Classified n.cfg) :
    wp (Node.destinationUp s entry mac items) (fun _ _ => True)
      (fun _ n' => ¬ Untouched n n') n := by
  simp only [Node.destinationUp, wp_bind, wp_get]
  split
  · split
    · split
      · trivial
      · rw [wp_bind]
        refine (wp_addDestinations_grows hitems).mono (fun _ _ _ => trivial) ?_
        rintro _ n' ⟨mac, hnot, hmem⟩
        exact not_untouched_of_new hnot hmem
    · trivial
  · rw [wp_bind]
    refine (wp_addDestination_grows hitems).mono (fun ok _ _ => ?_) ?_
    · cases ok <;> trivial
    · rintro _ n' ⟨_, hnot, hmem⟩
      exact not_untouched_of_new hnot hmem

/-- If an update throws, the node is untouched exactly if it was spared. -/
theorem untouched_destinationUpdate {entry : Option AdvertEntry} {mac : DlepMac} {items : DataItems}
    (hn : n.Sound) (hitems : ∀ di ∈ items, di.Classified n.cfg)
    (hnodup : ∀ advert, entry = some advert → advert.destinations.Nodup) :
    wp (Node.destinationUpdate entry mac items) (fun _ _ => True)
      (fun _ n' => Untouched n n' ↔ (destinationUpdate entry mac items).Spares n) n := by
  simp only [Node.destinationUpdate, Spares, wp_bind, wp_get]
  split
  · cases entry with
    | some advert =>
      simp only [Option.some.injEq, forall_eq']
      split
      · rw [wp_bind]
        exact (untouched_updateDestinations (hnodup advert rfl) hn hitems).mono
          (fun _ _ _ => trivial) fun _ _ h => h
      · trivial
    | none =>
      refine wp_updatePeerDestination_error.mono (fun _ _ h => h) ?_
      rintro _ n' rfl
      exact iff_of_true (Untouched.refl n') (by simp)
  · rw [wp_bind]
    cases hdd : n.localPdp.destinationData[mac]? with
    | none =>
      refine wp_of_ok (updateDestination_absent hdd) ?_
      refine wp_updatePeerDestination_error.mono (fun _ _ h => h) ?_
      rintro _ n' rfl
      simp only [SparesAll, hdd]
      exact iff_of_true (Untouched.refl n') trivial
    | some dd =>
      refine (wp_updateDestination hn hitems hdd).mono ?_ ?_
      · rintro _ n₁ ⟨rfl, _⟩
        trivial
      · rintro _ n₁ ⟨hasks, hcannot, dd', hsame, rfl⟩
        rw [untouched_withDestination hdd hsame]
        simp only [SparesAll, hdd]
        exact ⟨fun hsub => ⟨hsub, fun _ => hcannot, fun _ => trivial⟩, And.left⟩

/-- A call that throws leaves the data of the node, the queues of all peers and what was handed
over as they were exactly if it had nothing to change and nobody was told anything before. -/
theorem untouched_iff_spares {s : Surroundings} {c : ServiceCall} {e : Exn}
    {n' : Node} (hn : n.Sound) (hitems : ∀ di ∈ c.items, di.Configured n.cfg)
    (hnodup : ∀ advert, c.entry = some advert → advert.destinations.Nodup)
    (hrun : c.run s n = .error e n') : Untouched n n' ↔ c.Spares n := by
  have hclassified : ∀ di ∈ c.items, di.Classified n.cfg := fun di hdi => (hitems di hdi).classified
  have hwp : wp (c.run s) (fun _ _ => True) (fun _ n' => Untouched n n' ↔ c.Spares n) n := by
    cases c with
    | destinationUp entry mac items =>
      exact (untouched_destinationUp hclassified).mono (fun _ _ _ => trivial) fun _ _ h =>
        iff_of_false h id
    | destinationUpdate entry mac items => exact untouched_destinationUpdate hn hclassified hnodup
    | peerUpdate items => exact wp_peerUpdate_error hn hclassified
  rw [wp, hrun] at hwp
  exact hwp

end

end ServiceCall

/-! ## A text that is too long -/

/-- A peer type with a text of 65535 bytes: with its flags it does not fit the length field. -/
def longType : DataItem := .mk 4 (.u8String 0 (List.replicate 65535 0))

/-- The sample item cannot be encoded. -/
theorem serialize_longType (w : Bytes) : longType.serialize rfc8175 ≠ .ok w := by
  intro h
  obtain ⟨valbuf, hval, h⟩ := bind_eq_ok.1 h
  obtain ⟨size, hsize, h⟩ := bind_eq_ok.1 h
  obtain ⟨header, _, h⟩ := bind_eq_ok.1 h
  obtain ⟨dibuf, hlength, _⟩ := bind_eq_ok.1 h
  have hvalbuf : valbuf.length = 65536 := by
    rw [← Except.ok.inj hval, List.length_append, List.length_replicate]
    rfl
  rw [vectorSize, if_pos (by omega)] at hsize
  obtain rfl := Except.ok.inj hsize
  have hfits := ((serializeField_ok (by omega)).1 hlength).1
  have hwidth : 256 ^ rfc8175.dataItemLengthSize.val = 65536 := rfl
  rw [hwidth, hvalbuf] at hfits
  exact lt_irrefl _ hfits

section

variable [AddressText]

omit [AddressText] in
/-- No message can be built that has a data item which cannot be written. -/
theorem addDataItems_ne_ok {cfg : ProtocolConfig} {items : DataItems} {di : DataItem}
    (hdi : di ∈ items) (h : ∀ w, di.serialize cfg ≠ .ok w) (pm pm' : ProtocolMessage) :
    ProtocolMessage.addDataItems cfg items pm ≠ .ok pm' := by
  induction items generalizing pm with
  | nil => cases hdi
  | cons other items ih =>
    intro hadd
    obtain ⟨pm₁, hone, hadd⟩ := bind_eq_ok.1 hadd
    rcases List.mem_cons.1 hdi with rfl | hdi
    · obtain ⟨w, hw, _⟩ := bind_eq_ok.1 hone
      exact h w hw
    · exact ih hdi pm₁ hadd

/-- A message whose data items cannot be added is not composed. -/
theorem compose_ne_ok {d : DlepView} {name func : String} {result : Bytes × ProtocolMessage}
    {build : ProtocolMessage → Except Exn ProtocolMessage} (hbuild : ∀ pm pm', build pm ≠ .ok pm') :
    Peer.compose d name build func ≠ .ok result := by
  intro hcompose
  obtain ⟨header, _, hcompose⟩ := bind_eq_ok.1 hcompose
  obtain ⟨built, hbuilt, _⟩ := bind_eq_ok.1 hcompose
  exact hbuild header built hbuilt

/-- No message about a destination can be built with it either. -/
theorem destinationMessage_ne_ok {d : DlepView} {name func : String} {mac : DlepMac}
    {items : DataItems} {di : DataItem} {pm : ProtocolMessage} (hdi : di ∈ items)
    (h : ∀ w, di.serialize d.cfg ≠ .ok w) :
    Peer.destinationMessage d name mac items func ≠ .ok pm := by
  intro hpm
  obtain ⟨_, hcompose, _⟩ := bind_eq_ok.1 hpm
  refine compose_ne_ok (fun header built hbuilt => ?_) hcompose
  obtain ⟨withMac, _, hitems⟩ := bind_eq_ok.1 hbuilt
  exact addDataItems_ne_ok hdi h withMac built hitems

/-- Nor can a message that a destination is up. -/
theorem upMessage_ne_ok {d : DlepView} {s : Surroundings} {name : String} {mac : DlepMac}
    {items : DataItems} {di : DataItem} {pm : ProtocolMessage} (hdi : di ∈ items)
    (h : ∀ w, di.serialize d.cfg ≠ .ok w) : Peer.upMessage d s name mac items ≠ .ok pm := by
  intro hpm
  obtain ⟨_, hcompose, _⟩ := bind_eq_ok.1 hpm
  refine compose_ne_ok (fun header built hbuilt => ?_) hcompose
  obtain ⟨withMac, _, hbuilt⟩ := bind_eq_ok.1 hbuilt
  obtain ⟨withItems, hitems, _⟩ := bind_eq_ok.1 hbuilt
  exact addDataItems_ne_ok hdi h withMac withItems hitems

/-- So the peer makes the call throw by which it would be told. -/
theorem wp_destinationUp_throws {d : DlepView} {s : Surroundings} {mac : DlepMac}
    {items : DataItems} {p : Peer} {di : DataItem} (hdi : di ∈ items)
    (h : ∀ w, di.serialize d.cfg ≠ .ok w) :
    wp (Peer.destinationUp d s mac items) (fun _ _ => False) (fun _ _ => True) p := by
  have hnone : ∀ (name : String) (pm : ProtocolMessage),
      Peer.upMessage d s name mac items ≠ .ok pm := fun _ _ => upMessage_ne_ok hdi h
  simp only [Peer.destinationUp, wp_bind, wp_get]
  split
  · rw [wp_bind, wp_modify, wp_bind]
    exact wp_lift (fun pm hpm => (hnone _ pm hpm).elim) fun _ _ => trivial
  · rw [wp_bind]
    exact wp_lift (fun pm hpm => (hnone _ pm hpm).elim) fun _ _ => trivial

end

attribute [local instance] plainText

/-- The modem has one router, which cannot be told; the destination stays. -/
theorem exists_destinationUp_throws {di : DataItem} (hdi : di.Classified rfc8175)
    (h : ∀ w, di.serialize rfc8175 ≠ .ok w) : ∃ e n',
    (ServiceCall.destinationUp none [2, 0, 0, 0, 0, 1] [di]).run Peer.bareSurroundings modemOfOne =
      .error e n' ∧ ¬ Untouched modemOfOne n' := by
  have hclassified : ∀ other ∈ [di], other.Classified rfc8175 := by simpa using hdi
  obtain ⟨dd, hdd, _⟩ := DestinationData.create_updated [2, 0, 0, 0, 0, 1] hclassified
  have hnew : ¬ modemOfOne.localPdp.validDestination [2, 0, 0, 0, 0, 1] = true := by decide
  have hdd : DestinationData.create modemOfOne.cfg [2, 0, 0, 0, 0, 1] [di] = .ok dd := hdd
  have hoff : ¬ modemOfOne.destAdvertEnabled = true := by decide
  have hwp : wp ((ServiceCall.destinationUp none [2, 0, 0, 0, 0, 1] [di]).run Peer.bareSurroundings)
      (fun _ _ => False) (fun _ _ => True) modemOfOne := by
    simp only [ServiceCall.run, Node.destinationUp, wp_bind, wp_get, addDestination, onLocal,
      PeerData.addDestination, wp_zoom, if_neg hoff, if_neg hnew, hdd, wp_lift_ok,
        wp_modify, wp_pure,
      if_true]
    change wp ([0].forM fun i => onPeer i _) _ _ _
    rw [List.forM, wp_bind]
    refine wp_onPeer (fun _ _ => trivial) fun p _ => ?_
    exact (wp_destinationUp_throws List.mem_cons_self h).mono (fun _ _ hfalse => hfalse.elim)
      fun _ _ _ => trivial
  have huntouched : wp ((ServiceCall.destinationUp none [2, 0, 0, 0, 0, 1] [di]).run
      Peer.bareSurroundings) (fun _ _ => True) (fun _ n' => ¬ Untouched modemOfOne n') modemOfOne :=
    @ServiceCall.untouched_destinationUp modemOfOne _ Peer.bareSurroundings none
      [2, 0, 0, 0, 0, 1] [di]
      hclassified
  have hboth := hwp.and huntouched
  unfold wp at hboth
  split at hboth
  · exact hboth.1.elim
  · next e n' hrun => exact ⟨e, n', hrun, hboth.2⟩

/-- The sample item is one of the configuration. -/
theorem configured_longType : ∀ di ∈ [longType], di.Configured rfc8175 := by
  intro di hdi
  obtain rfl := List.mem_singleton.1 hdi
  exact ⟨_, rfl⟩

/-- The destination stays, although the call throws. -/
theorem destinationUp_longType : (∀ w, longType.serialize rfc8175 ≠ .ok w) ∧ ∃ e n',
    (ServiceCall.destinationUp none [2, 0, 0, 0, 0, 1] [longType]).run
      Peer.bareSurroundings modemOfOne =
      .error e n' ∧ ¬ Untouched modemOfOne n' :=
  ⟨serialize_longType, exists_destinationUp_throws
    (configured_longType _ List.mem_cons_self).classified serialize_longType⟩

/-- The modem of one router, with a destination that has no data yet. -/
def modemWithDestination : Node :=
  { modemOfOne with
    localPdp :=
      { peerId := str "local"
        destinationData := (∅ : ExtTreeMap DlepMac DestinationData).insert [2, 0, 0, 0, 0, 1]
          { macAddress := [2, 0, 0, 0, 0, 1] } } }

/-- What the sample modem knows of its destination. -/
theorem destination_modemWithDestination :
    modemWithDestination.localPdp.destinationData[([2, 0, 0, 0, 0, 1] : DlepMac)]? =
      some { macAddress := [2, 0, 0, 0, 0, 1] } := ExtTreeMap.getElem?_insert_self

/-- A modem with the one router is sound, whatever its data are. -/
theorem sound_modemOfOne {n : Node} (hobjects : n.objects = modemOfOne.objects)
    (hpeers : n.peers = modemOfOne.peers) : n.Sound := by
  have hqueues : Peer.QueueInv Peer.barePeer :=
    @Peer.queueInv_of_create _ rfc8175 (str "peer") 0 _ rfl
  exact sound_of_one hobjects hpeers
    (hqueues.append [] hqueues.ok (by simp [routerInSession]) (by simp) rfl le_rfl)

/-- Of a destination, nothing is stored of the peer type. -/
theorem subsumes_longType (dd : DestinationData) : dd.Subsumes rfc8175 [longType] where
  metrics id := by
    have hnone : last (fun di => decide (di.IsMetric rfc8175 ∧ di.id = id)) [longType] = none := by
      have hplain : ¬ longType.IsMetric rfc8175 := by decide +kernel
      simp [last, hplain]
    rw [hnone, Option.none_or]
  addresses := by
    have hplain : ¬ longType.IsIpaddr rfc8175 := by decide +kernel
    rw [storeAddresses_cons_of_not hplain]
    rfl

/-- A destination without data has no latency yet. -/
theorem not_subsumes_latency {mac : DlepMac} : ¬ DestinationData.Subsumes rfc8175
    [DestinationData.latencyItem 7, longType] { macAddress := mac } := by
  intro hsub
  have hlast : last (fun di => decide (di.IsMetric rfc8175 ∧ di.id = 16))
      [DestinationData.latencyItem 7, longType] = some (DestinationData.latencyItem 7) := by
    have hmetric : (DestinationData.latencyItem 7).IsMetric rfc8175 := by decide +kernel
    have hplain : ¬ longType.IsMetric rfc8175 := by decide +kernel
    have hid : (DestinationData.latencyItem 7).id = 16 := rfl
    simp [last, hplain, hmetric, hid]
  have hlatency := hsub.metrics 16
  rw [hlast] at hlatency
  simp at hlatency

/-- The sample modem cannot tell its router of an update with the sample item. -/
theorem cannotTell_longType {items : DataItems} (hdi : longType ∈ items) :
    modemWithDestination.CannotTell [2, 0, 0, 0, 0, 1] items := by
  cases hmsg : Peer.updateMessage (modemWithDestination.view 0) [2, 0, 0, 0, 0, 1] items with
  | error e => exact ⟨e, hmsg⟩
  | ok pm => exact absurd hmsg (destinationMessage_ne_ok hdi serialize_longType)

/-- The router wants the update of the destination, which cannot be built. -/
theorem exists_destinationUpdate_throws {items : DataItems} (hdi : longType ∈ items)
    (hitems : ∀ di ∈ items, di.Classified rfc8175) : ∃ e n',
    (ServiceCall.destinationUpdate none [2, 0, 0, 0, 0, 1] items).run Peer.bareSurroundings
      modemWithDestination = .error e n' := by
  have hasks : modemWithDestination.Asks [2, 0, 0, 0, 0, 1] :=
    ⟨0, by decide, routerInSession, rfl, by decide⟩
  have hwp : wp ((ServiceCall.destinationUpdate none [2, 0, 0, 0, 0, 1] items).run
    Peer.bareSurroundings)
      (fun _ _ => False) (fun _ _ => True) modemWithDestination := by
    simp only [ServiceCall.run, Node.destinationUpdate, wp_bind, wp_get]
    rw [if_neg (show ¬ modemWithDestination.destAdvertEnabled = true by decide), wp_bind]
    have hsound : modemWithDestination.Sound := sound_modemOfOne rfl rfl
    refine (wp_updateDestination hsound hitems destination_modemWithDestination).mono ?_
      fun _ _ _ => trivial
    rintro ok n' ⟨-, _, _, _, htold, _⟩
    exact absurd (cannotTell_longType hdi) (htold hasks).1
  unfold wp at hwp
  split at hwp
  · exact hwp.elim
  · next e n' hrun => exact ⟨e, n', hrun⟩

/-- Nothing of the peer type is stored of a destination, so that the update leaves the node as it
is; the latency is stored. A new destination stays. -/
theorem untouched_iff_spares_longType :
    (∃ e n', (ServiceCall.destinationUpdate none [2, 0, 0, 0, 0, 1] [longType]).run
        Peer.bareSurroundings modemWithDestination = .error e n' ∧
          Untouched modemWithDestination n') ∧
    (∃ e n', (ServiceCall.destinationUpdate none [2, 0, 0, 0, 0, 1]
        [DestinationData.latencyItem 7, longType]).run Peer.bareSurroundings modemWithDestination =
          .error e n' ∧ ¬ Untouched modemWithDestination n') ∧
    ∃ e n', (ServiceCall.destinationUp none [2, 0, 0, 0, 0, 1] [longType]).run Peer.bareSurroundings
        modemOfOne = .error e n' ∧ ¬ Untouched modemOfOne n' := by
  have hboth : ∀ di ∈ [DestinationData.latencyItem 7, longType], di.Configured rfc8175 :=
    List.forall_mem_cons.2 ⟨⟨_, rfl⟩, configured_longType⟩
  have hnone : ∀ advert : AdvertEntry, none = some advert → advert.destinations.Nodup := by
    intro advert h
    cases h
  have hsound : modemWithDestination.Sound := sound_modemOfOne rfl rfl
  refine ⟨?_, ?_, ?_⟩
  · obtain ⟨e, n', hrun⟩ := exists_destinationUpdate_throws List.mem_cons_self
      fun di hdi => (configured_longType di hdi).classified
    have hiff : Untouched modemWithDestination n' ↔
        (ServiceCall.destinationUpdate none [2, 0, 0, 0, 0, 1] [longType]).Spares
          modemWithDestination :=
      ServiceCall.untouched_iff_spares hsound configured_longType hnone hrun
    refine ⟨e, n', hrun, hiff.2 ?_⟩
    exact ⟨subsumes_longType _, fun _ => cannotTell_longType List.mem_cons_self, fun _ => trivial⟩
  · have hmem : longType ∈ [DestinationData.latencyItem 7, longType] :=
      List.mem_cons_of_mem _ List.mem_cons_self
    obtain ⟨e, n', hrun⟩ := exists_destinationUpdate_throws hmem fun di hdi =>
      (hboth di hdi).classified
    have hiff : Untouched modemWithDestination n' ↔
        (ServiceCall.destinationUpdate none [2, 0, 0, 0, 0, 1]
          [DestinationData.latencyItem 7, longType]).Spares modemWithDestination :=
      ServiceCall.untouched_iff_spares hsound hboth hnone hrun
    refine ⟨e, n', hrun, fun h => ?_⟩
    obtain ⟨hsub, -⟩ := hiff.1 h
    exact not_subsumes_latency hsub
  · obtain ⟨e, n', hrun, _⟩ := exists_destinationUp_throws
      (configured_longType _ List.mem_cons_self).classified serialize_longType
    have hone : modemOfOne.Sound := sound_modemOfOne rfl rfl
    have hiff : Untouched modemOfOne n' ↔
        (ServiceCall.destinationUp none [2, 0, 0, 0, 0, 1] [longType]).Spares modemOfOne :=
      ServiceCall.untouched_iff_spares hone configured_longType hnone hrun
    exact ⟨e, n', hrun, hiff.1⟩

end Node

end Dlep
