import Dlep.Node.Roster
import Dlep.Peer.Spoken

/-!
# The peers of a node

Whatever is called on a node, each of its peers makes steps of its own: the connection brings
bytes, a timer runs out, or the node makes one of its calls. So a run of a node is a run of each
of its peers, in which every step has its cause in a step of the node. What is known of the data
of the node, and of what its peers are asked to do, is then known in every step of a peer.
-/

namespace Dlep

open Std Calls Runs

namespace PeerData

/-- What is known stays known. -/
def Preserves (known : PeerData → Prop) (pd pd' : PeerData) : Prop := known pd → known pd'

instance instReflPreserves {known : PeerData → Prop} : Std.Refl (Preserves known) := ⟨fun _ h => h⟩

instance instTransPreserves {known : PeerData → Prop} : IsTrans PeerData (Preserves known) :=
  ⟨fun _ _ _ h h' hpd => h' (h hpd)⟩

end PeerData

namespace Node

/-- What a step of a node asks of its peer with this index: an occasion of the peer is its own,
and the calls of the node may go to each of its peers. -/
inductive Causes (i : Nat) : Input → Peer.Input → Prop
  | occasion {occasion : Occasion} : Causes i (.peer i occasion) occasion.input
  | up {entry mac items} : Causes i (.destinationUp entry mac items) (.destinationUp mac items)
  | upEach {entry mac items dest} : dest ∈ entry.destinations →
      Causes i (.destinationUp (some entry) mac items) (.destinationUp dest items)
  | update {entry mac items} :
      Causes i (.destinationUpdate entry mac items) (.destinationUpdate mac items)
  | updateEach {entry mac items dest} : dest ∈ entry.destinations →
      Causes i (.destinationUpdate (some entry) mac items) (.destinationUpdate dest items)
  | down {entry mac items} : Causes i (.destinationDown entry mac items)
      (.destinationDown mac items)
  | downEach {entry mac items dest} : dest ∈ entry.destinations →
      Causes i (.destinationDown (some entry) mac items) (.destinationDown dest items)
  | remove {entry mac items} : Causes i (.destinationDown entry mac items) (.removeDestination mac)
  | peerUpdate {items} : Causes i (.peerUpdate items) (.peerUpdate items)
  | linkcharRequest {mac items} :
      Causes i (.linkcharRequest mac items) (.linkCharacteristicsRequest mac items)
  | linkcharReply {peerId mac items} :
      Causes i (.linkcharReply peerId mac items) (.linkCharacteristicsResponse mac items)
  | terminate : Causes i .terminate (.terminate "Success" [])
  | advertUp {mac items} : Causes i (.advertUp mac items) (.destinationUp mac items)
  | advertDown {mac} : Causes i (.advertDown mac) (.destinationDown mac [])

/-- What is known of the data of a node, which peers may be made, and what may be asked of the
peers. -/
structure Terms where
  known : PeerData → Prop
  made : PeerId → Surroundings → Prop
  asked : Nat → Surroundings → Peer.Input → Prop

/-- A peer sees a node of this configuration and role, with data that are as the terms say. -/
structure Terms.Shows (T : Terms) (cfg : ProtocolConfig) (modem : Bool) (d : DlepView) : Prop where
  cfg : d.cfg = cfg
  modem : d.modem = modem
  known : T.known d.localPdp

/-- The steps of a peer are made in a node of this configuration and role, on the terms. -/
def Terms.Meets (T : Terms) (cfg : ProtocolConfig) (modem : Bool) (i : Nat)
    (steps : List Peer.Step) :
    Prop :=
  ∀ st ∈ steps, T.Shows cfg modem st.d ∧ T.asked i st.s st.input

/-- The calls on the data of a node keep what is known of them, if what they do may be asked of
every peer too. -/
structure Terms.Lasts [AddressText] (T : Terms) : Prop where
  add : ∀ cfg s mac items, (∀ i, T.asked i s (.destinationUp mac items)) →
    Within (PeerData.Preserves T.known) (PeerData.addDestination cfg mac items)
  remove : ∀ mac, Within (PeerData.Preserves T.known) (PeerData.removeDestination mac)
  update : ∀ cfg s mac items, (∀ i, T.asked i s (.destinationUpdate mac items)) ∨
      (∀ i, T.asked i s (.linkCharacteristicsResponse mac items)) →
    Within (PeerData.Preserves T.known) (PeerData.updateDestination cfg mac items)
  session : ∀ cfg s items, (∀ i, T.asked i s (.peerUpdate items)) →
    Within (PeerData.Preserves T.known) (PeerData.updateDataItems cfg items)
  drop : ∀ items pd, T.known pd → T.known (pd.removeDataItems items)

/-- The peer was made and started, and has made some steps since. -/
def IsRun [AddressText] (T : Terms) (cfg : ProtocolConfig) (modem : Bool)
    (i : Nat) (q : Peer) : Prop :=
  ∃ peerId s p d steps, T.made peerId s ∧ Peer.create cfg peerId s.now = .ok p ∧
    T.Shows cfg modem d ∧
    T.Meets cfg modem i steps ∧ q = run Peer.step p (⟨d, s, .start⟩ :: steps)

/-- The node runs the same protocol in the same role, and its data are as before; each of its
peers has made some steps, and the peers that are new were made before they made theirs. -/
structure Progress [AddressText] (T : Terms) (n n' : Node) : Prop where
  cfg : n'.cfg = n.cfg
  modem : n'.modem = n.modem
  known : T.known n'.localPdp
  old : ∀ (i : Nat) (p : Peer), n.objects[i]? = some p →
    ∃ steps, T.Meets n.cfg n.modem i steps ∧ n'.objects[i]? = some (run Peer.step p steps)
  new : ∀ (i : Nat) (q : Peer), n'.objects[i]? = some q → n.objects.length ≤ i →
    IsRun T n.cfg n.modem i q

/-- The node makes progress, if its data are as the terms say. -/
def Advances [AddressText] (T : Terms) (n n' : Node) : Prop := T.known n.localPdp → Progress T n n'

section

variable [AddressText] {T : Terms}

omit [AddressText] in
/-- No steps meet all terms. -/
theorem Terms.meets_nil {cfg : ProtocolConfig} {modem : Bool} {i : Nat} :
    T.Meets cfg modem i [] := by
  intro st hst
  cases hst

/-- Further steps on the terms continue a run. -/
theorem IsRun.append {cfg : ProtocolConfig} {modem : Bool} {i : Nat} {q : Peer}
    {steps : List Peer.Step} (hq : IsRun T cfg modem i q) (hsteps : T.Meets cfg modem i steps) :
    IsRun T cfg modem i (run Peer.step q steps) := by
  obtain ⟨peerId, s, p, d, before, hmade, hp, hd, hbefore, rfl⟩ := hq
  refine ⟨peerId, s, p, d, before ++ steps, hmade, hp, hd, ?_, ?_⟩
  · exact List.forall_mem_append.2 ⟨hbefore, hsteps⟩
  · rw [← List.cons_append, run_append]

/-- A node whose peers are the same. -/
theorem Advances.of_objects {n n' : Node} (hcfg : n'.cfg = n.cfg) (hmodem : n'.modem = n.modem)
    (hobjects : n'.objects = n.objects) (hknown : T.known n.localPdp → T.known n'.localPdp) :
    Advances T n n' := by
  intro h
  refine ⟨hcfg, hmodem, hknown h, fun i p hp => ⟨[], Terms.meets_nil, ?_⟩, fun i q hq hi => ?_⟩
  · rw [hobjects]
    exact hp
  · rw [hobjects, List.getElem?_eq_none hi] at hq
    cases hq

instance instReflAdvances : Std.Refl (Advances T) := ⟨fun _ => .of_objects rfl rfl rfl id⟩

/-- Progress after progress is progress. -/
theorem Progress.trans {n n' n'' : Node} (h : Progress T n n') (h' : Progress T n' n'') :
    Progress T n n'' := by
  have hold := h'.old
  have hnew := h'.new
  rw [h.cfg, h.modem] at hold hnew
  refine ⟨h'.cfg.trans h.cfg, h'.modem.trans h.modem, h'.known, fun i p hp => ?_,
    fun i q hq hi => ?_⟩
  · obtain ⟨steps, hsteps, hp'⟩ := h.old i p hp
    obtain ⟨steps', hsteps', hp''⟩ := hold i _ hp'
    exact ⟨steps ++ steps', List.forall_mem_append.2 ⟨hsteps, hsteps'⟩, run_append ▸ hp''⟩
  · rcases lt_or_ge i n'.objects.length with hlt | hge
    · obtain ⟨steps, hsteps, hq'⟩ := hold i _ (List.getElem?_eq_getElem hlt)
      obtain rfl := Option.some.inj (hq.symm.trans hq')
      exact (h.new i _ (List.getElem?_eq_getElem hlt) hi).append hsteps
    · exact hnew i q hq hge

instance instTransAdvances : IsTrans Node (Advances T) :=
  ⟨fun _ _ _ h h' hn => (h hn).trans (h' (h hn).known)⟩

/-- A call on the data of the node makes no step of a peer. -/
theorem advances_onLocal {α : Type} {m : EStateM Exn PeerData α}
    (hm : Within (PeerData.Preserves T.known) m) : Within (Advances T) (onLocal m) :=
  within_zoom fun n => .of_objects rfl rfl rfl (hm n.localPdp)

/-- Cleaning up makes no step of a peer. -/
theorem advances_cleanupExPeers : Within (Advances T) cleanupExPeers :=
  within_modify fun _ => .of_objects rfl rfl rfl id

variable {s : Surroundings} {mac : DlepMac} {items : DataItems}

/-- A call on a peer that is a step of the peer. -/
theorem advances_onPeer {α : Type} {i : Nat} {call : DlepView → PeerM α} {input : Peer.Input}
    (hasked : T.asked i s input) (h : ∀ d p, after (call d) p = p.step ⟨d, s, input⟩) :
    Within (Advances T) (onPeer i call) := by
  refine within_of_wp fun n => wp_onPeer (fun _ _ => Std.Refl.refl n) fun p hp => wp_after.2 ?_
  intro hknown
  rw [h (n.view i) p]
  refine ⟨rfl, rfl, hknown, fun j r hr => ?_, fun j q hq hj => ?_⟩
  · rw [getElem?_set hp]
    split
    · next hij =>
      obtain rfl := Option.some.inj (hp.symm.trans (hij ▸ hr))
      refine ⟨[⟨n.view i, s, input⟩], fun st hst => ?_, rfl⟩
      rw [List.mem_singleton.1 hst]
      exact ⟨⟨rfl, rfl, hknown⟩, hij ▸ hasked⟩
    · exact ⟨[], Terms.meets_nil, hr⟩
  · have hlength : j < (n.objects.set i (p.step ⟨n.view i, s, input⟩)).length :=
      (List.getElem?_eq_some_iff.1 hq).1
    rw [List.length_set] at hlength
    omega

/-- A call on every peer in the map is a step of each of them, if it may be asked. -/
theorem advances_tellPeers {call : DlepView → PeerM Unit} {input : Peer.Input}
    (hasked : ∀ i, T.asked i s input) (h : ∀ d p, after (call d) p = p.step ⟨d, s, input⟩) :
    Within (Advances T) (tellPeers call) :=
  within_bind within_get fun _ => within_forM fun i _ => advances_onPeer (hasked i) h

/-- A call on the data of the node, after which the peers are told if it was done. -/
theorem advances_ifTold {α : Type} {m : EStateM Exn PeerData Bool} {call : DlepView → PeerM Unit}
    {input : Peer.Input} (hm : Within (PeerData.Preserves T.known) m)
    (hasked : ∀ i, T.asked i s input) (h : ∀ d p, after (call d) p = p.step ⟨d, s, input⟩)
    {yes no : α} :
    Within (Advances T) (do
      if ← onLocal m then
        tellPeers call
        return yes
      else return no : NodeM α) := by
  refine within_bind (advances_onLocal hm) fun _ => within_ite (fun _ => ?_) fun _ => within_pure
  exact within_bind (advances_tellPeers hasked h) fun _ => within_pure

variable (hT : T.Lasts)

include hT

/-! ## Destinations -/

/-- Adding a destination asks every peer to bring it up. -/
theorem advances_addDestination (hasked : ∀ i, T.asked i s (.destinationUp mac items)) :
    Within (Advances T) (addDestination s mac items) :=
  within_bind within_get fun n => advances_ifTold (hT.add n.cfg s mac items hasked) hasked
    fun _ _ => rfl

/-- Updating a destination asks every peer to update it. -/
theorem advances_updateDestination (s : Surroundings)
    (hasked : ∀ i, T.asked i s (.destinationUpdate mac items)) :
    Within (Advances T) (updateDestination mac items) :=
  within_bind within_get fun n =>
    advances_ifTold (s := s) (hT.update n.cfg s mac items (.inl hasked)) hasked fun _ _ => rfl

/-- Removing a destination asks every peer to take it down. -/
theorem advances_removeDestination (hasked : ∀ i, T.asked i s (.destinationDown mac items)) :
    Within (Advances T) (removeDestination s mac items) :=
  advances_ifTold (hT.remove mac) hasked fun _ _ => rfl

omit hT in
/-- Removing a destination of a peer asks that peer to forget it and to take it down. -/
theorem advances_removePeerDestination {j : Nat}
    (hremove : ∀ i, T.asked i s (.removeDestination mac))
    (hdown : ∀ i, T.asked i s (.destinationDown mac items)) :
    Within (Advances T) (removePeerDestination s j mac items) := by
  refine within_bind (advances_onPeer (s := s) (hremove j) fun d p => after_bind_pure.symm)
    fun _ => ?_
  refine within_ite (fun _ => within_bind ?_ fun _ => within_pure) fun _ => within_pure
  exact advances_tellPeers hdown fun _ _ => rfl

/-- The client brings a destination up, or a remote modem with its destinations. -/
theorem advances_destinationUp {entry : Option AdvertEntry}
    (hasked : ∀ i input, Causes i (.destinationUp entry mac items) input → T.asked i s input) :
    Within (Advances T) (destinationUp s entry mac items) := by
  refine within_bind within_get fun _ => within_ite (fun _ => ?_) fun _ => ?_
  · split
    · refine within_ite (fun _ => within_pure) fun _ => within_bind ?_ fun _ => within_pure
      refine within_forM fun dest hdest => within_bind ?_ fun _ => within_pure
      exact advances_addDestination hT fun i => hasked i _ (.upEach hdest)
    · exact within_pure
  · refine within_bind (advances_addDestination hT fun i => hasked i _ .up) fun _ => ?_
    exact within_ite (fun _ => within_pure) fun _ => within_pure

omit hT in
/-- An update of a destination of a peer asks peers to update it. -/
theorem advances_updatePeerDestination (s : Surroundings)
    (hasked : ∀ i, T.asked i s (.destinationUpdate mac items)) :
    Within (Advances T) (updatePeerDestination mac items) := by
  refine within_bind within_get fun _ => ?_
  split
  · exact within_pure
  · exact within_bind (advances_onPeer (s := s) (hasked _) fun _ _ => rfl) fun _ => within_pure

/-- The client updates a destination, or a remote modem with its destinations. -/
theorem advances_destinationUpdate (s : Surroundings) {entry : Option AdvertEntry}
    (hasked : ∀ i input, Causes i (.destinationUpdate entry mac items) input → T.asked i s input) :
    Within (Advances T) (destinationUpdate entry mac items) := by
  have hpeer : Within (Advances T) (updatePeerDestination mac items) :=
    advances_updatePeerDestination s fun i => hasked i _ .update
  refine within_bind within_get fun _ => within_ite (fun _ => ?_) fun _ => ?_
  · split
    · refine within_ite (fun _ => within_bind ?_ fun _ => within_pure) fun _ => within_pure
      refine within_forM fun dest hdest => within_bind ?_ fun _ => within_pure
      exact advances_updateDestination hT s fun i => hasked i _ (.updateEach hdest)
    · exact hpeer
  · refine within_bind (advances_updateDestination hT s fun i => hasked i _ .update) fun _ => ?_
    exact within_ite (fun _ => within_pure) fun _ => hpeer

/-- A destination is ours to take down, or that of a peer. -/
theorem advances_dropDestination (hremove : ∀ i, T.asked i s (.removeDestination mac))
    (hdown : ∀ i, T.asked i s (.destinationDown mac items)) :
    Within (Advances T) (dropDestination s mac items) := by
  refine within_bind (advances_removeDestination hT hdown) fun _ =>
    within_ite (fun _ => within_pure) fun _ => ?_
  refine within_bind within_get fun _ => ?_
  split
  · exact within_pure
  · refine within_bind (advances_removePeerDestination hremove hdown) fun _ => ?_
    exact within_bind within_lift fun _ => within_pure

/-- The destinations of an entry are taken down one after the other. -/
theorem advances_dropDestinations {dests : List DlepMac}
    (hdown : ∀ dest ∈ dests, ∀ i, T.asked i s (.destinationDown dest items)) :
    Within (Advances T) (dropDestinations s items dests) := by
  induction dests with
  | nil => exact within_pure
  | cons dest dests ih =>
    obtain ⟨hdest, hdests⟩ := List.forall_mem_cons.1 hdown
    refine within_bind (advances_removeDestination hT hdest) fun _ => ?_
    exact within_bind (ih hdests) fun _ => within_pure

/-- The client takes a destination down, or a remote modem with its destinations. -/
theorem advances_destinationDown {entry : Option AdvertEntry}
    (hasked : ∀ i input, Causes i (.destinationDown entry mac items) input → T.asked i s input) :
    Within (Advances T) (destinationDown s entry mac items) := by
  have hdrop : Within (Advances T) (dropDestination s mac items) :=
    advances_dropDestination hT (fun i => hasked i _ .remove) fun i => hasked i _ .down
  refine within_bind within_get fun _ => within_ite (fun _ => ?_) fun _ => hdrop
  split
  · refine within_ite (fun _ => advances_dropDestinations hT fun dest hdest => ?_) fun _ =>
      within_pure
    exact fun i => hasked i _ (.downEach hdest)
  · exact hdrop

/-! ## The other calls -/

omit hT in
/-- A connection makes a peer and starts it. -/
theorem advances_handleAsyncMakePeer {peerId : PeerId} (hmade : T.made peerId s) :
    Within (Advances T) (handleAsyncMakePeer s peerId) := by
  refine within_of_wp fun n => ?_
  simp only [handleAsyncMakePeer, wp_bind, wp_get]
  refine wp_lift (fun p hp => ?_) fun _ _ => Std.Refl.refl n
  rw [wp_set]
  refine wp_onPeer (fun hnone => ?_) fun p' hp' => wp_after.2 fun hknown => ?_
  · rw [List.getElem?_concat_length] at hnone
    cases hnone
  · rw [List.getElem?_concat_length] at hp'
    obtain rfl := Option.some.inj hp'
    refine ⟨rfl, rfl, hknown, fun i r hr => ⟨[], Terms.meets_nil, ?_⟩, fun i q hq hi => ?_⟩
    · have hlt : i < n.objects.length := (List.getElem?_eq_some_iff.1 hr).1
      rw [List.getElem?_set_ne (by omega), List.getElem?_append_left hlt]
      exact hr
    · -- the only new peer is the one that was started
      rw [List.set_append_right _ _ le_rfl, Nat.sub_self, List.getElem?_append_right hi] at hq
      obtain rfl := List.mem_singleton.1 (List.mem_of_getElem? hq)
      exact ⟨peerId, s, p, _, [], hmade, hp, ⟨rfl, rfl, hknown⟩, Terms.meets_nil, rfl⟩

/-- An update of the session asks every peer for it. -/
theorem advances_peerUpdate (hasked : ∀ i, T.asked i s (.peerUpdate items)) :
    Within (Advances T) (peerUpdate s items) := by
  refine within_bind within_get fun n => ?_
  refine within_bind (advances_onLocal (hT.session n.cfg s items hasked)) fun _ => ?_
  refine within_ite (fun _ => within_bind ?_ fun _ => within_pure) fun _ => within_pure
  exact advances_tellPeers (s := s) hasked fun _ _ => rfl

omit hT in
/-- A request about a link asks every peer for it. -/
theorem advances_linkcharRequest
    (hasked : ∀ i, T.asked i s (.linkCharacteristicsRequest mac items)) :
    Within (Advances T) (linkcharRequest s mac items) := by
  refine within_bind within_get fun _ => ?_
  split
  · exact within_pure
  · exact within_bind (advances_onPeer (s := s) (hasked _) fun _ _ => rfl) fun _ => within_pure

/-- A reply about a link asks the peer for it that it is for. -/
theorem advances_linkcharReply {peerId : PeerId}
    (hasked : ∀ i, T.asked i s (.linkCharacteristicsResponse mac items)) :
    Within (Advances T) (linkcharReply s peerId mac items) := by
  refine within_bind within_get fun _ => ?_
  split
  · exact within_pure
  · refine within_bind (advances_onPeer (s := s) (hasked _) fun _ _ => rfl) fun _ => ?_
    refine within_bind within_get fun n => ?_
    refine within_bind (advances_onLocal (hT.update n.cfg s mac items (.inr hasked))) fun _ => ?_
    exact within_ite (fun _ => within_pure) fun _ => within_pure

omit hT in
/-- Terminating the service terminates every peer. -/
theorem advances_terminate (hasked : ∀ i, T.asked i s (.terminate "Success" [])) :
    Within (Advances T) (terminate s) := by
  refine within_bind (advances_tellPeers (s := s) hasked fun _ _ => rfl) fun _ => ?_
  exact within_modify fun _ => .of_objects rfl rfl rfl id

/-- Whatever happens to a node, its peers make steps of their own, for which the step of the node
is the cause. -/
theorem advances_step {st : Step} (hmade : ∀ peerId, st.input = .connect peerId →
    T.made peerId st.s)
    (hasked : ∀ i input, Causes i st.input input → T.asked i st.s input) (n : Node) :
    Advances T n (n.step st) := by
  obtain ⟨s, input⟩ := st
  cases input with
  | connect peerId => exact advances_handleAsyncMakePeer (hmade peerId rfl) n
  | peer i occasion => exact advances_onPeer (s := s) (hasked i _ .occasion) (fun _ _ => rfl) n
  | cleanup => exact advances_cleanupExPeers n
  | destinationUp entry mac items =>
    exact within_bind (advances_destinationUp hT hasked) (fun _ => within_pure) n
  | destinationUpdate entry mac items =>
    exact within_bind (advances_destinationUpdate hT s hasked) (fun _ => within_pure) n
  | destinationDown entry mac items =>
    exact within_bind (advances_destinationDown hT hasked) (fun _ => within_pure) n
  | peerUpdate items =>
    have hall : ∀ i, T.asked i s (.peerUpdate items) := fun i => hasked i _ .peerUpdate
    exact within_bind (advances_peerUpdate hT hall) (fun _ => within_pure) n
  | peerRemoveDataItems items => exact .of_objects rfl rfl rfl (hT.drop items n.localPdp)
  | linkcharRequest mac items =>
    have hall : ∀ i, T.asked i s (.linkCharacteristicsRequest mac items) :=
      fun i => hasked i _ .linkcharRequest
    exact within_bind (advances_linkcharRequest hall) (fun _ => within_pure) n
  | linkcharReply peerId mac items =>
    have hall : ∀ i, T.asked i s (.linkCharacteristicsResponse mac items) :=
      fun i => hasked i _ .linkcharReply
    exact within_bind (advances_linkcharReply hT hall) (fun _ => within_pure) n
  | terminate => exact advances_terminate (fun i => hasked i _ .terminate) n
  | advertUp mac items =>
    have hall : ∀ i, T.asked i s (.destinationUp mac items) := fun i => hasked i _ .advertUp
    exact within_bind (advances_addDestination hT hall) (fun _ => within_pure) n
  | advertDown mac =>
    have hall : ∀ i, T.asked i s (.destinationDown mac []) := fun i => hasked i _ .advertDown
    exact within_bind (advances_removeDestination hT hall) (fun _ => within_pure) n

/-! ## Runs -/

/-- By induction over the steps of a node, on terms that allow what each of them asks. -/
theorem advances_run {steps : List Step}
    (hmade : ∀ st ∈ steps, ∀ peerId, st.input = .connect peerId → T.made peerId st.s)
    (hasked : ∀ st ∈ steps, ∀ i input, Causes i st.input input → T.asked i st.s input) {n : Node} :
    Advances T n (run step n steps) := by
  induction steps generalizing n with
  | nil => exact Std.Refl.refl n
  | cons st steps ih =>
    obtain ⟨hmadeFirst, hmadeRest⟩ := List.forall_mem_cons.1 hmade
    obtain ⟨haskedFirst, haskedRest⟩ := List.forall_mem_cons.1 hasked
    have hfirst : Advances T n (n.step st) := advances_step hT hmadeFirst haskedFirst n
    exact IsTrans.trans _ _ _ hfirst (ih hmadeRest haskedRest)

end

section

variable [AddressText] {cfg : ProtocolConfig} {modem enabled : Bool} {n : Node} {steps : List Step}

/-- All that can happen. -/
def anyTerms : Terms := ⟨fun _ => True, fun _ _ => True, fun _ _ _ => True⟩

/-- What a step of a node makes, and asks of the peers. -/
def Step.terms (st : Step) : Terms where
  known _ := True
  made peerId s := st.input = .connect peerId ∧ s = st.s
  asked i s input := s = st.s ∧ Causes i st.input input

omit [AddressText] in
/-- Terms under which all data are known last. -/
theorem Terms.lasts_of_known {T : Terms} [AddressText] (h : ∀ pd, T.known pd) : T.Lasts where
  add _ _ _ _ _ pd _ := h (after _ pd)
  remove _ pd _ := h (after _ pd)
  update _ _ _ _ _ pd _ := h (after _ pd)
  session _ _ _ _ pd _ := h (after _ pd)
  drop _ _ _ := h _

/-- A run of a node, in which anything may be asked of its peers. -/
theorem progress_run : Progress anyTerms n (run step n steps) := by
  have hlasts : anyTerms.Lasts := Terms.lasts_of_known fun _ => trivial
  exact advances_run hlasts (fun _ _ _ _ => trivial) (fun _ _ _ _ _ => trivial) trivial

omit [AddressText] in
/-- A node has the configuration and the role that it was made with. -/
theorem config_of_create [AddressText] (hn : Node.create cfg modem enabled = .ok n) :
    n.cfg = cfg ∧ n.modem = modem := by
  obtain ⟨items, _, h⟩ := bind_eq_ok.1 hn
  obtain ⟨localPdp, _, h⟩ := bind_eq_ok.1 h
  rw [← Except.ok.inj h]
  exact ⟨rfl, rfl⟩

/-- Each peer of a node that was made is in a run. -/
theorem isRun_of_mem {T : Terms} (hn : Node.create cfg modem enabled = .ok n)
    (hprogress : Progress T n (run step n steps)) {q : Peer} (hq : q ∈ (run step n steps).objects) :
    ∃ i, IsRun T cfg modem i q := by
  obtain ⟨i, hi⟩ := List.mem_iff_getElem?.1 hq
  have hobjects := (objects_of_create hn).1
  have hrun : IsRun T n.cfg n.modem i q := hprogress.new i q hi (by simp [hobjects])
  obtain ⟨hcfg, hmodem⟩ := config_of_create hn
  rw [hcfg, hmodem] at hrun
  exact ⟨i, hrun⟩

/-- The run of a peer from its making on, in which all steps but the first are asked for. -/
theorem IsRun.exists_run {T : Terms} {i : Nat} {q : Peer} (h : IsRun T cfg modem i q) :
    ∃ peerId now p own, Peer.create cfg peerId now = .ok p ∧ q = run Peer.step p own ∧
      ∀ st ∈ own, T.Shows cfg modem st.d ∧ (st.input = .start ∨ T.asked i st.s st.input) := by
  obtain ⟨peerId, s, p, d, steps, -, hp, hd, hsteps, rfl⟩ := h
  refine ⟨peerId, s.now, p, ⟨d, s, .start⟩ :: steps, hp, rfl, ?_⟩
  refine List.forall_mem_cons.2 ⟨⟨hd, .inl rfl⟩, fun st hst => ?_⟩
  obtain ⟨hshows, hasked⟩ := hsteps st hst
  exact ⟨hshows, .inr hasked⟩

/-- Each segment consists of the steps that the peer with this index makes in one step of the
node. -/
def Follows (cfg : ProtocolConfig) (modem : Bool) (i : Nat) (steps : List Step)
    (segments : List (List Peer.Step)) : Prop :=
  List.Forall₂ (fun st segment => ∀ own ∈ segment,
    own.d.cfg = cfg ∧ own.d.modem = modem ∧ own.s = st.s ∧ Causes i st.input own.input)
      steps segments

/-- A run of a node is a run of each of its peers: the peer was made for a connection and started,
and what happened to it since is cut into segments, one for each later step of the node, in which
each step of the peer has its cause in the step of the node. -/
theorem peers_of_run (hn : Node.create cfg modem enabled = .ok n) {i : Nat} {q : Peer}
    (hq : (run step n steps).objects[i]? = some q) :
    ∃ earlier s peerId later p d segments, steps = earlier ++ ⟨s, .connect peerId⟩ :: later ∧
      Peer.create cfg peerId s.now = .ok p ∧ d.cfg = cfg ∧ d.modem = modem ∧
      Follows cfg modem i later segments ∧
        q = run Peer.step p (⟨d, s, .start⟩ :: segments.flatten) := by
  -- the last step adds a segment to the run of a peer that is there, or makes the peer
  induction steps using List.reverseRecOn generalizing i q with
  | nil =>
    rw [run_nil, (objects_of_create hn).1] at hq
    cases hq
  | append_singleton steps st ih =>
    have hlasts : st.terms.Lasts := Terms.lasts_of_known fun _ => trivial
    have hprogress : Progress st.terms (run step n steps) ((run step n steps).step st) :=
      advances_step hlasts (fun peerId h => ⟨h, rfl⟩) (fun _ _ h => ⟨rfl, h⟩) _ trivial
    have hearlier : Progress anyTerms n (run step n steps) := progress_run
    obtain ⟨hcfg, hmodem⟩ := config_of_create hn
    rw [← hearlier.cfg] at hcfg
    rw [← hearlier.modem] at hmodem
    rw [run_append] at hq
    rcases lt_or_ge i (run step n steps).objects.length with hlt | hge
    · obtain ⟨segment, hmeets, hlater⟩ := hprogress.old i _ (List.getElem?_eq_getElem hlt)
      obtain ⟨earlier, s, peerId, later, p, d, segments, rfl, hp, hd, hdm, hfollows, hrun⟩ :=
        ih (List.getElem?_eq_getElem hlt)
      have hsegment : ∀ own ∈ segment,
          own.d.cfg = cfg ∧ own.d.modem = modem ∧ own.s = st.s ∧ Causes i st.input own.input := by
        intro own hown
        obtain ⟨hshows, hs, hcause⟩ := hmeets own hown
        exact ⟨hshows.cfg.trans hcfg, hshows.modem.trans hmodem, hs, hcause⟩
      refine ⟨earlier, s, peerId, later ++ [st], p, d, segments ++ [segment],
        ?_, hp, hd, hdm, ?_, ?_⟩
      · rw [List.append_assoc, List.cons_append]
      · exact List.rel_append hfollows (.cons hsegment .nil)
      · rw [List.flatten_append, ← List.cons_append, run_append, ← hrun, List.flatten_singleton]
        exact Option.some.inj (hq.symm.trans hlater)
    · obtain ⟨peerId, s, p, d, segment, ⟨hinput, rfl⟩, hp, hshows, hmeets, rfl⟩ :=
        hprogress.new i q hq hge
      -- a connection asks nothing of the peers, so that the new one was only started
      have hnone : segment = [] := by
        refine List.eq_nil_iff_forall_not_mem.2 fun own hown => ?_
        obtain ⟨-, -, hcause⟩ := hmeets own hown
        rw [hinput] at hcause
        cases hcause
      rw [hcfg] at hp
      have hst : st = ⟨st.s, .connect peerId⟩ := by rw [← hinput]
      refine ⟨steps, st.s, peerId, [], p, d, [], by rw [← hst], hp, hshows.cfg.trans hcfg,
        hshows.modem.trans hmodem, .nil, ?_⟩
      rw [hnone, List.flatten_nil]

/-- Whatever a node goes through, each of its peers hands whole messages to its session. -/
theorem isWhole_of_nodeRun (hcfg : cfg.Orderly) (hn : Node.create cfg modem enabled = .ok n) :
    ∀ q ∈ (run step n steps).objects, ∀ e ∈ q.trace, ∀ buf ∈ e.handed, buf ≠ [] →
      Peer.IsWhole cfg buf := by
  intro q hq e he buf hbuf hne
  obtain ⟨i, hrun⟩ := isRun_of_mem hn progress_run hq
  obtain ⟨peerId, now, p, own, hp, rfl, hown⟩ := hrun.exists_run
  have hspoken := Peer.spoken_of_run hcfg hp (fun st hst => (hown st hst).1.cfg) e he buf hbuf
  exact Peer.isWhole_of_spoken hspoken hne

end

attribute [local instance] plainText

/-- A router that connects to two modems, is asked for something, and loses the first one again. -/
def connectedTwice : List Step :=
  [⟨Peer.bareSurroundings, .connect (str "modem")⟩, ⟨Peer.bareSurroundings, .connect (str "other")⟩,
    ⟨Peer.bareSurroundings, .peerUpdate []⟩, ⟨Peer.bareSurroundings, .peer 0 .eof⟩]

/-- The first peer has ended, in a run of its own. -/
theorem peers_of_run_connectedTwice :
    ∃ q, (run step (shipped false) connectedTwice).objects[0]? = some q ∧ q.pstate = .terminating ∧
      ∃ earlier s peerId later p d segments,
        connectedTwice = earlier ++ ⟨s, .connect peerId⟩ :: later ∧
        Peer.create rfc8175 peerId s.now = .ok p ∧ d.cfg = rfc8175 ∧ d.modem = false ∧
        Follows rfc8175 false 0 later segments ∧
        q = run Peer.step p (⟨d, s, .start⟩ :: segments.flatten) := by
  have hlost : ((run step (shipped false) connectedTwice).objects[0]?).map Peer.pstate =
      some .terminating := by decide +kernel
  obtain ⟨q, hq, hend⟩ := Option.map_eq_some_iff.1 hlost
  exact ⟨q, hq, hend, peers_of_run (create_shipped false) hq⟩

/-- Something was handed to the session. -/
theorem isWhole_of_nodeRun_connectedTwice :
    ∃ q ∈ (run step (shipped false) connectedTwice).objects, ∃ e ∈ q.trace,
      ∃ buf ∈ e.handed, buf ≠ [] ∧ Peer.IsWhole rfc8175 buf := by
  obtain ⟨q, hq, e, he, buf, hbuf, hne⟩ : ∃ q ∈ (run step (shipped false) connectedTwice).objects,
      ∃ e ∈ q.trace, ∃ buf ∈ e.handed, buf ≠ [] := by decide +kernel
  refine ⟨q, hq, e, he, buf, hbuf, hne, ?_⟩
  exact isWhole_of_nodeRun rfc8175_orderly (create_shipped false) q hq e he buf hbuf hne

end Node

end Dlep
