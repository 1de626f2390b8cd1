import Dlep.PeerDiscovery.Exchange

/-!
# Discovery over a network

The signals of discovery are datagrams: they are lost, and delivered late, often, in any order,
and to anyone. Each node is at each moment in whatever state its sessions have left it in. It is
shown that all connects go back to an offer that the router received, and this to a discovery that
the modem received before, from a node with which it had no session: the endpoint is the one of
the offer.
-/

namespace Dlep

open Runs ProtocolMessage

namespace PeerDiscovery

/-- A node at a moment, and the endpoint from which its signals come. -/
structure Station where
  node : Node
  params : ClientParameters
  sp : SessionParameters
  resolves : Endpoint → Bool
  own : Endpoint

/-- What happens next in the network. -/
inductive Input where
  /-- The timer of a node runs out. -/
  | discover (st : Station)
  /-- The `k`th of the signals that were sent is received. -/
  | deliver (st : Station) (k : Nat)

def Input.station : Input → Station
  | .discover st => st
  | .deliver st _ => st

/-- The signals that were sent, with where they come from, and the connects that were started. -/
structure Network where
  signals : List (Endpoint × Bytes) := []
  connects : List (Station × Endpoint) := []

section

variable [AddressText]

namespace Network

def send (net : Network) (st : Station) (buf : Bytes) : Network :=
  { net with signals := net.signals ++ [(st.own, buf)] }

/-- What becomes of the reaction of a node. An exception leaves nothing. -/
def react (net : Network) (st : Station) : Except Exn Action → Network
  | .ok (.offer _ buf) => net.send st buf
  | .ok (.connect endpoint) => { net with connects := net.connects ++ [(st, endpoint)] }
  | _ => net

def step (net : Network) : Input → Network
  | .discover st =>
    match getMessageToSend st.node st.params with
    | .ok buf => net.send st buf
    | .error _ => net
  | .deliver st k =>
    match net.signals[k]? with
    | some (fromEndpoint, buf) =>
      net.react st (handleMessage st.node st.params st.sp st.resolves buf fromEndpoint)
    | none => net

end Network

/-- At some moment of the run, which follows these inputs, the signal that was sent before is
received. -/
def Receives (inputs earlier : List Input) (st : Station) (signal : Endpoint × Bytes) : Prop :=
  ∃ k, earlier ++ [.deliver st k] <+: inputs ∧
    (run Network.step {} earlier).signals[k]? = some signal

/-- A modem answers the discovery of a node: it has received it, and has no session with where it
came from. -/
structure Answers (inputs : List Input) (m d : Station) (offer : Bytes) : Prop where
  received : ∃ earlier discovery, Receives inputs earlier m (d.own, discovery) ∧
    .discover d ∈ earlier ∧ getMessageToSend d.node d.params = .ok discovery
  modem : m.node.modem = true
  noSession : m.node.peerState (peerIdOf d.own.address d.own.port.toUInt32) = none
  offer : ∃ sendEndpoint, sendPeerOffer m.node m.params m.sp d.own = .ok (.offer sendEndpoint offer)

/-- Where a signal comes from. -/
inductive Sent (inputs : List Input) : Endpoint × Bytes → Prop where
  | discovery {d : Station} {buf : Bytes} (hd : .discover d ∈ inputs)
      (h : getMessageToSend d.node d.params = .ok buf) : Sent inputs (d.own, buf)
  | offer {m d : Station} {buf : Bytes} (h : Answers inputs m d buf) : Sent inputs (m.own, buf)

/-- A connect that was started goes to the endpoint of an offer that the router has received; the
modem had sent it before, in answer to a discovery. -/
structure Founded (inputs : List Input) (c : Station × Endpoint) : Prop where
  router : c.1.node.modem = false
  offered : ∃ m d offer earlier, Receives inputs earlier c.1 (m.own, offer) ∧
    Answers earlier m d offer ∧ c.2 = offeredEndpoint m.node.cfg m.sp m.own.address ∧
    Connects c.1.node c.1.resolves m.sp m.own.address

variable {inputs inputs' : List Input}

/-- What was received in a run was received in every run that goes on from it. -/
theorem Receives.mono {earlier : List Input} {st : Station} {signal : Endpoint × Bytes}
    (h : Receives inputs earlier st signal) (hpre : inputs <+: inputs') :
    Receives inputs' earlier st signal := by
  obtain ⟨k, hreceived, hk⟩ := h
  exact ⟨k, hreceived.trans hpre, hk⟩

/-- What was received was delivered. -/
theorem Receives.mem {earlier : List Input} {st : Station} {signal : Endpoint × Bytes}
    (h : Receives inputs earlier st signal) : ∃ k, .deliver st k ∈ inputs := by
  obtain ⟨k, hreceived, -⟩ := h
  exact ⟨k, hreceived.subset (List.mem_append_right _ (List.mem_singleton.2 rfl))⟩

/-- What was answered in a run was answered in every run that goes on from it. -/
theorem Answers.mono {m d : Station} {offer : Bytes} (h : Answers inputs m d offer)
    (hpre : inputs <+: inputs') : Answers inputs' m d offer := by
  obtain ⟨⟨earlier, discovery, hreceived, hdiscovery⟩, hmodem, hsession, hoffer⟩ := h
  exact ⟨⟨earlier, discovery, hreceived.mono hpre, hdiscovery⟩, hmodem, hsession, hoffer⟩

/-- What was sent in a run was sent in every run that goes on from it. -/
theorem Sent.mono {signal : Endpoint × Bytes} (h : Sent inputs signal) (hpre : inputs <+: inputs') :
    Sent inputs' signal := by
  cases h with
  | discovery hd h => exact .discovery (hpre.subset hd) h
  | offer h => exact .offer (h.mono hpre)

/-- A connect that is founded in a run is founded in every run that goes on from it. -/
theorem Founded.mono {c : Station × Endpoint} (h : Founded inputs c) (hpre : inputs <+: inputs') :
    Founded inputs' c := by
  obtain ⟨m, d, offer, earlier, hreceived, hoffered⟩ := h.offered
  exact ⟨h.router, m, d, offer, earlier, hreceived.mono hpre, hoffered⟩

/-! ## What a node does about a signal -/

section

variable {cfg : ProtocolConfig} {n : Node} {params : ClientParameters} {sp : SessionParameters}
  {resolves : Endpoint → Bool} {fromEndpoint : Endpoint} {buf : Bytes} {pm : ProtocolMessage}
  {items : DataItems} {sender : Bool} {action : Action}

/-- A discovery is answered by a modem without a session, or ignored. -/
theorem answer_of_discovery (hholds : Holds n.cfg sender "Peer_Discovery" buf items pm)
    (h : handleMessage n params sp resolves buf fromEndpoint = .ok action) :
    action = .ignored ∨ (n.modem = true ∧
      n.peerState (peerIdOf fromEndpoint.address fromEndpoint.port.toUInt32) = none ∧
      sendPeerOffer n params sp fromEndpoint = .ok action) := by
  rw [handleMessage_discovery hholds] at h
  obtain ⟨err, _, h⟩ := bind_eq_ok.1 h
  split at h
  · exact .inl (Except.ok.inj h).symm
  · unfold handleDiscovery at h
    split at h
    · exact .inl (Except.ok.inj h).symm
    · next hmodem =>
      split at h
      · exact .inl (Except.ok.inj h).symm
      · next hsession =>
        exact .inr ⟨not_not.1 hmodem, Option.not_isSome_iff_eq_none.1 hsession, h⟩

/-- An offer makes a router connect, or is ignored. -/
theorem connect_of_offer {msp : SessionParameters} {common more : DataItems}
    (hdiscovers : n.cfg.Discovers)
    (hholds : Holds n.cfg sender "Peer_Offer" buf (common ++ more) pm)
    (hcommon : ∀ di ∈ common, Named n.cfg commonNames di)
    (hmore : EndpointItems n.cfg msp.sessionPort.toUInt16 (advertised n.cfg msp) more)
    (h : handleMessage n params sp resolves buf fromEndpoint = .ok action) :
    action = .ignored ∨ (n.modem = false ∧ Connects n resolves msp fromEndpoint.address ∧
      action = .connect (offeredEndpoint n.cfg msp fromEndpoint.address)) := by
  rw [handleMessage_eq hholds] at h
  obtain ⟨err, _, h⟩ := bind_eq_ok.1 h
  split at h
  · exact .inl (Except.ok.inj h).symm
  rw [if_neg (by decide), if_pos rfl] at h
  cases hmodem : n.modem with
  | true =>
    have hnone : handlePeerOffer n resolves sp.sessionPort pm fromEndpoint = .ok none := by
      rw [handlePeerOffer, hmodem]
      rfl
    rw [hnone, ok_bind] at h
    exact .inl (Except.ok.inj h).symm
  | false =>
    rw [handlePeerOffer_of_holds hdiscovers hmodem hholds hcommon hmore, ok_bind] at h
    obtain rfl := Except.ok.inj h
    by_cases hconnects : Connects n resolves msp fromEndpoint.address
    · rw [if_pos hconnects, Option.elim_some]
      exact .inr ⟨rfl, hconnects, rfl⟩
    · rw [if_neg hconnects]
      exact .inl rfl

/-- A modem that answers a discovery answers with an offer. -/
theorem exists_offer_of_sendPeerOffer (h : sendPeerOffer n params sp fromEndpoint = .ok action) :
    ∃ sendEndpoint buf, action = .offer sendEndpoint buf := by
  obtain ⟨pm, _, h⟩ := bind_eq_ok.1 h
  exact ⟨_, _, (Except.ok.inj h).symm⟩

end

/-! ## Runs -/

variable {cfg : ProtocolConfig} {net : Network} {st : Station}

/-- All signals and all connects are accounted for. -/
structure Network.Traced (inputs : List Input) (net : Network) : Prop where
  signals : ∀ s ∈ net.signals, Sent inputs s
  connects : ∀ c ∈ net.connects, Founded inputs c

/-- What is accounted for in a run is accounted for in every run that goes on from it. -/
theorem Network.Traced.mono (h : net.Traced inputs) (hpre : inputs <+: inputs') :
    net.Traced inputs' where
  signals s hs := (h.signals s hs).mono hpre
  connects c hc := (h.connects c hc).mono hpre

/-- A signal that is sent is accounted for. -/
theorem Network.Traced.send {buf : Bytes} (h : net.Traced inputs)
    (hsent : Sent inputs (st.own, buf)) :
    (net.send st buf).Traced inputs where
  signals s hs := by
    rcases List.mem_append.1 hs with hs | hs
    · exact h.signals s hs
    · obtain rfl := List.mem_singleton.1 hs
      exact hsent
  connects := h.connects

/-- A connect that is founded is accounted for. -/
theorem Network.Traced.connect {endpoint : Endpoint} (h : net.Traced inputs)
    (hfounded : Founded inputs (st, endpoint)) :
    Network.Traced inputs { net with connects := net.connects ++ [(st, endpoint)] } where
  signals := h.signals
  connects c hc := by
    rcases List.mem_append.1 hc with hc | hc
    · exact h.connects c hc
    · obtain rfl := List.mem_singleton.1 hc
      exact hfounded

/-- A signal that is received, whichever it is, is traced back by the reaction. -/
theorem Network.Traced.react {k : Nat} {fromEndpoint : Endpoint} {buf : Bytes} {action : Action}
    (hdiscovers : cfg.Discovers) (hcfg : ∀ input ∈ inputs, input.station.node.cfg = cfg)
    (hst : st.node.cfg = cfg) (h : net.Traced inputs)
    (hk : (run Network.step {} inputs).signals[k]? = some (fromEndpoint, buf))
    (hsent : Sent inputs (fromEndpoint, buf))
    (hact : handleMessage st.node st.params st.sp st.resolves buf fromEndpoint = .ok action) :
    (net.react st (.ok action)).Traced (inputs ++ [.deliver st k]) := by
  have hlater : net.Traced (inputs ++ [.deliver st k]) := h.mono (List.prefix_append ..)
  have hreceived : Receives (inputs ++ [.deliver st k]) inputs st (fromEndpoint, buf) :=
    ⟨k, List.prefix_rfl, hk⟩
  generalize hs : (fromEndpoint, buf) = s at hsent
  cases hsent with
  | @discovery d _ hd hdiscovery =>
    obtain ⟨rfl, rfl⟩ := Prod.mk.inj hs
    have hdcfg : d.node.cfg = cfg := hcfg _ hd
    obtain ⟨items, pm, hholds⟩ := exists_holds_of_getMessageToSend (hdcfg ▸ hdiscovers) hdiscovery
    rw [hdcfg, ← hst] at hholds
    rcases answer_of_discovery hholds hact with rfl | ⟨hmodem, hsession, hsend⟩
    · exact hlater
    · obtain ⟨sendEndpoint, offer, rfl⟩ := exists_offer_of_sendPeerOffer hsend
      refine hlater.send (.offer ⟨⟨inputs, buf, hreceived, hd, hdiscovery⟩, hmodem, hsession, ?_⟩)
      exact ⟨sendEndpoint, hsend⟩
  | @offer m d _ hanswers =>
    obtain ⟨rfl, rfl⟩ := Prod.mk.inj hs
    obtain ⟨_, _, hm, -⟩ := hanswers.received
    obtain ⟨k', hm⟩ := hm.mem
    have hmcfg : m.node.cfg = cfg := hcfg _ hm
    obtain ⟨sendEndpoint, hsend⟩ := hanswers.offer
    obtain ⟨common, more, pm, hholds, hcommon, hmore⟩ :=
      exists_holds_of_sendPeerOffer (hmcfg ▸ hdiscovers) hsend
    rw [hmcfg, ← hst] at hholds hcommon hmore
    rcases connect_of_offer (hst ▸ hdiscovers) hholds hcommon hmore hact with
      rfl | ⟨hrouter, hconnects, rfl⟩
    · exact hlater
    · refine hlater.connect ⟨hrouter, m, d, buf, inputs, hreceived, hanswers, ?_, hconnects⟩
      rw [hmcfg, ← hst]

/-- One more input. -/
theorem traced_concat {input : Input} (hdiscovers : cfg.Discovers)
    (hcfg : ∀ i ∈ inputs ++ [input], i.station.node.cfg = cfg)
    (h : (run Network.step {} inputs).Traced inputs) :
    (run Network.step {} (inputs ++ [input])).Traced (inputs ++ [input]) := by
  obtain ⟨hearlier, hinput⟩ := List.forall_mem_append.1 hcfg
  have hlater : (run Network.step {} inputs).Traced (inputs ++ [input]) :=
    h.mono (List.prefix_append ..)
  rw [run_append, run_cons, run_nil]
  cases input with
  | discover st =>
    simp only [Network.step]
    split
    · next hdiscovery => exact hlater.send (.discovery (by simp) hdiscovery)
    · exact hlater
  | deliver st k =>
    simp only [Network.step]
    split
    · next fromEndpoint buf hk =>
      cases hact : handleMessage st.node st.params st.sp st.resolves buf fromEndpoint with
      | ok action =>
        have hsent := h.signals _ (List.mem_of_getElem? hk)
        exact h.react hdiscovers hearlier (hinput (.deliver st k) (by simp)) hk hsent hact
      | error e => exact hlater
    · exact hlater

/-- Whatever is lost, delayed, repeated or received by others: a router connects to nothing but
the endpoint of an offer that it has received, which a modem had sent when it had received the
discovery of a node with which it had no session. -/
theorem founded_of_run (hdiscovers : cfg.Discovers)
    (hcfg : ∀ input ∈ inputs, input.station.node.cfg = cfg) :
    ∀ c ∈ (run Network.step {} inputs).connects, Founded inputs c := by
  have htraced : (run Network.step {} inputs).Traced inputs := by
    induction inputs using List.reverseRecOn with
    | nil =>
      refine ⟨?_, ?_⟩
      · intro s hs
        cases hs
      · intro c hc
        cases hc
    | append_singleton inputs input ih =>
      exact traced_concat hdiscovers hcfg (ih (List.forall_mem_append.1 hcfg).1)
  exact htraced.connects

end

/-! ## A router that gets an offer twice -/

def stationOf (node : Node) (own : Endpoint) : Station where
  node := node
  params := Peer.bareSurroundings.params
  sp := modemParameters
  resolves _ := true
  own := own

/-- The router has no session yet when the offer arrives again. -/
def offeredTwice : List Input :=
  let router := stationOf (bareRouter rfc8175) routerEndpoint
  let modem := stationOf (bareModem rfc8175) modemEndpoint
  [.discover router, .deliver modem 0, .deliver router 1, .deliver router 1]

attribute [local instance] plainText

/-- An offer that arrives twice is answered by two connects, each of which is founded. -/
theorem founded_of_run_offeredTwice :
    (run Network.step {} offeredTwice).connects.map Prod.snd = [modemEndpoint, modemEndpoint] ∧
      ∃ c ∈ (run Network.step {} offeredTwice).connects, Founded offeredTwice c := by
  have hconnects : (run Network.step {} offeredTwice).connects.map Prod.snd =
      [modemEndpoint, modemEndpoint] := by decide +kernel
  have hne : (run Network.step {} offeredTwice).connects ≠ [] := by
    intro hnil
    rw [hnil] at hconnects
    cases hconnects
  obtain ⟨c, hc⟩ := List.exists_mem_of_ne_nil _ hne
  have hcfg : ∀ input ∈ offeredTwice, input.station.node.cfg = rfc8175 := by
    simp only [offeredTwice, List.forall_mem_cons]
    exact ⟨rfl, rfl, rfl, rfl, by simp⟩
  exact ⟨hconnects, c, hc, @founded_of_run plainText _ _ rfc8175_discovers hcfg c hc⟩

end PeerDiscovery

end Dlep
