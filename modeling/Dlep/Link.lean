import Dlep.Lib.Channel
import Dlep.Peer.Spoken
import Dlep.Peer.Receive
import Dlep.Peer.Handshake

/-!
# A session between two nodes

A modem and a router are joined by a session: what one of them hands to it reaches the other one,
in order, in pieces of any length and after any time. In every step something happens at one side,
with whatever its node and its surroundings are meanwhile, or a piece arrives. The end of the
session loses what is still on its way. It is shown that each side handles the messages that the
other side has handed over, in their order, none of them changed, left out or handled twice.
-/

namespace Dlep

open Std Calls Runs ProtocolMessage

/-- The ends of a session. -/
inductive Side where
  | modem
  | router
  deriving DecidableEq, Repr

namespace Side

def other : Side → Side
  | modem => router
  | router => modem

def isModem : Side → Bool
  | modem => true
  | router => false

/-- The other side of the other side is the side itself. -/
@[simp] theorem other_other (side : Side) : side.other.other = side := by
  cases side <;> rfl

/-- The other side is another one. -/
theorem other_ne (side : Side) : side.other ≠ side := by
  cases side <;> decide

/-- There are two sides. -/
theorem eq_or_eq_other (side side' : Side) : side' = side ∨ side' = side.other := by
  cases side <;> cases side' <;> decide

end Side

/-- The peer objects at both ends, the bytes that are on their way to each end, and the messages
that each end has handled. -/
structure Link where
  peer : Side → Peer
  wire : Side → Bytes := fun _ => []
  handled : Side → List Bytes := fun _ => []

namespace Link

/-- What happens to a session: something happens at one side, or a piece of what is on its way to
a side arrives there. -/
inductive Input where
  | act (side : Side) (st : Peer.Step)
  | arrive (side : Side) (d : DlepView) (s : Surroundings) (length : Nat)

section

variable [AddressText]

/-- The message that a step has handled to its end. After an exception it is still in the buffer. -/
def handledIn (p : Peer) (st : Peer.Step) : Option Bytes :=
  match st.input, Peer.nextMessage st.d p with
  | .message, some buf =>
    match Peer.handlePeerSignal st.d st.s buf p with
    | .ok _ _ => some buf
    | .error _ _ => none
  | _, _ => none

def step (l : Link) : Input → Link
  | .act side st =>
    let p := l.peer side
    let q := p.step st
    { peer := Function.update l.peer side q
      wire := Function.update l.wire side.other (l.wire side.other ++ q.handed.drop p.handed.length)
      handled := Function.update l.handled side (l.handled side ++ (handledIn p st).toList) }
  | .arrive side d s length =>
    { l with
      peer := Function.update l.peer side
        ((l.peer side).step ⟨d, s, .receive ((l.wire side).take length)⟩)
      wire := Function.update l.wire side ((l.wire side).drop length) }

/-- Each side acts under its own configuration and in its own role, and bytes arrive from the
other side only. -/
def Proper (cfg : Side → ProtocolConfig) : Input → Prop
  | .act side st =>
    st.d.cfg = cfg side ∧ st.d.modem = side.isModem ∧ ∀ bytes, st.input ≠ .receive bytes
  | .arrive side d _ _ => d.cfg = cfg side

end

/-- A session between two new peer objects. -/
structure Fresh [AddressText] (cfg : Side → ProtocolConfig) (l : Link) : Prop where
  created : ∀ side, ∃ peerId now, Peer.create (cfg side) peerId now = .ok (l.peer side)
  wire : l.wire = fun _ => []
  handled : l.handled = fun _ => []

/-! ## The stream in one direction -/

/-- The messages that a peer has handed to its session. -/
def sent (p : Peer) : List Bytes := (p.trace.filterMap Event.handed).filter fun buf => buf ≠ []

/-- The size of the first message in a buffer, as the framer of the library finds it. -/
def sizeOf (cfg : ProtocolConfig) (buf : Bytes) : Option Nat :=
  match isCompleteMessage cfg buf with
  | .ok size => size
  | .error _ => none

/-- What is on its way to one side. -/
def stream (l : Link) (side : Side) : Channel.Stream UInt8 where
  written := sent (l.peer side.other)
  onTheWay := l.wire side
  arrived := (l.peer side).signalRecv
  taken := l.handled side

/-- Empty messages contribute no bytes. -/
theorem flatten_filter_ne_nil {α : Type} [DecidableEq α] {ms : List (List α)} :
    (ms.filter fun m => m ≠ []).flatten = ms.flatten := by
  induction ms with
  | nil => rfl
  | cons m ms ih =>
    rw [List.filter_cons]
    split
    · rw [List.flatten_cons, List.flatten_cons, ih]
    · next hm =>
      obtain rfl : m = [] := by simpa using hm
      rw [ih, List.flatten_cons, List.nil_append]

/-- Further events add the messages that they hand over. -/
theorem sent_of_append {p q : Peer} {events : List Event} (h : q.trace = p.trace ++ events) :
    sent q = sent p ++ (events.filterMap Event.handed).filter fun buf => buf ≠ [] := by
  rw [sent, h, List.filterMap_append, List.filter_append]
  rfl

/-! ### Messages -/

section

variable {cfg cfg' : ProtocolConfig}

/-- Sides with fields of the same sizes find the same messages. -/
theorem sizeOf_across (hsizes : cfg.SameSizes cfg') : sizeOf cfg' = sizeOf cfg := by
  funext buf
  rw [sizeOf, sizeOf, isCompleteMessage_across hsizes]

/-- No bytes hold no message. -/
theorem sizeOf_nil : sizeOf cfg [] = none := by
  have hpos := headerSize_pos cfg
  rw [sizeOf, isCompleteMessage_run, if_pos (by simpa using hpos)]

/-- The size of the first message, as the framer reports it. -/
theorem sizeOf_eq_some {buf : Bytes} {n : Nat} :
    sizeOf cfg buf = some n ↔ isCompleteMessage cfg buf = .ok (some n) := by
  unfold sizeOf
  cases isCompleteMessage cfg buf with
  | ok size => simp
  | error e => simp

/-- A message that is found is there as a whole. -/
theorem le_of_sizeOf {buf : Bytes} {n : Nat} (h : sizeOf cfg buf = some n) : n ≤ buf.length := by
  rw [sizeOf_eq_some, isCompleteMessage_run] at h
  split at h
  · cases h
  · split at h
    · have hsize := Except.ok.inj h
      split at hsize
      · next hle =>
        obtain rfl := Option.some.inj hsize
        exact hle
      · cases hsize
    · cases h

/-- A message that was spoken is found by its size, and not before all of it is there. -/
theorem delimited_of_spoken {names : String → Prop} {buf : Bytes}
    (hnames : ∀ name, names name → cfg.signalMap.right name = none)
    (hbuf : Peer.Spoken cfg names buf) (hne : buf ≠ []) : Channel.Delimited (sizeOf cfg) buf := by
  obtain ⟨name, pm, items, body, hname, hframes, rfl⟩ := hbuf.resolve_left hne
  have hmsg := (isSignal_of_frames hframes (hnames name hname)).1
  constructor
  · intro more
    rw [sizeOf, hframes.isCompleteMessage_append hmsg]
  · intro n hn
    rw [sizeOf, hframes.isCompleteMessage_take hmsg hn]

end

/-! ### A step -/

section

variable [AddressText] {l : Link} {side : Side}

/-- A message that was handled was the next one in the buffer, and its handler returned. -/
theorem exists_of_handledIn {p : Peer} {st : Peer.Step} {buf : Bytes}
    (h : handledIn p st = some buf) :
    st.input = .message ∧ Peer.nextMessage st.d p = some buf ∧
      ∃ q, Peer.handlePeerSignal st.d st.s buf p = .ok () q := by
  unfold handledIn at h
  split at h
  · next buf' hmsg hnext =>
    split at h
    · next q hrun =>
      obtain rfl := Option.some.inj h
      exact ⟨hmsg, hnext, q, hrun⟩
    · cases h
  · cases h

omit [AddressText] in
/-- The next message is the first one in the buffer, as long as its size says. -/
theorem sizeOf_of_nextMessage {d : DlepView} {p : Peer} {buf : Bytes}
    (h : Peer.nextMessage d p = some buf) :
    sizeOf d.cfg p.signalRecv = some buf.length ∧ buf = p.signalRecv.take buf.length := by
  unfold Peer.nextMessage at h
  split at h
  · next n hn =>
    obtain rfl := Option.some.inj h
    have hsize := sizeOf_eq_some.2 hn
    rw [List.length_take, Nat.min_eq_left (le_of_sizeOf hsize)]
    exact ⟨hsize, rfl⟩
  · cases h

/-- What has arrived stays in the buffer until it has been handled to its end. -/
theorem signalRecv_step {p : Peer} {st : Peer.Step}
    (hreceive : ∀ bytes, st.input ≠ .receive bytes) :
    (p.step st).signalRecv = p.signalRecv.drop (((handledIn p st).map List.length).getD 0) := by
  by_cases hmsg : st.input = .message
  · cases hnext : Peer.nextMessage st.d p with
    | none =>
      rw [Peer.step_of_nextMessage_none hmsg hnext]
      simp [handledIn, hnext]
    | some buf =>
      obtain ⟨hsize, hbuf⟩ := sizeOf_of_nextMessage hnext
      have hsame := (@Peer.sameBuffer_handlePeerSignal _ st.d st.s buf).wp p
      have hstate : p.step st = after (Peer.handOver st.d st.s buf) p := by
        rw [Peer.step, Peer.Step.call, hmsg]
        dsimp only
        rw [after_bind_pure]
        unfold after
        rw [Peer.handleNext_of_size (sizeOf_eq_some.1 hsize) (le_of_sizeOf hsize), ← hbuf, bind_run]
        cases Peer.handOver st.d st.s buf p <;> rfl
      rw [hstate]
      unfold after
      rw [Peer.handOver, bind_run]
      unfold wp at hsame
      cases hrun : Peer.handlePeerSignal st.d st.s buf p with
      | ok u q =>
        have hhandled : handledIn p st = some buf := by simp [handledIn, hmsg, hnext, hrun]
        rw [hrun] at hsame
        rw [hhandled]
        show q.signalRecv.drop buf.length = p.signalRecv.drop buf.length
        rw [show q.signalRecv = p.signalRecv from hsame]
      | error e q =>
        have hhandled : handledIn p st = none := by simp [handledIn, hmsg, hnext, hrun]
        rw [hrun] at hsame
        rw [hhandled]
        exact hsame
  · have hnone : handledIn p st = none := by
      unfold handledIn
      split
      · next hmsg' _ => exact absurd hmsg' hmsg
      · rfl
    rw [hnone]
    exact Peer.closed_step (R := Peer.SameBuffer) hmsg hreceive p

/-- What a side does is seen by the stream to the other side as what it writes. -/
theorem stream_act_other {st : Peer.Step} : (l.step (.act side st)).stream side.other =
    ⟨sent ((l.peer side).step st),
      l.wire side.other ++ ((l.peer side).step st).handed.drop (l.peer side).handed.length,
      (l.peer side.other).signalRecv, l.handled side.other⟩ := by
  simp [stream, step, side.other_ne]

/-- What a side does is seen by the stream to it as what it takes. -/
theorem stream_act {st : Peer.Step} : (l.step (.act side st)).stream side =
    ⟨sent (l.peer side.other), l.wire side, ((l.peer side).step st).signalRecv,
      l.handled side ++ (handledIn (l.peer side) st).toList⟩ := by
  simp [stream, step, side.other_ne, side.other_ne.symm]

/-- What arrives moves from the wire to the buffer of its side. -/
theorem stream_arrive {d : DlepView} {s : Surroundings} {n : Nat} :
    (l.step (.arrive side d s n)).stream side =
      ⟨sent (l.peer side.other), (l.wire side).drop n,
        (l.peer side).signalRecv ++ (l.wire side).take n, l.handled side⟩ := by
  simp only [stream, step, Function.update_self, Function.update_of_ne side.other_ne]
  rfl

/-- What arrives at one side does not touch what is on its way to the other. -/
theorem stream_arrive_other {d : DlepView} {s : Surroundings} {n : Nat} :
    (l.step (.arrive side d s n)).stream side.other = l.stream side.other := by
  simp only [stream, step, Side.other_other, Function.update_self,
    Function.update_of_ne side.other_ne]
  rfl

/-! ### Runs -/

variable {cfg : Side → ProtocolConfig} {names : Side → String → Prop}

/-- Both peers hold what they may send later, have sent spoken messages, and are read as they
write. -/
structure Inv (cfg : Side → ProtocolConfig) (names : Side → String → Prop) (l : Link) : Prop where
  holds : ∀ side, (Peer.speech (cfg side) (names side)).Holds (l.peer side)
  spoken : ∀ side, ∀ buf ∈ sent (l.peer side), Peer.Spoken (cfg side) (names side) buf
  faithful : ∀ side, Channel.Faithful (sizeOf (cfg side)) (l.stream side)

/-- Both sides use names of messages only, and the fields have the same sizes on both sides. -/
structure Speaking (cfg : Side → ProtocolConfig) (names : Side → String → Prop) : Prop where
  sizes : (cfg .modem).SameSizes (cfg .router)
  messages : ∀ side name, names side name → (cfg side).signalMap.right name = none
  speaks : ∀ side (d : DlepView), d.cfg = cfg side → d.modem = side.isModem →
    Peer.Speaks (names side) d
  answer : ∀ side, names side "Session_Initialization_Response"

/-- Both sides find the same messages in a buffer. -/
theorem Speaking.sizeOf_other (h : Speaking cfg names) (side : Side) :
    sizeOf (cfg side.other) = sizeOf (cfg side) := by
  cases side with
  | modem => exact sizeOf_across h.sizes
  | router => exact (sizeOf_across h.sizes).symm

/-- A new peer object has sent nothing and received nothing. -/
theorem sent_of_create {cfg : ProtocolConfig} {peerId : PeerId} {now : Nat} {p : Peer}
    (h : Peer.create cfg peerId now = .ok p) : sent p = [] ∧ p.signalRecv = [] := by
  obtain rfl := Peer.create_ok h
  exact ⟨rfl, rfl⟩

/-- A new session satisfies the invariant. -/
theorem inv_of_fresh (h : Fresh cfg l) : Inv cfg names l := by
  have hcreated : ∀ side, sent (l.peer side) = [] ∧ (l.peer side).signalRecv = [] := by
    intro side
    obtain ⟨peerId, now, hcreate⟩ := h.created side
    exact sent_of_create hcreate
  refine ⟨fun side => ?_, fun side buf hbuf => ?_, fun side => ?_⟩
  · obtain ⟨peerId, now, hcreate⟩ := h.created side
    exact Peer.Speech.holds_of_create hcreate
  · rw [(hcreated side).1] at hbuf
    cases hbuf
  · rw [stream, (hcreated side.other).1, (hcreated side).2, h.wire, h.handled]
    exact Channel.faithful_empty

omit [AddressText] in
/-- What is handed over in a step meets a condition, if what is handed over later does. -/
theorem handed_sent {sp : Peer.Speech} {p q : Peer} (h : sp.Hands p q) (hp : sp.Holds p)
    (hsent : ∀ buf ∈ sent p, sp.handed buf) : sp.Holds q ∧ ∀ buf ∈ sent q, sp.handed buf := by
  obtain ⟨hq, events, htrace, hevents⟩ := h hp
  refine ⟨hq, ?_⟩
  rw [sent_of_append htrace]
  refine List.forall_mem_append.2 ⟨hsent, fun buf hbuf => ?_⟩
  obtain ⟨e, he, hhanded⟩ := List.mem_filterMap.1 (List.mem_filter.1 hbuf).1
  exact hevents e he buf hhanded

/-- Bytes that arrive are no event of a peer. -/
theorem trace_arrive {d : DlepView} {s : Surroundings} {n : Nat} (side' : Side) :
    ((l.step (.arrive side d s n)).peer side').trace = (l.peer side').trace := by
  rcases side.eq_or_eq_other side' with rfl | rfl
  · simp only [step, Function.update_self]
    rfl
  · simp only [step, Function.update_of_ne side.other_ne]

/-- Bytes that arrive change nothing that a peer knows. -/
theorem peerPdp_arrive {d : DlepView} {s : Surroundings} {n : Nat} (side' : Side) :
    ((l.step (.arrive side d s n)).peer side').peerPdp = (l.peer side').peerPdp := by
  rcases side.eq_or_eq_other side' with rfl | rfl
  · simp only [step, Function.update_self]
    rfl
  · simp only [step, Function.update_of_ne side.other_ne]

/-- Bytes that arrive change nothing that a peer may say. -/
theorem holds_arrive {sp : Peer.Speech} {d : DlepView} {s : Surroundings} {n : Nat} {side' : Side}
    (h : sp.Holds (l.peer side')) : sp.Holds ((l.step (.arrive side d s n)).peer side') := by
  rcases side.eq_or_eq_other side' with rfl | rfl
  · simp only [step, Function.update_self]
    exact ⟨h.queues, h.queued, h.heartbeat, h.owes⟩
  · simpa only [step, Function.update_of_ne side.other_ne] using h

omit [AddressText] in
/-- A message that a side finds in its buffer is the next one that the other side handed over. -/
theorem Inv.next (hl : Inv cfg names l) {d : DlepView} {buf : Bytes} (hd : d.cfg = cfg side)
    (hnext : Peer.nextMessage d (l.peer side) = some buf) :
    ∃ later, sent (l.peer side.other) = l.handled side ++ buf :: later := by
  obtain ⟨hsize, hbuf⟩ := sizeOf_of_nextMessage hnext
  rw [hd] at hsize
  obtain ⟨later, hlater⟩ := (hl.faithful side).next sizeOf_nil hsize
  exact ⟨later, by rw [hbuf]; exact hlater⟩

/-- What a peer hands over in a step is spoken. -/
theorem hands_act (hspeaking : Speaking cfg names) {p : Peer} {st : Peer.Step}
    (hproper : Proper cfg (.act side st)) :
    (Peer.speech (cfg side) (names side)).Hands p (p.step st) := by
  obtain ⟨hcfg, hmodem, _⟩ := hproper
  obtain ⟨d, s, input⟩ := st
  have hspeaks := hspeaking.speaks side d hcfg hmodem
  rw [← hcfg]
  exact Peer.speaks_step hspeaks fun _ _ => hspeaking.answer side

/-- Every step of a session keeps the invariant, by cases on the input. -/
theorem inv_step (hspeaking : Speaking cfg names) {input : Input} (hproper : Proper cfg input)
    (hl : Inv cfg names l) : Inv cfg names (l.step input) := by
  cases input with
  | act side st =>
    obtain ⟨hholds, events, htrace, hevents⟩ := hands_act hspeaking hproper (hl.holds side)
    obtain ⟨hcfg, hmodem, hreceive⟩ := hproper
    have hsent := sent_of_append htrace
    have hnew : ∀ buf ∈ (events.filterMap Event.handed).filter fun buf => buf ≠ [],
        Peer.Spoken (cfg side) (names side) buf ∧ buf ≠ [] := by
      intro buf hbuf
      obtain ⟨hmem, hne⟩ := List.mem_filter.1 hbuf
      obtain ⟨e, he, hhanded⟩ := List.mem_filterMap.1 hmem
      exact ⟨hevents e he buf hhanded, by simpa using hne⟩
    have hdelimited : ∀ buf ∈ (events.filterMap Event.handed).filter fun buf => buf ≠ [],
        Channel.Delimited (sizeOf (cfg side.other)) buf := by
      intro buf hbuf
      rw [hspeaking.sizeOf_other]
      exact delimited_of_spoken (hspeaking.messages side) (hnew buf hbuf).1 (hnew buf hbuf).2
    have hbytes : ((l.peer side).step st).handed.drop (l.peer side).handed.length =
        ((events.filterMap Event.handed).filter fun buf => buf ≠ []).flatten := by
      rw [Peer.handed_of_append htrace, List.drop_left, flatten_filter_ne_nil]
    refine ⟨fun side' => ?_, fun side' => ?_, fun side' => ?_⟩
    · rcases side.eq_or_eq_other side' with rfl | rfl
      · simpa [step] using hholds
      · simpa [step, side.other_ne] using hl.holds side.other
    · rcases side.eq_or_eq_other side' with rfl | rfl
      · simp only [step, Function.update_self, hsent]
        exact List.forall_mem_append.2 ⟨hl.spoken _, fun buf hbuf => (hnew buf hbuf).1⟩
      · simp only [step, Function.update_of_ne side.other_ne]
        exact hl.spoken side.other
    · rcases side.eq_or_eq_other side' with rfl | rfl
      · -- the side is the reader, and may have taken a message
        rw [stream_act, signalRecv_step hreceive]
        cases hhandled : handledIn (l.peer side') st with
        | none => simpa [stream] using hl.faithful side'
        | some buf =>
          obtain ⟨_, hnext, _⟩ := exists_of_handledIn hhandled
          obtain ⟨hsize, hbuf⟩ := sizeOf_of_nextMessage hnext
          rw [hcfg] at hsize
          have htake := (hl.faithful side').take sizeOf_nil hsize
          simp only [stream, ← hbuf] at htake
          exact htake
      · -- the side is the writer
        rw [stream_act_other, hbytes, hsent]
        have hwrite := (hl.faithful side.other).write hdelimited
        simpa only [stream, Side.other_other] using hwrite
  | arrive side d s n =>
    refine ⟨fun side' => holds_arrive (hl.holds side'), fun side' => ?_, fun side' => ?_⟩
    · rw [sent, trace_arrive]
      exact hl.spoken side'
    · rcases side.eq_or_eq_other side' with rfl | rfl
      · rw [stream_arrive]
        exact (hl.faithful side').arrive n
      · rw [stream_arrive_other]
        exact hl.faithful side.other

/-- What both sides keep in a step, they keep in every run. -/
theorem inv_run (hspeaking : Speaking cfg names) (hl : Fresh cfg l) {inputs : List Input}
    (hrun : Along step (fun _ input => Proper cfg input) l inputs) :
    Inv cfg names (run step l inputs) :=
  hrun.invariant (fun _ _ hl hproper => inv_step hspeaking hproper hl) (inv_of_fresh hl)

/-- The names of orderly configurations. -/
theorem speaking_of_orderly (hcfg : ∀ side, (cfg side).Orderly)
    (hsizes : (cfg .modem).SameSizes (cfg .router)) :
    Speaking cfg fun side => Peer.Speakable (cfg side) where
  sizes := hsizes
  messages _ _ hname := hname.1
  speaks side d hd _ := by
    have hspeaks := Peer.speaks_of_orderly (d := d) (hd ▸ hcfg side)
    rwa [hd] at hspeaks
  answer side := Peer.speakable_composed (hcfg side) (by decide)

/-- After every run, each side has handled the messages that the other side handed over first, in
their order and each of them once; the bytes of the others are in its buffer or on their way; and
a message that it finds in its buffer is the next one that was handed over. -/
theorem handled_in_order (hcfg : ∀ side, (cfg side).Orderly)
    (hsizes : (cfg .modem).SameSizes (cfg .router)) (hl : Fresh cfg l) {inputs : List Input}
    (hrun : Along step (fun _ input => Proper cfg input) l inputs) (side : Side) :
    let l' := run step l inputs
    l'.handled side <+: sent (l'.peer side.other) ∧
      (sent (l'.peer side.other)).flatten =
        (l'.handled side).flatten ++ ((l'.peer side).signalRecv ++ l'.wire side) ∧
      ∀ (d : DlepView) (buf : Bytes), d.cfg = cfg side →
        Peer.nextMessage d (l'.peer side) = some buf →
        ∃ later, sent (l'.peer side.other) = l'.handled side ++ buf :: later := by
  have hinv := inv_run (speaking_of_orderly hcfg hsizes) hl hrun
  exact ⟨(hinv.faithful side).order, (hinv.faithful side).elements, fun d buf hd => hinv.next hd⟩

/-- When nothing is on its way to a side and it finds no message in its buffer, it has handled all
that the other side has handed over, and no part of a message is left. -/
theorem all_handled (hcfg : ∀ side, (cfg side).Orderly)
    (hsizes : (cfg .modem).SameSizes (cfg .router)) (hl : Fresh cfg l) {inputs : List Input}
    (hrun : Along step (fun _ input => Proper cfg input) l inputs) (side : Side)
    (hwire : (run step l inputs).wire side = [])
    (hnone : isCompleteMessage (cfg side) ((run step l inputs).peer side).signalRecv = .ok none) :
    (run step l inputs).handled side = sent ((run step l inputs).peer side.other) ∧
      ((run step l inputs).peer side).signalRecv = [] := by
  have hinv := inv_run (speaking_of_orderly hcfg hsizes) hl hrun
  have hsize : sizeOf (cfg side) ((run step l inputs).peer side).signalRecv = none := by
    rw [sizeOf, hnone]
  exact (hinv.faithful side).all_taken hsize hwire

end

attribute [local instance] plainText

/-- A session between two nodes of the shipped configuration. -/
def bareLink : Link where
  peer _ := Peer.barePeer

/-- The sample session is new. -/
theorem fresh_bareLink : @Fresh plainText (fun _ => rfc8175) bareLink where
  created _ := ⟨str "peer", 0, rfl⟩
  wire := rfl
  handled := rfl

/-- The opening message arrives in two pieces. -/
def opening : List Input := [
  .act .router ⟨Peer.bareView false, Peer.bareSurroundings, .start⟩,
  .arrive .modem (Peer.bareView true) Peer.bareSurroundings 3,
  .act .modem ⟨Peer.bareView true, Peer.bareSurroundings, .message⟩,
  .arrive .modem (Peer.bareView true) Peer.bareSurroundings 100,
  .act .modem ⟨Peer.bareView true, Peer.bareSurroundings, .message⟩]

/-- The sample inputs are proper. -/
theorem proper_opening :
    Along step (fun _ input => Proper (fun _ => rfc8175) input) bareLink opening :=
  ⟨⟨rfl, rfl, by simp⟩, rfl, ⟨rfl, rfl, by simp⟩, rfl, ⟨rfl, rfl, by simp⟩, trivial⟩

/-- The router's opening message arrives at the modem in two pieces and is handled once. -/
theorem handled_in_order_opening :
    let l := run step bareLink opening
    l.handled .modem <+: sent (l.peer .router) ∧
      (sent (l.peer .router)).flatten =
        (l.handled .modem).flatten ++ ((l.peer .modem).signalRecv ++ l.wire .modem) ∧
      ∀ (d : DlepView) (buf : Bytes), d.cfg = rfc8175 →
        Peer.nextMessage d (l.peer .modem) = some buf →
        ∃ later, sent (l.peer .router) = l.handled .modem ++ buf :: later :=
  @handled_in_order _ _ (fun _ => rfc8175) (fun _ => rfc8175_orderly) ⟨rfl, rfl, rfl, rfl, rfl⟩
    fresh_bareLink _ proper_opening .modem

/-- The modem has handled the opening message. -/
theorem all_handled_opening :
    (run step bareLink opening).handled .modem = sent ((run step bareLink opening).peer .router) ∧
      ((run step bareLink opening).peer .modem).signalRecv = [] := by
  have hend : (run step bareLink opening).wire .modem = [] ∧
      isCompleteMessage rfc8175
        ((run step bareLink opening).peer .modem).signalRecv = .ok none := by
    decide +kernel
  exact @all_handled _ _ (fun _ => rfc8175) (fun _ => rfc8175_orderly) ⟨rfl, rfl, rfl, rfl, rfl⟩
    fresh_bareLink _ proper_opening .modem hend.1 hend.2

example : ((run step bareLink opening).handled .modem).length = 1 := by decide +kernel

end Link

end Dlep
