import Dlep.Lib.Framing
import Dlep.Peer.Closed
import Dlep.Peer.Session

/-!
# Reading the session

The bytes that arrive are kept until a whole message is there. What is handed to the handlers is
the greedy cut of the stream into messages, however the stream arrives. The receive buffer is as
long as the longest message should be, but four bytes shorter than the longest message that a
length field of two bytes can announce.
-/

namespace Dlep

open Std Calls Runs Framing

/-- Source: `ProtocolMessage::MAX_SIGNAL_SIZE` (`ProtocolMessage.h:50`). -/
def ProtocolMessage.maxSignalSize : Nat := 1024 * 64

namespace Peer

/-- The sizes of the id and of the length of a message are those of RFC 8175. -/
def TwoByteFields (cfg : ProtocolConfig) : Prop :=
  cfg.signalIdSize.1 = 2 ∧ cfg.signalLengthSize.1 = 2

/-- The size that the header of a message announces. -/
def announced (buf : Bytes) : Nat := 4 + BigEndian.decode ((buf.drop 2).take 2)

/-- The size of the first message, if all of it is there. -/
def wholeMessage (buf : Bytes) : Option Nat :=
  if 4 ≤ buf.length ∧ announced buf ≤ buf.length then some (announced buf) else none

/-- A message is whole exactly if its header is there and all that it announces. -/
theorem wholeMessage_eq_some {buf : Bytes} {n : Nat} :
    wholeMessage buf = some n ↔ 4 ≤ buf.length ∧ announced buf ≤ buf.length ∧
      n = announced buf := by
  unfold wholeMessage
  split
  · next h => simp [h, eq_comm]
  · next h =>
    simp only [reduceCtorEq, false_iff]
    exact fun h' => h ⟨h'.1, h'.2.1⟩

/-- The header does not depend on what follows it. -/
theorem announced_append {buf : Bytes} (h : 4 ≤ buf.length) (more : Bytes) :
    announced (buf ++ more) = announced buf := by
  rw [announced, announced, List.drop_append_of_le_length (by omega),
    List.take_append_of_le_length (by simp; omega)]

/-- The first message of a buffer stays the first when more arrives. -/
theorem wholeMessage_framer : Framer wholeMessage where
  pos h := by
    obtain ⟨_, _, rfl⟩ := wholeMessage_eq_some.1 h
    unfold announced
    omega
  le h := by
    obtain ⟨_, hle, rfl⟩ := wholeMessage_eq_some.1 h
    exact hle
  append more h := by
    obtain ⟨hlong, hle, rfl⟩ := wholeMessage_eq_some.1 h
    refine wholeMessage_eq_some.2 ⟨?_, ?_, (announced_append hlong more).symm⟩
    · simp only [List.length_append]
      omega
    · rw [announced_append hlong, List.length_append]
      omega

/-- The framer of the library finds the whole message. -/
theorem isCompleteMessage_eq {cfg : ProtocolConfig} (hcfg : TwoByteFields cfg) (buf : Bytes) :
    ProtocolMessage.isCompleteMessage cfg buf = .ok (wholeMessage buf) := by
  obtain ⟨hid, hlen⟩ := hcfg
  have hheader : ProtocolMessage.headerSize cfg = 4 := by
    rw [ProtocolMessage.headerSize, hid, hlen]
  have hannounced : 4 + ProtocolMessage.lengthField cfg buf = announced buf := by
    rw [ProtocolMessage.lengthField, hid, hlen, announced]
  -- an id and a length of two bytes are too small for either check to fail
  have hidlt : ProtocolMessage.idField cfg buf < 2 ^ 32 := by
    have hlt := BigEndian.decode_lt_of_length_le (List.length_take_le 2 buf)
    rw [ProtocolMessage.idField, hid]
    omega
  have hlenlt : announced buf < 2 ^ 64 := by
    have hlt := BigEndian.decode_lt_of_length_le (List.length_take_le 2 (buf.drop 2))
    rw [announced]
    omega
  rw [ProtocolMessage.isCompleteMessage_run, hheader, if_pos hidlt, hannounced,
    Nat.mod_eq_of_lt hlenlt, wholeMessage]
  by_cases hlong : 4 ≤ buf.length
  · simp only [hlong, Nat.not_lt.2 hlong, if_false, true_and]
  · simp only [hlong, Nat.not_le.1 hlong, if_true, false_and, if_false]

/-- A message on the wire: an id, the length of the body, and the body. -/
def IsFramed (m : Bytes) : Prop :=
  ∃ id body, body.length < 2 ^ 16 ∧
    m = BigEndian.encode 2 id ++ (BigEndian.encode 2 body.length ++ body)

/-- A framed message is whole. -/
theorem IsFramed.wholeMessage {m : Bytes} (h : IsFramed m) : wholeMessage m = some m.length := by
  obtain ⟨id, body, hbody, rfl⟩ := h
  have hlen : announced (BigEndian.encode 2 id ++ (BigEndian.encode 2 body.length ++ body)) =
      4 + body.length := by
    rw [announced, List.drop_left' (BigEndian.length_encode 2 id),
      List.take_left' (BigEndian.length_encode 2 body.length),
      BigEndian.decode_encode (hbody.trans_eq (by norm_num))]
  refine wholeMessage_eq_some.2 ⟨?_, ?_, ?_⟩
  · simp
    omega
  · rw [hlen]
    simp
    omega
  · rw [hlen]
    simp
    omega

/-- What is cut off a stream is a message. -/
theorem isFramed_take {buf : Bytes} {n : Nat} (h : wholeMessage buf = some n) :
    IsFramed (buf.take n) := by
  obtain ⟨hlong, hle, rfl⟩ := wholeMessage_eq_some.1 h
  obtain ⟨m, hm⟩ : ∃ m, m = buf.take (announced buf) := ⟨_, rfl⟩
  have hfour : 4 ≤ announced buf := Nat.le_add_right 4 _
  have hlen : m.length = announced buf := by rw [hm, List.length_take, Nat.min_eq_left hle]
  have hann : announced m = announced buf := by
    have happ := @announced_append m (by omega) (buf.drop (announced buf))
    rwa [hm, List.take_append_drop, eq_comm, ← hm] at happ
  rw [← hm]
  have hids : (m.take 2).length = 2 := by simp; omega
  have hlens : ((m.drop 2).take 2).length = 2 := by simp; omega
  have hbody : (m.drop 4).length = BigEndian.decode ((m.drop 2).take 2) := by
    rw [List.length_drop, hlen, ← hann, announced]
    omega
  refine ⟨BigEndian.decode (m.take 2), m.drop 4, ?_, ?_⟩
  · have hlt := BigEndian.decode_lt ((m.drop 2).take 2)
    rw [hlens] at hlt
    rw [hbody]
    exact hlt.trans_eq (by norm_num)
  · have henc := BigEndian.encode_decode (m.take 2)
    have henc' := BigEndian.encode_decode ((m.drop 2).take 2)
    rw [hids] at henc
    rw [hlens] at henc'
    rw [hbody, henc, henc', show m.drop 4 = (m.drop 2).drop 2 by simp, List.take_append_drop,
      List.take_append_drop]

/-- The messages that a stream is cut into are framed. -/
theorem isFramed_of_cuts {buf rest : Bytes} {msgs : List Bytes}
    (h : Cuts wholeMessage buf msgs rest) : ∀ m ∈ msgs, IsFramed m := by
  induction h with
  | done _ => simp
  | more hn _ ih => exact List.forall_mem_cons.2 ⟨isFramed_take hn, ih⟩

/-! ## The receive buffer -/

/-- The receive buffer is the same. -/
def SameBuffer (p q : Peer) : Prop := q.signalRecv = p.signalRecv

instance : Std.Refl SameBuffer := ⟨fun _ => rfl⟩

instance : IsTrans Peer SameBuffer := ⟨fun _ _ _ h h' => Eq.trans h' h⟩

/-- Sending a message leaves the receive buffer. -/
theorem sameBuffer_sendMessageExpectingResponse {now : Nat} {rp : ResponsePending} :
    Within SameBuffer (sendMessageExpectingResponse now rp) := by
  refine within_bind within_get fun _ => within_ite (fun _ => within_pure) fun _ => ?_
  refine within_bind (within_ite (fun _ => within_pure) fun _ => within_modify fun _ => rfl)
    fun _ => ?_
  refine within_bind within_get fun _ => ?_
  split
  · exact within_ite (fun _ => within_modify fun _ => rfl) fun _ => within_pure
  · exact within_throw

instance : Closed SameBuffer where
  other _ _ _ _ h _ := h
  send now rp _ _ := by
    refine within_bind within_get fun _ => within_bind (within_modify fun _ => rfl) fun _ => ?_
    exact sameBuffer_sendMessageExpectingResponse
  resend _ p _ _ _ _ _ _ := sameBuffer_sendMessageExpectingResponse p

/-- Accepting a response leaves the receive buffer. -/
theorem sameBuffer_acceptResponse {s : Surroundings} {pm : ProtocolMessage} {mac : DlepMac} :
    Within SameBuffer (acceptResponse s pm mac) := by
  refine within_bind within_get fun _ => ?_
  split
  · exact within_pure
  · exact within_throw
  · next rp rest _ =>
    split
    · exact within_pure
    · refine within_ite (fun _ => within_bind ?_ fun _ => within_pure) fun _ => within_pure
      cases rest with
      | nil => exact within_modify fun _ => rfl
      | cons next rest =>
        refine within_bind (within_modify fun _ => rfl) fun _ => ?_
        exact sameBuffer_sendMessageExpectingResponse

section

variable [AddressText]

/-- No handler writes the receive buffer. -/
theorem sameBuffer_handlePeerSignal {d : DlepView} {s : Surroundings} {buf : Bytes} :
    Within SameBuffer (handlePeerSignal d s buf) :=
  within_of_wp fun p => closed_handlePeerSignal fun _ _ _ _ _ _ _ _ => sameBuffer_acceptResponse p

/-! ## One read -/

/-- A message is handled, and then taken off the front of the buffer. -/
def handOver (d : DlepView) (s : Surroundings) (buf : Bytes) : PeerM Unit := do
  handlePeerSignal d s buf
  modify fun p => { p with signalRecv := p.signalRecv.drop buf.length }

variable {d : DlepView} {s : Surroundings} {p : Peer}

/-- Without a whole message there is nothing to do. -/
theorem handleNext_of_size_none
    (h : ProtocolMessage.isCompleteMessage d.cfg p.signalRecv = .ok none) :
    handleNext d s p = .ok false p := by
  rw [handleNext, get_bind_run, h]
  rfl

/-- The message that is found at the front is handed over. -/
theorem handleNext_of_size {n : Nat}
    (h : ProtocolMessage.isCompleteMessage d.cfg p.signalRecv = .ok (some n))
    (hle : n ≤ p.signalRecv.length) :
    handleNext d s p = (handOver d s (p.signalRecv.take n) >>= fun _ => pure true) p := by
  have hlen : (p.signalRecv.take n).length = n := by rw [List.length_take, Nat.min_eq_left hle]
  rw [handleNext, get_bind_run, h, lift_ok_bind]
  simp only [get_bind_run, handOver, bind_assoc, hlen]

/-- Without a whole message in the buffer the loop does nothing. -/
theorem handleNext_of_none (hcfg : TwoByteFields d.cfg) (h : wholeMessage p.signalRecv = none) :
    handleNext d s p = .ok false p := by
  have hnone := isCompleteMessage_eq hcfg p.signalRecv
  rw [h] at hnone
  exact handleNext_of_size_none hnone

/-- The whole message at the front is handed over. -/
theorem handleNext_of_some (hcfg : TwoByteFields d.cfg) {n : Nat}
    (h : wholeMessage p.signalRecv = some n) :
    handleNext d s p = (handOver d s (p.signalRecv.take n) >>= fun _ => pure true) p := by
  have hsome := isCompleteMessage_eq hcfg p.signalRecv
  rw [h] at hsome
  exact handleNext_of_size hsome (wholeMessage_framer.le h)

/-- The state after a call that has returned. -/
theorem handOver_ok {buf : Bytes} {q : Peer} (h : handOver d s buf p = .ok () q) :
    q.signalRecv = p.signalRecv.drop buf.length := by
  have hwp : wp (handOver d s buf) (fun _ q => q.signalRecv = p.signalRecv.drop buf.length)
      (fun _ _ => True) p := by
    rw [handOver, wp_bind]
    refine (sameBuffer_handlePeerSignal.wp p).mono (fun _ q hq => ?_) fun _ _ _ => trivial
    rw [wp_modify]
    exact congrArg _ hq
  rwa [wp, h] at hwp

/-- The loop hands over the messages at the front of the buffer, one after the other. -/
theorem handleComplete_eq (hcfg : TwoByteFields d.cfg) {msgs : List Bytes} {rest : Bytes}
    (h : Cuts wholeMessage p.signalRecv msgs rest) {n : Nat} (hn : msgs.length < n) :
    handleComplete d s n p = msgs.forM (handOver d s) p := by
  generalize hbuf : p.signalRecv = buf at h
  induction h generalizing p n with
  | done h =>
    obtain ⟨m, rfl⟩ : ∃ m, n = m + 1 := ⟨n - 1, by omega⟩
    subst hbuf
    rw [handleComplete, bind_run, handleNext_of_none hcfg h]
    rfl
  | @more buf rest size msgs h _ ih =>
    obtain ⟨m, rfl⟩ : ∃ m, n = m + 1 := ⟨n - 1, by omega⟩
    subst hbuf
    rw [handleComplete, bind_run, handleNext_of_some hcfg h, bind_run, forM_cons_run]
    cases hcall : handOver d s (p.signalRecv.take size) p with
    | error e q => rfl
    | ok u q =>
      have hq := handOver_ok hcall
      rw [List.length_take, Nat.min_eq_left (wholeMessage_framer.le h)] at hq
      exact ih (by simpa using hn) hq

/-- The buffer after messages that were handed over. -/
theorem forM_handOver_ok {msgs : List Bytes} {rest : Bytes} {q : Peer}
    (h : Cuts wholeMessage p.signalRecv msgs rest) (hq : msgs.forM (handOver d s) p = .ok () q) :
    q.signalRecv = rest := by
  generalize hbuf : p.signalRecv = buf at h
  induction h generalizing p with
  | done h =>
    obtain ⟨_, rfl⟩ := EStateM.Result.ok.inj hq
    exact hbuf
  | @more buf rest size msgs h _ ih =>
    subst hbuf
    rw [forM_cons_run] at hq
    cases hcall : handOver d s (p.signalRecv.take size) p with
    | error e q' => simp [hcall] at hq
    | ok u q' =>
      have hq' := handOver_ok hcall
      rw [List.length_take, Nat.min_eq_left (wholeMessage_framer.le h)] at hq'
      rw [hcall] at hq
      exact ih hq hq'

/-- A read hands over the messages that are whole with it. -/
theorem handleSessionReceive_eq (hcfg : TwoByteFields d.cfg) {bytes rest : Bytes}
    {msgs : List Bytes} (h : Cuts wholeMessage (p.signalRecv ++ bytes) msgs rest) :
    handleSessionReceive d s bytes p =
      (fillBuffer s bytes >>= fun _ => msgs.forM (handOver d s)) p := by
  have hlen := wholeMessage_framer.length_le h
  exact handleComplete_eq (p := { p with
    lastReceiveTime := s.now, signalRecv := p.signalRecv ++ bytes }) hcfg h (Nat.lt_succ_of_le hlen)

/-- After the messages were handled, what is left of the stream is in the buffer. -/
theorem fillBuffer_forM_ok {bytes rest : Bytes} {msgs : List Bytes} {q : Peer}
    (h : Cuts wholeMessage (p.signalRecv ++ bytes) msgs rest)
    (hq : (fillBuffer s bytes >>= fun _ => msgs.forM (handOver d s)) p = .ok () q) :
    q.signalRecv = rest :=
  forM_handOver_ok (p := { p with
    lastReceiveTime := s.now, signalRecv := p.signalRecv ++ bytes }) h hq

/-! ## All reads -/

/-- A read, and what happens to the peer before it. -/
structure Read where
  others : List Step
  d : DlepView
  s : Surroundings
  bytes : Bytes

/-- What happens before the read is no read, and the fields have their sizes. -/
structure Read.Ok (r : Read) : Prop where
  others : ∀ st ∈ r.others, st.input ≠ .message ∧ ∀ bytes, st.input ≠ .receive bytes
  fields : TwoByteFields r.d.cfg

def Read.before (r : Read) : PeerM Unit := modify fun p => run step p r.others

def Read.perform (r : Read) : PeerM Unit := do
  r.before
  handleSessionReceive r.d r.s r.bytes

/-- The read with the given messages handed over. -/
def Read.handing (r : Read) (msgs : List Bytes) : PeerM Unit := do
  r.before
  fillBuffer r.s r.bytes
  msgs.forM (handOver r.d r.s)

/-- The bytes of all reads. -/
def stream (reads : List Read) : Bytes := (reads.map Read.bytes).flatten

/-- What happens before a read leaves the receive buffer. -/
theorem Read.Ok.signalRecv {r : Read} (hr : r.Ok) (p : Peer) :
    (run step p r.others).signalRecv = p.signalRecv := by
  have hothers := hr.others
  generalize r.others = steps at hothers ⊢
  induction steps generalizing p with
  | nil => rfl
  | cons st steps ih =>
    obtain ⟨hst, hsteps⟩ := List.forall_mem_cons.1 hothers
    rw [run_cons, ih _ hsteps]
    exact closed_step (R := SameBuffer) hst.1 hst.2 p

/-- A read, with the messages that are whole with it. -/
theorem Read.Ok.perform_eq {r : Read} (hr : r.Ok) {msgs : List Bytes} {rest : Bytes}
    (h : Cuts wholeMessage (p.signalRecv ++ r.bytes) msgs rest) :
    r.perform p = r.handing msgs p ∧ ∀ q, r.perform p = .ok () q → q.signalRecv = rest := by
  rw [← hr.signalRecv p] at h
  have heq : r.perform p = r.handing msgs p := handleSessionReceive_eq hr.fields h
  refine ⟨heq, fun q hq => ?_⟩
  rw [heq] at hq
  exact fillBuffer_forM_ok h hq

/-- The stream is cut in the same way however it arrives. -/
theorem exists_parts {reads : List Read} (hreads : ∀ r ∈ reads, r.Ok) {start rest : Bytes}
    {msgs : List Bytes} (hstart : wholeMessage start = none)
    (h : Cuts wholeMessage (start ++ stream reads) msgs rest) :
    ∃ parts : List (List Bytes), parts.length = reads.length ∧ parts.flatten = msgs ∧
      ∀ p : Peer, p.signalRecv = start →
        reads.forM Read.perform p = (reads.zip parts).forM (fun r => r.1.handing r.2) p ∧
          ∀ q, reads.forM Read.perform p = .ok () q → q.signalRecv = rest := by
  induction reads generalizing start msgs with
  | nil =>
    rw [stream, List.map_nil, List.flatten_nil, List.append_nil] at h
    obtain ⟨rfl, rfl⟩ := h.unique (.done hstart)
    refine ⟨[], rfl, rfl, fun p hp => ⟨rfl, fun q hq => ?_⟩⟩
    obtain ⟨_, rfl⟩ := EStateM.Result.ok.inj hq
    exact hp
  | cons r reads ih =>
    obtain ⟨hr, hreads⟩ := List.forall_mem_cons.1 hreads
    -- what the first read leaves is where the others begin
    obtain ⟨first, left, hfirst⟩ := wholeMessage_framer.exists_cuts (start ++ r.bytes)
    obtain ⟨others, rest', hothers⟩ := wholeMessage_framer.exists_cuts (left ++ stream reads)
    have hall := wholeMessage_framer.cuts_append hfirst hothers
    have hstream : start ++ stream (r :: reads) = start ++ r.bytes ++ stream reads := by
      simp [stream]
    rw [hstream] at h
    obtain ⟨rfl, rfl⟩ := h.unique hall
    obtain ⟨parts, hlen, hflat, hparts⟩ := ih hreads hfirst.size_rest hothers
    refine ⟨first :: parts, by simp [hlen], by simp [hflat], fun p hp => ?_⟩
    rw [← hp] at hfirst
    obtain ⟨heq, hleft⟩ := hr.perform_eq hfirst
    rw [List.zip_cons_cons, forM_cons_run, forM_cons_run, ← heq]
    cases hcall : r.perform p with
    | error e q => exact ⟨rfl, fun q' hq' => by cases hq'⟩
    | ok u q => exact hparts q (hleft q hcall)

omit [AddressText] in
/-- A part of a message is not a whole message. -/
theorem wholeMessage_of_part {part more : Bytes} (hmore : more ≠ []) (h : IsFramed (part ++ more)) :
    wholeMessage part = none := by
  cases hn : wholeMessage part with
  | none => rfl
  | some n =>
    have hsame := (wholeMessage_framer.append more hn).symm.trans h.wholeMessage
    have hle := wholeMessage_framer.le hn
    have hpos := List.length_pos_of_ne_nil hmore
    rw [Option.some.injEq, List.length_append] at hsame
    omega

/-- Let the stream be messages and then a part of a message. However it arrives, and whatever
happens between the reads, the reads hand over these messages, in this order, and keep the rest.
-/
theorem handed_over_of_stream {reads : List Read} (hreads : ∀ r ∈ reads, r.Ok) {msgs : List Bytes}
    {part more : Bytes} (hstream : stream reads = msgs.flatten ++ part)
    (hmsgs : ∀ m ∈ msgs, IsFramed m) (hmore : more ≠ []) (hpart : IsFramed (part ++ more)) :
    ∃ parts : List (List Bytes), parts.length = reads.length ∧ parts.flatten = msgs ∧
      ∀ p : Peer, p.signalRecv = [] →
        reads.forM Read.perform p = (reads.zip parts).forM (fun r => r.1.handing r.2) p ∧
          ∀ q, reads.forM Read.perform p = .ok () q → q.signalRecv = part := by
  have hcuts : Cuts wholeMessage ([] ++ stream reads) msgs part := by
    rw [List.nil_append, hstream]
    exact wholeMessage_framer.cuts_flatten (fun m hm => (hmsgs m hm).wholeMessage)
      (.done (wholeMessage_of_part hmore hpart))
  exact exists_parts hreads rfl hcuts

/-! ## Room in the buffer -/

omit [AddressText] in
/-- The room that is left in the receive buffer. -/
def freeSpace (p : Peer) : Nat := ProtocolMessage.maxSignalSize - p.signalRecv.length

/-- No read brings more than there is room for. -/
def Fits : List Read → Peer → Prop
  | [], _ => True
  | r :: reads, p => r.bytes.length ≤ p.freeSpace ∧ ∀ q, r.perform p = .ok () q → Fits reads q

omit [AddressText] in
/-- Somewhere in the stream a message begins that is announced to be longer than the buffer, and
enough of it follows to fill the buffer. -/
def Overfills (bytes : Bytes) : Prop :=
  ∃ (msgs : List Bytes) (tail : Bytes), bytes = msgs.flatten ++ tail ∧ (∀ m ∈ msgs, IsFramed m) ∧
    ProtocolMessage.maxSignalSize ≤ tail.length ∧ ProtocolMessage.maxSignalSize < announced tail

/-- After reads that fit, the buffer holds what is left of the stream, and everything that was cut
off was in the buffer. -/
theorem cuts_of_fits {reads : List Read} (hreads : ∀ r ∈ reads, r.Ok) {q : Peer}
    (hwhole : wholeMessage p.signalRecv = none)
    (hroom : p.signalRecv.length ≤ ProtocolMessage.maxSignalSize) (hfits : Fits reads p)
    (hq : reads.forM Read.perform p = .ok () q) :
    ∃ msgs, Cuts wholeMessage (p.signalRecv ++ stream reads) msgs q.signalRecv ∧
      (∀ m ∈ msgs, m.length ≤ ProtocolMessage.maxSignalSize) ∧
      q.signalRecv.length ≤ ProtocolMessage.maxSignalSize := by
  induction reads generalizing p with
  | nil =>
    obtain ⟨_, rfl⟩ := EStateM.Result.ok.inj hq
    exact ⟨[], by simpa [stream] using Cuts.done hwhole, by simp, hroom⟩
  | cons r reads ih =>
    obtain ⟨hr, hreads⟩ := List.forall_mem_cons.1 hreads
    obtain ⟨hfit, hfits⟩ := hfits
    obtain ⟨first, left, hfirst⟩ := wholeMessage_framer.exists_cuts (p.signalRecv ++ r.bytes)
    have hlen : (p.signalRecv ++ r.bytes).length ≤ ProtocolMessage.maxSignalSize := by
      rw [List.length_append]
      rw [freeSpace] at hfit
      omega
    have hparts : ∀ part ∈ left :: first, part.length ≤ ProtocolMessage.maxSignalSize := by
      intro part hpart
      have hsub : part.length ≤ (first.flatten ++ left).length := by
        rw [List.length_append]
        rcases List.mem_cons.1 hpart with rfl | hmem
        · omega
        · have := (List.sublist_flatten_of_mem hmem).length_le
          omega
      rw [hfirst.flatten] at hsub
      omega
    rw [forM_cons_run] at hq
    cases hcall : r.perform p with
    | error e q' => simp [hcall] at hq
    | ok u q' =>
      rw [hcall] at hq
      obtain rfl := (hr.perform_eq hfirst).2 q' hcall
      obtain ⟨msgs, hcuts, hmsgs, hleft⟩ := ih hreads hfirst.size_rest
        (hparts _ List.mem_cons_self) (hfits q' hcall) hq
      refine ⟨first ++ msgs, ?_, ?_, hleft⟩
      · have hall := wholeMessage_framer.cuts_append hfirst hcuts
        rwa [List.append_assoc, ← show stream (r :: reads) = r.bytes ++ stream reads by
          simp [stream]] at hall
      · intro m hm
        rcases List.mem_append.1 hm with hold | hnew
        · exact hparts m (List.mem_cons_of_mem _ hold)
        · exact hmsgs m hnew

omit [AddressText] in
/-- What is left fills the buffer exactly if the stream overfills it. -/
theorem length_rest_eq_iff {bytes rest : Bytes} {msgs : List Bytes}
    (h : Cuts wholeMessage bytes msgs rest)
    (hmsgs : ∀ m ∈ msgs, m.length ≤ ProtocolMessage.maxSignalSize)
    (hrest : rest.length ≤ ProtocolMessage.maxSignalSize) :
    rest.length = ProtocolMessage.maxSignalSize ↔ Overfills bytes := by
  have hmax : ProtocolMessage.maxSignalSize = 65536 := rfl
  constructor
  · intro hfull
    refine ⟨msgs, rest, h.flatten.symm, isFramed_of_cuts h, hfull.ge, ?_⟩
    by_contra hle
    have hsome : wholeMessage rest = some (announced rest) :=
      wholeMessage_eq_some.2 ⟨by omega, by omega, rfl⟩
    simp [h.size_rest] at hsome
  · rintro ⟨pre, tail, rfl, hpre, hlong, hann⟩
    induction pre generalizing msgs with
    | nil =>
      -- the first message would be longer than the buffer
      rw [List.flatten_nil, List.nil_append] at h
      cases h with
      | done _ => exact Nat.le_antisymm hrest hlong
      | more hn _ =>
        obtain ⟨_, hle, rfl⟩ := wholeMessage_eq_some.1 hn
        have hfirst := hmsgs _ List.mem_cons_self
        rw [List.length_take, Nat.min_eq_left hle] at hfirst
        omega
    | cons m pre ih =>
      obtain ⟨hm, hpre⟩ := List.forall_mem_cons.1 hpre
      rw [List.flatten_cons, List.append_assoc] at h
      have hfirst := wholeMessage_framer.append (pre.flatten ++ tail) hm.wholeMessage
      cases h with
      | done hn => simp [hfirst] at hn
      | more hn hcuts =>
        obtain rfl := Option.some.inj (hfirst.symm.trans hn)
        rw [List.drop_left] at hcuts
        exact ih (List.forall_mem_cons.1 hmsgs).2 hcuts hpre

/-- After every read there is room in the buffer, exactly if the stream so far does not overfill it
with a message that is longer than the buffer. -/
theorem one_le_freeSpace_iff {reads : List Read} (hreads : ∀ r ∈ reads, r.Ok) {q : Peer}
    (hp : p.signalRecv = []) (hfits : Fits reads p) (hq : reads.forM Read.perform p = .ok () q) :
    1 ≤ q.freeSpace ↔ ¬ Overfills (stream reads) := by
  have hwhole : wholeMessage p.signalRecv = none := by rw [hp]; rfl
  obtain ⟨msgs, hcuts, hmsgs, hleft⟩ := cuts_of_fits hreads hwhole (by simp [hp]) hfits hq
  rw [hp, List.nil_append] at hcuts
  rw [← length_rest_eq_iff hcuts hmsgs hleft, freeSpace]
  omega

end

attribute [local instance] plainText

/-- A read of a router. -/
def bareRead (bytes : Bytes) : Read := ⟨[], bareView false, bareSurroundings, bytes⟩

/-- Nothing happens before the sample reads. -/
theorem bareRead_ok (bytes : Bytes) : (bareRead bytes).Ok where
  others := by simp [bareRead]
  fields := ⟨rfl, rfl⟩

/-- A Heartbeat on the wire. -/
def heartbeat : Bytes := [0, 16, 0, 0]

/-- A Heartbeat is framed. -/
theorem isFramed_heartbeat : IsFramed heartbeat := ⟨16, [], by simp, by decide⟩

/-- A Session Initialization, a Destination Announce, a Heartbeat and the beginning of a Session
Termination: the first read ends in a header, the second in a body, the third brings two ends. -/
def splitReads : List Read := [
  bareRead [0, 1, 0],
  bareRead [13, 0, 5, 0, 4, 0, 0, 234, 96, 0, 4, 0, 1, 0, 0, 9, 0, 6, 0],
  bareRead [7, 0, 2, 10, 11, 0, 16, 0, 0],
  bareRead [0, 5, 0]]

/-- Three messages of different kinds, in reads that cut them at other places. -/
theorem handed_over_of_stream_splitReads :
    ∃ parts : List (List Bytes), parts.length = splitReads.length ∧
      parts.flatten = [sessionInitialization, destinationAnnounce, heartbeat] ∧
      ∀ p : Peer, p.signalRecv = [] →
        splitReads.forM Read.perform p =
            (splitReads.zip parts).forM (fun r => r.1.handing r.2) p ∧
          ∀ q, splitReads.forM Read.perform p = .ok () q → q.signalRecv = [0, 5, 0] :=
  @handed_over_of_stream plainText splitReads (by simp [splitReads, bareRead_ok])
    [sessionInitialization, destinationAnnounce, heartbeat] [0, 5, 0] [5, 0, 1, 0, 1, 0] rfl
    (by
      simp only [List.forall_mem_cons, List.not_mem_nil, false_implies, implies_true, and_true]
      exact ⟨⟨1, sessionInitialization.drop 4, by decide, by decide⟩,
        ⟨9, destinationAnnounce.drop 4, by decide, by decide⟩, isFramed_heartbeat⟩)
    (by simp) ⟨5, sessionTermination.drop 4, by decide, by decide⟩

/-- After a Heartbeat there is room in the buffer. -/
theorem one_le_freeSpace_iff_heartbeat :
    ∃ q, [bareRead heartbeat].forM Read.perform barePeer = .ok () q ∧
      (1 ≤ q.freeSpace ↔ ¬ Overfills (stream [bareRead heartbeat])) := by
  have hok : wp ([bareRead heartbeat].forM Read.perform) (fun _ _ => True) (fun _ _ => False)
      barePeer := by
    have hcuts : Cuts wholeMessage (barePeer.signalRecv ++ heartbeat)
        (heartbeat.take 4 :: []) (heartbeat.drop 4) := .more rfl (.done rfl)
    rw [wp, forM_cons_run, ((bareRead_ok heartbeat).perform_eq hcuts).1]
    trivial
  cases hrun : [bareRead heartbeat].forM Read.perform barePeer with
  | error e q => simp [wp, hrun] at hok
  | ok u q =>
    exact ⟨q, rfl, one_le_freeSpace_iff (by simp [bareRead_ok]) rfl
      ⟨by decide, fun _ _ => trivial⟩ hrun⟩

/-- A message that is announced with 65535 bytes, as far as it fits the buffer. -/
def overlong : Bytes := [0, 16, 255, 255] ++ List.replicate 65532 0

/-- The part of a message that one read brings stays in the buffer. -/
theorem handleSessionReceive_part {buf : Bytes} (h : wholeMessage buf = none) :
    ∃ q, handleSessionReceive (bareView false) bareSurroundings buf barePeer = .ok () q ∧
      q.signalRecv = buf := by
  have hcuts : Cuts wholeMessage (barePeer.signalRecv ++ buf) [] buf := .done h
  exact ⟨_, handleSessionReceive_eq ⟨rfl, rfl⟩ hcuts, rfl⟩

/-- The read fits the buffer, and leaves no room in it. -/
theorem freeSpace_overlong :
    overlong.length ≤ barePeer.freeSpace ∧
      ∃ q, handleSessionReceive (bareView false) bareSurroundings overlong barePeer = .ok () q ∧
        q.freeSpace = 0 := by
  have hlen : overlong.length = ProtocolMessage.maxSignalSize := by
    rw [overlong, List.length_append, List.length_replicate]
    rfl
  have hann : announced overlong = 65539 :=
    (@announced_append [0, 16, 255, 255] (by decide) (List.replicate 65532 0)).trans (by decide)
  have hpart : wholeMessage overlong = none := by
    have hle : ¬ 65539 ≤ ProtocolMessage.maxSignalSize := by decide
    rw [wholeMessage, hann, hlen, if_neg fun h => hle h.2]
  obtain ⟨q, hq, hbuf⟩ := handleSessionReceive_part hpart
  refine ⟨hlen.le, q, hq, ?_⟩
  rw [freeSpace, hbuf, hlen, Nat.sub_self]

end Peer

end Dlep
