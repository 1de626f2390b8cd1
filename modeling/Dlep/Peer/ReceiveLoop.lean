import Dlep.Peer.Receive

/-!
# The loop over the messages in the receive buffer

With fields of two bytes the loop of `handle_session_receive` always ends. The schema allows
fields of up to eight bytes, and the size of a message is computed in 64 bits: a length that is
close to `2 ^ 64` makes the size smaller than the header. Such a message is handled without being
consumed, or with a part of its header only. `endsSoundly_iff` says that this is the only way in
which the loop goes wrong.
-/

namespace Dlep

open Calls Framing

namespace ProtocolMessage

/-- The header is there, and its id is one of 32 bits. -/
def HasHeader (cfg : ProtocolConfig) (buf : Bytes) : Prop :=
  headerSize cfg ≤ buf.length ∧ idField cfg buf < 2 ^ 32

instance (cfg : ProtocolConfig) (buf : Bytes) : Decidable (HasHeader cfg buf) :=
  inferInstanceAs (Decidable (_ ∧ _))

/-- The buffer starts with a header, and the size that it announces does not fit 64 bits. -/
def Wraps (cfg : ProtocolConfig) (buf : Bytes) : Prop :=
  HasHeader cfg buf ∧ 2 ^ 64 ≤ headerSize cfg + lengthField cfg buf

/-- The size of the first message in exact integers, if all of it is there. -/
def exactSize (cfg : ProtocolConfig) (buf : Bytes) : Option Nat :=
  if HasHeader cfg buf ∧ headerSize cfg + lengthField cfg buf ≤ buf.length then
    some (headerSize cfg + lengthField cfg buf)
  else none

section

variable {cfg : ProtocolConfig} {buf : Bytes} {n : Nat}

/-- A message is whole in exact integers exactly if its header is there and all that it announces.
-/
theorem exactSize_eq_some : exactSize cfg buf = some n ↔
    HasHeader cfg buf ∧ headerSize cfg + lengthField cfg buf ≤ buf.length ∧
      n = headerSize cfg + lengthField cfg buf := by
  unfold exactSize
  split
  · next h => simp [h, eq_comm]
  · next h =>
    simp only [reduceCtorEq, false_iff]
    exact fun h' => h ⟨h'.1, h'.2.1⟩

/-- A message that is there is found, as long as sizes fit 64 bits. -/
theorem isCompleteMessage_of_exactSize (hbuf : buf.length < 2 ^ 64)
    (h : exactSize cfg buf = some n) :
    isCompleteMessage cfg buf = .ok (some n) := by
  obtain ⟨⟨hlong, hid⟩, hle, rfl⟩ := exactSize_eq_some.1 h
  rw [isCompleteMessage_run, if_neg (not_lt.2 hlong), if_pos hid,
    Nat.mod_eq_of_lt (hle.trans_lt hbuf), if_pos hle]

/-- Where no message is there, one is found only if its size wraps, and then it is too small. -/
theorem wraps_of_isCompleteMessage (hexact : exactSize cfg buf = none)
    (h : isCompleteMessage cfg buf = .ok (some n)) : Wraps cfg buf := by
  rw [isCompleteMessage_run] at h
  split at h
  · cases h
  · next hlong =>
    split at h
    · next hid =>
      refine ⟨⟨not_lt.1 hlong, hid⟩, ?_⟩
      by_contra hfits
      have hmod := Nat.mod_eq_of_lt (not_le.1 hfits)
      rw [hmod] at h
      split at h
      · next hle =>
        have hsome := exactSize_eq_some.2 ⟨⟨not_lt.1 hlong, hid⟩, hle, rfl⟩
        rw [hexact] at hsome
        cases hsome
      · cases h
    · cases h

/-- A length field of up to seven bytes never makes the size wrap. -/
theorem not_wraps_of_le_seven (h : cfg.signalLengthSize.1 ≤ 7) : ¬ Wraps cfg buf := by
  rintro ⟨_, hwraps⟩
  have hfield := lengthField_lt_of_le h buf
  have hheader := headerSize_le cfg
  omega

/-- A size that wraps is taken for one smaller than the header. -/
theorem Wraps.isCompleteMessage (h : Wraps cfg buf) :
    ∃ n, isCompleteMessage cfg buf = .ok (some n) ∧ n < headerSize cfg := by
  obtain ⟨⟨hlong, hid⟩, hwraps⟩ := h
  have hlength := lengthField_lt cfg buf
  have hheader := headerSize_le cfg
  have hsmall : (headerSize cfg + lengthField cfg buf) % 2 ^ 64 < headerSize cfg := by omega
  refine ⟨_, ?_, hsmall⟩
  rw [isCompleteMessage_run, if_neg (not_lt.2 hlong), if_pos hid, if_pos (by omega)]

end

/-- The exact sizes cut a stream into messages. -/
theorem exactSize_framer (cfg : ProtocolConfig) : Framer (exactSize cfg) where
  pos h := by
    obtain ⟨_, _, rfl⟩ := exactSize_eq_some.1 h
    exact Nat.add_pos_left (headerSize_pos cfg) _
  le h := by
    obtain ⟨_, hle, rfl⟩ := exactSize_eq_some.1 h
    exact hle
  append {buf n} more h := by
    obtain ⟨⟨hlong, hid⟩, hle, rfl⟩ := exactSize_eq_some.1 h
    have hsum : cfg.signalIdSize.1 + cfg.signalLengthSize.1 ≤ buf.length := hlong
    have hids : idField cfg (buf ++ more) = idField cfg buf := by
      rw [idField, idField, List.take_append_of_le_length (by omega)]
    have hlengths : lengthField cfg (buf ++ more) = lengthField cfg buf := by
      rw [lengthField, lengthField, List.drop_append_of_le_length (by omega),
        List.take_append_of_le_length (by rw [List.length_drop]; omega)]
    refine exactSize_eq_some.2 ⟨⟨?_, by rw [hids]; exact hid⟩, ?_, by rw [hlengths]⟩
    · rw [List.length_append]
      omega
    · rw [hlengths, List.length_append]
      omega

end ProtocolMessage

namespace Peer

open ProtocolMessage Relation

section

variable [AddressText] {d : DlepView} {s : Surroundings} {p q : Peer}

/-- A round of the loop leads from one state to the next. -/
def Round (d : DlepView) (s : Surroundings) (p q : Peer) : Prop := handleNext d s p = .ok true q

/-- The loop ends, by itself or by an exception, and each message that it handles has at least the
bytes of a header, and at most those in the buffer. -/
def EndsSoundly (d : DlepView) (s : Surroundings) (p : Peer) : Prop :=
  Acc (fun q p => Round d s p q) p ∧
    ∀ q n, ReflTransGen (Round d s) p q → isCompleteMessage d.cfg q.signalRecv = .ok (some n) →
      headerSize d.cfg ≤ n ∧ n ≤ q.signalRecv.length

/-- What is left behind the whole messages in the buffer, if these are handled without an
exception, is not the header of a message whose size wraps. -/
def NeverWraps (d : DlepView) (s : Surroundings) (p : Peer) : Prop :=
  ∀ msgs rest q, Cuts (exactSize d.cfg) p.signalRecv msgs rest →
    msgs.forM (handOver d s) p = .ok () q →
    ¬ Wraps d.cfg rest

/-- A round handles the message that is found. -/
theorem round_iff {n : Nat} (h : isCompleteMessage d.cfg p.signalRecv = .ok (some n))
    (hle : n ≤ p.signalRecv.length) :
    Round d s p q ↔ handOver d s (p.signalRecv.take n) p = .ok () q := by
  rw [Round, handleNext_of_size h hle, bind_run]
  cases handOver d s (p.signalRecv.take n) p with
  | error e q' => simp
  | ok u q' =>
    show EStateM.Result.ok true q' = _ ↔ _
    simp

/-- Without a message there is no round. -/
theorem isCompleteMessage_of_round (h : Round d s p q) :
    ∃ n, isCompleteMessage d.cfg p.signalRecv = .ok (some n) := by
  cases hsize : isCompleteMessage d.cfg p.signalRecv with
  | error e =>
    have hthrow : handleNext d s p = .error e p := by
      rw [handleNext, get_bind_run, hsize]
      rfl
    rw [Round, hthrow] at h
    cases h
  | ok size =>
    cases size with
    | none =>
      rw [Round, handleNext_of_size_none hsize] at h
      cases h
    | some n => exact ⟨n, rfl⟩

/-- Where no round leads on, all is told by the state itself. -/
theorem endsSoundly_of_stuck (hstuck : ∀ q, ¬ Round d s p q)
    (hsize : ∀ n, isCompleteMessage d.cfg p.signalRecv = .ok (some n) →
      headerSize d.cfg ≤ n ∧ n ≤ p.signalRecv.length) : EndsSoundly d s p := by
  refine ⟨.intro _ fun q hq => absurd hq (hstuck q), fun q n hpq h => ?_⟩
  rcases hpq.cases_head with rfl | ⟨r, hr, _⟩
  · exact hsize n h
  · exact absurd hr (hstuck r)

/-- There is one next state. -/
theorem endsSoundly_of_round (hround : Round d s p q)
    (hsize : ∀ n, isCompleteMessage d.cfg p.signalRecv = .ok (some n) →
      headerSize d.cfg ≤ n ∧ n ≤ p.signalRecv.length) : EndsSoundly d s p ↔ EndsSoundly d s q := by
  have hnext : ∀ r, Round d s p r → r = q := by
    intro r hr
    exact (EStateM.Result.ok.inj (hr.symm.trans hround)).2
  constructor
  · rintro ⟨hacc, hall⟩
    exact ⟨hacc.inv hround, fun r n hqr => hall r n (.head hround hqr)⟩
  · rintro ⟨hacc, hall⟩
    refine ⟨.intro _ fun r hr => hnext r hr ▸ hacc, fun r n hpr h => ?_⟩
    rcases hpr.cases_head with rfl | ⟨r', hr', hrest⟩
    · exact hsize n h
    · obtain rfl := hnext r' hr'
      exact hall r n hrest h

/-- The loop ends, and takes whole messages off the buffer, exactly if it does not come to a header
whose size wraps. -/
theorem endsSoundly_iff (hbuf : p.signalRecv.length < 2 ^ 64) :
    EndsSoundly d s p ↔ NeverWraps d s p := by
  obtain ⟨msgs, rest, hcuts⟩ := (exactSize_framer d.cfg).exists_cuts p.signalRecv
  have hone : NeverWraps d s p ↔
      ∀ q, msgs.forM (handOver d s) p = .ok () q → ¬ Wraps d.cfg rest := by
    constructor
    · intro h q
      exact h msgs rest q hcuts
    · intro h msgs' rest' q hcuts'
      obtain ⟨rfl, rfl⟩ := hcuts.unique hcuts'
      exact h q
  rw [hone]
  clear hone
  generalize hrecv : p.signalRecv = buf at hcuts hbuf
  induction hcuts generalizing p with
  | done hnone =>
    subst hrecv
    constructor
    · rintro ⟨_, hall⟩ q _ hwraps
      obtain ⟨n, hn, hlt⟩ := hwraps.isCompleteMessage
      exact absurd (hall p n .refl hn).1 (not_le.2 hlt)
    · intro h
      have hsize : ∀ n, isCompleteMessage d.cfg p.signalRecv ≠ .ok (some n) := fun n hn =>
        h p rfl (wraps_of_isCompleteMessage hnone hn)
      refine endsSoundly_of_stuck (fun q hq => ?_) fun n hn => absurd hn (hsize n)
      obtain ⟨n, hn⟩ := isCompleteMessage_of_round hq
      exact hsize n hn
  | @more buf rest n msgs hsome hrest ih =>
    subst hrecv
    have hcomplete := isCompleteMessage_of_exactSize hbuf hsome
    obtain ⟨_, hle, hn⟩ := exactSize_eq_some.1 hsome
    have hle : n ≤ p.signalRecv.length := hn ▸ hle
    have hsize : ∀ m, isCompleteMessage d.cfg p.signalRecv = .ok (some m) →
        headerSize d.cfg ≤ m ∧ m ≤ p.signalRecv.length := by
      intro m hm
      obtain rfl : n = m := Option.some.inj (Except.ok.inj (hcomplete.symm.trans hm))
      exact ⟨hn ▸ Nat.le_add_right _ _, hle⟩
    rw [forM_cons_run]
    cases hcall : handOver d s (p.signalRecv.take n) p with
    | error e q =>
      -- the handler throws, and the loop is left
      refine iff_of_true (endsSoundly_of_stuck (fun r hr => ?_) hsize) (fun r hr => by cases hr)
      rw [round_iff hcomplete hle, hcall] at hr
      cases hr
    | ok u q =>
      have hround : Round d s p q := (round_iff hcomplete hle).2 hcall
      have hdrop := handOver_ok hcall
      rw [List.length_take, Nat.min_eq_left hle] at hdrop
      rw [endsSoundly_of_round hround hsize]
      exact ih hdrop (by rw [List.length_drop]; omega)

/-- A round takes at least a header off the buffer. -/
theorem length_of_round (h : EndsSoundly d s p) (hround : Round d s p q) :
    q.signalRecv.length < p.signalRecv.length := by
  obtain ⟨n, hn⟩ := isCompleteMessage_of_round hround
  obtain ⟨hheader, hle⟩ := h.2 p n .refl hn
  have hdrop := handOver_ok ((round_iff hn hle).1 hround)
  have hpos := headerSize_pos d.cfg
  rw [hdrop, List.length_drop, List.length_take, Nat.min_eq_left hle]
  omega

/-- As many rounds as there are bytes are enough for the loop. -/
theorem handleComplete_stable (h : EndsSoundly d s p) {n m : Nat} (hn : p.signalRecv.length < n)
    (hm : p.signalRecv.length < m) : handleComplete d s n p = handleComplete d s m p := by
  induction n generalizing p m with
  | zero => omega
  | succ n ih =>
    obtain ⟨m, rfl⟩ : ∃ k, m = k + 1 := ⟨m - 1, by omega⟩
    rw [handleComplete, handleComplete, bind_run, bind_run]
    cases hnext : handleNext d s p with
    | error e q => rfl
    | ok more q =>
      cases more with
      | false => rfl
      | true =>
        have hlt := length_of_round h hnext
        have hrest : EndsSoundly d s q := ⟨h.1.inv hnext, fun r k hqr => h.2 r k (.head hnext hqr)⟩
        exact ih hrest (by omega) (by omega)

end

attribute [local instance] plainText

/-! ## A length of eight bytes -/

/-- The shipped configuration, with a length field of eight bytes. -/
def longLengths : ProtocolConfig := { rfc8175 with signalLengthSize := ⟨8, FieldSize.eight_fits⟩ }

def longView : DlepView := { bareView true with cfg := longLengths }

/-- A Heartbeat that announces `2 ^ 64 - 10` bytes behind its header of ten. -/
def wrappingHeartbeat : Bytes := [0, 16, 255, 255, 255, 255, 255, 255, 255, 246]

/-- The peer as it is after the read of these bytes. -/
def wrappingPeer : Peer := { barePeer with signalRecv := wrappingHeartbeat }

/-- The session is ended at the first round, and every round begins with the same bytes. -/
theorem round_of_wrappingHeartbeat {p : Peer} (hp : p.pstate = .terminating)
    (hrecv : p.signalRecv = wrappingHeartbeat) : Round longView bareSurroundings p p := by
  have hsize : isCompleteMessage longView.cfg p.signalRecv = .ok (some 0) := by
    rw [hrecv]
    decide +kernel
  refine (round_iff hsize (Nat.zero_le _)).2 ?_
  have herr : (match received longView [] with
      | .ok (err, _) => decide (err ≠ [])
      | .error _ => false) = true := by decide +kernel
  have hhandle : handlePeerSignal longView bareSurroundings [] p = .ok () p := by
    rw [handlePeerSignal]
    generalize received longView [] = r at herr
    cases r with
    | error e => cases herr
    | ok result =>
      rw [lift_ok_bind]
      show (if result.1 ≠ [] then _ else _ : PeerM Unit) p = _
      rw [if_pos (of_decide_eq_true herr), terminate, bind_run]
      show (if p.pstate = .terminating then _ else _ : PeerM Unit) p = _
      rw [if_pos hp]
      rfl
  rw [List.take_zero, handOver, bind_run, hhandle]
  rfl

/-- What leads to itself goes on for ever. -/
theorem not_acc_of_self {α : Type} {r : α → α → Prop} {a : α} (h : r a a) : ¬ Acc r a := by
  intro hacc
  induction hacc with
  | intro a _ ih => exact ih a h h

/-- The loop does not end soundly on the sample buffer. -/
theorem not_endsSoundly_wrappingPeer : ¬ EndsSoundly longView bareSurroundings wrappingPeer := by
  rintro ⟨hacc, _⟩
  have hfirst : (match handleNext longView bareSurroundings wrappingPeer with
      | .ok more q => more && q.pstate = .terminating && q.signalRecv = wrappingHeartbeat
      | .error _ _ => false) = true := by decide +kernel
  cases hnext : handleNext longView bareSurroundings wrappingPeer with
  | error e q =>
    rw [hnext] at hfirst
    cases hfirst
  | ok more q =>
    rw [hnext] at hfirst
    simp only [Bool.and_eq_true, decide_eq_true_eq] at hfirst
    obtain ⟨⟨rfl, hstate⟩, hrecv⟩ := hfirst
    have hagain : Acc (fun q p => Round longView bareSurroundings p q) q := hacc.inv hnext
    refine absurd hagain (not_acc_of_self ?_)
    exact round_of_wrappingHeartbeat hstate hrecv

/-- A Heartbeat in the shipped configuration. -/
theorem endsSoundly_iff_heartbeat :
    EndsSoundly (bareView true) bareSurroundings { barePeer with signalRecv := [0, 16, 0, 0] } :=
  (@endsSoundly_iff plainText (bareView true) bareSurroundings
    { barePeer with signalRecv := [0, 16, 0, 0] } (by decide)).2
      fun _ _ _ _ _ => not_wraps_of_le_seven (by decide)

end Peer

end Dlep
