import Dlep.Peer.Session
import Dlep.Peer.Standing
import Dlep.ProtocolMessage.Across

/-!
# A peer of which nothing is heard

`check_for_activity` ends the session of a peer that has been silent for a number of its heartbeat
intervals. The limit is a product of two 32-bit numbers, and it is added to the time of the last
message and stored in 32 bits; so it comes too early where it passes a multiple of `2 ^ 32` that
the clock has not passed yet (`detectsInactivity_iff`).

The interval is what the peer has announced, in the units and with the type that are configured
for the data item. Both ends convert it in 32 bits, so that they mean the same number of seconds
only if the interval fits (`heartbeatInterval_agrees_iff`).
-/

namespace Dlep

open Calls

namespace Peer

/-- The time at which the peer has been silent for the allowed number of intervals. -/
def activeUntil (s : Surroundings) (p : Peer) : Nat :=
  p.lastReceiveTime + p.peerHeartbeatIntervalSec.toNat * s.heartbeatThreshold.toNat

/-- The peer sends heartbeats, and has been silent for the allowed number of intervals. -/
def Inactive (s : Surroundings) (p : Peer) : Prop :=
  p.peerHeartbeatIntervalSec ≠ 0 ∧
    p.peerHeartbeatIntervalSec.toNat * s.heartbeatThreshold.toNat ≤ s.now - p.lastReceiveTime

instance (s : Surroundings) (p : Peer) : Decidable (p.Inactive s) :=
  inferInstanceAs (Decidable (_ ∧ _))

/-- Within the time on the clock before the limit, there is no multiple of `2 ^ 32`. -/
def LimitInRange (s : Surroundings) (p : Peer) : Prop :=
  ∀ k, k * 2 ^ 32 ≤ p.activeUntil s → s.now + k * 2 ^ 32 < p.activeUntil s

/-- The limit that the code computes is the exact one modulo `2 ^ 32`. -/
theorem silent_iff {s : Surroundings} {p : Peer} :
    p.silent s = true ↔ p.peerHeartbeatIntervalSec ≠ 0 ∧ p.activeUntil s % 2 ^ 32 ≤ s.now := by
  have hlimit : (UInt32.ofNat (p.lastReceiveTime +
      (p.peerHeartbeatIntervalSec * s.heartbeatThreshold).toNat)).toNat =
      p.activeUntil s % 2 ^ 32 := by
    rw [UInt32.toNat_ofNat', UInt32.toNat_mul, activeUntil, Nat.add_mod_mod]
  simp only [silent, Bool.and_eq_true, decide_eq_true_eq, hlimit]

/-- Whether the limit is within range can be computed from its remainder. -/
theorem limitInRange_iff {s : Surroundings} {p : Peer} :
    p.LimitInRange s ↔ s.now < p.activeUntil s % 2 ^ 32 := by
  have hsplit := Nat.div_add_mod (p.activeUntil s) (2 ^ 32)
  constructor
  · intro h
    have hlast := h (p.activeUntil s / 2 ^ 32) (Nat.div_mul_le_self _ _)
    omega
  · intro h k hk
    have hquot : k ≤ p.activeUntil s / 2 ^ 32 := (Nat.le_div_iff_mul_le (by positivity)).2 hk
    have hmul : k * 2 ^ 32 ≤ p.activeUntil s / 2 ^ 32 * 2 ^ 32 := Nat.mul_le_mul_right _ hquot
    omega

/-- An inactive peer is always taken for silent: the limit is not larger in 32 bits. -/
theorem silent_of_inactive {s : Surroundings} {p : Peer} (hlast : p.lastReceiveTime ≤ s.now)
    (h : p.Inactive s) : p.silent s = true := by
  refine silent_iff.2 ⟨h.1, ?_⟩
  have hle : p.activeUntil s ≤ s.now := by
    have := h.2
    rw [activeUntil]
    omega
  exact (Nat.mod_le _ _).trans hle

section

variable [AddressText] {d : DlepView} {s : Surroundings} {p : Peer}

/-- The check ends the session of a silent peer, and does nothing else. -/
theorem checkForActivity_run :
    checkForActivity d s p =
      (if p.silent s then (do terminate d s "Timed_Out" []; return false)
      else return true : PeerM Bool) p := by
  rw [checkForActivity, bind_run]
  show (if p.peerHeartbeatIntervalSec = 0 then _ else if _ then _ else _ : PeerM Bool) p = _
  by_cases hzero : p.peerHeartbeatIntervalSec = 0
  · have hactive : p.silent s = false := by rw [silent, decide_eq_false (not_not.2 hzero)]; rfl
    rw [if_pos hzero, hactive]
    rfl
  · by_cases htime : (UInt32.ofNat (p.lastReceiveTime +
        (p.peerHeartbeatIntervalSec * s.heartbeatThreshold).toNat)).toNat ≤ s.now
    · have hsilent : p.silent s = true := by
        rw [silent, decide_eq_true hzero, decide_eq_true htime]
        rfl
      rw [if_neg hzero, if_pos htime, hsilent, if_pos rfl]
    · have hactive : p.silent s = false := by
        rw [silent, decide_eq_true hzero, decide_eq_false htime]
        rfl
      rw [if_neg hzero, if_neg htime, hactive]
      rfl

/-- The call ends the session of exactly the peers that it takes for silent. -/
theorem pstate_checkForActivity (hp : p.pstate ≠ .terminating) :
    (after (checkForActivity d s) p).pstate = .terminating ↔ p.silent s = true := by
  cases h : p.silent s with
  | false =>
    have hstay : after (checkForActivity d s) p = p := by
      rw [after, checkForActivity_run, h]
      rfl
    rw [hstay]
    simp [hp]
  | true =>
    have hend : after (checkForActivity d s) p = after (terminate d s "Timed_Out" []) p := by
      rw [after, checkForActivity_run, h, if_pos rfl]
      exact after_bind_pure (f := fun _ => false)
    rw [hend, pstate_terminate]
    simp

/-- What is to be expected of the check: the session of an inactive peer ends, and nothing else
happens. -/
def DetectsInactivity (d : DlepView) (s : Surroundings) (p : Peer) : Prop :=
  ((after (checkForActivity d s) p).pstate = .terminating ↔ p.Inactive s) ∧
    (¬ p.Inactive s → checkForActivity d s p = .ok true p)

/-- The check is exact if the peer sends no heartbeats, or is inactive, or its limit is ahead of the
clock in 32 bits too. -/
theorem detectsInactivity_iff (hp : p.pstate ≠ .terminating) (hlast : p.lastReceiveTime ≤ s.now) :
    DetectsInactivity d s p ↔
      p.peerHeartbeatIntervalSec = 0 ∨ p.Inactive s ∨ p.LimitInRange s := by
  rw [DetectsInactivity, pstate_checkForActivity hp, limitInRange_iff]
  constructor
  · rintro ⟨hends, _⟩
    by_cases hinactive : p.Inactive s
    · exact .inr (.inl hinactive)
    · have hlimit := mt silent_iff.2 fun hsilent => hinactive (hends.1 hsilent)
      by_cases hzero : p.peerHeartbeatIntervalSec = 0
      · exact .inl hzero
      · exact .inr (.inr (not_le.1 fun hle => hlimit ⟨hzero, hle⟩))
  · intro h
    have hsilent : p.silent s = true → p.Inactive s := by
      intro hsilent
      obtain ⟨hne, hle⟩ := silent_iff.1 hsilent
      rcases h with hzero | hinactive | hrange
      · exact absurd hzero hne
      · exact hinactive
      · exact absurd hle (not_le.2 hrange)
    refine ⟨⟨hsilent, silent_of_inactive hlast⟩, fun hactive => ?_⟩
    rw [checkForActivity_run, Bool.eq_false_iff.2 (mt hsilent hactive)]
    rfl

end

attribute [local instance] plainText

/-- A peer that announced an interval of `2 ^ 30` seconds, in the second in which it was heard. -/
def slowPeer : Peer := { barePeer with peerHeartbeatIntervalSec := 0x40000000 }

/-- The sample peer counts as silent although it is not inactive: its limit wraps to 0. -/
theorem slowPeer_inactive : slowPeer.silent bareSurroundings = true ∧
    ¬ slowPeer.Inactive bareSurroundings := by decide +kernel

/-- With the usual threshold of 4, the peer is given up at once. -/
theorem not_detectsInactivity_slowPeer :
    ¬ DetectsInactivity (bareView true) bareSurroundings slowPeer := by
  intro h
  have hstate : slowPeer.pstate ≠ .terminating := by decide
  exact slowPeer_inactive.2 (h.1.1 ((pstate_checkForActivity hstate).2 slowPeer_inactive.1))

/-- A peer with an interval of one minute is heard of at the time of the check. -/
theorem detectsInactivity_iff_minute :
    DetectsInactivity (bareView true) bareSurroundings
      { barePeer with peerHeartbeatIntervalSec := 60 } :=
  (@detectsInactivity_iff plainText (bareView true) bareSurroundings
    { barePeer with peerHeartbeatIntervalSec := 60 } (by decide) (by decide)).2
      (.inr (.inr (limitInRange_iff.2 (by decide))))

end Peer

/-! ## The interval -/

/-- How many of the units make a second. -/
def Units.perSecond : Units → Nat
  | .milliseconds => 1000
  | .microseconds => 1000000
  | _ => 1

/-- The seconds in the units, in 32 bits. -/
def fromSeconds (units : Units) (seconds : UInt32) : UInt32 :=
  match units with
  | .milliseconds => seconds * 1000
  | .microseconds => seconds * 1000000
  | _ => seconds

/-- The bits of an interval of the type. -/
def intervalBits : DataItemValueType → Nat
  | .u16 => 16
  | _ => 32

/-- An interval of `seconds` is a number of the type, and can be rounded in 32 bits. -/
def Announceable (info : DataItemInfo) (seconds : Nat) : Prop :=
  seconds * info.units.perSecond < 2 ^ intervalBits info.valueType ∧
    seconds * info.units.perSecond + info.units.perSecond / 2 < 2 ^ 32

/-- The value is not rounded to 0 seconds, and can be rounded in 32 bits. -/
def CountsAsSecond (info : DataItemInfo) (value : Nat) : Prop :=
  info.units.perSecond / 2 ≤ value ∧ value + info.units.perSecond / 2 < 2 ^ 32

instance (info : DataItemInfo) (seconds : Nat) : Decidable (Announceable info seconds) :=
  inferInstanceAs (Decidable (_ ∧ _))

instance (info : DataItemInfo) (value : Nat) : Decidable (CountsAsSecond info value) :=
  inferInstanceAs (Decidable (_ ∧ _))

/-- The value that is put into the data item for an interval of `seconds`. -/
def announcedInterval (info : DataItemInfo) (seconds : UInt32) : Nat :=
  seconds.toNat * info.units.perSecond % 2 ^ intervalBits info.valueType

/-- The three units. -/
theorem Units.perSecond_eq (units : Units) :
    units.perSecond = 1 ∨ units.perSecond = 1000 ∨ units.perSecond = 1000000 := by
  cases units <;> simp [perSecond]

/-- The conversion is a product in 32 bits. -/
theorem toNat_fromSeconds (units : Units) (seconds : UInt32) :
    (fromSeconds units seconds).toNat = seconds.toNat * units.perSecond % 2 ^ 32 := by
  have hlt := seconds.toNat_lt
  cases units <;> simp [fromSeconds, Units.perSecond, Nat.mod_eq_of_lt hlt]

/-- The rounding is one in 32 bits. -/
theorem toNat_toSeconds (units : Units) (interval : UInt32) :
    (Peer.toSeconds units interval).toNat =
      (interval.toNat + units.perSecond / 2) % 2 ^ 32 / units.perSecond := by
  have hlt := interval.toNat_lt
  cases units with
  | milliseconds => simp [Peer.toSeconds, Units.perSecond]
  | microseconds => simp [Peer.toSeconds, Units.perSecond]
  | _ => simp [Peer.toSeconds, Units.perSecond, Nat.mod_eq_of_lt hlt]

/-- The seconds come out again exactly if nothing is lost in the two conversions. -/
theorem toSeconds_announced {info : DataItemInfo}
    (htype : info.valueType = .u16 ∨ info.valueType = .u32) {seconds v : UInt32}
    (hv : v.toNat = announcedInterval info seconds) :
    Peer.toSeconds info.units v = seconds ↔ Announceable info seconds.toNat := by
  have hlt := seconds.toNat_lt
  have hbits : 2 ^ intervalBits info.valueType = 65536 ∨
      2 ^ intervalBits info.valueType = 4294967296 := by
    rcases htype with htype | htype <;> simp [htype, intervalBits]
  rw [← UInt32.toNat_inj, toNat_toSeconds, hv, announcedInterval, Announceable]
  by_cases hfits : seconds.toNat * info.units.perSecond < 2 ^ intervalBits info.valueType
  · rw [Nat.mod_eq_of_lt hfits]
    rcases info.units.perSecond_eq with hunit | hunit | hunit <;> rw [hunit] at hfits ⊢ <;> omega
  · -- what is left of the number is less than what is lost, even after the rounding
    refine iff_of_false (fun hsame => ?_) fun h => hfits h.1
    have hmul := Nat.div_mul_le_self ((seconds.toNat * info.units.perSecond %
      2 ^ intervalBits info.valueType + info.units.perSecond / 2) % 2 ^ 32) info.units.perSecond
    have hmod := Nat.mod_le (seconds.toNat * info.units.perSecond %
      2 ^ intervalBits info.valueType + info.units.perSecond / 2) (2 ^ 32)
    rw [hsame] at hmul
    rcases hbits with hbits | hbits <;> rw [hbits] at hmul hmod hfits <;>
      rcases info.units.perSecond_eq with hunit | hunit | hunit <;>
        rw [hunit] at hmul hmod hfits <;> omega

/-- An interval counts as none exactly if it is zero or lost in the rounding. -/
theorem toSeconds_eq_zero {info : DataItemInfo} {v : UInt32} :
    (Peer.toSeconds info.units v = 0 → v = 0) ↔ v = 0 ∨ CountsAsSecond info v.toNat := by
  have hlt := v.toNat_lt
  rw [← UInt32.toNat_inj, ← UInt32.toNat_inj, toNat_toSeconds, CountsAsSecond, UInt32.toNat_zero]
  rcases info.units.perSecond_eq with hunit | hunit | hunit <;> rw [hunit] <;> omega

namespace Peer

open ProtocolMessage

section

variable {d : DlepView} {info : DataItemInfo} {received : ProtocolMessage} {v : UInt32} {p : Peer}

/-- What is stored of an interval that was received. -/
theorem storeHeartbeatInterval_run
    (hinfo : d.cfg.getDataItemInfoByName "Heartbeat_Interval" = .ok info)
    (hv : received.getHeartbeatInterval d.cfg = .ok v) :
    storeHeartbeatInterval d received p =
      .ok () { p with
        peerHeartbeatInterval := v
        peerHeartbeatIntervalSec := toSeconds info.units v } := by
  rw [storeHeartbeatInterval, hv, lift_ok_bind, hinfo]
  rfl

end

section

variable [AddressText] {d : DlepView} {info : DataItemInfo} {client : ClientParameters}
  {name : String} {pm pm₁ pm₀ sent received : ProtocolMessage} {before after : DataItems}
  {body logPrefix : Bytes}

omit [AddressText] in
/-- The data item of an interval is put behind those that the message has. -/
theorem frames_addHeartbeatInterval
    (hinfo : d.cfg.getDataItemInfoByName "Heartbeat_Interval" = .ok info)
    (htype : info.valueType = .u16 ∨ info.valueType = .u32)
    (hpm : Frames d.cfg name pm before body)
    (hadd : addHeartbeatInterval d.cfg client pm = .ok pm₁) :
    ∃ id value body₁, d.cfg.getDataItemId "Heartbeat_Interval" none = .ok id ∧
      Frames d.cfg name pm₁ (before ++ [.mk id value]) body₁ ∧
      value.getType = info.valueType ∧
      ((∃ n : UInt16, value = .u16 n ∧
          n.toNat = announcedInterval info client.heartbeatInterval) ∨
        ∃ n : UInt32, value = .u32 n ∧
          n.toNat = announcedInterval info client.heartbeatInterval) := by
  rcases htype with htype | htype
  · have hstep : addHeartbeatInterval d.cfg client pm = addNamed d.cfg "Heartbeat_Interval"
        (.u16 (fromSeconds info.units client.heartbeatInterval).toUInt16) pm := by
      rw [addHeartbeatInterval, hinfo, ok_bind, htype]
      rfl
    rw [hstep] at hadd
    obtain ⟨id, body₁, hid, hframes⟩ := hpm.addNamed hadd
    refine ⟨id, _, body₁, hid, hframes, htype.symm, .inl ⟨_, rfl, ?_⟩⟩
    rw [UInt32.toNat_toUInt16, toNat_fromSeconds, announcedInterval, htype]
    show _ = _ % 2 ^ 16
    omega
  · have hstep : addHeartbeatInterval d.cfg client pm = addNamed d.cfg "Heartbeat_Interval"
        (.u32 (fromSeconds info.units client.heartbeatInterval)) pm := by
      rw [addHeartbeatInterval, hinfo, ok_bind, htype]
      rfl
    rw [hstep] at hadd
    obtain ⟨id, body₁, hid, hframes⟩ := hpm.addNamed hadd
    refine ⟨id, _, body₁, hid, hframes, htype.symm, .inr ⟨_, rfl, ?_⟩⟩
    rw [announcedInterval, htype]
    exact toNat_fromSeconds _ _

/-- The receiver finds what was announced. -/
theorem getHeartbeatInterval_announced
    (hinfo : d.cfg.getDataItemInfoByName "Heartbeat_Interval" = .ok info)
    (htype : info.valueType = .u16 ∨ info.valueType = .u32)
    (hpm : Frames d.cfg name pm before body)
    (hbefore : ∀ di ∈ before, d.cfg.getDataItemId "Heartbeat_Interval" none ≠ .ok di.id)
    (hadd : addHeartbeatInterval d.cfg client pm = .ok pm₁)
    (hafter : addDataItems d.cfg after pm₁ = .ok sent)
    (h : ProtocolMessage.Accepts d.cfg sent.isSignal sent.msgbuf logPrefix pm₀ received) :
    ∃ v, received.getHeartbeatInterval d.cfg = .ok v ∧
      v.toNat = announcedInterval info client.heartbeatInterval := by
  obtain ⟨id, value, body₁, hid, hframes, hty, hvalue⟩ :=
    frames_addHeartbeatInterval hinfo htype hpm hadd
  obtain ⟨rest, hsent⟩ := hframes.addDataItems hafter
  rw [List.append_assoc, List.singleton_append] at hsent
  have hvalueType : d.cfg.getDataItemValueType "Heartbeat_Interval" = .ok info.valueType := by
    rw [ProtocolConfig.getDataItemValueType, d.cfg.getDataItemInfoByName_eq_ok.1 hinfo]
  have hread := hsent.readAs_self h
  have hfree : ∀ di ∈ before, di.id ≠ id := by
    rintro di hdi rfl
    exact hbefore di hdi hid
  rcases hvalue with ⟨n, rfl, hn⟩ | ⟨n, rfl, hn⟩
  · have hget := getDataItemValue_of_readAs hid (by rw [hvalueType, ← hty]) (by trivial) hfree
      (show u16? (.u16 n) = some n from rfl) hread
    refine ⟨n.toUInt32, ?_, by rw [UInt16.toNat_toUInt32, hn]⟩
    rw [getHeartbeatInterval, hvalueType, ok_bind, ← hty]
    show (do return (← getDataItemValue d.cfg "Heartbeat_Interval" u16? received).toUInt32) = _
    rw [hget]
    rfl
  · have hget := getDataItemValue_of_readAs hid (by rw [hvalueType, ← hty]) (by trivial) hfree
      (show u32? (.u32 n) = some n from rfl) hread
    refine ⟨n, ?_, hn⟩
    rw [getHeartbeatInterval, hvalueType, ok_bind, ← hty]
    exact hget

/-- The seconds that are stored of an announced interval are those that it was made of, exactly if
they can be announced; and a value that is received turns the detection of inactivity off, without
being zero, exactly if it does not count as a second. -/
theorem heartbeatInterval_agrees_iff
    (hinfo : d.cfg.getDataItemInfoByName "Heartbeat_Interval" = .ok info)
    (htype : info.valueType = .u16 ∨ info.valueType = .u32) (p : Peer) :
    (∀ {pm pm₁ sent received pm₀ : ProtocolMessage} {name : String} {before after : DataItems}
      {body logPrefix : Bytes} (client : ClientParameters),
      Frames d.cfg name pm before body →
      (∀ di ∈ before, d.cfg.getDataItemId "Heartbeat_Interval" none ≠ .ok di.id) →
      addHeartbeatInterval d.cfg client pm = .ok pm₁ → addDataItems d.cfg after pm₁ = .ok sent →
      ProtocolMessage.Accepts d.cfg sent.isSignal sent.msgbuf logPrefix pm₀ received →
      ∃ q, storeHeartbeatInterval d received p = .ok () q ∧
        (q.peerHeartbeatIntervalSec = client.heartbeatInterval ↔
          Announceable info client.heartbeatInterval.toNat)) ∧
    ∀ (received : ProtocolMessage) (v : UInt32), received.getHeartbeatInterval d.cfg = .ok v →
      ∃ q, storeHeartbeatInterval d received p = .ok () q ∧
        ((q.peerHeartbeatIntervalSec = 0 → v = 0) ↔ v = 0 ∨ CountsAsSecond info v.toNat) := by
  constructor
  · intro pm pm₁ sent received pm₀ name before after body logPrefix client hpm hbefore hadd
      hafter h
    obtain ⟨v, hv, hnat⟩ :=
      getHeartbeatInterval_announced hinfo htype hpm hbefore hadd hafter h
    exact ⟨_, storeHeartbeatInterval_run hinfo hv, toSeconds_announced htype hnat⟩
  · intro received v hv
    exact ⟨_, storeHeartbeatInterval_run hinfo hv, toSeconds_eq_zero⟩

end

/-! ## The shipped configuration -/

attribute [local instance] plainText

/-- The header of a Session Initialization, and the message with a value for the interval. -/
def initializationHeader : ProtocolMessage where
  msgLenIndex := 2
  headerLength := 4
  msgbuf := [0, 1, 0, 0]
  signalId := 1
  signalIdInitialized := true

def initializationWith (b₃ b₂ b₁ b₀ : UInt8) : ProtocolMessage :=
  { initializationHeader with msgbuf := [0, 1, 0, 8, 0, 5, 0, 4, b₃, b₂, b₁, b₀] }

/-- A client with the interval of so many seconds. -/
def clientOfInterval (seconds : UInt32) : ClientParameters :=
  { bareSurroundings.params with heartbeatInterval := seconds }

/-- The value that is found in a message, and the seconds that are stored of it. -/
def storedFrom (buf : Bytes) : Option (UInt32 × UInt32) :=
  match parseBuffer rfc8175 buf false [] {} with
  | .ok ([], received) =>
    match received.getHeartbeatInterval rfc8175,
      storeHeartbeatInterval (bareView true) received barePeer with
    | .ok v, .ok _ q => some (v, q.peerHeartbeatIntervalSec)
    | _, _ => none
  | _ => none

/-- What the sample computation finds is what the handler stores of a valid message. -/
theorem exists_of_storedFrom {buf : Bytes} {v seconds : UInt32}
    (h : storedFrom buf = some (v, seconds)) :
    ∃ received q, ProtocolMessage.Accepts rfc8175 false buf [] {} received ∧
      received.getHeartbeatInterval rfc8175 = .ok v ∧
      storeHeartbeatInterval (bareView true) received barePeer = .ok () q ∧
      q.peerHeartbeatIntervalSec = seconds := by
  unfold storedFrom at h
  split at h
  · next received hparse =>
    split at h
    · next q hv hstore =>
      obtain ⟨rfl, rfl⟩ := Prod.mk.inj (Option.some.inj h)
      exact ⟨received, q, hparse, hv, hstore, rfl⟩
    · cases h
  · cases h

/-- 4294968 seconds are 704 milliseconds in 32 bits, which the receiver takes for one second. And an
interval of 499 milliseconds is rounded to none. -/
theorem not_heartbeatInterval_agrees_shipped :
    (addHeader rfc8175 "Session_Initialization" {} = .ok initializationHeader ∧
      addHeartbeatInterval rfc8175 (clientOfInterval 4294968) initializationHeader =
        .ok (initializationWith 0 0 2 192) ∧
      ∃ received q,
        ProtocolMessage.Accepts rfc8175 false (initializationWith 0 0 2 192).msgbuf [] {} received ∧
        received.getHeartbeatInterval rfc8175 = .ok 704 ∧
        storeHeartbeatInterval (bareView true) received barePeer = .ok () q ∧
        q.peerHeartbeatIntervalSec ≠ (clientOfInterval 4294968).heartbeatInterval) ∧
    ∃ received q,
      ProtocolMessage.Accepts rfc8175 false (initializationWith 0 0 1 243).msgbuf [] {} received ∧
      received.getHeartbeatInterval rfc8175 = .ok 499 ∧
      storeHeartbeatInterval (bareView true) received barePeer = .ok () q ∧
      ¬ (q.peerHeartbeatIntervalSec = 0 → (499 : UInt32) = 0) := by
  have hlong : storedFrom (initializationWith 0 0 2 192).msgbuf = some (704, 1) := by decide +kernel
  have hshort : storedFrom (initializationWith 0 0 1 243).msgbuf =
      some (499, 0) := by decide +kernel
  obtain ⟨received, q, hsent, hv, hstore, hone⟩ := exists_of_storedFrom hlong
  obtain ⟨received', q', hsent', hv', hstore', hzero⟩ := exists_of_storedFrom hshort
  refine ⟨⟨rfl, rfl, received, q, hsent, hv, hstore, ?_⟩, received', q', hsent', hv', hstore', ?_⟩
  · rw [hone]
    decide
  · rw [hzero]
    decide

/-- One minute is announced as 60000 milliseconds, and is one minute again. -/
theorem heartbeatInterval_agrees_minute :
    ∃ received q,
      ProtocolMessage.Accepts rfc8175 false (initializationWith 0 0 234 96).msgbuf [] {} received ∧
      storeHeartbeatInterval (bareView true) received barePeer = .ok () q ∧
      q.peerHeartbeatIntervalSec = 60 := by
  have hinfo : rfc8175.getDataItemInfoByName "Heartbeat_Interval" =
      .ok { Rfc8175.item "Heartbeat_Interval" 5 .u32 with units := .milliseconds } := rfl
  have hheader : addHeader rfc8175 "Session_Initialization" {} = .ok initializationHeader := rfl
  have hadd : addHeartbeatInterval rfc8175 (clientOfInterval 60) initializationHeader =
      .ok (initializationWith 0 0 234 96) := rfl
  have hrest : addDataItems rfc8175 [] (initializationWith 0 0 234 96) =
      .ok (initializationWith 0 0 234 96) := rfl
  have hstored : storedFrom (initializationWith 0 0 234 96).msgbuf = some (60000, 60) := by
    decide +kernel
  obtain ⟨received, _, hsent, _⟩ := exists_of_storedFrom hstored
  obtain ⟨q, hstore, hiff⟩ := (@heartbeatInterval_agrees_iff plainText (bareView true) _ hinfo
    (.inr rfl) barePeer).1 (clientOfInterval 60) (frames_addHeader hheader) (by simp) hadd hrest
    hsent
  exact ⟨received, q, hsent, hstore, hiff.2 (by decide)⟩

end Peer

end Dlep
