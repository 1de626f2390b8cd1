import Dlep.DestAdvert.Purge

/-!
# What has been heard of an entry

Whether an entry is due depends on whether an advertisement has been received for it. The table
does not say so: its flag only tells how the entry was made. So the history is kept beside the
table here, and the timer is compared with what it is for. It errs in three ways: an entry that
still waits has the report interval zero, and so it has expired as soon as anything can expire; an
entry that was made as a placeholder is taken for one later; and the product of count and interval
is reduced to 32 bits.
-/

namespace Dlep

open Std Calls Runs

namespace DestAdvertDBEntry

variable (holdInterval expireCount : UInt32) (now : Nat) (entry : DestAdvertDBEntry)

/-- Has the wait for the first advertisement been too long? -/
def isOverdue : Bool := holdInterval > 0 ∧ entry.up ∧ entry.age now ≥ holdInterval.toNat

/-- Is the last advertisement too old? -/
def isStale : Bool :=
  expireCount > 0 ∧ entry.age now ≥ expireCount.toNat * entry.info.reportInterval.toNat

/-- What the timer is for (`UserGuide.md:356`), for an entry that an advertisement has been
received for or has not. -/
def isDue (heard : Bool) : Bool :=
  if heard then entry.isStale expireCount now else entry.isOverdue holdInterval now

/-- The entry has not waited too long, but the timer looks at its report interval, which is zero. -/
def ExpiresUnheard : Prop := expireCount > 0 ∧ entry.isOverdue holdInterval now = false

/-- The advertisement is not too old, but the timer takes the entry for a placeholder. -/
def HeldThoughHeard : Prop :=
  entry.isHeld holdInterval now = true ∧ entry.isStale expireCount now = false

/-- The age lies between the limit and what 32 bits hold of it. -/
def LimitOverflows : Prop :=
  expireCount > 0 ∧ entry.age now ≥ (expireCount * entry.info.reportInterval).toNat ∧
    entry.age now < expireCount.toNat * entry.info.reportInterval.toNat

/-- The timer errs. -/
def Misjudged (heard : Bool) : Prop :=
  if heard then entry.HeldThoughHeard holdInterval expireCount now ∨
    entry.LimitOverflows expireCount now
  else entry.ExpiresUnheard holdInterval expireCount now

/-- The entry looks as it was made by the client. -/
structure Awaits : Prop where
  placeholder : entry.placeholder = true
  reportInterval : entry.info.reportInterval = 0

end DestAdvertDBEntry

namespace DestAdvert

/-! ## The history -/

/-- Is the input an advertisement of the remote modem? -/
def Input.advertises : Input → DlepMac → Bool
  | .advertisement info, rfId => info.rfId == rfId
  | _, _ => false

/-- A node with its table, and the entries that an advertisement has been received for since they
were made. -/
structure Observed where
  a : DestAdvert
  heard : DlepMac → Bool := fun _ => false

/-- A step, observed. -/
def Observed.step [AddressText] (o : Observed) (st : Step) : Observed where
  a := o.a.step st
  heard rfId :=
    (o.heard rfId || st.input.advertises rfId) && (o.a.step st).destAdvertDb.contains rfId

/-- The node with its table and its history after a run. -/
def observe [AddressText] (a : DestAdvert) (steps : List Step) : Observed :=
  run Observed.step { a } steps

/-- An entry that nothing has been heard of looks as it was made by the client. -/
def Awaiting (heard : DlepMac → Bool) (a : DestAdvert) : Prop :=
  ∀ (rfId : DlepMac) (entry : DestAdvertDBEntry), a.destAdvertDb[rfId]? = some entry →
    heard rfId = false → entry.Awaits

/-- The node stays sound, and what waits goes on waiting. -/
structure Lasts (heard : DlepMac → Bool) (a a' : DestAdvert) : Prop where
  sound : a.node.Sound → a'.node.Sound
  awaiting : Awaiting heard a → Awaiting heard a'

instance {heard : DlepMac → Bool} : Std.Refl (Lasts heard) := ⟨fun _ => ⟨id, id⟩⟩

instance {heard : DlepMac → Bool} : IsTrans DestAdvert (Lasts heard) :=
  ⟨fun _ _ _ h h' => ⟨h'.sound ∘ h.sound, h'.awaiting ∘ h.awaiting⟩⟩

section

variable {heard : DlepMac → Bool} {rfId : DlepMac} {s : Surroundings}

/-- A call on the node leaves the table as it is. -/
theorem lasts_onNode {α : Type} {m : NodeM α} (h : Within Node.StaysSound m) :
    Within (Lasts heard) (onNode m) := by
  intro a
  refine (wp_after (P := fun a' => Lasts heard a a')).1 (wp_zoom.2 ?_)
  exact (h.wp a.node).mono (fun _ _ hsound => ⟨hsound, id⟩) fun _ _ hsound => ⟨hsound, id⟩

/-- A new entry that nothing has been heard of waits. -/
theorem lasts_addAdvertEntry {entry : DestAdvertDBEntry} (h : heard rfId = false → entry.Awaits) :
    Within (Lasts heard) (addAdvertEntry rfId entry) := by
  refine within_modify fun a => ⟨id, fun ha key old hold hheard => ?_⟩
  rw [getElem?_insert] at hold
  split at hold
  · next hsame =>
    obtain rfl := Option.some.inj hold
    exact h (hsame ▸ hheard)
  · exact ha key old hold hheard

/-- A change of an entry may end its wait only if it has been heard of. -/
theorem lasts_updateEntry {f : DestAdvertDBEntry → DestAdvertDBEntry}
    (h : heard rfId = false → ∀ entry : DestAdvertDBEntry, entry.Awaits → (f entry).Awaits) :
    Within (Lasts heard) (updateEntry rfId f) := by
  refine within_modify fun a => ⟨id, fun ha key entry hentry hheard => ?_⟩
  rw [ExtTreeMap.getElem?_modify] at hentry
  simp only [Std.compare_eq_iff_eq] at hentry
  split at hentry
  · next hsame =>
    obtain ⟨old, hold, rfl⟩ := Option.map_eq_some_iff.1 hentry
    exact h (hsame ▸ hheard) old (ha rfId old hold (hsame ▸ hheard))
  · exact ha key entry hentry hheard

/-- Erasing an entry ends no other's wait. -/
theorem lasts_eraseEntry : Within (Lasts heard) (eraseEntry rfId) := by
  refine within_modify fun a => ⟨id, fun ha key entry hentry hheard => ?_⟩
  rw [ExtTreeMap.getElem?_erase] at hentry
  split at hentry
  · cases hentry
  · exact ha key entry hentry hheard

section

variable [AddressText] {items : DataItems}

/-- An advertisement ends the wait of its own entry only. -/
theorem lasts_handleMessage {info : DestAdvertInfo} (hheard : heard info.rfId = true) :
    Within (Lasts heard) (handleMessage s info) := by
  have hnot : ∀ {P : Prop}, heard info.rfId = false → P := fun h => by simp [hheard] at h
  refine within_bind within_get fun a => ?_
  split
  · exact lasts_addAdvertEntry hnot
  · refine within_bind (lasts_updateEntry hnot) fun _ =>
      within_ite (fun _ => within_bind (lasts_onNode ?_) fun _ => lasts_updateEntry hnot) fun _ =>
        lasts_updateEntry hnot
    -- the destinations that are added, and those that are deleted
    refine within_bind ?_ fun _ => ?_
    · exact within_forM fun _ _ => within_bind Node.staysSound_addDestination fun _ => within_pure
    · exact within_forM fun _ _ => within_bind Node.staysSound_removeDestination fun _ =>
        within_pure

/-- The client brings a remote modem up; an entry it makes waits. -/
theorem lasts_destinationUp : Within (Lasts heard) (destinationUp s rfId items) := by
  have hup : ∀ entry, Within (Lasts heard) (onNode (Node.destinationUp s entry rfId items)) :=
    fun _ => lasts_onNode Node.staysSound_destinationUp
  refine within_bind within_get fun a => within_ite (fun _ => ?_) fun _ => hup _
  split
  · refine within_bind (lasts_updateEntry fun _ _ h => ⟨h.1, h.2⟩) fun _ => ?_
    refine within_bind (hup _) fun _ => within_ite (fun _ => within_pure) fun _ => ?_
    exact within_bind (lasts_updateEntry fun _ _ h => ⟨h.1, h.2⟩) fun _ => within_pure
  · exact within_bind (lasts_addAdvertEntry fun _ => ⟨rfl, rfl⟩) fun _ => hup _

/-- An update leaves every wait. -/
theorem lasts_destinationUpdate : Within (Lasts heard) (destinationUpdate rfId items) := by
  have hupdate : ∀ entry, Within (Lasts heard) (onNode (Node.destinationUpdate entry rfId items)) :=
    fun _ => lasts_onNode (Node.staysSound_of_leaves Node.leaves_destinationUpdate)
  refine within_bind within_get fun a => within_ite (fun _ => ?_) fun _ => hupdate _
  split
  · exact within_bind (lasts_updateEntry fun _ _ h => ⟨h.1, h.2⟩) fun _ => hupdate _
  · exact hupdate _

/-- A remote modem that goes down leaves every wait. -/
theorem lasts_destinationDown : Within (Lasts heard) (destinationDown s rfId items) := by
  have hdown : ∀ entry, Within (Lasts heard) (onNode (Node.destinationDown s entry rfId items)) :=
    fun _ => lasts_onNode Node.staysSound_destinationDown
  refine within_bind within_get fun a => within_ite (fun _ => ?_) fun _ => hdown _
  split
  · refine within_bind (hdown _) fun _ => within_ite (fun _ => ?_) fun _ => within_pure
    exact within_bind (lasts_updateEntry fun _ _ h => ⟨h.1, h.2⟩) fun _ => within_pure
  · exact hdown _

/-- The timer ends no wait but by erasing the entry. -/
theorem lasts_purgeEntry {holdInterval expireCount : UInt32} :
    Within (Lasts heard) (purgeEntry s holdInterval expireCount rfId) := by
  refine within_bind within_get fun a => ?_
  split
  · exact within_pure
  · refine within_ite (fun _ => lasts_eraseEntry) fun _ => within_ite (fun _ => ?_) fun _ =>
      within_pure
    refine within_ite (fun _ => within_bind (lasts_onNode ?_) fun _ => lasts_eraseEntry) fun _ =>
      lasts_eraseEntry
    exact within_forM fun _ _ => within_bind Node.staysSound_removeDestination fun _ => within_pure

/-- One step, by cases on the input: what has not been heard of goes on waiting. -/
theorem lasts_step {st : Step} (h : ∀ rfId, st.input.advertises rfId = true → heard rfId = true)
    (a : DestAdvert) : Lasts heard a (a.step st) := by
  obtain ⟨s, input⟩ := st
  have hnode : ∀ {m : NodeM Unit}, Within Node.Leaves m → Within (Lasts heard) (onNode m) :=
    fun hm => lasts_onNode (Node.staysSound_of_leaves hm)
  cases input with
  | connect peerId => exact hnode Node.leaves_handleAsyncMakePeer a
  | peer i occasion => exact hnode Node.leaves_peer a
  | cleanup => exact hnode Node.leaves_cleanupExPeers a
  | advertisement info => exact lasts_handleMessage (h info.rfId (beq_self_eq_true _)) a
  | destinationUp rfId items => exact within_bind lasts_destinationUp (fun _ => within_pure) a
  | destinationUpdate rfId items =>
    exact within_bind lasts_destinationUpdate (fun _ => within_pure) a
  | destinationDown rfId items => exact within_bind lasts_destinationDown (fun _ => within_pure) a
  | purge holdInterval expireCount =>
    exact within_bind within_get (fun _ => within_forM fun _ _ => lasts_purgeEntry) a

/-- In every run the node stays sound, and an entry that nothing has been heard of looks as it was
made by the client. -/
theorem awaiting_observe {a : DestAdvert} {steps : List Step} (hsound : a.node.Sound)
    (hdb : a.destAdvertDb = ∅) :
    (observe a steps).a.node.Sound ∧ Awaiting (observe a steps).heard (observe a steps).a := by
  have hevery : Along Observed.step (fun _ _ => True) { a } steps := along_true
  refine hevery.invariant
    (I := fun o => o.a.node.Sound ∧ Awaiting o.heard o.a) ?_ ⟨hsound, ?_⟩
  · rintro o st ⟨hsound, hawaiting⟩ -
    have hlasts := @lasts_step (fun rfId => o.heard rfId || st.input.advertises rfId) _ st
      (fun rfId hadvert => by simp [hadvert]) o.a
    refine ⟨hlasts.sound hsound, fun rfId entry hentry hheard => ?_⟩
    refine hlasts.awaiting (fun rfId entry hentry hheard => ?_) rfId entry hentry ?_
    · exact hawaiting rfId entry hentry (Bool.or_eq_false_iff.1 hheard).1
    · -- the entry is there
      have hthere : (o.a.step st).destAdvertDb.contains rfId = true := by
        have hentry : (o.a.step st).destAdvertDb[rfId]? = some entry := hentry
        rw [ExtTreeMap.contains_eq_isSome_getElem?, hentry]
        rfl
      simpa [Observed.step, hthere] using hheard
  · intro rfId entry hentry
    simp [hdb] at hentry

end

end

/-! ## The timer -/

/-- The timer has erased the entries that are due, and left the others as they were. With the hold
interval zero, an entry waits for its first advertisement for ever. -/
structure PurgesDue (holdInterval expireCount : UInt32) (now : Nat) (heard : DlepMac → Bool)
    (a a' : DestAdvert) : Prop where
  db : ∀ rfId : DlepMac, a'.destAdvertDb[rfId]? = (a.destAdvertDb[rfId]?).filter fun entry =>
    !entry.isDue holdInterval expireCount now (heard rfId)
  waits : holdInterval = 0 → ∀ (rfId : DlepMac) (entry : DestAdvertDBEntry),
    a.destAdvertDb[rfId]? = some entry → heard rfId = false → a'.destAdvertDb[rfId]? = some entry

section

variable {holdInterval expireCount : UInt32} {now : Nat} {entry : DestAdvertDBEntry}

/-- For an entry that is marked as a placeholder, the timer measures the wait as it should. -/
theorem isHeld_eq_isOverdue (h : entry.placeholder = true) :
    entry.isHeld holdInterval now = entry.isOverdue holdInterval now := by
  simp [DestAdvertDBEntry.isHeld, DestAdvertDBEntry.isOverdue, h]

/-- The limit of the timer is never above the limit that is meant. -/
theorem isExpired_of_isStale (h : entry.isStale expireCount now = true) :
    entry.isExpired expireCount now = true := by
  simp only [DestAdvertDBEntry.isStale, decide_eq_true_eq] at h
  have hle : (expireCount * entry.info.reportInterval).toNat ≤
      expireCount.toNat * entry.info.reportInterval.toNat := by
    rw [UInt32.toNat_mul]
    exact Nat.mod_le _ _
  have hage : (((expireCount * entry.info.reportInterval).toNat : Nat) : Int) ≤
      expireCount.toNat * entry.info.reportInterval.toNat := by exact_mod_cast hle
  simp only [DestAdvertDBEntry.isExpired, decide_eq_true_eq]
  exact ⟨h.1, hage.trans h.2⟩

/-- An entry that waits is erased too early exactly if anything can expire. -/
theorem drops_eq_isOverdue_iff (h : entry.Awaits) (htime : entry.timestamp ≤ now) :
    Drops holdInterval expireCount now entry = entry.isOverdue holdInterval now ↔
      ¬ entry.ExpiresUnheard holdInterval expireCount now := by
  have hage : 0 ≤ entry.age now := by
    show (0 : Int) ≤ now - entry.timestamp
    omega
  have hexpired : entry.isExpired expireCount now = decide (expireCount > 0) := by
    simp [DestAdvertDBEntry.isExpired, h.reportInterval, hage]
  rw [Drops, isHeld_eq_isOverdue h.placeholder, hexpired, DestAdvertDBEntry.ExpiresUnheard]
  cases entry.isOverdue holdInterval now <;> simp

/-- Below the limit that is meant, only the overflow makes an entry expire. -/
theorem limitOverflows_iff (h : entry.isStale expireCount now = false) :
    entry.LimitOverflows expireCount now ↔ entry.isExpired expireCount now = true := by
  simp only [DestAdvertDBEntry.isStale, decide_eq_false_iff_not, not_and, Int.not_le] at h
  simp only [DestAdvertDBEntry.LimitOverflows, DestAdvertDBEntry.isExpired, decide_eq_true_eq]
  constructor
  · rintro ⟨hpos, hge, -⟩
    exact ⟨hpos, hge⟩
  · rintro ⟨hpos, hge⟩
    exact ⟨hpos, hge, h hpos⟩

/-- An entry that has been heard of is erased too early exactly if it is taken for a placeholder
or its limit overflows. -/
theorem drops_eq_isStale_iff :
    Drops holdInterval expireCount now entry = entry.isStale expireCount now ↔
      ¬ (entry.HeldThoughHeard holdInterval expireCount now ∨
        entry.LimitOverflows expireCount now) := by
  cases hstale : entry.isStale expireCount now with
  | true =>
    have hbelow : ¬ entry.LimitOverflows expireCount now := by
      rintro ⟨-, -, hlt⟩
      simp only [DestAdvertDBEntry.isStale, decide_eq_true_eq] at hstale
      exact absurd hstale.2 (Int.not_le.2 hlt)
    simp [Drops, isExpired_of_isStale hstale, DestAdvertDBEntry.HeldThoughHeard, hstale, hbelow]
  | false =>
    rw [limitOverflows_iff hstale]
    simp [Drops, DestAdvertDBEntry.HeldThoughHeard, hstale]

/-- Where the timer does not err, it erases what is due, and nothing else. -/
theorem drops_eq_isDue_iff {heard : Bool} (hawaits : heard = false → entry.Awaits)
    (htime : entry.timestamp ≤ now) :
    Drops holdInterval expireCount now entry = entry.isDue holdInterval expireCount now heard ↔
      ¬ entry.Misjudged holdInterval expireCount now heard := by
  cases heard with
  | false => exact drops_eq_isOverdue_iff (hawaits rfl) htime
  | true => exact drops_eq_isStale_iff

end

section

variable [AddressText] {a : DestAdvert} {s : Surroundings} {holdInterval expireCount : UInt32}

/-- In every run from an empty table the timer erases exactly the entries that are due, if and
only if it misjudges none. -/
theorem purgesDue_iff_not_misjudged {steps : List Step} (hsound : a.node.Sound)
    (hdb : a.destAdvertDb = ∅)
    (htime : ∀ (rfId : DlepMac) (entry : DestAdvertDBEntry),
      (observe a steps).a.destAdvertDb[rfId]? = some entry → entry.timestamp ≤ s.now)
    (htell : Tellable (observe a steps).a ⟨s, .purge holdInterval expireCount⟩) :
    PurgesDue holdInterval expireCount s.now (observe a steps).heard (observe a steps).a
        ((observe a steps).a.step ⟨s, .purge holdInterval expireCount⟩) ↔
      ∀ (rfId : DlepMac) (entry : DestAdvertDBEntry),
        (observe a steps).a.destAdvertDb[rfId]? = some entry →
          ¬ entry.Misjudged holdInterval expireCount s.now ((observe a steps).heard rfId) := by
  obtain ⟨hsound', hawaiting⟩ := @awaiting_observe _ a steps hsound hdb
  generalize observe a steps = o at *
  have hpurged := purged_step hsound' htell
  have hdrops : ∀ (rfId : DlepMac) (entry : DestAdvertDBEntry),
    o.a.destAdvertDb[rfId]? = some entry →
      (Drops holdInterval expireCount s.now entry =
          entry.isDue holdInterval expireCount s.now (o.heard rfId) ↔
        ¬ entry.Misjudged holdInterval expireCount s.now (o.heard rfId)) :=
    fun rfId entry hentry => drops_eq_isDue_iff (hawaiting rfId entry hentry)
      (htime rfId entry hentry)
  constructor
  · rintro ⟨hdue, -⟩ rfId entry hentry
    rw [← hdrops rfId entry hentry]
    have hsame := (hpurged.getElem? rfId).symm.trans (hdue rfId)
    rw [hentry, Option.filter_some, Option.filter_some] at hsame
    cases hleft : Drops holdInterval expireCount s.now entry <;>
      cases hright : entry.isDue holdInterval expireCount s.now (o.heard rfId) <;>
      simp [hleft, hright] at hsame ⊢
  · intro hright
    have hdue : ∀ rfId : DlepMac,
        (o.a.step ⟨s, .purge holdInterval expireCount⟩).destAdvertDb[rfId]? =
          (o.a.destAdvertDb[rfId]?).filter fun entry =>
            !entry.isDue holdInterval expireCount s.now (o.heard rfId) := by
      intro rfId
      rw [hpurged.getElem?]
      cases hentry : o.a.destAdvertDb[rfId]? with
      | none => rfl
      | some entry =>
        rw [Option.filter_some, Option.filter_some,
          (hdrops rfId entry hentry).2 (hright rfId entry hentry)]
    refine ⟨hdue, fun hzero rfId entry hentry hheard => ?_⟩
    have hwaits : entry.isOverdue holdInterval s.now = false := by
      simp [DestAdvertDBEntry.isOverdue, hzero]
    rw [hdue, hentry, hheard, Option.filter_some]
    simp [DestAdvertDBEntry.isDue, hwaits]

end

attribute [local instance] plainText

/-- The modem after the advertisement of a remote modem that is not up. -/
def heardModem : DestAdvert :=
  { advertModem with
    destAdvertDb := (∅ : ExtTreeMap DlepMac DestAdvertDBEntry).insert [1]
      { timestamp := 0
        up := false
        placeholder := false
        info :=
          { reportInterval := 10
            rfId := [1]
            destinations := (∅ : ExtTreeSet DlepMac).insert [2, 0, 0, 0, 0, 1] }
        dataItems := [] } }

/-- What an advertisement leaves behind in the sample modem. -/
theorem observe_advertisementOf :
    (observe advertModem (advertSteps [advertisementOf [1]])).a = heardModem := rfl

/-- Ten missed reports are more than three. -/
theorem purgesDue_iff_not_misjudged_expireTick :
    PurgesDue 0 3 100 (observe advertModem (advertSteps [advertisementOf [1]])).heard
      (observe advertModem (advertSteps [advertisementOf [1]])).a
      ((observe advertModem (advertSteps [advertisementOf [1]])).a.step expireTick) := by
  have hentries : ∀ (rfId : DlepMac) (entry : DestAdvertDBEntry),
      (observe advertModem (advertSteps [advertisementOf [1]])).a.destAdvertDb[rfId]? = some entry →
        rfId = [1] ∧ entry.timestamp = 0 ∧ entry.up = false ∧ entry.placeholder = false ∧
          entry.info.reportInterval = 10 := by
    intro rfId entry hentry
    rw [observe_advertisementOf] at hentry
    simp only [heardModem, ExtTreeMap.getElem?_insert, Std.compare_eq_iff_eq] at hentry
    split at hentry
    · next hsame =>
      obtain rfl := Option.some.inj hentry
      exact ⟨hsame.symm, rfl, rfl, rfl, rfl⟩
    · simp at hentry
  refine (@purgesDue_iff_not_misjudged plainText advertModem
    { Peer.bareSurroundings with now := 100 }
    0 3 (advertSteps [advertisementOf [1]]) sound_advertModem rfl ?_ ?_).2 ?_
  · intro rfId entry hentry
    simp [(hentries rfId entry hentry).2.1]
  · intro rfId entry hentry _ hup
    simp [(hentries rfId entry hentry).2.2.1] at hup
  · intro rfId entry hentry
    obtain ⟨rfl, htimestamp, hup, hplaceholder, hinterval⟩ := hentries rfId entry hentry
    have hheard : (observe advertModem (advertSteps [advertisementOf [1]])).heard [1] = true := by
      decide +kernel
    rw [hheard]
    rintro (⟨hheld, -⟩ | ⟨-, -, hlt⟩)
    · simp [DestAdvertDBEntry.isHeld, hplaceholder] at hheld
    · have hage : entry.age 100 = 100 := by simp [DestAdvertDBEntry.age, htimestamp]
      rw [hage, hinterval] at hlt
      exact absurd hlt (by decide)

/-- The client has declared a remote modem up, and waits for ever; the timer erases the entry at
once. -/
theorem not_purgesDue_placeholder :
    ¬ PurgesDue 0 3 0 (observe advertModem (advertSteps [.destinationUp [1] []])).heard
      (observe advertModem (advertSteps [.destinationUp [1] []])).a
      ((observe advertModem (advertSteps [.destinationUp [1] []])).a.step
        ⟨Peer.bareSurroundings, .purge 0 3⟩) := by
  intro h
  have hstays := h.waits rfl [1]
    { timestamp := 0, up := true, placeholder := true, info := {}, dataItems := [] } rfl rfl
  have herased : ((observe advertModem (advertSteps [.destinationUp [1] []])).a.step
      ⟨Peer.bareSurroundings, .purge 0 3⟩).destAdvertDb.contains [1] = false := by decide +kernel
  rw [ExtTreeMap.contains_eq_isSome_getElem?, hstays] at herased
  cases herased

end DestAdvert

end Dlep
