import Dlep.DestAdvert.Declared

/-!
# The timer of the advertisements

The timer erases the entries that have expired, and then their destinations are dropped. It also
erases placeholders that have been held long enough; but an entry that was made as a placeholder
is taken for one even when its advertisement has arrived, and is erased without its destinations.
-/

namespace Dlep

open Std Calls Runs Unions

namespace DestAdvert

/-- The entry is erased by the timer. -/
def Drops (holdInterval expireCount : UInt32) (now : Nat) (entry : DestAdvertDBEntry) : Bool :=
  entry.isHeld holdInterval now || entry.isExpired expireCount now

/-- The entry has expired, and is not taken for a placeholder. -/
def Expires (holdInterval expireCount : UInt32) (now : Nat) (entry : DestAdvertDBEntry) : Bool :=
  !entry.isHeld holdInterval now && entry.isExpired expireCount now

section

variable [AddressText] {a a' : DestAdvert} {s : Surroundings}
  {holdInterval expireCount : UInt32}

omit [AddressText] in
/-- The destinations of the expired entries among those with the given names. -/
def gone (holdInterval expireCount : UInt32) (now : Nat) (a : DestAdvert) (keys : List DlepMac) :
    Set DlepMac :=
  {mac | ∃ key ∈ keys, ∃ entry, a.destAdvertDb[key]? = some entry ∧
    Expires holdInterval expireCount now entry = true ∧ mac ∈ entry.share}

/-- What the timer has made of the entries with the given names. -/
structure Purged (holdInterval expireCount : UInt32) (now : Nat) (keys : List DlepMac)
    (a a' : DestAdvert) : Prop where
  kept : Node.Kept a.node a'.node
  db : ∀ key : DlepMac, a'.destAdvertDb[key]? =
    if key ∈ keys then
      (a.destAdvertDb[key]?).filter fun entry => !Drops holdInterval expireCount now entry
    else a.destAdvertDb[key]?
  has : a'.node.has = a.node.has \ gone holdInterval expireCount now a keys
  told : Node.DownTold (a.node.has ∩ gone holdInterval expireCount now a keys) [] a.node a'.node

omit [AddressText] in
/-- Of one entry, the destinations are gone exactly if it expires. -/
theorem gone_singleton {now : Nat} {key : DlepMac} {entry : DestAdvertDBEntry}
    (hentry : a.destAdvertDb[key]? = some entry) :
    gone holdInterval expireCount now a [key] =
      if Expires holdInterval expireCount now entry then entry.share else ∅ := by
  ext mac
  simp only [gone, List.mem_singleton, exists_eq_left, hentry, Option.some.injEq, exists_eq_left',
    Set.mem_ofPred_eq]
  split
  · next hexpires => simp [hexpires]
  · next hexpires => simp [hexpires]

/-- No destination is dropped. -/
theorem Purged.silent {now : Nat} {key : DlepMac} (hsound : a.node.Sound)
    (hgone : gone holdInterval expireCount now a [key] = ∅) (hnode : a'.node = a.node)
    (hdb : ∀ key' : DlepMac, a'.destAdvertDb[key']? =
      if key' ∈ [key] then
        (a.destAdvertDb[key']?).filter fun entry => !Drops holdInterval expireCount now entry
      else a.destAdvertDb[key']?) : Purged holdInterval expireCount now [key] a a' := by
  refine ⟨?_, hdb, ?_, ?_⟩
  · rw [hnode]
    exact ⟨.refl _, hsound, rfl⟩
  · rw [hnode, hgone, Set.sdiff_empty]
  · rw [hnode, hgone, Set.inter_empty]
    exact .refl

omit [AddressText] in
/-- The entry is erased. -/
theorem getElem?_erase {now : Nat} {key : DlepMac} {entry : DestAdvertDBEntry}
    (hentry : a.destAdvertDb[key]? = some entry)
    (hdrops : Drops holdInterval expireCount now entry = true) (key' : DlepMac) :
    (a.destAdvertDb.erase key)[key']? =
      if key' ∈ [key] then
        (a.destAdvertDb[key']?).filter fun entry => !Drops holdInterval expireCount now entry
      else a.destAdvertDb[key']? := by
  rw [ExtTreeMap.getElem?_erase]
  simp only [Std.compare_eq_iff_eq, List.mem_singleton]
  rcases eq_or_ne key' key with rfl | hne
  · simp [hentry, Option.filter_some, hdrops]
  · rw [if_neg (Ne.symm hne), if_neg hne]

/-- What the timer does to one entry. -/
theorem purged_purgeEntry {key : DlepMac} (hsound : a.node.Sound)
    (htell : ∀ entry, a.destAdvertDb[key]? = some entry → entry.isExpired expireCount s.now = true →
      entry.up = true → ∀ mac ∈ entry.destinations, a.node.CanTellDown mac []) :
    wp (purgeEntry s holdInterval expireCount key)
      (fun _ a' => Purged holdInterval expireCount s.now [key] a a') (fun _ _ => False) a := by
  simp only [purgeEntry, wp_bind, wp_get]
  cases hentry : a.destAdvertDb[key]? with
  | none =>
    refine .silent hsound ?_ rfl fun key' => ?_
    · simp [gone, hentry]
    · split
      · next hkey =>
        obtain rfl := List.mem_singleton.1 hkey
        simp [hentry]
      · rfl
  | some entry =>
    have hgone := @gone_singleton a holdInterval expireCount s.now key entry hentry
    dsimp only
    split
    · -- it is taken for a placeholder
      next hheld =>
      refine .silent hsound ?_ rfl (getElem?_erase hentry (by simp [Drops, hheld]))
      simpa [Expires, hheld] using hgone
    · next hheld =>
      have hheld := Bool.not_eq_true _ ▸ hheld
      split
      · next hexpired =>
        have hexpires : Expires holdInterval expireCount s.now entry = true := by
          simp [Expires, hheld, hexpired]
        have hdrops : Drops holdInterval expireCount s.now entry = true := by simp [Drops, hexpired]
        have hdb := getElem?_erase hentry hdrops
        rw [if_pos hexpires] at hgone
        rcases Bool.eq_false_or_eq_true entry.up with hup | hup
        · have hshare : entry.share = {mac | mac ∈ entry.info.destinations.toList} := by
            ext mac
            simp [DestAdvertDBEntry.share, hup, DestAdvertDBEntry.destinations]
          have hcan : ∀ mac ∈ entry.info.destinations.toList, mac ∈ a.node.has →
              a.node.CanTellDown mac [] := fun mac hmac _ =>
            htell entry hentry hexpired hup mac (ExtTreeSet.mem_toList.1 hmac)
          simp only [hup, if_true, wp_bind]
          refine wp_zoom.2 ((Node.kept_removeDestinations hsound hcan).mono ?_
            fun _ _ hfalse => hfalse)
          rintro _ n' ⟨hkept, hhas, htold⟩
          rw [← hshare, ← hgone] at hhas htold
          exact ⟨hkept, hdb, hhas, htold⟩
        · simp only [hup, Bool.false_eq_true, if_false]
          refine .silent hsound ?_ rfl hdb
          rw [hgone]
          simp [DestAdvertDBEntry.share, hup]
      · next hexpired =>
        have hexpired := Bool.not_eq_true _ ▸ hexpired
        refine .silent hsound ?_ rfl fun key' => ?_
        · simpa [Expires, hexpired] using hgone
        · split
          · next hkey =>
            obtain rfl := List.mem_singleton.1 hkey
            simp [hentry, Option.filter_some, Drops, hheld, hexpired]
          · rfl

/-- The loop of the timer: every entry is visited once. -/
theorem purged_forM {keys : List DlepMac} (hnodup : keys.Nodup) (hsound : a.node.Sound)
    (htell : ∀ (key : DlepMac) (entry : DestAdvertDBEntry), a.destAdvertDb[key]? = some entry →
      entry.isExpired expireCount s.now = true → entry.up = true →
      ∀ mac ∈ entry.destinations, a.node.CanTellDown mac []) :
    wp (keys.forM (purgeEntry s holdInterval expireCount))
      (fun _ a' => Purged holdInterval expireCount s.now keys a a') (fun _ _ => False) a := by
  induction keys generalizing a with
  | nil =>
    have hgone : gone holdInterval expireCount s.now a [] = ∅ := by simp [gone]
    refine ⟨⟨.refl _, hsound, rfl⟩, by simp, by rw [hgone, Set.sdiff_empty], ?_⟩
    rw [hgone, Set.inter_empty]
    exact .refl
  | cons key keys ih =>
    obtain ⟨hkey, hnodup⟩ := List.nodup_cons.1 hnodup
    rw [List.forM, wp_bind]
    refine (purged_purgeEntry hsound (htell key)).mono ?_ fun _ _ hfalse => hfalse
    rintro _ a₁ hfirst
    -- the other entries are as they were
    have hother : ∀ key' ≠ key, a₁.destAdvertDb[key']? = a.destAdvertDb[key']? := by
      intro key' hne
      rw [hfirst.db, if_neg (by simpa using hne)]
    have hne : ∀ key' ∈ keys, key' ≠ key := fun key' hmem hsame => hkey (hsame ▸ hmem)
    have hgone : gone holdInterval expireCount s.now a₁ keys =
        gone holdInterval expireCount s.now a keys := by
      ext mac
      constructor
      · rintro ⟨key', hmem, entry, hentry, h⟩
        exact ⟨key', hmem, entry, by rw [← hother key' (hne key' hmem), hentry], h⟩
      · rintro ⟨key', hmem, entry, hentry, h⟩
        exact ⟨key', hmem, entry, by rw [hother key' (hne key' hmem), hentry], h⟩
    have hunion : gone holdInterval expireCount s.now a (key :: keys) =
        gone holdInterval expireCount s.now a [key] ∪ gone holdInterval
          expireCount s.now a keys := by
      ext mac
      simp only [gone, List.mem_cons, List.not_mem_nil, or_false, Set.mem_union, Set.mem_ofPred_eq]
      constructor
      · rintro ⟨key', rfl | hmem, h⟩
        · exact .inl ⟨key', rfl, h⟩
        · exact .inr ⟨key', hmem, h⟩
      · rintro (⟨key', rfl, h⟩ | ⟨key', hmem, h⟩)
        · exact ⟨key', .inl rfl, h⟩
        · exact ⟨key', .inr hmem, h⟩
    refine (ih hnodup hfirst.kept.sound fun key' entry hentry => ?_).mono ?_
      fun _ _ hfalse => hfalse
    · rw [hfirst.db] at hentry
      have hold : a.destAdvertDb[key']? = some entry := by
        split at hentry
        · exact (Option.filter_eq_some_iff.1 hentry).1
        · exact hentry
      intro hexpired hup mac hmac
      exact hfirst.kept.canTellDown (htell key' entry hold hexpired hup mac hmac)
    · rintro _ a₂ hrest
      refine ⟨hfirst.kept.trans hrest.kept, fun key' => ?_, ?_, ?_⟩
      · rw [hrest.db]
        rcases eq_or_ne key' key with rfl | hne'
        · rw [if_neg hkey, hfirst.db, if_pos (by simp), if_pos (by simp)]
        · rw [hother key' hne']
          simp [hne']
      · rw [hrest.has, hfirst.has, hgone, hunion, Set.sdiff_sdiff]
      · have hset : a.node.has ∩ gone holdInterval expireCount s.now a (key :: keys) =
            a.node.has ∩ gone holdInterval expireCount s.now a [key] ∪
              a₁.node.has ∩ gone holdInterval expireCount s.now a₁ keys := by
          rw [hunion, hgone, hfirst.has]
          ext mac
          simp only [Set.mem_inter_iff, Set.mem_union, Set.mem_sdiff]
          tauto
        rw [hset]
        exact hfirst.told.trans hfirst.kept hrest.told

omit [AddressText] in
/-- A table has every name once. -/
theorem nodup_keys (a : DestAdvert) : a.destAdvertDb.keys.Nodup :=
  a.destAdvertDb.distinct_keys.imp fun hne hsame => hne (by rw [hsame, Std.compare_self])

/-- What the timer does to the table, by induction over its names. -/
theorem purged_step (hsound : a.node.Sound)
    (htell : Tellable a ⟨s, .purge holdInterval expireCount⟩) :
    Purged holdInterval expireCount s.now a.destAdvertDb.keys a
      (step a ⟨s, .purge holdInterval expireCount⟩) := by
  refine wp_after.1 ?_
  exact (purged_forM (nodup_keys a) hsound htell).mono (fun _ _ h => h) fun _ _ hfalse =>
    hfalse.elim

omit [AddressText] in
/-- No entry that the timer takes for a placeholder has destinations. -/
def HoldsNone (a : DestAdvert) (st : Step) : Prop :=
  match st.input with
  | .purge holdInterval _ => ∀ (rfId : DlepMac) (entry : DestAdvertDBEntry),
    a.destAdvertDb[rfId]? = some entry → entry.isHeld holdInterval st.s.now = true →
      entry.destinations = ∅
  | _ => True

/-- After the timer an entry is there exactly if it was there and was not dropped. -/
theorem Purged.getElem? {now : Nat}
    (h : Purged holdInterval expireCount now a.destAdvertDb.keys a a')
    (key : DlepMac) : a'.destAdvertDb[key]? =
      (a.destAdvertDb[key]?).filter fun entry => !Drops holdInterval expireCount now entry := by
  rw [h.db]
  split
  · rfl
  · next hkey =>
    rw [ExtTreeMap.mem_keys, ExtTreeMap.mem_iff_isSome_getElem?] at hkey
    rw [Option.not_isSome_iff_eq_none.1 hkey]
    rfl

/-- After the timer a remote modem stands for what it did, unless its entry was dropped. -/
theorem Purged.mem_share {now : Nat}
    (h : Purged holdInterval expireCount now a.destAdvertDb.keys a a') {key mac : DlepMac} :
    mac ∈ a'.share key ↔ ∃ entry, a.destAdvertDb[key]? = some entry ∧
      Drops holdInterval expireCount now entry = false ∧ mac ∈ entry.share := by
  simp only [mem_share_iff, h.getElem?, Option.filter_eq_some_iff, Bool.not_eq_true', and_assoc]

omit [AddressText] in
/-- What is gone are the destinations of the entries that expired. -/
theorem mem_gone_keys {now : Nat} {mac : DlepMac} :
    mac ∈ gone holdInterval expireCount now a a.destAdvertDb.keys ↔
      ∃ (key : DlepMac) (entry : DestAdvertDBEntry), a.destAdvertDb[key]? = some entry ∧
        Expires holdInterval expireCount now entry = true ∧ mac ∈ entry.share := by
  constructor
  · rintro ⟨key, -, entry, hentry⟩
    exact ⟨key, entry, hentry⟩
  · rintro ⟨key, entry, hentry, hmac⟩
    refine ⟨key, ?_, entry, hentry, hmac⟩
    rw [ExtTreeMap.mem_keys, ExtTreeMap.mem_iff_isSome_getElem?, hentry]
    rfl

omit [AddressText] in
/-- An entry with destinations is erased because it has expired. -/
theorem expires_of_drops {now : Nat} {entry : DestAdvertDBEntry} {mac : DlepMac}
    (hholds : entry.isHeld holdInterval now = true → entry.destinations = ∅)
    (hmac : mac ∈ entry.destinations) (hdrops : Drops holdInterval expireCount now entry = true) :
    Expires holdInterval expireCount now entry = true := by
  cases hheld : entry.isHeld holdInterval now with
  | true =>
    rw [hholds hheld] at hmac
    exact hmac.elim
  | false => simpa [Drops, Expires, hheld] using hdrops

/-- The timer keeps the destinations of the node right, if it takes no entry with destinations for a
placeholder. -/
theorem declared_of_purged (hgood : Good a) (hdeclared : Declared a) (hapart : Apart a.share)
    (hholds : HoldsNone a ⟨s, .purge holdInterval expireCount⟩)
    (h : Purged holdInterval expireCount s.now a.destAdvertDb.keys a a') :
    Good a' ∧ Declared a' := by
  constructor
  · exact ⟨h.kept.sound, h.kept.enabled.trans hgood.enabled⟩
  · rw [Declared, h.has, hdeclared]
    ext mac
    constructor
    · rintro ⟨⟨key, hmac⟩, hnot⟩
      obtain ⟨entry, hentry, hshare⟩ := mem_share_iff.1 hmac
      refine ⟨key, h.mem_share.2 ⟨entry, hentry, ?_, hshare⟩⟩
      by_contra hdrops
      have hexpires := expires_of_drops (hholds key entry hentry) hshare.2
        (Bool.eq_true_of_not_eq_false hdrops)
      exact hnot (mem_gone_keys.2 ⟨key, entry, hentry, hexpires, hshare⟩)
    · rintro ⟨key, hmac⟩
      obtain ⟨entry, hentry, hdrops, hshare⟩ := h.mem_share.1 hmac
      have hmem : mac ∈ a.share key := mem_share_iff.2 ⟨entry, hentry, hshare⟩
      refine ⟨⟨key, hmem⟩, fun hgone => ?_⟩
      -- an expired entry with the same destination would be another one
      obtain ⟨key', entry', hentry', hexpires, hshare'⟩ := mem_gone_keys.1 hgone
      have hne : key ≠ key' := by
        rintro rfl
        obtain rfl := Option.some.inj (hentry.symm.trans hentry')
        simp only [Drops, Bool.or_eq_false_iff] at hdrops
        simp [Expires, hdrops.2] at hexpires
      exact Set.disjoint_left.1 (hapart key key' hne) hmem
        (mem_share_iff.2 ⟨entry', hentry', hshare'⟩)

/-- What is asked of a step: the messages can be composed, no two remote modems that are up have a
destination in common, nothing that the node declares is declared down by the client as if it were a
remote modem, and the timer takes no entry with destinations for a placeholder. -/
structure Careful (a : DestAdvert) (st : Step) : Prop where
  tellable : Tellable a st
  apart : Apart a.share
  names : a.NamesRf st.input
  holds : HoldsNone a st

/-- A careful step keeps the table and the node in agreement. -/
theorem declared_step {st : Step} (hgood : Good a) (hdeclared : Declared a) (hst : Careful a st) :
    Good (step a st) ∧ Declared (step a st) := by
  by_cases hpurge : ∃ holdInterval expireCount, st.input = .purge holdInterval expireCount
  · obtain ⟨s, input⟩ := st
    obtain ⟨holdInterval, expireCount, rfl⟩ := hpurge
    exact declared_of_purged hgood hdeclared hst.apart hst.holds
      (purged_step hgood.sound hst.tellable)
  · have hnone : st.input.NoPurge := by
      cases hinput : st.input with
      | purge holdInterval expireCount => exact absurd ⟨_, _, hinput⟩ hpurge
      | _ => trivial
    have hstep := stepsTo_step hgood hst.names hnone hst.tellable
    refine ⟨hstep.good, (hstep.replaces.declared_iff hdeclared).2 ?_⟩
    exact (hst.apart.disjoint_others _).mono_left Set.sdiff_subset

/-- In every run from empty tables whose steps are careful: whenever the timer erases an entry
that is up, the node has lost all its destinations, and each peer was told that they are down. -/
theorem purge_leaves_no_orphan {steps : List Step} {st : Step} (hsound : a.node.Sound)
    (henabled : a.node.destAdvertEnabled = true) (hdb : a.destAdvertDb = ∅) (hhas : a.node.has = ∅)
    (hst : st.input = .purge holdInterval expireCount)
    (h : Along step Careful a (steps ++ [st])) {rfId : DlepMac} {entry : DestAdvertDBEntry}
    (hentry : (run step a steps).destAdvertDb[rfId]? = some entry) (hup : entry.up = true)
    (herased : (run step a (steps ++ [st])).destAdvertDb[rfId]? = none) :
    ∀ mac ∈ entry.destinations, mac ∉ (run step a (steps ++ [st])).node.has ∧
      ∀ i ∈ (run step a steps).node.listed, ∃ p q,
        (run step a steps).node.objects[i]? = some p ∧
        (run step a (steps ++ [st])).node.objects[i]? = some q ∧
        Node.IssuedDown (run step a steps).node.cfg (run step a steps).node.modem mac [] p q := by
  obtain ⟨hbefore, hlast, -⟩ := along_append.1 h
  have hinv : Good (run step a steps) ∧ Declared (run step a steps) :=
    hbefore.invariant (I := fun a => Good a ∧ Declared a)
      (fun a st hinv hst => declared_step hinv.1 hinv.2 hst)
      ⟨⟨hsound, henabled⟩, declared_of_empty hdb hhas⟩
  rw [run_append] at herased ⊢
  generalize run step a steps = b at *
  obtain ⟨s, input⟩ := st
  obtain rfl : input = .purge holdInterval expireCount := hst
  have hpurged := purged_step hinv.1.sound hlast.tellable
  intro mac hmac
  -- the entry is erased because it has expired
  have hdrops : Drops holdInterval expireCount s.now entry = true := by
    by_contra hnot
    rw [run_cons, run_nil, hpurged.getElem?, hentry, Option.filter_some] at herased
    simp [hnot] at herased
  have hexpires := expires_of_drops (hlast.holds rfId entry hentry) hmac hdrops
  have hgone : mac ∈ gone holdInterval expireCount s.now b b.destAdvertDb.keys :=
    mem_gone_keys.2 ⟨rfId, entry, hentry, hexpires, hup, hmac⟩
  have hold : mac ∈ b.node.has := by
    rw [hinv.2]
    exact ⟨rfId, mem_share_iff.2 ⟨entry, hentry, hup, hmac⟩⟩
  refine ⟨fun hnew => ?_, fun i hi => ?_⟩
  · rw [run_cons, run_nil, hpurged.has] at hnew
    exact hnew.2 hgone
  · obtain ⟨p, hp⟩ := hinv.1.sound.exists_object hi
    obtain ⟨q, hq, hissued⟩ := hpurged.told.issued i hi p hp
    exact ⟨p, q, hp, hq, hissued mac ⟨hold, hgone⟩⟩

end

attribute [local instance] plainText

/-- A remote modem comes up, and then advertises its destination. -/
def filledPlaceholder : List Step := advertSteps [.destinationUp [1] [], advertisementOf [1]]

/-- The entry is up and has its destination. -/
theorem filledPlaceholder_up :
    ((run step advertModem filledPlaceholder).destAdvertDb[([1] : DlepMac)]?).any
      (fun entry => entry.up && entry.info.destinations.contains [2, 0, 0, 0, 0, 1]) = true := by
  decide +kernel

/-- The timer of a modem without a hold interval, a long time later. -/
def expireTick : Step := ⟨{ Peer.bareSurroundings with now := 100 }, .purge 0 3⟩

/-- A modem of the shipped configuration can say that the router is down. -/
theorem canTellDown_of_rfc8175 {n : Node} (hcfg : n.cfg = rfc8175) (hmodem : n.modem = true) :
    n.CanTellDown [2, 0, 0, 0, 0, 1] [] := by
  intro i _
  have hrequest : (Peer.downRequestOf (Peer.bareView true) [2, 0, 0, 0, 0, 1] []).isOk = true := by
    decide +kernel
  have hsame : Peer.downRequestOf (n.view i) [2, 0, 0, 0, 0, 1] [] =
      Peer.downRequestOf (Peer.bareView true) [2, 0, 0, 0, 0, 1] [] :=
    Peer.downRequestOf_congr hcfg hmodem
  rw [hsame]
  cases hrp : Peer.downRequestOf (Peer.bareView true) [2, 0, 0, 0, 0, 1] [] with
  | ok rp => exact ⟨rp, rfl⟩
  | error e =>
    rw [hrp] at hrequest
    cases hrequest

/-- The sample modem is sound with its placeholder. -/
theorem good_placeholderModem : Good placeholderModem := by
  have hstep := @stepsTo_step _ advertModem ⟨Peer.bareSurroundings, .destinationUp [1] []⟩
    ⟨sound_advertModem, rfl⟩ trivial trivial tellable_advertModem
  rw [← step_destinationUp_advertModem]
  exact hstep.good

/-- The sample tick is careful: without a hold interval no entry is taken for a placeholder. -/
theorem careful_expireTick : Careful (run step advertModem filledPlaceholder) expireTick := by
  have hstep := @stepsTo_step _ _ ⟨Peer.bareSurroundings, advertisementOf [1]⟩ good_placeholderModem
    trivial trivial tellable_placeholderModem
  have hrun : run step advertModem filledPlaceholder =
      step placeholderModem ⟨Peer.bareSurroundings, advertisementOf [1]⟩ := by
    simp only [filledPlaceholder, advertSteps, List.map_cons, List.map_nil, run_cons, run_nil,
      step_destinationUp_advertModem]
  rw [hrun]
  generalize step placeholderModem ⟨Peer.bareSurroundings, advertisementOf [1]⟩ = a at hstep
  have hreplaced : a.share = Function.update placeholderModem.share [1]
      (placeholderModem.declares (advertisementOf [1])) := hstep.replaces.share
  have hothers : ∀ rfId ≠ [1], a.share rfId = ∅ := by
    intro rfId hne
    rw [hreplaced, Function.update_of_ne hne, share_placeholderModem]
  refine ⟨fun rfId entry hentry _ hup mac hmac => ?_, fun i j hij => ?_, trivial,
    fun rfId entry _ hheld => ?_⟩
  · have hshare : mac ∈ a.share rfId := by
      rw [share, hentry]
      exact ⟨hup, hmac⟩
    rcases eq_or_ne rfId [1] with rfl | hne
    · rw [hreplaced, Function.update_self] at hshare
      obtain rfl : [2, 0, 0, 0, 0, 1] = mac := by simpa using hshare.2
      exact canTellDown_of_rfc8175 hstep.role.cfg hstep.role.modem
    · rw [hothers rfId hne] at hshare
      exact hshare.elim
  · rcases eq_or_ne i [1] with rfl | hne
    · rw [hothers j (Ne.symm hij)]
      exact Set.disjoint_empty _
    · rw [hothers i hne]
      exact Set.empty_disjoint _
  · simp [DestAdvertDBEntry.isHeld] at hheld

/-- The entry expires, and the destination is gone; the router is told. -/
theorem purge_leaves_no_orphan_expireTick :
    [2, 0, 0, 0, 0, 1] ∉ (run step advertModem (filledPlaceholder ++ [expireTick])).node.has ∧
      ∃ p q, (run step advertModem filledPlaceholder).node.objects[0]? = some p ∧
        (run step advertModem (filledPlaceholder ++ [expireTick])).node.objects[0]? = some q ∧
        Node.IssuedDown (run step advertModem filledPlaceholder).node.cfg
          (run step advertModem filledPlaceholder).node.modem [2, 0, 0, 0, 0, 1] [] p q := by
  obtain ⟨entry, hentry, hboth⟩ := (Option.any_eq_true _ _).1 filledPlaceholder_up
  obtain ⟨hup, hmem⟩ := Bool.and_eq_true_iff.1 hboth
  obtain ⟨herased, hlisted⟩ :
      (run step advertModem (filledPlaceholder ++ [expireTick])).destAdvertDb.contains [1] = false ∧
      0 ∈ (run step advertModem filledPlaceholder).node.listed := by decide +kernel
  rw [ExtTreeMap.contains_eq_isSome_getElem?] at herased
  have hapart : ∀ a : DestAdvert, (∀ rfId, a.share rfId = ∅) → Apart a.share := by
    intro a hshare i j _
    rw [hshare i]
    exact Set.empty_disjoint _
  have hcareful : Along step Careful advertModem (filledPlaceholder ++ [expireTick]) := by
    refine along_append.2 ⟨⟨?_, ?_, trivial⟩, careful_expireTick, trivial⟩
    · exact ⟨tellable_advertModem, hapart _ fun _ => rfl, trivial, trivial⟩
    · exact ⟨tellable_placeholderModem, hapart _ share_placeholderModem, trivial, trivial⟩
  obtain ⟨hgone, htold⟩ := @purge_leaves_no_orphan plainText advertModem 0 3 filledPlaceholder
    expireTick sound_advertModem rfl rfl
      (Set.eq_empty_of_forall_notMem fun mac hmac => by cases hmac)
    rfl hcareful [1] entry hentry hup
    (Option.not_isSome_iff_eq_none.1 (Bool.not_eq_true _ ▸ herased)) [2, 0, 0, 0, 0, 1]
    (ExtTreeSet.contains_iff_mem.1 hmem)
  exact ⟨hgone, htold 0 hlisted⟩

/-- The timer with a hold interval of five seconds, ten seconds later. -/
def holdTick : Step := ⟨{ Peer.bareSurroundings with now := 10 }, .purge 5 0⟩

/-- The entry is up and has the destination; it is erased, and the destination stays. -/
theorem filledPlaceholder_orphan :
    ((run step advertModem filledPlaceholder).destAdvertDb[([1] : DlepMac)]?).any
        (fun entry => entry.up && entry.info.destinations.contains [2, 0, 0, 0, 0, 1]) = true ∧
      (run step advertModem (filledPlaceholder ++ [holdTick])).destAdvertDb.contains [1] = false ∧
      [2, 0, 0, 0, 0, 1] ∈ (run step advertModem (filledPlaceholder ++ [holdTick])).node.has := by
  obtain ⟨herased, hstays⟩ :
      (run step advertModem (filledPlaceholder ++ [holdTick])).destAdvertDb.contains [1] = false ∧
      (run step advertModem (filledPlaceholder ++ [holdTick])).node.localPdp.validDestination
        [2, 0, 0, 0, 0, 1] = true := by decide +kernel
  exact ⟨filledPlaceholder_up, herased, hstays⟩

end DestAdvert

end Dlep
