import Neve.JsonTextProofs
import Neve.IngestWriteProofs

/-! # The contiguous frontier — where a C-chain fill starts

    The backfill loop measures the store, the configured floor and the upstream
    tip, and starts one past the larger of the contiguous frontier and the
    height below the floor.  Zero stands for three things here: an empty store,
    a floor of zero, and a frontier that does not exist.  The start is the first
    missing height exactly when every height from the store's floor on that lies
    below `max 1 floor` is already stored (`fill_starts_at_first_hole_iff`). -/

namespace NeveFrontier

open JsonValue ByteText FirstGap NeveRecord NeveStorage NeveIngestWrite
open NeveEthIngest (persistBackfilled persistBlock)
open NevePlatformIngest (FetchedBlock)

def u64Max : Nat := 2 ^ 64 - 1

/-- `u64::saturating_add`. -/
def saturatingAdd (a b : Nat) : Nat := min (a + b) u64Max

/-- Upper bound on a single `eth_getLogs` range. -/
def LOGS_WINDOW : Nat := 2048

/-- What one pass of the backfill loop decides to do. -/
inductive Measure where
  | coldStart
  | caughtUp
  | fill (next stop target : Nat)
  deriving DecidableEq, Repr

/-- The decision of one pass, from the high water, the contiguous height and the
    upstream tip it read. -/
def measure (hw rawContiguous upstreamTip : Nat) (backfillFloor : Option Nat) : Measure :=
  if hw = 0 ∧ backfillFloor.isNone then .coldStart
  else
    let floor := backfillFloor.getD 0
    let contiguous := max rawContiguous (floor - 1)
    let target := max hw upstreamTip
    if target ≤ contiguous then .caughtUp
    else
      let next := saturatingAdd contiguous 1
      .fill next (min target (saturatingAdd next (LOGS_WINDOW - 1))) target

/-- The first height the `oldBlocks` bootstrap of a mirror asks for. -/
def bootstrapFrom (maxContiguous : Nat) (backfillFloor : Option Nat) : Nat :=
  max (backfillFloor.getD 0) (saturatingAdd maxContiguous 1)

/-- The floor a freshly created store is anchored at: a configured one, or the
    earliest block of a neve upstream; nothing when the store exists already. -/
def resolveAnchorFloor (configured : Option Nat) (storeExists isNeve : Bool)
    (probe : Option Nat) : Option Nat :=
  match configured with
  | some floor => if storeExists then none else some floor
  | none => if !isNeve then none else if storeExists then none else probe

/-- The store's floor: its minimum height once created, the configured floor
    before that. -/
def storeFloor (s : Storage) (backfillFloor : Option Nat) : Nat :=
  (s.store.map Store.minHeight).getD (backfillFloor.getD 0)

/-- Nothing is missing from the store's floor up to `max 1 floor`. -/
def FloorFilled (s : Storage) (backfillFloor : Option Nat) : Prop :=
  ∀ height, storeFloor s backfillFloor ≤ height → height < max 1 (backfillFloor.getD 0) →
    s.Has height

/-- The first height from the store's floor on that is not stored. -/
def firstMissing (s : Storage) (backfillFloor : Option Nat) : Nat :=
  (s.store.map Store.firstHole).getD (backfillFloor.getD 0)

section Lemmas

variable {s : Storage} {backfillFloor : Option Nat}

theorem isFirstGap_firstMissing (s : Storage) (backfillFloor : Option Nat) :
    IsFirstGap s.Has (storeFloor s backfillFloor) (firstMissing s backfillFloor) := by
  cases hs : s.store with
  | none =>
      simp only [storeFloor, firstMissing, hs, Option.map_none, Option.getD_none]
      refine ⟨Nat.le_refl _, ?_, ?_⟩
      · rintro ⟨st, hst, -⟩
        rw [hs] at hst
        cases hst
      · intro k hlo hhi
        omega
  | some st =>
      simp only [storeFloor, firstMissing, hs, Option.map_some, Option.getD_some]
      have hgap := st.isFirstGap_firstHole
      refine ⟨hgap.le, ?_, ?_⟩
      · rintro ⟨st', hst, hhas⟩
        rw [hs] at hst
        rw [← Option.some.inj hst] at hhas
        exact hgap.gap hhas
      · intro k hlo hhi
        exact ⟨st, hs, hgap.filled k hlo hhi⟩

/-- The floor is filled exactly when the first missing height is at least one
    and not below the configured floor. -/
theorem floorFilled_iff :
    FloorFilled s backfillFloor ↔
      max 1 (backfillFloor.getD 0) ≤ firstMissing s backfillFloor := by
  have hgap := isFirstGap_firstMissing s backfillFloor
  constructor
  · intro h
    by_contra hlt
    exact hgap.gap (h _ hgap.le (Nat.lt_of_not_le hlt))
  · intro h height hlo hhi
    exact hgap.filled height hlo (Nat.lt_of_lt_of_le hhi h)

/-- The contiguous height in terms of the first missing one, unless that is zero. -/
theorem max_contiguous_succ (s : Storage) (backfillFloor : Option Nat) :
    firstMissing s backfillFloor = 0 ∨
      max (s.maxContiguousHeight + 1) (max 1 (backfillFloor.getD 0))
        = max (firstMissing s backfillFloor) (max 1 (backfillFloor.getD 0)) := by
  cases hs : s.store with
  | none =>
      simp only [Storage.maxContiguousHeight, firstMissing, hs, Option.map_none,
        Option.getD_none]
      omega
  | some st =>
      simp only [Storage.maxContiguousHeight, firstMissing, hs, Option.map_some,
        Option.getD_some]
      rcases Nat.eq_zero_or_pos st.firstHole with hzero | hpos
      · exact Or.inl hzero
      · exact Or.inr (by rw [Store.maxContiguousHeight_succ hpos])

/-- **The run a pass decides to fill**, from whatever it measured. -/
theorem measure_fill {hw rawContiguous tip next stop target : Nat} (hhw : hw < 2 ^ 64)
    (htip : tip < 2 ^ 64)
    (h : measure hw rawContiguous tip backfillFloor = .fill next stop target) :
    next = max (rawContiguous + 1) (max 1 (backfillFloor.getD 0)) ∧
      next ≤ stop ∧ stop < 2 ^ 64 := by
  simp only [measure] at h
  by_cases hcold : hw = 0 ∧ backfillFloor.isNone = true
  · rw [if_pos hcold] at h
    cases h
  rw [if_neg hcold] at h
  by_cases hcaught : max hw tip ≤ max rawContiguous (backfillFloor.getD 0 - 1)
  · rw [if_pos hcaught] at h
    cases h
  rw [if_neg hcaught] at h
  obtain ⟨rfl, rfl, rfl⟩ := Measure.fill.inj h
  simp only [saturatingAdd, u64Max, LOGS_WINDOW]
  omega

end Lemmas

/-! ## The frontier only moves up -/

/-- What a write can do to the shape of a store: the chain and the floor it was
    opened with, every stored height and the minimum height, once there is one,
    all stay. -/
structure Grows (s s' : Storage) : Prop where
  chain : s'.chain = s.chain
  anchorFloor : s'.anchorFloor = s.anchorFloor
  has : ∀ k, s.Has k → s'.Has k
  minHeight : ∀ st, s.store = some st →
    ∃ st', s'.store = some st' ∧ st'.minHeight = st.minHeight

theorem Grows.refl (s : Storage) : Grows s s :=
  ⟨rfl, rfl, fun _ h => h, fun st h => ⟨st, h, rfl⟩⟩

theorem Grows.trans {s s' s'' : Storage} (h : Grows s s') (h' : Grows s' s'') :
    Grows s s'' where
  chain := h'.chain.trans h.chain
  anchorFloor := h'.anchorFloor.trans h.anchorFloor
  has := fun k hk => h'.has k (h.has k hk)
  minHeight := by
    intro st hst
    obtain ⟨st', hst', hmin⟩ := h.minHeight st hst
    obtain ⟨st'', hst'', hmin'⟩ := h'.minHeight st' hst'
    exact ⟨st'', hst'', hmin'.trans hmin⟩

/-- A store that exists keeps existing, with the floor it has. -/
theorem Grows.isEmpty_eq {s s' : Storage} (h : Grows s s') (hs : s.isEmpty = false) :
    s'.isEmpty = false := by
  obtain ⟨st, hst⟩ := Option.isSome_iff_exists.mp
    (Option.isNone_eq_false_iff.mp (show s.store.isNone = false from hs))
  obtain ⟨st', hst', -⟩ := h.minHeight st hst
  simp only [Storage.isEmpty, hst', Option.isNone_some]

theorem Grows.minHeight_eq {s s' : Storage} (h : Grows s s') (hs : s.isEmpty = false) :
    s'.minHeight = s.minHeight := by
  obtain ⟨st, hst⟩ := Option.isSome_iff_exists.mp
    (Option.isNone_eq_false_iff.mp (show s.store.isNone = false from hs))
  obtain ⟨st', hst', hmin⟩ := h.minHeight st hst
  simp only [Storage.minHeight, hst, hst', Option.map_some, Option.getD_some, hmin]

/-- What a store that exists holds after it grew. -/
theorem Grows.store {s s' : Storage} {st : Store} (h : Grows s s') (hs : s.store = some st) :
    ∃ st', s'.store = some st' ∧ st'.minHeight = st.minHeight ∧ ∀ k, st.Has k →
      st'.Has k := by
  obtain ⟨st', hst', hmin⟩ := h.minHeight st hs
  refine ⟨st', hst', hmin, ?_⟩
  intro k hk
  obtain ⟨st'', hst'', hk''⟩ := h.has k ⟨st, hs, hk⟩
  rw [hst'] at hst''
  rw [Option.some.inj hst'']
  exact hk''

/-- The first hole of a store that exists only moves up. -/
theorem Grows.firstHole_le {s s' : Storage} {st : Store} (h : Grows s s')
    (hs : s.store = some st) :
    ∃ st', s'.store = some st' ∧ st'.minHeight = st.minHeight ∧
      st.firstHole ≤ st'.firstHole := by
  obtain ⟨st', hst', hmin, hhas⟩ := h.store hs
  have hgap := st'.isFirstGap_firstHole
  rw [hmin] at hgap
  exact ⟨st', hst', hmin, st.isFirstGap_firstHole.mono hhas hgap⟩

theorem Grows.maxContiguousHeight_le {s s' : Storage} (h : Grows s s') :
    s.maxContiguousHeight ≤ s'.maxContiguousHeight := by
  cases hs : s.store with
  | none => simp [Storage.maxContiguousHeight, hs]
  | some st =>
      obtain ⟨st', hst', hmin, hhas⟩ := h.store hs
      simp only [Storage.maxContiguousHeight, hs, hst', Option.map_some, Option.getD_some]
      have hgap := st'.isFirstGap_frontier
      rw [hmin] at hgap
      exact Nat.le_of_succ_le_succ (st.isFirstGap_frontier.mono hhas hgap)

/-- The blockstore after a put: untouched, or the one the put opened. -/
theorem put_store (s : Storage) (fault : Fault) (height : Nat) (hash : Bytes32)
    (txHashes : List Bytes32) (elements : List Bytes) :
    (s.put fault height hash txHashes elements).2.store = s.store ∨
      ∃ st, (s.put fault height hash txHashes elements).2.store = some st ∧
        st.minHeight = (s.openStore height).minHeight := by
  simp only [Storage.put]
  by_cases harity : elements.length ≠ arity s.chain
  · rw [if_pos harity]
    exact Or.inl rfl
  rw [if_neg harity]
  simp only [Storage.putBlock]
  by_cases hcreate : s.store.isNone ∧ fault = .create
  · rw [if_pos hcreate]
    exact Or.inl rfl
  rw [if_neg hcreate]
  by_cases hwrite : fault = .write
  · rw [if_pos hwrite]
    exact Or.inr ⟨_, rfl, rfl⟩
  rw [if_neg hwrite]
  cases hw : (s.openStore height).writeBlock height (encode elements) with
  | error e => exact Or.inr ⟨_, rfl, rfl⟩
  | ok st =>
      refine Or.inr ⟨st, ?_, Store.minHeight_writeBlock hw⟩
      by_cases hcommit : fault = .commit
      · simp only [if_pos hcommit]
      · simp only [if_neg hcommit, Storage.putIndex]

theorem put_frame (s : Storage) (fault : Fault) (height : Nat) (hash : Bytes32)
    (txHashes : List Bytes32) (elements : List Bytes) :
    (s.put fault height hash txHashes elements).2.chain = s.chain ∧
      (s.put fault height hash txHashes elements).2.anchorFloor = s.anchorFloor := by
  have heff := s.put_effect fault height hash txHashes elements
  generalize s.put fault height hash txHashes elements = out at heff ⊢
  obtain ⟨result, s'⟩ := out
  cases heff with
  | refused e _ hframe _ => exact ⟨hframe.chain, hframe.anchorFloor⟩
  | unindexed e _ _ hframe _ _ => exact ⟨hframe.chain, hframe.anchorFloor⟩
  | done s1 hframe _ _ => exact ⟨hframe.chain, hframe.anchorFloor⟩

theorem put_grows (s : Storage) (fault : Fault) (height : Nat) (hash : Bytes32)
    (txHashes : List Bytes32) (elements : List Bytes) :
    Grows s (s.put fault height hash txHashes elements).2 where
  chain := (put_frame s fault height hash txHashes elements).1
  anchorFloor := (put_frame s fault height hash txHashes elements).2
  has := by
    intro k hk
    rw [Storage.has_iff_rawAt, ← Option.isSome_iff_exists] at hk ⊢
    exact s.rawAt_put_mono fault height hash txHashes elements hk
  minHeight := by
    intro st hst
    rcases put_store s fault height hash txHashes elements with heq | ⟨st', hst', hmin⟩
    · exact ⟨st, heq.trans hst, rfl⟩
    · refine ⟨st', hst', ?_⟩
      simpa [Storage.openStore, hst] using hmin

/-- The minimum height of the blockstore a put creates. -/
theorem put_created {s : Storage} {fault : Fault} {height : Nat} {hash : Bytes32}
    {txHashes : List Bytes32} {elements : List Bytes} {st : Store} (hnone : s.store = none)
    (h : (s.put fault height hash txHashes elements).2.store = some st) :
    st.minHeight = s.anchor height := by
  rcases put_store s fault height hash txHashes elements with heq | ⟨st', hst', hmin⟩
  · rw [heq, hnone] at h
    cases h
  · rw [Option.some.inj (h.symm.trans hst'), hmin]
    simp [Storage.openStore, hnone]

/-- A height stored by a put is the one it was asked for, or was there before. -/
theorem has_put {s : Storage} {fault : Fault} {height : Nat} {hash : Bytes32}
    {txHashes : List Bytes32} {elements : List Bytes} {k : Nat}
    (h : (s.put fault height hash txHashes elements).2.Has k) : k = height ∨ s.Has k := by
  have heff := s.put_effect fault height hash txHashes elements
  generalize s.put fault height hash txHashes elements = out at heff h
  obtain ⟨result, s'⟩ := out
  rw [Storage.has_iff_rawAt] at h ⊢
  by_cases hk : k = height
  · exact Or.inl hk
  · refine Or.inr ?_
    cases heff with
    | refused e _ _ hraw => rwa [hraw k] at h
    | unindexed e _ _ _ _ hraw =>
        rw [hraw k, if_neg hk] at h
        exact h
    | done s1 _ _ hraw =>
        change ∃ bytes, s1.rawAt k = some bytes at h
        rw [hraw k, if_neg hk] at h
        exact h

/-- **What a put that succeeds leaves**: its record, and its index entries in front
    of the others. -/
theorem put_ok_state {s s' : Storage} {fault : Fault} {height : Nat} {hash : Bytes32}
    {txHashes : List Bytes32} {elements : List Bytes}
    (h : s.put fault height hash txHashes elements = (.ok (), s')) :
    (∀ k, s'.rawAt k = if k = height then some (encode elements) else s.rawAt k) ∧
      s'.hashToHeight = (hash, toLeBytes 8 height) :: s.hashToHeight ∧
      s'.txToBlock = (Storage.txEntries height txHashes).reverse ++ s.txToBlock := by
  have heff := s.put_effect fault height hash txHashes elements
  rw [h] at heff
  cases heff with
  | done s1 hframe _ hraw =>
      refine ⟨hraw, ?_, ?_⟩
      · rw [← hframe.hashToHeight]
      · rw [← hframe.txToBlock]

/-- A put that succeeds holds its record. -/
theorem rawAt_of_put_ok {s s' : Storage} {fault : Fault} {height : Nat} {hash : Bytes32}
    {txHashes : List Bytes32} {elements : List Bytes}
    (h : s.put fault height hash txHashes elements = (.ok (), s')) :
    s'.rawAt height = some (encode elements) := by
  rw [(put_ok_state h).1 height, if_pos rfl]

/-- A put that succeeds stores its height. -/
theorem has_of_put_ok {s s' : Storage} {fault : Fault} {height : Nat} {hash : Bytes32}
    {txHashes : List Bytes32} {elements : List Bytes}
    (h : s.put fault height hash txHashes elements = (.ok (), s')) : s'.Has height :=
  Storage.has_iff_rawAt.mpr ⟨_, rawAt_of_put_ok h⟩

/-- `s'` is `s`, or `s` after one put at `height`, however it went. -/
def Wrote (height : Nat) (s s' : Storage) : Prop :=
  s' = s ∨ ∃ fault hash txHashes elements,
    s' = (s.put fault height hash txHashes elements).2

namespace Wrote

variable {height : Nat} {s s' : Storage}

theorem grows (h : Wrote height s s') : Grows s s' := by
  rcases h with rfl | ⟨fault, hash, txHashes, elements, rfl⟩
  · exact Grows.refl s'
  · exact put_grows s fault height hash txHashes elements

theorem has {k : Nat} (h : Wrote height s s') (hk : s'.Has k) : k = height ∨ s.Has k := by
  rcases h with rfl | ⟨fault, hash, txHashes, elements, rfl⟩
  · exact Or.inr hk
  · exact has_put hk

theorem created {st : Store} (h : Wrote height s s') (hnone : s.store = none)
    (hst : s'.store = some st) : st.minHeight = s.anchor height := by
  rcases h with rfl | ⟨fault, hash, txHashes, elements, rfl⟩
  · rw [hnone] at hst
    cases hst
  · exact put_created hnone hst

end Wrote

/-- The minimum height is a 64-bit number. -/
def FloorFits (s : Storage) : Prop := ∀ st, s.store = some st → st.minHeight < 2 ^ 64

theorem FloorFits.wrote {height : Nat} {s s' : Storage} (h : FloorFits s)
    (hlt : height < 2 ^ 64) (hw : Wrote height s s') : FloorFits s' := by
  intro st' hst'
  cases hs : s.store with
  | none =>
      rw [hw.created hs hst']
      exact Nat.lt_of_le_of_lt (s.anchor_le height) hlt
  | some st =>
      obtain ⟨st1, hst1, hmin⟩ := hw.grows.minHeight st hs
      rw [Option.some.inj (hst'.symm.trans hst1), hmin]
      exact h st hs

theorem persistBackfilled_wrote (J : Codec) (s : Storage) (fault : Fault) (height : Nat)
    (block : Value) (logs : Bytes) :
    Wrote height s (persistBackfilled J s fault height block logs).2 := by
  simp only [persistBackfilled]
  split
  · exact Or.inl rfl
  · split
    · exact Or.inl rfl
    · exact Or.inr ⟨_, _, _, _, rfl⟩

theorem persistBackfilled_ok {J : Codec} {s s' : Storage} {fault : Fault} {height : Nat}
    {block : Value} {logs : Bytes}
    (h : persistBackfilled J s fault height block logs = (.ok (), s')) : s'.Has height := by
  simp only [persistBackfilled] at h
  split at h
  · cases h
  · split at h
    · cases h
    · exact has_of_put_ok h

theorem persistBlock_wrote (J : Codec) (s : Storage) (fault : Fault) (height : Nat)
    (expectedHash : String) (block : Value) :
    Wrote height s (persistBlock J s fault height expectedHash block).2 := by
  simp only [persistBlock]
  split
  · exact Or.inl rfl
  · exact Or.inr ⟨_, _, _, _, rfl⟩

theorem storeBlock_wrote (s : Storage) (fault : Fault) (fetched : FetchedBlock)
    (rewards : Bytes) :
    Wrote fetched.height s (NevePlatformIngest.storeBlock s fault fetched rewards).2 := by
  refine Or.inr ⟨fault, fetched.id, fetched.txIds,
    [fetched.json, fetched.bytesJson, rewards], ?_⟩
  simp only [NevePlatformIngest.storeBlock]
  split
  · rename_i heq
    rw [heq]
  · rename_i heq
    rw [heq]

/-- What storing a verified block leaves. -/
theorem storeBlock_stored {s s' : Storage} {fault : Fault} {fetched : FetchedBlock}
    {rewards : Bytes} {height : Nat}
    (h : NevePlatformIngest.storeBlock s fault fetched rewards = (some height, s')) :
    (∀ k, s'.rawAt k = if k = fetched.height
      then some (encode [fetched.json, fetched.bytesJson, rewards]) else s.rawAt k) ∧
      s'.hashToHeight = (fetched.id, toLeBytes 8 fetched.height) :: s.hashToHeight ∧
      s'.txToBlock = (Storage.txEntries fetched.height fetched.txIds).reverse ++ s.txToBlock := by
  simp only [NevePlatformIngest.storeBlock] at h
  cases hput : s.put fault fetched.height fetched.id fetched.txIds
      [fetched.json, fetched.bytesJson, rewards] with
  | mk result s1 =>
      rw [hput] at h
      cases result with
      | error e => cases h
      | ok u =>
          obtain ⟨-, rfl⟩ := Prod.mk.inj h
          exact put_ok_state hput

/-- A verified block that was stored is in the store with its rewards. -/
theorem rawAt_of_storeBlock {s s' : Storage} {fault : Fault} {fetched : FetchedBlock}
    {rewards : Bytes} {height : Nat}
    (h : NevePlatformIngest.storeBlock s fault fetched rewards = (some height, s')) :
    s'.rawAt fetched.height = some (encode [fetched.json, fetched.bytesJson, rewards]) := by
  rw [(storeBlock_stored h).1 fetched.height, if_pos rfl]

theorem storeBlock_some {s s' : Storage} {fault : Fault} {fetched : FetchedBlock}
    {rewards : Bytes} {height : Nat}
    (h : NevePlatformIngest.storeBlock s fault fetched rewards = (some height, s')) :
    s'.Has fetched.height :=
  Storage.has_iff_rawAt.mpr ⟨_, rawAt_of_storeBlock h⟩

/-! ## Where a fill starts -/

/-- **When a fill starts at the first hole.** Whenever the loop decides that it
    is behind, the height it starts from is the least missing one from the
    store's floor on exactly when the floor is filled; so is the height a
    mirror's bootstrap asks for, as long as the frontier is not the last 64-bit
    height. -/
theorem fill_starts_at_first_hole_iff (s : Storage) (backfillFloor : Option UInt64) :
    (∀ (hw upstreamTip : UInt64) (next stop target : Nat),
      measure hw.toNat s.maxContiguousHeight upstreamTip.toNat
          (backfillFloor.map UInt64.toNat) = .fill next stop target →
        (IsFirstGap s.Has (storeFloor s (backfillFloor.map UInt64.toNat)) next ↔
          FloorFilled s (backfillFloor.map UInt64.toNat))) ∧
    (IsFirstGap s.Has (storeFloor s (backfillFloor.map UInt64.toNat))
        (bootstrapFrom s.maxContiguousHeight (backfillFloor.map UInt64.toNat)) ↔
      FloorFilled s (backfillFloor.map UInt64.toNat) ∧
        s.maxContiguousHeight < u64Max) := by
  have hgap := isFirstGap_firstMissing s (backfillFloor.map UInt64.toNat)
  have hfloor : (backfillFloor.map UInt64.toNat).getD 0 ≤ u64Max := by
    cases backfillFloor with
    | none => exact Nat.zero_le _
    | some f => exact Nat.le_of_lt_succ f.toNat_lt
  generalize backfillFloor.map UInt64.toNat = floor at hgap hfloor ⊢
  -- a height is the first gap exactly when it is `firstMissing`
  have hiff : ∀ k, IsFirstGap s.Has (storeFloor s floor) k ↔ k = firstMissing s floor := by
    intro k
    constructor
    · intro h
      exact h.unique hgap
    · intro h
      rw [h]
      exact hgap
  constructor
  · intro hw upstreamTip next stop target hfill
    obtain ⟨hnext, -⟩ := measure_fill hw.toNat_lt upstreamTip.toNat_lt hfill
    have hsucc := max_contiguous_succ s floor
    rw [hiff, floorFilled_iff, hnext]
    omega
  · have hsucc := max_contiguous_succ s floor
    rw [hiff, floorFilled_iff]
    simp only [bootstrapFrom, saturatingAdd, u64Max] at hfloor ⊢
    omega

/-- A store with a floor of 5 that a live block at height 3 created; the heights 4 and 5
    followed, and a live block at height 8. -/
def lowStore : Storage :=
  { Storage.fresh memory .C (some 5) with
    store := some (.holding 3 [(8, []), (5, []), (4, []), (3, [])] (by decide)) }

/-- The fill and the bootstrap both start behind the stored heights from the floor on. -/
theorem fill_starts_at_six :
    measure 8 lowStore.maxContiguousHeight 10 (some 5) = .fill 6 10 10 ∧
    IsFirstGap lowStore.Has 3 6 ∧
    bootstrapFrom lowStore.maxContiguousHeight (some 5) = 6 := by
  have hfilled : FloorFilled lowStore ((some 5).map UInt64.toNat) := by
    intro height hlo hhi
    have hthree : 3 ≤ height := hlo
    have hfive : height < 5 := hhi
    refine ⟨_, rfl, Store.has_holding_iff.mpr ?_⟩
    obtain rfl | rfl : height = 3 ∨ height = 4 := by omega
    · decide
    · decide
  have hcontiguous : lowStore.maxContiguousHeight = 5 := by decide +kernel
  have hfill : measure 8 lowStore.maxContiguousHeight 10 (some 5) = .fill 6 10 10 := by
    rw [hcontiguous]
    decide
  refine ⟨hfill, ?_, by rw [hcontiguous]; decide⟩
  exact ((fill_starts_at_first_hole_iff lowStore (some 5)).1 8 10 6 10 10 hfill).mpr hfilled

/-- A floor of zero on a store not yet created: the fill starts at height 1 and
    leaves the genesis out. -/
theorem fill_skips_genesis :
    ¬ ∀ (J : Codec) (sha256 : Bytes → Bytes32) (blockdb : Blockdb)
      (configured probe : Option UInt64) (isNeve : Bool) (ops : List (IngestWrite × Fault))
        (s : Storage)
      (hw upstreamTip : UInt64) (next stop target : Nat),
      let floor := resolveAnchorFloor (configured.map UInt64.toNat) false isNeve
        (probe.map UInt64.toNat)
      Run.exec (writeStep J sha256) (Storage.fresh blockdb .C floor) ops = some s →
      measure hw.toNat s.maxContiguousHeight upstreamTip.toNat floor
        = .fill next stop target →
      IsFirstGap s.Has (storeFloor s floor) next := by
  intro hall
  have hgap := hall JsonText.codec (fun _ => Vector.replicate 32 0) memory (some 0) none false []
    (Storage.fresh memory .C (some 0)) 0 10 1 10 10 rfl rfl
  obtain ⟨st, hst, -⟩ := hgap.filled 0 (Nat.le_refl 0) Nat.zero_lt_one
  cases hst

end NeveFrontier
