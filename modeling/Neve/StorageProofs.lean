import Neve.BlockdbProofs
import Neve.RecordProofs

/-! # Storage — the blockstore and its two indexes

    A store is a height-keyed blockstore (created lazily by the first write,
    which fixes its minimum height) beside two index keyspaces: block hash to
    height, and transaction hash to position.  A write has two stages, the
    blockstore write and one atomic index batch, and either may fail: `put`
    keeps whatever the stages before the failure did.

    Heights are 64-bit in the program; here they are numbers, and the index
    entries hold their low eight bytes. -/

namespace NeveStorage

open JsonValue ByteText FirstGap NeveRecord Outcome

/-! ## The blockstore -/

/-- An open blockstore: the library that keeps it, and its state there. -/
structure Store where
  blockdb : Blockdb
  state : blockdb.State

namespace Store

/-- A blockstore just created, holding nothing. -/
def create (blockdb : Blockdb) (minHeight : Nat) : Store := ⟨blockdb, blockdb.create minHeight⟩

def minHeight (st : Store) : Nat := st.blockdb.minBlockHeight st.state

/-- The highest stored height; one below the minimum (saturating) with none stored. -/
def heightHighwater (st : Store) : Nat := st.blockdb.heightHighwater st.state

/-- Highest height `H` with everything from the minimum, or from height one if that
    is higher, to `H` present. -/
def maxContiguousHeight (st : Store) : Nat := st.blockdb.maxContiguousHeight st.state

/-- An error below the minimum height. -/
def readBlock (st : Store) (height : Nat) : Except String (Option Bytes) :=
  st.blockdb.readBlock st.state height

/-- Refused below the minimum height. -/
def writeBlock (st : Store) (height : Nat) (bytes : Bytes) : Except String Store :=
  match st.blockdb.writeBlock st.state height bytes with
  | .error e => .error e
  | .ok state => .ok ⟨st.blockdb, state⟩

/-- What is held at a height: nothing where a read is refused. -/
def stored (st : Store) (height : Nat) : Option Bytes :=
  match st.readBlock height with
  | .error _ => none
  | .ok record => record

def Has (st : Store) (height : Nat) : Prop := (st.stored height).isSome

instance (st : Store) (height : Nat) : Decidable (st.Has height) :=
  inferInstanceAs (Decidable ((st.stored height).isSome = true))

/-- The first height from the minimum on that is not stored.  The frontier says it,
    unless the minimum is height zero and nothing is stored there. -/
def firstHole (st : Store) : Nat :=
  if 0 < st.minHeight ∨ st.Has 0 then st.maxContiguousHeight + 1 else 0

/-- A blockstore in memory that holds the given blocks. -/
def holding (minHeight : Nat) (blocks : List (Nat × Bytes))
    (min_le : ∀ e ∈ blocks, minHeight ≤ e.1) : Store :=
  ⟨memory, (⟨minHeight, blocks, min_le⟩ : Memory)⟩

@[simp] theorem minHeight_create (blockdb : Blockdb) (minHeight : Nat) :
    (create blockdb minHeight).minHeight = minHeight := blockdb.min_create minHeight

theorem stored_eq_some {st : Store} {height : Nat} {bytes : Bytes} :
    st.stored height = some bytes ↔ st.readBlock height = .ok (some bytes) := by
  unfold stored
  cases st.readBlock height with
  | error e => exact ⟨fun h => (by cases h), fun h => (by cases h)⟩
  | ok record => exact ⟨fun h => congrArg Except.ok h, fun h => Except.ok.inj h⟩

/-- A blockstore in memory holds what its list says. -/
theorem stored_holding {minHeight : Nat} {blocks : List (Nat × Bytes)}
    {min_le : ∀ e ∈ blocks, minHeight ≤ e.1} (height : Nat) :
    (holding minHeight blocks min_le).stored height = blocks.lookup height :=
  Option.ext fun _ => stored_eq_some.trans Memory.readBlock_eq_some

/-- From the minimum height on a read gives what is held. -/
theorem readBlock_of_min_le {st : Store} {height : Nat} (h : st.minHeight ≤ height) :
    st.readBlock height = .ok (st.stored height) := by
  obtain ⟨record, hread⟩ : ∃ record, st.readBlock height = .ok record :=
    st.blockdb.read_answered h
  rw [stored, hread]

theorem has_iff_stored {st : Store} {height : Nat} :
    st.Has height ↔ ∃ bytes, st.stored height = some bytes :=
  Option.isSome_iff_exists

theorem has_holding_iff {minHeight : Nat} {blocks : List (Nat × Bytes)}
    {min_le : ∀ e ∈ blocks, minHeight ≤ e.1} {height : Nat} :
    (holding minHeight blocks min_le).Has height ↔ height ∈ blocks.map Prod.fst := by
  simp only [has_iff_stored, stored_holding, mem_keys_iff_lookup]

theorem stored_create (blockdb : Blockdb) (minHeight height : Nat) :
    (create blockdb minHeight).stored height = none := by
  cases h : (create blockdb minHeight).stored height with
  | none => rfl
  | some bytes => exact absurd (stored_eq_some.mp h) (blockdb.read_create minHeight height bytes)

theorem not_has_create (blockdb : Blockdb) (minHeight height : Nat) :
    ¬ (create blockdb minHeight).Has height := by
  rw [Has, stored_create]
  exact Bool.false_ne_true

theorem min_le_of_has {st : Store} {height : Nat} (h : st.Has height) :
    st.minHeight ≤ height := by
  obtain ⟨bytes, hstored⟩ := has_iff_stored.mp h
  rcases Nat.lt_or_ge height st.minHeight with hlt | hge
  · obtain ⟨e, he⟩ : ∃ e, st.readBlock height = .error e := st.blockdb.read_refused hlt
    rw [stored_eq_some.mp hstored] at he
    cases he
  · exact hge

theorem le_heightHighwater {st : Store} {height : Nat} (h : st.Has height) :
    height ≤ st.heightHighwater := by
  obtain ⟨bytes, hstored⟩ := has_iff_stored.mp h
  exact st.blockdb.le_highwater (stored_eq_some.mp hstored)

/-- The high-water mark is stored, or nothing is and it is one below the minimum. -/
theorem heightHighwater_cases (st : Store) :
    st.Has st.heightHighwater ∨
      (∀ height, ¬ st.Has height) ∧ st.heightHighwater = st.minHeight - 1 := by
  rcases st.blockdb.highwater_stored st.state with ⟨bytes, hread⟩ | ⟨hnone, heq⟩
  · exact Or.inl (has_iff_stored.mpr ⟨bytes, stored_eq_some.mpr hread⟩)
  · refine Or.inr ⟨fun height h => ?_, heq⟩
    obtain ⟨bytes, hstored⟩ := has_iff_stored.mp h
    exact hnone height bytes (stored_eq_some.mp hstored)

/-- The frontier is the first gap counted from the minimum, or from height one. -/
theorem isFirstGap_frontier (st : Store) :
    IsFirstGap st.Has (st.minHeight - 1 + 1) (st.maxContiguousHeight + 1) := by
  have hiff : ∀ height, st.Has height ↔
      ∃ bytes, st.blockdb.readBlock st.state height = .ok (some bytes) := fun height =>
    has_iff_stored.trans (exists_congr fun _ => stored_eq_some)
  have hgap := st.blockdb.frontier st.state
  exact ⟨hgap.le, fun h => hgap.gap ((hiff _).mp h),
    fun k hlo hhi => (hiff k).mpr (hgap.filled k hlo hhi)⟩

theorem isFirstGap_firstHole (st : Store) :
    IsFirstGap st.Has st.minHeight st.firstHole := by
  have hgap := st.isFirstGap_frontier
  unfold firstHole
  by_cases hbase : 0 < st.minHeight ∨ st.Has 0
  · rw [if_pos hbase]
    refine ⟨by have := hgap.le; omega, hgap.gap, fun k hlo hhi => ?_⟩
    rcases Nat.eq_zero_or_pos k with rfl | hpos
    · exact hbase.resolve_left (by omega)
    · exact hgap.filled k (by omega) hhi
  · rw [if_neg hbase]
    obtain ⟨hmin, hzero⟩ := not_or.mp hbase
    exact ⟨Nat.le_of_not_lt hmin, hzero, fun k _ hk => absurd hk (Nat.not_lt_zero k)⟩

/-- With a first height stored, or a floor above zero, the frontier is one below the
    first hole. -/
theorem maxContiguousHeight_succ {st : Store} (h : 0 < st.firstHole) :
    st.maxContiguousHeight + 1 = st.firstHole := by
  unfold firstHole at h ⊢
  by_cases hbase : 0 < st.minHeight ∨ st.Has 0
  · rw [if_pos hbase]
  · rw [if_neg hbase] at h
    cases h

theorem maxContiguousHeight_of_firstHole {st : Store} {held : Nat}
    (h : st.firstHole = held + 1) : st.maxContiguousHeight = held := by
  have hsucc := @maxContiguousHeight_succ st (by omega)
  omega

/-- A write is refused exactly below the minimum height. -/
theorem writeBlock_eq_ok_iff {st : Store} {height : Nat} {bytes : Bytes} :
    (∃ st', st.writeBlock height bytes = .ok st') ↔ st.minHeight ≤ height := by
  unfold writeBlock
  constructor
  · rintro ⟨st', hw⟩
    rcases Nat.lt_or_ge height st.minHeight with hlt | hge
    · obtain ⟨e, he⟩ := st.blockdb.write_refused bytes hlt
      rw [he] at hw
      cases hw
    · exact hge
  · intro hle
    obtain ⟨state, hw⟩ := st.blockdb.write_taken bytes hle
    rw [hw]
    exact ⟨_, rfl⟩

/-- What a successful blockstore write leaves: the library's own next state. -/
theorem writeBlock_eq_ok {st st' : Store} {height : Nat} {bytes : Bytes}
    (h : st.writeBlock height bytes = .ok st') :
    ∃ state, st.blockdb.writeBlock st.state height bytes = .ok state ∧
      st' = ⟨st.blockdb, state⟩ := by
  unfold writeBlock at h
  cases hw : st.blockdb.writeBlock st.state height bytes with
  | error e =>
      rw [hw] at h
      cases h
  | ok state =>
      rw [hw] at h
      exact ⟨state, rfl, (Except.ok.inj h).symm⟩

theorem minHeight_writeBlock {st st' : Store} {height : Nat} {bytes : Bytes}
    (h : st.writeBlock height bytes = .ok st') : st'.minHeight = st.minHeight := by
  obtain ⟨state, hw, rfl⟩ := writeBlock_eq_ok h
  exact st.blockdb.min_write hw

/-- A write is read back at its height and nowhere else. -/
theorem stored_writeBlock {st st' : Store} {height : Nat} {bytes : Bytes}
    (h : st.writeBlock height bytes = .ok st') (k : Nat) :
    st'.stored k = if k = height then some bytes else st.stored k := by
  obtain ⟨state, hw, rfl⟩ := writeBlock_eq_ok h
  simp only [stored, readBlock]
  rw [st.blockdb.read_write hw k]
  by_cases hk : k = height
  · rw [if_pos hk, if_pos hk]
  · rw [if_neg hk, if_neg hk]

end Store

/-! ## The storage handle -/

/-- Shared storage: the library blocks are kept by, the lazily created blockstore and
    the two index keyspaces, each a list of entries with the newest first. -/
structure Storage where
  chain : Chain
  anchorFloor : Option Nat
  blockdb : Blockdb
  store : Option Store
  hashToHeight : List (Bytes32 × Bytes)
  txToBlock : List (Bytes32 × Bytes)

/-- Where a write goes wrong, if it does: creating the blockstore, writing the
    block, or committing the index batch. -/
inductive Fault where
  | none
  | create
  | write
  | commit
  deriving DecidableEq, Repr

namespace Storage

/-- A data dir nothing was ever written to. -/
def fresh (blockdb : Blockdb) (chain : Chain) (anchorFloor : Option Nat) : Storage :=
  ⟨chain, anchorFloor, blockdb, none, [], []⟩

def isEmpty (s : Storage) : Bool := s.store.isNone

def highWater (s : Storage) : Nat := (s.store.map Store.heightHighwater).getD 0

def minHeight (s : Storage) : Nat := (s.store.map Store.minHeight).getD 0

def maxContiguousHeight (s : Storage) : Nat :=
  (s.store.map Store.maxContiguousHeight).getD 0

/-- The raw bytes stored at a height. -/
def rawAt (s : Storage) (height : Nat) : Option Bytes :=
  s.store.bind (·.stored height)

def Has (s : Storage) (height : Nat) : Prop := ∃ st, s.store = some st ∧ st.Has height

/-- The minimum height a first write at `height` gives the blockstore: the
    configured floor when it is not above the block being written. -/
def anchor (s : Storage) (height : Nat) : Nat :=
  (s.anchorFloor.filter (· ≤ height)).getD height

/-- The blockstore a write goes to, created on the very first call. -/
def openStore (s : Storage) (height : Nat) : Store :=
  s.store.getD (Store.create s.blockdb (s.anchor height))

/-- Lazily create the blockstore, then write one record into it.  A created
    blockstore stays even when the write then fails. -/
def putBlock (s : Storage) (fault : Fault) (height : Nat) (combined : Bytes) :
    Except String Unit × Storage :=
  if s.store.isNone ∧ fault = .create then (.error "opening blockstore", s)
  else
    let st := s.openStore height
    let opened := { s with store := some st }
    if fault = .write then (.error "write_block", opened)
    else match st.writeBlock height combined with
      | .error e => (.error e, opened)
      | .ok st' => (.ok (), { s with store := some st' })

/-- One index entry per transaction, `height (u64 LE) ++ index (u32 LE)`. -/
def txEntries (height : Nat) (txHashes : List Bytes32) : List (Bytes32 × Bytes) :=
  txHashes.zipIdx.map fun (tx, idx) => (tx, toLeBytes 8 height ++ toLeBytes 4 idx)

/-- The index batch, all or nothing.  Within a batch the last entry of a key
    wins, so entries are pushed in order. -/
def putIndex (s : Storage) (height : Nat) (hash : Bytes32) (txHashes : List Bytes32) :
    Storage :=
  { s with
    hashToHeight := (hash, toLeBytes 8 height) :: s.hashToHeight
    txToBlock := (txEntries height txHashes).reverse ++ s.txToBlock }

/-- Insert a block at a height and update both indexes. -/
def put (s : Storage) (fault : Fault) (height : Nat) (hash : Bytes32)
    (txHashes : List Bytes32) (elements : List Bytes) :
    Except String Unit × Storage :=
  let want := arity s.chain
  if elements.length ≠ want then
    (.error s!"the {s.chain.asStr} chain's record has {want} elements, got {elements.length}", s)
  else
    match s.putBlock fault height (encode elements) with
    | (.error e, s') => (.error e, s')
    | (.ok (), s') =>
        if fault = .commit then (.error "commit", s')
        else (.ok (), s'.putIndex height hash txHashes)

/-! ## Reads -/

/-- Resolve a block hash to its height. -/
def heightOfHash (s : Storage) (hash : Bytes32) : Except String (Option Nat) :=
  match s.hashToHeight.lookup hash with
  | none => .ok none
  | some slice =>
      if slice.length ≠ 8 then .error "bad height entry in index"
      else .ok (some (fromLeBytes slice))

/-- Where a transaction lives: its height and its index in the block. -/
def getTxLocation (s : Storage) (txHash : Bytes32) :
    Except String (Option (Nat × Nat)) :=
  match s.txToBlock.lookup txHash with
  | none => .ok none
  | some slice =>
      if slice.length ≠ 12 then .error "bad tx_to_block entry"
      else .ok (some (fromLeBytes (slice.take 8), fromLeBytes (slice.drop 8)))

section Reading

variable (J : Codec)

/-- Read one element of the record stored at a height. -/
def getElement (s : Storage) (height idx : Nat) : Except String (Option Bytes) :=
  match s.store with
  | none => .ok none
  | some st =>
      if height < st.minHeight ∨ st.heightHighwater < height then .ok none
      else match st.readBlock height with
        | .error e => .error e
        | .ok none => .ok none
        | .ok (some record) =>
            match element J record idx with
            | .error _ => .error s!"decoding stored record at height {height}"
            | .ok part => .ok part

def getByHeight (s : Storage) (height : Nat) : Except String (Option Bytes) :=
  s.getElement J height BLOCK

/-- Read the whole combined record stored at a height; a bare block has none.  No read
    within the range that the guard leaves is refused. -/
def getRecord (s : Storage) (height : Nat) : Option Bytes :=
  match s.store with
  | none => none
  | some st =>
      if height < st.minHeight ∨ st.heightHighwater < height then none
      else (st.stored height).filter isCombinedRecord

/-- Read one element of each of the given heights, in order; `none` as soon as a
    height or its element is missing, an error below the minimum height. -/
def readElements (st : Store) (idx : Nat) : List Nat → Except String (Option (List Bytes))
  | [] => .ok (some [])
  | height :: rest =>
      match st.readBlock height with
      | .error e => .error e
      | .ok none => .ok none
      | .ok (some record) =>
          match element J record idx with
          | .error _ => .error s!"decoding stored record at height {height}"
          | .ok none => .ok none
          | .ok (some part) =>
              match readElements st idx rest with
              | .error e => .error e
              | .ok none => .ok none
              | .ok (some parts) => .ok (some (part :: parts))

/-- Read one element of every record in an inclusive range of heights. -/
def readElementRange (s : Storage) (fromHeight toHeight idx : Nat) :
    Except String (Option (List Bytes)) :=
  match s.store with
  | none => .ok none
  | some st => readElements J st idx (List.range' fromHeight (toHeight + 1 - fromHeight))

/-- Read a block's stored bytes by hash. -/
def getByHash (s : Storage) (hash : Bytes32) : Except String (Option Bytes) := do
  match ← s.heightOfHash hash with
  | some height => s.getByHeight J height
  | none => .ok none

end Reading

/-! ## What a put does -/

/-- Nothing but the blockstore's content may differ. -/
structure Frame (s s' : Storage) : Prop where
  chain : s'.chain = s.chain
  anchorFloor : s'.anchorFloor = s.anchorFloor
  blockdb : s'.blockdb = s.blockdb
  hashToHeight : s'.hashToHeight = s.hashToHeight
  txToBlock : s'.txToBlock = s.txToBlock

theorem Frame.refl (s : Storage) : Frame s s := ⟨rfl, rfl, rfl, rfl, rfl⟩

/-- Every way a put can end: refused with no block written, written but not
    indexed (only when the batch fails), or written and indexed. -/
inductive PutEffect (s : Storage) (fault : Fault) (height : Nat) (hash : Bytes32)
    (txHashes : List Bytes32) (elements : List Bytes) :
    Except String Unit → Storage → Prop where
  | refused (e : String) (s' : Storage) : Frame s s' →
      (∀ k, s'.rawAt k = s.rawAt k) →
      PutEffect s fault height hash txHashes elements (.error e) s'
  | unindexed (e : String) (s' : Storage) : fault = .commit → Frame s s' →
      elements.length = arity s.chain →
      (∀ k, s'.rawAt k = if k = height then some (encode elements) else s.rawAt k) →
      PutEffect s fault height hash txHashes elements (.error e) s'
  | done (s1 : Storage) : Frame s s1 →
      elements.length = arity s.chain →
      (∀ k, s1.rawAt k = if k = height then some (encode elements) else s.rawAt k) →
      PutEffect s fault height hash txHashes elements (.ok ()) (s1.putIndex height hash txHashes)

theorem minHeight_of_store {s : Storage} {st : Store} (h : s.store = some st) :
    s.minHeight = st.minHeight := by
  simp only [minHeight, h, Option.map_some, Option.getD_some]

theorem maxContiguousHeight_of_store {s : Storage} {st : Store} (h : s.store = some st) :
    s.maxContiguousHeight = st.maxContiguousHeight := by
  simp only [maxContiguousHeight, h, Option.map_some, Option.getD_some]

/-- A store that was never created reports a contiguous height of zero. -/
theorem maxContiguousHeight_of_none {s : Storage} (h : s.store = none) :
    s.maxContiguousHeight = 0 := by
  simp only [maxContiguousHeight, h, Option.map_none, Option.getD_none]

theorem anchor_le (s : Storage) (height : Nat) : s.anchor height ≤ height := by
  unfold anchor
  cases s.anchorFloor with
  | none => exact Nat.le_refl _
  | some floor =>
      by_cases hle : floor ≤ height
      · rw [Option.filter_some, if_pos (decide_eq_true hle)]
        exact hle
      · rw [Option.filter_some, if_neg (by simpa using hle)]
        exact Nat.le_refl _

/-- A first write from the floor on creates the store no lower than the floor. -/
theorem le_anchor {s : Storage} {height : Nat} (h : s.anchorFloor.getD 0 ≤ height) :
    s.anchorFloor.getD 0 ≤ s.anchor height := by
  unfold anchor
  cases haf : s.anchorFloor with
  | none => exact Nat.zero_le _
  | some floor =>
      rw [haf, Option.getD_some] at h
      rw [Option.getD_some, Option.filter_some, if_pos (decide_eq_true h)]
      exact Nat.le_refl _

theorem rawAt_openStore (s : Storage) (height k : Nat) :
    (s.openStore height).stored k = s.rawAt k := by
  simp only [openStore, rawAt]
  cases s.store with
  | none => exact Store.stored_create ..
  | some st => rfl

/-- A blockstore write either leaves every height as it was or sets exactly the
    one it was asked for. -/
theorem putBlock_cases (s : Storage) (fault : Fault) (height : Nat) (combined : Bytes) :
    (∃ e s', s.putBlock fault height combined = (.error e, s') ∧ Frame s s' ∧
      ∀ k, s'.rawAt k = s.rawAt k) ∨
    (∃ s', s.putBlock fault height combined = (.ok (), s') ∧ Frame s s' ∧
      ∀ k, s'.rawAt k = if k = height then some combined else s.rawAt k) := by
  unfold putBlock
  by_cases hc : s.store.isNone ∧ fault = .create
  · rw [if_pos hc]
    exact Or.inl ⟨_, _, rfl, Frame.refl s, fun _ => rfl⟩
  · rw [if_neg hc]
    dsimp only
    by_cases hw : fault = .write
    · rw [if_pos hw]
      exact Or.inl ⟨_, _, rfl, ⟨rfl, rfl, rfl, rfl, rfl⟩, rawAt_openStore s height⟩
    · rw [if_neg hw]
      cases hst : (s.openStore height).writeBlock height combined with
      | error e =>
          exact Or.inl ⟨_, _, rfl, ⟨rfl, rfl, rfl, rfl, rfl⟩, rawAt_openStore s height⟩
      | ok st' =>
          refine Or.inr ⟨_, rfl, ⟨rfl, rfl, rfl, rfl, rfl⟩, ?_⟩
          intro k
          show st'.stored k = _
          rw [Store.stored_writeBlock hst, rawAt_openStore]

/-- **The spec of `put`**: its result and its new state are one of the three
    effects. -/
theorem put_effect (s : Storage) (fault : Fault) (height : Nat) (hash : Bytes32)
    (txHashes : List Bytes32) (elements : List Bytes) :
    PutEffect s fault height hash txHashes elements
      (s.put fault height hash txHashes elements).1
      (s.put fault height hash txHashes elements).2 := by
  simp only [put]
  by_cases ha : elements.length ≠ arity s.chain
  · rw [if_pos ha]
    exact .refused _ _ (Frame.refl s) fun _ => rfl
  · rw [if_neg ha]
    have ha' : elements.length = arity s.chain := not_not.mp ha
    rcases putBlock_cases s fault height (encode elements) with
      ⟨e, s', hp, hf, hr⟩ | ⟨s', hp, hf, hr⟩
    · rw [hp]
      exact .refused e s' hf hr
    · rw [hp]
      dsimp only
      by_cases hcm : fault = .commit
      · rw [if_pos hcm]
        exact .unindexed _ s' hcm hf ha' hr
      · rw [if_neg hcm]
        exact .done s' hf ha' hr

/-- A put of the right arity that nothing disturbs succeeds. -/
theorem put_none {s : Storage} {height : Nat} {elements : List Bytes} {st' : Store}
    (hash : Bytes32) (txHashes : List Bytes32)
    (hlen : elements.length = arity s.chain)
    (hw : (s.openStore height).writeBlock height (encode elements) = .ok st') :
    s.put .none height hash txHashes elements
      = (.ok (), ({ s with store := some st' } : Storage).putIndex height hash txHashes) := by
  have hcreate : ¬ (s.store.isNone ∧ Fault.none = .create) := fun h => nomatch h.2
  simp only [put, putBlock]
  rw [if_neg (not_not.mpr hlen), if_neg hcreate, if_neg (fun h => nomatch h), hw]
  dsimp only
  rw [if_neg (fun h => nomatch h)]

/-- The first write of a store that has no floor. -/
theorem writeBlock_fresh (blockdb : Blockdb) (chain : Chain) (height : Nat) (bytes : Bytes) :
    ∃ st', ((fresh blockdb chain none).openStore height).writeBlock height bytes = .ok st' ∧
      st'.stored height = some bytes := by
  have hmin : ((fresh blockdb chain none).openStore height).minHeight ≤ height :=
    Nat.le_of_eq (Store.minHeight_create blockdb height)
  obtain ⟨st', hw⟩ : ∃ st', ((fresh blockdb chain none).openStore height).writeBlock height
      bytes = .ok st' := Store.writeBlock_eq_ok_iff.mpr hmin
  refine ⟨st', hw, ?_⟩
  rw [Store.stored_writeBlock hw, if_pos rfl]

/-- A put whose index batch fails leaves the record behind all the same. -/
theorem put_commit {s : Storage} {height : Nat} {elements : List Bytes} {st' : Store}
    (hash : Bytes32) (txHashes : List Bytes32)
    (hlen : elements.length = arity s.chain)
    (hw : (s.openStore height).writeBlock height (encode elements) = .ok st') :
    s.put .commit height hash txHashes elements
      = (.error "commit", { s with store := some st' }) := by
  have hcreate : ¬ (s.store.isNone ∧ Fault.commit = .create) := fun h => nomatch h.2
  unfold put putBlock
  dsimp only
  rw [if_neg (not_not.mpr hlen), if_neg hcreate, if_neg (fun h => nomatch h), hw]
  dsimp only
  rw [if_pos rfl]

@[simp] theorem rawAt_putIndex (s : Storage) (height : Nat) (hash : Bytes32)
    (txHashes : List Bytes32) (k : Nat) :
    (s.putIndex height hash txHashes).rawAt k = s.rawAt k := rfl

@[simp] theorem chain_putIndex (s : Storage) (height : Nat) (hash : Bytes32)
    (txHashes : List Bytes32) :
    (s.putIndex height hash txHashes).chain = s.chain := rfl

/-- The entries of a batch, one per position. -/
theorem mem_txEntries {height : Nat} {ids : List Bytes32} {key : Bytes32} {slice : Bytes} :
    (key, slice) ∈ txEntries height ids ↔
      ∃ idx, ids[idx]? = some key ∧ slice = toLeBytes 8 height ++ toLeBytes 4 idx := by
  constructor
  · intro h
    obtain ⟨⟨t, idx⟩, hmem, heq⟩ := List.mem_map.mp h
    obtain ⟨rfl, rfl⟩ := Prod.mk.inj heq
    exact ⟨idx, List.mem_zipIdx_iff_getElem?.mp hmem, rfl⟩
  · rintro ⟨idx, hid, rfl⟩
    exact List.mem_map.mpr ⟨(key, idx), List.mem_zipIdx_iff_getElem?.mpr hid, rfl⟩

/-- The height an index entry spells. -/
theorem height_of_entry {height : Nat} (hh : height < 2 ^ 64) :
    fromLeBytes (toLeBytes 8 height) = height := by
  rw [fromLeBytes_toLeBytes]
  exact Nat.mod_eq_of_lt hh

/-- The location an index entry spells. -/
theorem location_of_entry {height idx : Nat} (hh : height < 2 ^ 64) (hi : idx < 2 ^ 32) :
    (fromLeBytes ((toLeBytes 8 height ++ toLeBytes 4 idx).take 8),
      fromLeBytes ((toLeBytes 8 height ++ toLeBytes 4 idx).drop 8)) = (height, idx) := by
  rw [List.take_left' (toLeBytes_length 8 height),
    List.drop_left' (toLeBytes_length 8 height), height_of_entry hh,
    fromLeBytes_toLeBytes, Nat.mod_eq_of_lt (show idx < 256 ^ 4 by omega)]

/-- A new entry answers for its own key and for no other. -/
theorem heightOfHash_of_cons {s s' : Storage} {height : Nat} {hash : Bytes32}
    (hindex : s'.hashToHeight = (hash, toLeBytes 8 height) :: s.hashToHeight)
    (hh : height < 2 ^ 64) (key : Bytes32) :
    s'.heightOfHash key = if key = hash then .ok (some height) else s.heightOfHash key := by
  simp only [heightOfHash, hindex]
  by_cases hkey : key = hash
  · rw [if_pos hkey, hkey, List.lookup_cons, beq_self_eq_true]
    dsimp only
    rw [toLeBytes_length, if_neg (not_not.mpr rfl), height_of_entry hh]
  · rw [if_neg hkey, List.lookup_cons, beq_false_of_ne hkey]

/-- A new batch answers for its own keys and for no others. -/
theorem getTxLocation_of_batch {s s' : Storage} {height : Nat} {ids : List Bytes32}
    (hindex : s'.txToBlock = (txEntries height ids).reverse ++ s.txToBlock)
    (hh : height < 2 ^ 64) (key : Bytes32) :
    (∃ idx, ids[idx]? = some key ∧
      s'.getTxLocation key = .ok (some (height, idx % 2 ^ 32))) ∨
    (key ∉ ids ∧ s'.getTxLocation key = s.getTxLocation key) := by
  simp only [getTxLocation, hindex, List.lookup_append]
  cases hl : (txEntries height ids).reverse.lookup key with
  | some slice =>
      refine Or.inl ?_
      have hmem : (key, slice) ∈ txEntries height ids := List.mem_reverse.mp (mem_of_lookup hl)
      obtain ⟨idx, hid, rfl⟩ := mem_txEntries.mp hmem
      refine ⟨idx, hid, ?_⟩
      simp only [Option.some_or, List.length_append, toLeBytes_length]
      rw [if_neg (by decide), List.take_left' (toLeBytes_length 8 height),
        List.drop_left' (toLeBytes_length 8 height), height_of_entry hh, fromLeBytes_toLeBytes]
      rfl
  | none =>
      refine Or.inr ⟨?_, by rw [Option.none_or]⟩
      intro hmem
      obtain ⟨idx, hid⟩ := List.mem_iff_getElem?.mp hmem
      have hentry : (key, toLeBytes 8 height ++ toLeBytes 4 idx)
          ∈ (txEntries height ids).reverse :=
        List.mem_reverse.mpr (mem_txEntries.mpr ⟨idx, hid, rfl⟩)
      have hnone := List.lookup_eq_none_iff.mp hl _ hentry
      dsimp only at hnone
      rw [bne_self_eq_false] at hnone
      cases hnone

/-! ## What reads see -/

theorem has_iff_rawAt {s : Storage} {height : Nat} :
    s.Has height ↔ ∃ bytes, s.rawAt height = some bytes := by
  simp only [Has, rawAt]
  cases s.store with
  | none =>
      constructor
      · rintro ⟨st, h, -⟩; cases h
      · rintro ⟨_, h⟩; cases h
  | some st =>
      constructor
      · rintro ⟨st', h, hhas⟩
        rw [← Option.some.inj h] at hhas
        exact Store.has_iff_stored.mp hhas
      · intro h
        exact ⟨st, rfl, Store.has_iff_stored.mpr h⟩

/-- A stored height is inside the range that reads are guarded by. -/
theorem Store.guard_of_stored {st : Store} {height : Nat} {record : Bytes}
    (h : st.stored height = some record) :
    ¬ (height < st.minHeight ∨ st.heightHighwater < height) := by
  have hhas : st.Has height := Store.has_iff_stored.mpr ⟨record, h⟩
  have hlo := Store.min_le_of_has hhas
  have hhi := Store.le_heightHighwater hhas
  omega

/-- The range guard in front of a read never hides a stored record. -/
theorem getElement_eq (J : Codec) (s : Storage) (height idx : Nat) :
    s.getElement J height idx
      = match s.rawAt height with
        | none => .ok none
        | some record =>
            match element J record idx with
            | .error _ => .error s!"decoding stored record at height {height}"
            | .ok part => .ok part := by
  simp only [getElement, rawAt]
  cases s.store with
  | none => rfl
  | some st =>
      dsimp only [Option.bind_some]
      cases hr : st.stored height with
      | none =>
          split
          · rfl
          rename_i hin
          rw [Store.readBlock_of_min_le (by omega), hr]
      | some record =>
          rw [if_neg (Store.guard_of_stored hr), Store.stored_eq_some.mp hr]

/-- The same guard in front of a whole record. -/
theorem getRecord_eq (s : Storage) (height : Nat) :
    s.getRecord height = (s.rawAt height).filter isCombinedRecord := by
  simp only [getRecord, rawAt]
  cases s.store with
  | none => rfl
  | some st =>
      dsimp only [Option.bind_some]
      cases hr : st.stored height with
      | none => exact ite_self _
      | some record => exact if_neg (Store.guard_of_stored hr)

/-- A read by height comes back empty only where nothing is stored. -/
theorem getByHeight_eq_none_iff (J : Codec) (s : Storage) (height : Nat) :
    s.getByHeight J height = .ok none ↔ s.rawAt height = none := by
  simp only [getByHeight, getElement_eq]
  cases s.rawAt height with
  | none => exact ⟨fun _ => rfl, fun _ => rfl⟩
  | some record =>
      constructor
      · intro h
        cases he : element J record BLOCK with
        | error e => simp only [he] at h; cases h
        | ok part =>
            simp only [he] at h
            rw [Except.ok.inj h] at he
            exact absurd he (element_block_ne_none J record)
      · intro h
        cases h

/-- A put whose blockstore stage is not disturbed: nothing fails before the
    block is written, and the height is not below the minimum. -/
def Writable (s : Storage) (fault : Fault) (height : Nat) (elements : List Bytes) : Prop :=
  elements.length = arity s.chain ∧ fault ≠ .create ∧ fault ≠ .write ∧
    (s.openStore height).minHeight ≤ height

/-- **When a put succeeds**: the record has the chain's arity, nothing fails on the
    way, and the height is not below the minimum. -/
theorem put_ok_iff {s : Storage} {fault : Fault} {height : Nat} {hash : Bytes32}
    {txHashes : List Bytes32} {elements : List Bytes} :
    (∃ s', s.put fault height hash txHashes elements = (.ok (), s')) ↔
      elements.length = arity s.chain ∧ ¬ (s.store.isNone ∧ fault = .create) ∧
        fault ≠ .write ∧ fault ≠ .commit ∧ (s.openStore height).minHeight ≤ height := by
  simp only [put, putBlock]
  constructor
  · rintro ⟨s', h⟩
    split at h
    · cases h
    rename_i hlen
    split at h
    · cases h
    rename_i s1 hblock
    split at h
    · cases h
    rename_i hcommit
    split at hblock
    · cases hblock
    rename_i hcreate
    split at hblock
    · cases hblock
    rename_i hwrite
    split at hblock
    · cases hblock
    rename_i st' hw
    exact ⟨not_not.mp hlen, hcreate, hwrite, hcommit,
      Store.writeBlock_eq_ok_iff.mp ⟨st', hw⟩⟩
  · rintro ⟨hlen, hcreate, hwrite, hcommit, hmin⟩
    obtain ⟨st', hw⟩ := Store.writeBlock_eq_ok_iff.mpr hmin
    rw [if_neg (not_not.mpr hlen), if_neg hcreate, if_neg hwrite, hw]
    dsimp only
    rw [if_neg hcommit]
    exact ⟨_, rfl⟩

theorem rawAt_put_of_writable {s : Storage} {fault : Fault} {height : Nat}
    {elements : List Bytes} (h : s.Writable fault height elements) (hash : Bytes32)
    (txHashes : List Bytes32) :
    ((s.put fault height hash txHashes elements).2.rawAt height).isSome := by
  obtain ⟨hlen, hcreate, hwrite, hmin⟩ := h
  obtain ⟨st', hw⟩ : ∃ st', (s.openStore height).writeBlock height (encode elements)
      = .ok st' := Store.writeBlock_eq_ok_iff.mpr hmin
  have hread : (st'.stored height).isSome := by
    rw [Store.stored_writeBlock hw, if_pos rfl]
    rfl
  cases fault with
  | none =>
      rw [put_none hash txHashes hlen hw]
      exact hread
  | commit =>
      rw [put_commit hash txHashes hlen hw]
      exact hread
  | create => exact absurd rfl hcreate
  | write => exact absurd rfl hwrite

/-- A put never takes a record away. -/
theorem rawAt_put_mono (s : Storage) (fault : Fault) (height : Nat) (hash : Bytes32)
    (txHashes : List Bytes32) (elements : List Bytes) {k : Nat}
    (h : (s.rawAt k).isSome) :
    ((s.put fault height hash txHashes elements).2.rawAt k).isSome := by
  have hset : ∀ s1 : Storage, (∀ j, s1.rawAt j
      = if j = height then some (encode elements) else s.rawAt j) → (s1.rawAt k).isSome := by
    intro s1 hr
    rw [hr k]
    by_cases hk : k = height
    · rw [if_pos hk]; rfl
    · rw [if_neg hk]; exact h
  have heff := s.put_effect fault height hash txHashes elements
  generalize s.put fault height hash txHashes elements = out at heff ⊢
  obtain ⟨result, s'⟩ := out
  cases heff with
  | refused e _ hf hr =>
      rw [hr k]
      exact h
  | unindexed e _ _ hf hlen hr => exact hset _ hr
  | done s1 hf hlen hr => exact hset s1 hr

/-- What is stored at a height after a put was there before, or is the record
    just written. -/
theorem rawAt_put_cases {s : Storage} {fault : Fault} {height : Nat} {hash : Bytes32}
    {txHashes : List Bytes32} {elements : List Bytes} {k : Nat} {raw : Bytes}
    (h : (s.put fault height hash txHashes elements).2.rawAt k = some raw) :
    s.rawAt k = some raw ∨ (k = height ∧ raw = encode elements) := by
  have hset : ∀ s1 : Storage, (∀ j, s1.rawAt j
      = if j = height then some (encode elements) else s.rawAt j) →
      s1.rawAt k = some raw → s.rawAt k = some raw ∨
        (k = height ∧ raw = encode elements) := by
    intro s1 hr h1
    rw [hr k] at h1
    by_cases hk : k = height
    · rw [if_pos hk] at h1
      exact Or.inr ⟨hk, (Option.some.inj h1).symm⟩
    · rw [if_neg hk] at h1
      exact Or.inl h1
  have heff := s.put_effect fault height hash txHashes elements
  generalize s.put fault height hash txHashes elements = out at heff h
  obtain ⟨result, s'⟩ := out
  cases heff with
  | refused e _ _ hr =>
      rw [hr k] at h
      exact Or.inl h
  | unindexed e _ _ _ _ hr => exact hset _ hr h
  | done s1 _ _ hr => exact hset s1 hr h

/-- Reading element 0 of a record of compact JSON values. -/
theorem getByHeight_of_rawAt (J : Codec) {s : Storage} {height : Nat} {v : Value}
    {vs : List Value} (hlen : 1 ≤ vs.length)
    (h : s.rawAt height = some (encode ((v :: vs).map J.toVec))) :
    s.getByHeight J height = .ok (some (J.toVec v)) := by
  simp only [getByHeight]
  rw [getElement_eq, h]
  dsimp only
  rw [element_encode J (by rw [List.length_cons]; omega)]
  rfl

end Storage

end NeveStorage
