import Neve.FirstGapProofs
import Neve.OutcomeProofs
import Neve.JsonValueProofs

/-! # Blockdb — the blockstore library

    Blocks are kept by a library the program only calls.  `Blockdb` is what the
    program relies on of it: its operations, over states of any type, and how they
    behave.  A store is a map from heights to bytes over a minimum height fixed when
    it is created, and it reports two marks: the highest stored height, and the
    frontier up to which nothing from the minimum on is missing.

    Both marks start one below the minimum, and at zero for a minimum of zero.  So a
    frontier of zero over a minimum of zero does not say that the genesis is stored,
    and the frontier moves on over height one whether it is or not. -/

namespace NeveStorage

open JsonValue FirstGap Outcome

/-- The blockstore library: what the program calls, and what it relies on. -/
structure Blockdb where
  /-- An open store. -/
  State : Type
  create : Nat → State
  minBlockHeight : State → Nat
  heightHighwater : State → Nat
  maxContiguousHeight : State → Nat
  readBlock : State → Nat → Except String (Option Bytes)
  writeBlock : State → Nat → Bytes → Except String State
  /-- The minimum height is the one the store was created with, and no write moves it. -/
  min_create : ∀ min, minBlockHeight (create min) = min
  min_write : ∀ {st st' height bytes}, writeBlock st height bytes = .ok st' →
    minBlockHeight st' = minBlockHeight st
  /-- A read is refused below the minimum, and answered from it on. -/
  read_refused : ∀ {st height}, height < minBlockHeight st →
    ∃ e, readBlock st height = .error e
  read_answered : ∀ {st height}, minBlockHeight st ≤ height →
    ∃ record, readBlock st height = .ok record
  /-- A write is refused below the minimum, and taken from it on. -/
  write_refused : ∀ {st height} (bytes : Bytes), height < minBlockHeight st →
    ∃ e, writeBlock st height bytes = .error e
  write_taken : ∀ {st height} (bytes : Bytes), minBlockHeight st ≤ height →
    ∃ st', writeBlock st height bytes = .ok st'
  /-- A store just created holds nothing. -/
  read_create : ∀ min height bytes, readBlock (create min) height ≠ .ok (some bytes)
  /-- A write is read back at its height, over what was there, and nowhere else. -/
  read_write : ∀ {st st' height bytes}, writeBlock st height bytes = .ok st' →
    ∀ k, readBlock st' k = if k = height then .ok (some bytes) else readBlock st k
  /-- The high-water mark is the highest stored height, or one below the minimum. -/
  le_highwater : ∀ {st height bytes}, readBlock st height = .ok (some bytes) →
    height ≤ heightHighwater st
  highwater_stored : ∀ st, (∃ bytes, readBlock st (heightHighwater st) = .ok (some bytes)) ∨
    (∀ height bytes, readBlock st height ≠ .ok (some bytes)) ∧
      heightHighwater st = minBlockHeight st - 1
  /-- The frontier starts one below the minimum and moves on over every stored height
      after it. -/
  frontier : ∀ st, IsFirstGap (fun height => ∃ bytes, readBlock st height = .ok (some bytes))
    (minBlockHeight st - 1 + 1) (maxContiguousHeight st + 1)

/-! ## A blockstore in memory -/

/-- The writes a store took, newest first, over its minimum height. -/
structure Memory where
  minHeight : Nat
  blocks : List (Nat × Bytes)
  min_le : ∀ e ∈ blocks, minHeight ≤ e.1

namespace Memory

def heights (m : Memory) : List Nat := m.blocks.map Prod.fst

def create (minHeight : Nat) : Memory := ⟨minHeight, [], fun _ h => absurd h List.not_mem_nil⟩

def readBlock (m : Memory) (height : Nat) : Except String (Option Bytes) :=
  if height < m.minHeight then .error "height below the minimum" else .ok (m.blocks.lookup height)

def writeBlock (m : Memory) (height : Nat) (bytes : Bytes) : Except String Memory :=
  if h : m.minHeight ≤ height then
    .ok ⟨m.minHeight, (height, bytes) :: m.blocks, List.forall_mem_cons.mpr ⟨h, m.min_le⟩⟩
  else .error "height below the minimum"

def heightHighwater (m : Memory) : Nat := m.heights.max?.getD (m.minHeight - 1)

def maxContiguousHeight (m : Memory) : Nat := firstGap m.heights (m.minHeight - 1 + 1) - 1

theorem readBlock_eq_some {m : Memory} {height : Nat} {bytes : Bytes} :
    m.readBlock height = .ok (some bytes) ↔ m.blocks.lookup height = some bytes := by
  unfold readBlock
  by_cases h : height < m.minHeight
  · rw [if_pos h]
    constructor
    · intro hread
      cases hread
    · intro hlookup
      exact absurd (m.min_le _ (mem_of_lookup hlookup)) (Nat.not_le.mpr h)
  · rw [if_neg h, Except.ok.injEq]

theorem mem_heights_iff {m : Memory} {height : Nat} :
    height ∈ m.heights ↔ ∃ bytes, m.readBlock height = .ok (some bytes) :=
  mem_keys_iff_lookup.trans (exists_congr fun _ => readBlock_eq_some.symm)

theorem writeBlock_eq_ok {m m' : Memory} {height : Nat} {bytes : Bytes}
    (h : m.writeBlock height bytes = .ok m') :
    m.minHeight ≤ height ∧ m'.minHeight = m.minHeight ∧
      m'.blocks = (height, bytes) :: m.blocks := by
  unfold writeBlock at h
  by_cases hle : m.minHeight ≤ height
  · rw [dif_pos hle] at h
    rw [← Except.ok.inj h]
    exact ⟨hle, rfl, rfl⟩
  · rw [dif_neg hle] at h
    cases h

theorem readBlock_writeBlock {m m' : Memory} {height : Nat} {bytes : Bytes}
    (h : m.writeBlock height bytes = .ok m') (k : Nat) :
    m'.readBlock k = if k = height then .ok (some bytes) else m.readBlock k := by
  obtain ⟨hle, hmin, hblocks⟩ := writeBlock_eq_ok h
  unfold readBlock
  rw [hmin, hblocks, List.lookup_cons]
  by_cases hk : k = height
  · rw [if_pos hk, hk, if_neg (Nat.not_lt.mpr hle), beq_self_eq_true]
  · rw [if_neg hk, beq_false_of_ne hk]

/-- The marks of a store in memory are those the library promises. -/
theorem frontier (m : Memory) :
    IsFirstGap (fun height => ∃ bytes, m.readBlock height = .ok (some bytes))
      (m.minHeight - 1 + 1) (m.maxContiguousHeight + 1) := by
  have hgap := isFirstGap_firstGap m.heights (m.minHeight - 1 + 1)
  have hsucc : m.maxContiguousHeight + 1 = firstGap m.heights (m.minHeight - 1 + 1) :=
    Nat.sub_add_cancel (Nat.le_trans (Nat.le_add_left 1 _) hgap.le)
  rw [hsucc]
  exact ⟨hgap.le, fun h => hgap.gap (mem_heights_iff.mpr h),
    fun k hlo hhi => mem_heights_iff.mp (hgap.filled k hlo hhi)⟩

theorem highwater_stored (m : Memory) :
    (∃ bytes, m.readBlock m.heightHighwater = .ok (some bytes)) ∨
    (∀ height bytes, m.readBlock height ≠ .ok (some bytes)) ∧
      m.heightHighwater = m.minHeight - 1 := by
  unfold heightHighwater
  cases hmax : m.heights.max? with
  | none =>
      refine Or.inr ⟨fun height bytes hread => ?_, rfl⟩
      have hmem := mem_heights_iff.mpr ⟨bytes, hread⟩
      rw [List.max?_eq_none_iff.mp hmax] at hmem
      exact List.not_mem_nil hmem
  | some top => exact Or.inl (mem_heights_iff.mp (List.max?_eq_some_iff.mp hmax).1)

theorem le_highwater {m : Memory} {height : Nat} {bytes : Bytes}
    (h : m.readBlock height = .ok (some bytes)) : height ≤ m.heightHighwater := by
  have hmem : height ∈ m.heights := mem_heights_iff.mpr ⟨bytes, h⟩
  unfold heightHighwater
  cases hmax : m.heights.max? with
  | none =>
      rw [List.max?_eq_none_iff.mp hmax] at hmem
      cases hmem
  | some top => exact (List.max?_eq_some_iff.mp hmax).2 height hmem

end Memory

/-- The library over stores in memory. -/
def memory : Blockdb where
  State := Memory
  create := Memory.create
  minBlockHeight := Memory.minHeight
  heightHighwater := Memory.heightHighwater
  maxContiguousHeight := Memory.maxContiguousHeight
  readBlock := Memory.readBlock
  writeBlock := Memory.writeBlock
  min_create _ := rfl
  min_write h := (Memory.writeBlock_eq_ok h).2.1
  read_refused h := ⟨_, if_pos h⟩
  read_answered h := ⟨_, if_neg (Nat.not_lt.mpr h)⟩
  write_refused _ h := ⟨_, dif_neg (Nat.not_le.mpr h)⟩
  write_taken _ h := ⟨_, dif_pos h⟩
  read_create min height bytes := by
    intro h
    have hlookup := Memory.readBlock_eq_some.mp h
    cases hlookup
  read_write h := Memory.readBlock_writeBlock h
  le_highwater h := Memory.le_highwater h
  highwater_stored := Memory.highwater_stored
  frontier := Memory.frontier

end NeveStorage
