import Neve.StorageMapProofs
import Neve.PlatformIngestProofs

/-! # Emptiness — whether anything was ever written

    A store counts as empty as long as its blockstore does not exist.  Creating the
    blockstore and writing the first block are two steps, so a first write that fails
    leaves a store that is not empty and holds nothing; and so does a start that finds the
    index file of a creation that failed.  In a run without either, being empty means that
    nothing is stored, and in no other (`empty_means_nothing_iff`). -/

namespace NeveEmptiness

open JsonValue ByteText NeveRecord NeveStorage NeveStorageMap

/-! ## A node's store over its restarts -/

/-- The store as the process has it, and the minimum height in an index file that a failed
    creation left in its directory, if there is one. -/
structure Node where
  storage : Storage
  leftover : Option Nat

/-- A put (with what its creation of the blockstore leaves behind should it fail), or a
    restart with the floor then configured. -/
inductive Action where
  | put (p : Put) (left : Option Nat)
  | reopen (anchorFloor : Option Nat)

/-- The index file there is after a put. -/
def leftoverAfter (n : Node) (p : Put) (left : Option Nat) (s' : Storage) : Option Nat :=
  if s'.store.isSome then none
  else if p.fault = .create ∧ p.elements.length = arity n.storage.chain then left
  else n.leftover

/-- `Storage::open` finds a blockstore where there is an index file. -/
def reopen (n : Node) (anchorFloor : Option Nat) : Storage :=
  { n.storage with
    anchorFloor := anchorFloor
    store := n.storage.store <|> n.leftover.map (Store.create n.storage.blockdb) }

def step (n : Node) : Action → Option Node
  | .put p left =>
      let s' := (n.storage.put p.fault p.height p.hash p.txHashes p.elements).2
      some ⟨s', leftoverAfter n p left s'⟩
  | .reopen anchorFloor => some ⟨reopen n anchorFloor, none⟩

/-- A data dir nothing was ever written to. -/
def fresh (blockdb : Blockdb) (chain : Chain) (anchorFloor : Option Nat) : Node :=
  ⟨Storage.fresh blockdb chain anchorFloor, none⟩

/-! ## What a put leaves -/

/-- Some block is stored. -/
def HasBlock (s : Storage) : Prop := ∃ height, s.Has height

/-- **Emptiness means nothing stored.** -/
def EmptyMeansNothing (n : Node) : Prop := n.storage.isEmpty = false ↔ HasBlock n.storage

/-- A step that does not bring a blockstore without a block into being: no write fails
    while nothing is stored, and no restart finds an index file beside nothing. -/
def Clean (n : Node) : Action → Prop
  | .put p _ => HasBlock n.storage ∨ p.elements.length ≠ arity n.storage.chain ∨
    p.fault ≠ .write
  | .reopen _ => HasBlock n.storage ∨ n.leftover = none

section Put

variable {s : Storage} {p : Put}

theorem isEmpty_false_iff : s.isEmpty = false ↔ ∃ st, s.store = some st := by
  simp only [Storage.isEmpty]
  cases s.store with
  | none => exact ⟨fun h => (by cases h), fun ⟨_, h⟩ => (by cases h)⟩
  | some st => exact ⟨fun _ => ⟨st, rfl⟩, fun _ => rfl⟩

theorem isEmpty_of_hasBlock (h : HasBlock s) : s.isEmpty = false := by
  obtain ⟨height, st, hst, -⟩ := h
  exact isEmpty_false_iff.mpr ⟨st, hst⟩

/-- A put never takes the blocks away. -/
theorem HasBlock.put (h : HasBlock s) :
    HasBlock (s.put p.fault p.height p.hash p.txHashes p.elements).2 := by
  obtain ⟨height, hhas⟩ := h
  obtain ⟨bytes, hraw⟩ := Storage.has_iff_rawAt.mp hhas
  have hkept := s.rawAt_put_mono p.fault p.height p.hash p.txHashes p.elements
    (k := height) (by rw [hraw]; rfl)
  obtain ⟨bytes', hraw'⟩ := Option.isSome_iff_exists.mp hkept
  exact ⟨height, Storage.has_iff_rawAt.mpr ⟨bytes', hraw'⟩⟩

theorem putBlock_create (hnone : s.store = none) (height : Nat) (combined : Bytes) :
    s.putBlock .create height combined = (.error "opening blockstore", s) := by
  have hcreate : s.store.isNone ∧ Fault.create = .create := ⟨by rw [hnone]; rfl, rfl⟩
  rw [Storage.putBlock, if_pos hcreate]

theorem putBlock_write (s : Storage) (height : Nat) (combined : Bytes) :
    s.putBlock .write height combined
      = (.error "write_block", { s with store := some (s.openStore height) }) := by
  have hcreate : ¬(s.store.isNone ∧ Fault.write = .create) := fun h => by cases h.2
  rw [Storage.putBlock, if_neg hcreate]
  rfl

/-- A put on a store that was never created: it is refused, leaves an empty blockstore, or
    writes. -/
theorem put_uncreated (hnone : s.store = none) :
    let s' := (s.put p.fault p.height p.hash p.txHashes p.elements).2
    (p.elements.length ≠ arity s.chain ∨ p.fault = .create → s'.store = none) ∧
    (p.elements.length = arity s.chain → p.fault = .write →
      s'.isEmpty = false ∧ ¬HasBlock s') ∧
    (p.elements.length = arity s.chain → p.fault ≠ .create → p.fault ≠ .write →
      HasBlock s') := by
  -- the store that the put opens starts at or below its height
  have hmin : (s.openStore p.height).minHeight ≤ p.height := by
    simp only [Storage.openStore, hnone, Option.getD_none, Store.minHeight_create, Storage.anchor]
    cases s.anchorFloor with
    | none => exact le_refl _
    | some floor =>
        rw [Option.filter_some]
        by_cases hle : floor ≤ p.height
        · rw [if_pos (decide_eq_true hle)]
          exact hle
        · rw [if_neg (by simpa using hle)]
          exact le_refl _
  refine ⟨?_, ?_, ?_⟩
  · intro hrefused
    by_cases hlen : p.elements.length = arity s.chain
    -- refused before the store is opened, or while it is
    · have hcreate : p.fault = .create := hrefused.resolve_left fun h => h hlen
      simp only [Storage.put]
      rw [if_neg (not_not.mpr hlen), hcreate, putBlock_create hnone]
      exact hnone
    · simp only [Storage.put]
      rw [if_pos hlen]
      exact hnone
  · intro hlen hwrite
    have hput : (s.put p.fault p.height p.hash p.txHashes p.elements).2
        = { s with store := some (s.openStore p.height) } := by
      simp only [Storage.put]
      rw [if_neg (not_not.mpr hlen), hwrite, putBlock_write]
    -- the write failed after the store was opened: it is there, with no block
    rw [hput]
    refine ⟨rfl, ?_⟩
    rintro ⟨height, hhas⟩
    obtain ⟨bytes, hraw⟩ := Storage.has_iff_rawAt.mp hhas
    have hsame := Storage.rawAt_openStore s p.height height
    rw [show s.rawAt height = none by simp only [Storage.rawAt, hnone, Option.bind_none]] at hsame
    rw [show ({ s with store := some (s.openStore p.height) } : Storage).rawAt height
      = (s.openStore p.height).stored height from rfl, hsame] at hraw
    cases hraw
  · intro hlen hcreate hwrite
    have hwritable : s.Writable p.fault p.height p.elements := ⟨hlen, hcreate, hwrite, hmin⟩
    have hsome := Storage.rawAt_put_of_writable hwritable p.hash p.txHashes
    obtain ⟨bytes, hraw⟩ := Option.isSome_iff_exists.mp hsome
    exact ⟨p.height, Storage.has_iff_rawAt.mpr ⟨bytes, hraw⟩⟩

end Put

/-! ## Runs -/

/-- **The step lemma**: from a store whose emptiness means nothing stored, a step keeps it
    so exactly if it is clean. -/
theorem step_iff {n n' : Node} {a : Action} (h : EmptyMeansNothing n)
    (hstep : step n a = some n') : EmptyMeansNothing n' ↔ Clean n a := by
  by_cases hblock : HasBlock n.storage
  · -- what is stored stays stored, whatever the step
    have hclean : Clean n a := by
      cases a with
      | put p left => exact Or.inl hblock
      | reopen floor => exact Or.inl hblock
    have hkept : HasBlock n'.storage := by
      cases a with
      | put p left =>
          rw [← Option.some.inj hstep]
          exact hblock.put
      | reopen floor =>
          rw [← Option.some.inj hstep]
          obtain ⟨height, st, hst, hhas⟩ := hblock
          exact ⟨height, st, by simp only [reopen, hst]; rfl, hhas⟩
    exact ⟨fun _ => hclean, fun _ => ⟨fun _ => hkept, fun _ => isEmpty_of_hasBlock hkept⟩⟩
  · have hnone : n.storage.store = none := by
      cases hst : n.storage.store with
      | none => rfl
      | some st => exact absurd (h.mp (isEmpty_false_iff.mpr ⟨st, hst⟩)) hblock
    cases a with
    | put p left =>
        obtain ⟨hrefused, hfailed, hwritten⟩ := put_uncreated (p := p) hnone
        rw [← Option.some.inj hstep]
        simp only [EmptyMeansNothing, Clean]
        by_cases hlen : p.elements.length = arity n.storage.chain
        case neg =>
          have hstore := hrefused (Or.inl hlen)
          refine ⟨fun _ => Or.inr (Or.inl hlen), fun _ => ?_⟩
          rw [Storage.isEmpty, hstore]
          refine ⟨fun hfalse => (by cases hfalse), ?_⟩
          rintro ⟨height, st, hst, -⟩
          rw [hstore] at hst
          cases hst
        by_cases hwrite : p.fault = .write
        · obtain ⟨hnonempty, hno⟩ := hfailed hlen hwrite
          constructor
          · intro hiff
            exact absurd (hiff.mp hnonempty) hno
          · rintro (hb | hl | hw)
            · exact absurd hb hblock
            · exact absurd hlen hl
            · exact absurd hwrite hw
        · refine ⟨fun _ => Or.inr (Or.inr hwrite), fun _ => ?_⟩
          by_cases hcreate : p.fault = .create
          · have hstore := hrefused (Or.inr hcreate)
            rw [Storage.isEmpty, hstore]
            refine ⟨fun hfalse => (by cases hfalse), ?_⟩
            rintro ⟨height, st, hst, -⟩
            rw [hstore] at hst
            cases hst
          · have hb := hwritten hlen hcreate hwrite
            exact ⟨fun _ => hb, fun _ => isEmpty_of_hasBlock hb⟩
    | reopen floor =>
        rw [← Option.some.inj hstep]
        simp only [EmptyMeansNothing, Clean, Storage.isEmpty, reopen, hnone]
        cases hleft : n.leftover with
        | none =>
            refine ⟨fun _ => Or.inr rfl, fun _ => ⟨fun hfalse => (by cases hfalse), ?_⟩⟩
            rintro ⟨height, st, hst, -⟩
            cases hst
        | some low =>
            constructor
            · intro hiff
              obtain ⟨height, st, hst, hhas⟩ := hiff.mp rfl
              rw [← Option.some.inj hst] at hhas
              exact absurd hhas (Store.not_has_create _ _ _)
            · rintro (hb | hl)
              · exact absurd hb hblock
              · cases hl

/-- **When emptiness means nothing stored**, over a whole run from a fresh store, whatever
    fails and whenever it is restarted: exactly if every step is clean. -/
theorem empty_means_nothing_iff (blockdb : Blockdb) (chain : Chain) (anchorFloor : Option Nat)
    (as : List Action) :
    Run.Always step EmptyMeansNothing (fresh blockdb chain anchorFloor) as
      ↔ Run.Meets step Clean (fresh blockdb chain anchorFloor) as := by
  have htotal : ∀ n a, ∃ n', step n a = some n' := by
    intro n a
    cases a with
    | put p left => exact ⟨_, rfl⟩
    | reopen floor => exact ⟨_, rfl⟩
  have hfresh : EmptyMeansNothing (fresh blockdb chain anchorFloor) := by
    refine ⟨fun h => (by cases h), ?_⟩
    rintro ⟨height, st, hst, -⟩
    cases hst
  refine Run.always_iff_meets (fun _ h => h) ?_ ?_ hfresh
  · intro n a n' h hclean hstep
    exact (step_iff h hstep).mpr hclean
  · intro n a h hnot
    obtain ⟨n', hstep⟩ := htotal n a
    exact ⟨n', hstep, fun h' => hnot ((step_iff h hstep).mp h')⟩

/-- A first write that fails once the blockstore was created. -/
def failedFirst (height : Nat) : Action :=
  .put ⟨.write, height, Vector.replicate 32 1, [], [[123, 125], EMPTY_ARRAY]⟩ none

/-- **A first write that fails** leaves a store with nothing in it that is not empty, and
    the next height to fetch is then past the floor of 0. -/
theorem failed_first_write_counts :
    ∃ n, Run.exec step (fresh memory .C (some 0)) [failedFirst 0] = some n ∧
      n.storage.isEmpty = false ∧ ¬HasBlock n.storage ∧
      NevePlatformIngest.nextHeight n.storage.isEmpty n.storage.maxContiguousHeight (some 0) 500
        = 1 ∧
      NevePlatformIngest.nextHeight true n.storage.maxContiguousHeight (some 0) 500 = 0 := by
  refine ⟨_, rfl, rfl, ?_, rfl, rfl⟩
  rintro ⟨height, st, hst, hhas⟩
  rw [← Option.some.inj hst] at hhas
  exact Store.not_has_create _ _ _ hhas

end NeveEmptiness
