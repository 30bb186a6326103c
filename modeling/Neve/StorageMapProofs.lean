import Neve.JsonTextProofs
import Neve.RunProofs
import Neve.StorageProofs

/-! # Storage as a map of records

    What the store is for: a map from heights to lists of elements.  Two layouts
    stand behind it, the bare block object of old stores (element 0 and nothing
    else) and the combined record, and every read answers as the map does,
    whatever mixture of the two a run of puts leaves behind. -/

namespace NeveStorageMap

open JsonValue ByteText NeveRecord NeveStorage Outcome

/-! ## The map -/

/-- The elements held at each height, if the height is held at all. -/
abbrev RecordMap := Nat → Option (List Bytes)

namespace RecordMap

/-- Element `idx` of the record at a height. -/
def element (M : RecordMap) (height idx : Nat) : Option Bytes :=
  (M height).bind (·[idx]?)

/-- The whole encoded record at a height: only a list with derived elements has
    one. -/
def record (M : RecordMap) (height : Nat) : Option Bytes :=
  ((M height).filter (2 ≤ ·.length)).map encode

end RecordMap

/-- The arguments of one call of `put`, and where it goes wrong. -/
structure Put where
  fault : Fault
  height : Nat
  hash : Bytes32
  txHashes : List Bytes32
  elements : List Bytes
  deriving DecidableEq

/-- A put that succeeds, on the store. -/
def putStep (s : Storage) (p : Put) : Option Storage :=
  match s.put p.fault p.height p.hash p.txHashes p.elements with
  | (.ok (), s') => some s'
  | (.error _, _) => none

/-- A put leaves the other heights alone. -/
theorem rawAt_put_other {s : Storage} {p : Put} {k : Nat} (hk : k ≠ p.height) :
    (s.put p.fault p.height p.hash p.txHashes p.elements).2.rawAt k = s.rawAt k := by
  have heff := s.put_effect p.fault p.height p.hash p.txHashes p.elements
  generalize s.put p.fault p.height p.hash p.txHashes p.elements = out at heff ⊢
  obtain ⟨result, s'⟩ := out
  cases heff with
  | refused e _ _ hraw => exact hraw k
  | unindexed e _ _ _ _ hraw => rw [hraw k, if_neg hk]
  | done s1 _ _ hraw =>
      change s1.rawAt k = s.rawAt k
      rw [hraw k, if_neg hk]

/-- The same put, on the map: it replaces the height's list. -/
def putMap (M : RecordMap) (p : Put) : RecordMap :=
  Function.update M p.height (some p.elements)

section Refinement

variable {J : Codec} (R : RawReader J)

/-- A value of the old layout: one JSON object, with whatever whitespace stood
    around it. -/
def IsLegacyBlock (raw e : Bytes) : Prop :=
  R.IsValue e ∧ e.head? = some 123 ∧ ∃ before after,
    raw = before ++ e ++ after ∧ (∀ b ∈ before, isJsonSpace b) ∧ ∀ b ∈ after,
      isJsonSpace b

/-- The bytes stored at a height and the elements they stand for, in one of the
    two layouts. -/
inductive Holds : Option Bytes → Option (List Bytes) → Prop where
  | missing : Holds none none
  | legacy (raw e : Bytes) : IsLegacyBlock R raw e → Holds (some raw) (some [e])
  | combined (elements : List Bytes) : 2 ≤ elements.length →
      (∀ e ∈ elements, R.IsValue e) → Holds (some (encode elements)) (some elements)

/-- Every height of the store holds what the map says. -/
def Refines (s : Storage) (M : RecordMap) : Prop :=
  ∀ height, Holds R (s.rawAt height) (M height)

/-- A store of the old layout: at every height nothing, or one bare block, which
    is the height's only element. -/
def HoldsLegacy (s : Storage) (M : RecordMap) : Prop :=
  ∀ height, (s.rawAt height = none ∧ M height = none) ∨
    ∃ raw e, s.rawAt height = some raw ∧ IsLegacyBlock R raw e ∧ M height = some [e]

end Refinement

section Layouts

variable {J : Codec} {R : RawReader J}

theorem isBareBlock_of_legacy {raw e : Bytes} (h : IsLegacyBlock R raw e) :
    isBareBlock raw = true := by
  obtain ⟨-, hhead, before, after, rfl, hbefore, -⟩ := h
  obtain ⟨tail, rfl⟩ := List.head?_eq_some_iff.mp hhead
  rw [List.append_assoc, List.cons_append]
  exact isBareBlock_spaced hbefore (tail ++ after)

/-- Element `idx` of a value of either layout. -/
theorem Holds.element {raw : Bytes} {elements : Option (List Bytes)}
    (h : Holds R (some raw) elements) (idx : Nat) :
    NeveRecord.element J raw idx = .ok (elements.bind (·[idx]?)) := by
  cases h with
  | legacy _ e hl =>
      simp only [NeveRecord.element]
      rw [isBareBlock_of_legacy hl, if_pos rfl]
      cases idx with
      | zero =>
          obtain ⟨hval, -, before, after, rfl, hbefore, hafter⟩ := hl
          rw [if_neg (show ¬ (0 ≠ BLOCK) from not_not.mpr rfl),
            R.rawValue_spaced hval hbefore hafter]
          rfl
      | succ idx =>
          rw [if_pos (show idx + 1 ≠ BLOCK from Nat.succ_ne_zero idx)]
          rfl
  | combined elements hlen hval =>
      simp only [NeveRecord.element, split]
      rw [not_isBareBlock_encode, if_neg Bool.false_ne_true,
        show J.rawArray (encode elements) = some elements from R.rawArray_join hval]
      dsimp only
      rw [if_neg (Nat.not_lt.mpr hlen)]
      rfl

/-- Only the combined layout is handed out whole. -/
theorem Holds.record {raw : Option Bytes} {elements : Option (List Bytes)}
    (h : Holds R raw elements) :
    raw.filter isCombinedRecord = (elements.filter (2 ≤ ·.length)).map encode := by
  cases h with
  | missing => rfl
  | legacy raw e hl =>
      have hno : isCombinedRecord raw = false := by
        simp only [isCombinedRecord]
        rw [isBareBlock_of_legacy hl]
        rfl
      rw [Option.filter_some, if_neg (by rw [hno]; decide)]
      rfl
  | combined elements hlen _ =>
      have hyes : isCombinedRecord (encode elements) = true := rfl
      rw [Option.filter_some, if_pos hyes, Option.filter_some, if_pos (decide_eq_true hlen)]
      rfl

theorem refines_of_holdsLegacy {s : Storage} {M : RecordMap} (h : HoldsLegacy R s M) :
    Refines R s M := by
  intro height
  rcases h height with ⟨hraw, hM⟩ | ⟨raw, e, hraw, hl, hM⟩
  · rw [hraw, hM]
    exact .missing
  · rw [hraw, hM]
    exact .legacy raw e hl

/-! ## What a put does to the refinement -/

theorem two_le_arity (chain : Chain) : 2 ≤ arity chain := by
  cases chain <;> decide

/-- A record written over a store that refines a map. -/
theorem Refines.written {s s1 : Storage} {M : RecordMap} {p : Put} (h : Refines R s M)
    (hval : ∀ e ∈ p.elements, R.IsValue e) (hlen : p.elements.length = arity s.chain)
    (hraw : ∀ j, s1.rawAt j
      = if j = p.height then some (encode p.elements) else s.rawAt j) :
    Refines R s1 (putMap M p) := by
  intro k
  rw [hraw k, putMap, Function.update_apply]
  by_cases hk : k = p.height
  · rw [if_pos hk, if_pos hk]
    exact .combined p.elements (hlen ▸ two_le_arity s.chain) hval
  · rw [if_neg hk, if_neg hk]
    exact h k

/-- **The step lemma**: a put that succeeds replaces one height's list. -/
theorem Refines.put {s s' : Storage} {M : RecordMap} {p : Put} (h : Refines R s M)
    (hval : ∀ e ∈ p.elements, R.IsValue e) (hstep : putStep s p = some s') :
    Refines R s' (putMap M p) := by
  simp only [putStep] at hstep
  have heff := s.put_effect p.fault p.height p.hash p.txHashes p.elements
  generalize s.put p.fault p.height p.hash p.txHashes p.elements = out at heff hstep
  obtain ⟨result, s1⟩ := out
  cases heff with
  | refused e _ _ _ => cases hstep
  | unindexed e _ _ _ _ _ => cases hstep
  | done s1 hf hlen hr =>
      rw [← Option.some.inj hstep]
      exact h.written hval hlen hr

/-- The run lemma. -/
theorem Refines.run {s s' : Storage} {M : RecordMap} {puts : List Put} (h : Refines R s M)
    (hval : ∀ p ∈ puts, ∀ e ∈ p.elements, R.IsValue e)
    (hrun : Run.exec putStep s puts = some s') : Refines R s' (puts.foldl putMap M) := by
  induction puts generalizing s M with
  | nil =>
      rw [← Option.some.inj hrun]
      exact h
  | cons p rest ih =>
      obtain ⟨s1, hstep, hrest⟩ := Run.exec_cons hrun
      refine ih (h.put (hval p (List.mem_cons_self ..)) hstep) ?_ hrest
      intro q hq
      exact hval q (List.mem_cons_of_mem _ hq)

/-- Every record of the store is in one of the two layouts. -/
def Readable (R : RawReader J) (s : Storage) : Prop := ∃ M, Refines R s M

/-- A put of JSON values leaves every record readable, however it ends. -/
theorem Readable.put {s : Storage} {p : Put} (h : Readable R s)
    (hval : ∀ e ∈ p.elements, R.IsValue e) :
    Readable R (s.put p.fault p.height p.hash p.txHashes p.elements).2 := by
  obtain ⟨M, hM⟩ := h
  have heff := s.put_effect p.fault p.height p.hash p.txHashes p.elements
  generalize s.put p.fault p.height p.hash p.txHashes p.elements = out at heff
  obtain ⟨result, s'⟩ := out
  cases heff with
  | refused e _ _ hr =>
      refine ⟨M, ?_⟩
      intro k
      rw [hr k]
      exact hM k
  | unindexed e _ _ _ hlen hr => exact ⟨_, hM.written hval hlen hr⟩
  | done s1 _ hlen hr => exact ⟨_, hM.written hval hlen hr⟩

/-! ## Reads -/

theorem Refines.getElement {s : Storage} {M : RecordMap} (h : Refines R s M)
    (height idx : Nat) : s.getElement J height idx = .ok (M.element height idx) := by
  have hk := h height
  rw [Storage.getElement_eq]
  simp only [RecordMap.element]
  cases hraw : s.rawAt height with
  | none =>
      rw [hraw] at hk
      cases hM : M height with
      | none => rfl
      | some elements => rw [hM] at hk; cases hk
  | some raw =>
      rw [hraw] at hk
      dsimp only
      rw [hk.element idx]

theorem Refines.getRecord {s : Storage} {M : RecordMap} (h : Refines R s M) (height : Nat) :
    s.getRecord height = M.record height := by
  have hk := (h height).record
  rw [Storage.getRecord_eq, hk]
  rfl

/-- A scan answers as the map does, height by height, and gives up at the first
    height that has no such element. -/
theorem readElements_eq {st : Store} {M : RecordMap} {idx : Nat} {heights : List Nat}
    (h : ∀ k, Holds R (st.stored k) (M k)) (hmin : ∀ k ∈ heights, st.minHeight ≤ k) :
    Storage.readElements J st idx heights = .ok (heights.mapM (M.element · idx)) := by
  induction heights with
  | nil => rfl
  | cons k rest ih =>
      have hk := h k
      have ih := ih fun j hj => hmin j (List.mem_cons_of_mem _ hj)
      rw [List.mapM_cons]
      simp only [Storage.readElements, RecordMap.element]
      rw [Store.readBlock_of_min_le (hmin k List.mem_cons_self)]
      cases hraw : st.stored k with
      | none =>
          rw [hraw] at hk
          cases hM : M k with
          | none => rfl
          | some elements => rw [hM] at hk; cases hk
      | some raw =>
          rw [hraw] at hk
          dsimp only
          rw [hk.element idx]
          cases (M k).bind (·[idx]?) with
          | none => rfl
          | some part =>
              dsimp only
              rw [ih]
              simp only [RecordMap.element]
              cases rest.mapM (fun x => (M x).bind (·[idx]?)) with
              | none => rfl
              | some parts => rfl

theorem Refines.readElementRange {s : Storage} {M : RecordMap} (h : Refines R s M)
    {a b : Nat} (hmin : s.minHeight ≤ a) (hab : a ≤ b) (idx : Nat) :
    s.readElementRange J a b idx
      = .ok ((List.range' a (b + 1 - a)).mapM (M.element · idx)) := by
  simp only [Storage.readElementRange]
  cases hst : s.store with
  | some st =>
      dsimp only
      have hblocks : ∀ k, Holds R (st.stored k) (M k) := by
        intro k
        have hk := h k
        simp only [Storage.rawAt, hst] at hk
        exact hk
      simp only [Storage.minHeight, hst, Option.map_some, Option.getD_some] at hmin
      exact readElements_eq hblocks fun k hk => hmin.trans (List.mem_range'_1.mp hk).1
  | none =>
      -- nothing is stored, so the range fails at its first height
      have hnone : M.element a idx = none := by
        have hk := h a
        simp only [Storage.rawAt, hst] at hk
        simp only [RecordMap.element]
        cases hM : M a with
        | none => rfl
        | some elements => rw [hM] at hk; cases hk
      rw [show b + 1 - a = (b - a) + 1 by omega, List.range'_succ, List.mapM_cons, hnone]
      rfl

end Layouts

/-! ## The store and the map -/

/-- **The store refines the map.** Start from any store of bare blocks and run
    any puts that succeed, each element one JSON value: every read answers as
    the map of those puts does.  A range is answered with the in-order list of
    its elements, or not at all. -/
theorem storage_refines_recordMap {J : Codec} (R : RawReader J) {s s' : Storage}
    {M : RecordMap} {puts : List Put} (hlegacy : HoldsLegacy R s M)
    (hval : ∀ p ∈ puts, ∀ e ∈ p.elements, R.IsValue e)
    (hrun : Run.exec putStep s puts = some s') :
    (∀ h i, s'.getElement J h i = .ok ((puts.foldl putMap M).element h i)) ∧
    (∀ h, s'.getByHeight J h = .ok ((puts.foldl putMap M).element h BLOCK)) ∧
    (∀ h, s'.getRecord h = (puts.foldl putMap M).record h) ∧
    ∀ a b i, s'.minHeight ≤ a → a ≤ b → b ≤ s'.highWater →
      (∀ parts, s'.readElementRange J a b i = .ok (some parts) ↔
        (List.range' a (b + 1 - a)).map ((puts.foldl putMap M).element · i)
          = parts.map some) ∧
      ((∃ parts, s'.readElementRange J a b i = .ok (some parts)) ↔
        ∀ h, a ≤ h → h ≤ b → ((puts.foldl putMap M).element h i).isSome) ∧
      (s'.readElementRange J a b i = .ok none ↔
        ∃ h, a ≤ h ∧ h ≤ b ∧ (puts.foldl putMap M).element h i = none) := by
  -- the run refines the map of its puts, and the reads follow from that alone
  have href : Refines R s' (puts.foldl putMap M) :=
    (refines_of_holdsLegacy hlegacy).run hval hrun
  generalize puts.foldl putMap M = M' at href
  refine ⟨href.getElement, fun h => href.getElement h BLOCK, href.getRecord, ?_⟩
  intro a b i hmin hab _
  rw [href.readElementRange hmin hab i]
  have hmem : ∀ h, h ∈ List.range' a (b + 1 - a) ↔ a ≤ h ∧ h ≤ b := by
    intro h
    rw [List.mem_range'_1]
    omega
  -- a scan stops at a height of the range without the element
  have hnone : (List.range' a (b + 1 - a)).mapM (M'.element · i) = none ↔
      ∃ h, a ≤ h ∧ h ≤ b ∧ M'.element h i = none := by
    rw [mapM_eq_none_iff]
    constructor
    · rintro ⟨h, hin, he⟩
      exact ⟨h, ((hmem h).mp hin).1, ((hmem h).mp hin).2, he⟩
    · rintro ⟨h, hlo, hhi, he⟩
      exact ⟨h, (hmem h).mpr ⟨hlo, hhi⟩, he⟩
  refine ⟨?_, ?_, ?_⟩
  · intro parts
    rw [Except.ok.injEq, mapM_eq_some_iff]
  · constructor
    · rintro ⟨parts, hparts⟩ h hlo hhi
      rw [Except.ok.inj hparts] at hnone
      cases he : M'.element h i with
      | some e => rfl
      | none => cases hnone.mpr ⟨h, hlo, hhi, he⟩
    · intro hall
      cases hscan : (List.range' a (b + 1 - a)).mapM (M'.element · i) with
      | some parts => exact ⟨parts, rfl⟩
      | none =>
          obtain ⟨h, hlo, hhi, he⟩ := hnone.mp hscan
          have hsome := hall h hlo hhi
          rw [he] at hsome
          cases hsome
  · rw [Except.ok.injEq]
    exact hnone

/-! ## A store with both layouts -/

/-- A bare block with whitespace around it, at height 100. -/
def legacySample : Storage :=
  ⟨.C, none, memory, some (.holding 100 [(100, [32, 123, 125, 10])] (by simp)), [], []⟩

/-- The map it stands for. -/
def legacySampleMap : RecordMap := fun h => if h = 100 then some [[123, 125]] else none

/-- A combined record written above it. -/
def putSample : Put := ⟨.none, 101, Vector.replicate 32 1, [], [[123, 125], EMPTY_ARRAY]⟩

theorem isPrinted_object : JsonText.IsPrinted [123, 125] :=
  ⟨⟨.object [], by decide⟩, ⟨123, [125], rfl, rfl⟩, ⟨[123], 125, rfl, rfl⟩⟩

theorem isPrinted_empty_array : JsonText.IsPrinted EMPTY_ARRAY :=
  ⟨⟨.array [], by decide⟩, ⟨91, [93], rfl, rfl⟩, ⟨[91], 93, rfl, rfl⟩⟩

theorem holdsLegacy_sample :
    HoldsLegacy JsonText.spacedReader legacySample legacySampleMap := by
  intro h
  by_cases hh : h = 100
  · rw [hh]
    refine Or.inr ⟨_, [123, 125], rfl,
      ⟨isPrinted_object, rfl, [32], [10], rfl, ?_, ?_⟩, rfl⟩
    · intro b hb
      rw [List.mem_singleton.mp hb]
      rfl
    · intro b hb
      rw [List.mem_singleton.mp hb]
      rfl
  · refine Or.inl ⟨?_, if_neg hh⟩
    show Store.stored _ h = none
    rw [Store.stored_holding, List.lookup_cons, beq_false_of_ne hh]
    rfl

/-- Both layouts in one store: the old height has its block and nothing else,
    and a range of logs over both is unanswerable. -/
theorem storage_refines_recordMap_mixed :
    ∃ s', Run.exec putStep legacySample [putSample] = some s' ∧
      s'.getElement JsonText.spacedCodec 100 0 = .ok (some [123, 125]) ∧
      s'.getRecord 100 = none ∧
      s'.getRecord 101 = some (encode [[123, 125], EMPTY_ARRAY]) ∧
      s'.readElementRange JsonText.spacedCodec 100 101 0
        = .ok (some [[123, 125], [123, 125]]) ∧
      s'.readElementRange JsonText.spacedCodec 100 101 1 = .ok none := by
  have hval : ∀ p ∈ [putSample], ∀ e ∈ p.elements, JsonText.spacedReader.IsValue e := by
    intro p hp e he
    rw [List.mem_singleton.mp hp] at he
    rcases List.mem_cons.mp he with rfl | he
    · exact isPrinted_object
    · rw [List.mem_singleton.mp he]
      exact isPrinted_empty_array
  have hrun : Run.exec putStep legacySample [putSample]
      = some ((legacySample.put .none 101 (Vector.replicate 32 1) []
          [[123, 125], EMPTY_ARRAY]).2) := rfl
  obtain ⟨helem, -, hrec, hrange⟩ :=
    storage_refines_recordMap JsonText.spacedReader holdsLegacy_sample hval hrun
  have hold : ([putSample].foldl putMap legacySampleMap) 100 = some [[123, 125]] := by decide
  refine ⟨_, hrun, ?_, ?_, ?_, ?_, ?_⟩
  · rw [helem 100 0, RecordMap.element, hold]
    rfl
  · rw [hrec 100, RecordMap.record, hold]
    rfl
  · exact hrec 101
  · exact ((hrange 100 101 0 (by decide) (by decide) (by decide)).1 _).mpr rfl
  · exact (hrange 100 101 1 (by decide) (by decide) (by decide)).2.2.mpr
      ⟨100, by decide, by decide, rfl⟩

end NeveStorageMap
