import Neve.EthRpcProofs
import Neve.RangeReplayProofs

/-! # Tip reads — the number, the tags and the blocks behind them

    `eth_blockNumber` reports the high-water mark, and the tags `latest`, `safe` and
    `finalized` stand for it.  Zero is also what an empty store has for a mark: the number
    is reported then all the same, while the tags are refused even where height 0 is
    stored.  So the reads agree exactly when something above height 0 is
    (`tip_reads_agree_iff`). -/

namespace NeveEthRpc

open JsonValue ByteText NeveRecord NeveStorage NeveFrontier
open NeveStorageMap

/-! ## Stores of the C-chain -/

/-- The elements of a C-chain record: a block that is JSON, and logs that are a JSON
    array, as far as there are any. -/
structure CRecord (J : Codec) (elements : List Bytes) : Prop where
  block : ∀ e, elements[BLOCK]? = some e → ∃ v, J.fromSlice e = some v
  logs : ∀ e, elements[C_LOGS]? = some e → ∃ items, J.fromSlice e = some (.array items)

/-- **A store as the C-chain's ingest leaves it**, after whatever writes and over whatever
    it held before the combined record.  What the index names was written, so it is no lower
    than the store begins. -/
structure CStore {J : Codec} (R : RawReader J) (s : Storage) : Prop where
  records : ∃ M, Refines R s M ∧ ∀ k elements, M k = some elements → CRecord J elements
  bounded : ∀ k, s.Has k → k < u64Max
  index : ∀ entry ∈ s.hashToHeight, entry.2.length = 8 ∧ fromLeBytes entry.2 < u64Max
  indexed : ∀ entry ∈ s.hashToHeight, s.isEmpty = false ∧ s.minHeight ≤ fromLeBytes entry.2

/-- A put as the C-chain's ingest makes them. -/
structure CPut {J : Codec} (R : RawReader J) (p : Put) : Prop where
  values : ∀ e ∈ p.elements, R.IsValue e
  height : p.height < u64Max
  record : CRecord J p.elements

section Stores

variable {J : Codec} {R : RawReader J} {s : Storage}

theorem cStore_fresh (R : RawReader J) (blockdb : Blockdb) (chain : Chain)
    (anchorFloor : Option Nat) :
    CStore R (Storage.fresh blockdb chain anchorFloor) where
  records := ⟨fun _ => none, fun _ => .missing, fun _ _ h => by cases h⟩
  bounded := (NeveRangeReplay.lawfulStore_fresh (R := R) blockdb chain anchorFloor).bounded
  index := fun _ h => by cases h
  indexed := fun _ h => by cases h

/-- **The step lemma**: a put keeps such a store, however it ends. -/
theorem CStore.put {p : Put} (h : CStore R s) (hp : CPut R p) :
    CStore R (s.put p.fault p.height p.hash p.txHashes p.elements).2 := by
  have hbounded : ∀ k, (s.put p.fault p.height p.hash p.txHashes p.elements).2.Has k →
      k < u64Max := by
    intro k hk
    rcases has_put hk with rfl | hold
    · exact hp.height
    · exact h.bounded k hold
  obtain ⟨M, hM, hrec⟩ := h.records
  have hwritten : ∀ k elements, putMap M p k = some elements → CRecord J elements := by
    intro k elements hk
    rw [putMap, Function.update_apply] at hk
    by_cases hkp : k = p.height
    · rw [if_pos hkp] at hk
      rw [← Option.some.inj hk]
      exact hp.record
    · rw [if_neg hkp] at hk
      exact hrec k elements hk
  have heff := s.put_effect p.fault p.height p.hash p.txHashes p.elements
  have hg := put_grows s p.fault p.height p.hash p.txHashes p.elements
  generalize s.put p.fault p.height p.hash p.txHashes p.elements = out at heff hbounded hg
  obtain ⟨result, s'⟩ := out
  have hold : ∀ entry ∈ s.hashToHeight,
      s'.isEmpty = false ∧ s'.minHeight ≤ fromLeBytes entry.2 := by
    intro entry hentry
    obtain ⟨hcreated, hle⟩ := h.indexed entry hentry
    exact ⟨hg.isEmpty_eq hcreated, (hg.minHeight_eq hcreated).trans_le hle⟩
  -- refused, written without its index, or done: only the last adds an entry
  cases heff with
  | refused e _ hf hr =>
      refine ⟨⟨M, fun k => ?_, hrec⟩, hbounded, ?_, ?_⟩
      · rw [hr k]
        exact hM k
      · rw [hf.hashToHeight]
        exact h.index
      · rw [hf.hashToHeight]
        exact hold
  | unindexed e _ _ hf hlen hr =>
      refine ⟨⟨_, hM.written hp.values hlen hr, hwritten⟩, hbounded, ?_, ?_⟩
      · rw [hf.hashToHeight]
        exact h.index
      · rw [hf.hashToHeight]
        exact hold
  | done s1 hf hlen hr =>
      have hlt := hp.height
      have hfit : p.height < 2 ^ 64 := by
        simp only [u64Max] at hlt
        omega
      refine ⟨⟨_, hM.written hp.values hlen hr, hwritten⟩, hbounded, ?_, ?_⟩
      · intro entry hentry
        rcases List.mem_cons.mp hentry with rfl | hmem
        · refine ⟨toLeBytes_length 8 p.height, ?_⟩
          rw [Storage.height_of_entry hfit]
          exact hlt
        · rw [hf.hashToHeight] at hmem
          exact h.index entry hmem
      · intro entry hentry
        rcases List.mem_cons.mp hentry with rfl | hmem
        · -- the block of the new entry was written
          have hraw : (s1.putIndex p.height p.hash p.txHashes).rawAt p.height
              = some (encode p.elements) := by
            rw [Storage.rawAt_putIndex, hr, if_pos rfl]
          obtain ⟨st, hst, hhas⟩ := Storage.has_iff_rawAt.mpr ⟨_, hraw⟩
          have hcreated : (s1.putIndex p.height p.hash p.txHashes).isEmpty = false := by
            rw [Storage.isEmpty, hst, Option.isNone_some]
          rw [Storage.height_of_entry hfit]
          exact ⟨hcreated, (Storage.minHeight_of_store hst).trans_le (Store.min_le_of_has hhas)⟩
        · rw [hf.hashToHeight] at hmem
          exact hold entry hmem

/-- The run lemma. -/
theorem CStore.run {puts : List Put} (h : CStore R s) (hputs : ∀ p ∈ puts, CPut R p) :
    CStore R (puts.foldl
      (fun s p => (s.put p.fault p.height p.hash p.txHashes p.elements).2) s) := by
  induction puts generalizing s with
  | nil => exact h
  | cons p rest ih =>
      refine ih (h.put (hputs p (List.mem_cons_self ..))) ?_
      intro q hq
      exact hputs q (List.mem_cons_of_mem _ hq)

/-- A stored height gives a block that is JSON. -/
theorem CStore.block (h : CStore R s) {height : Nat} (hhas : s.Has height) :
    ∃ bytes v, s.getByHeight J height = .ok (some bytes) ∧ J.fromSlice bytes = some v := by
  obtain ⟨M, hM, hrec⟩ := h.records
  have hread : s.getByHeight J height = .ok (M.element height BLOCK) :=
    hM.getElement height BLOCK
  rw [hread]
  have hk := hM height
  obtain ⟨raw, hraw⟩ := Storage.has_iff_rawAt.mp hhas
  rw [hraw] at hk
  simp only [RecordMap.element]
  cases hm : M height with
  | none => rw [hm] at hk; cases hk
  | some elements =>
      rw [hm] at hk
      have hne : elements ≠ [] := by
        rintro rfl
        cases hk with
        | combined _ hlen _ => exact absurd hlen (by decide)
      obtain ⟨e, rest, rfl⟩ := List.exists_cons_of_ne_nil hne
      obtain ⟨v, hv⟩ := (hrec height _ hm).block e rfl
      exact ⟨e, v, rfl, hv⟩

end Stores

/-! ## The mark -/

theorem le_highWater {s : Storage} {height : Nat} (h : s.Has height) : height ≤ s.highWater := by
  obtain ⟨st, hst, hhas⟩ := h
  simp only [Storage.highWater, hst, Option.map_some, Option.getD_some]
  exact Store.le_heightHighwater hhas

/-- The mark is a stored height once anything is stored. -/
theorem has_highWater {s : Storage} {height : Nat} (h : s.Has height) : s.Has s.highWater := by
  obtain ⟨st, hst, hhas⟩ := h
  refine ⟨st, hst, ?_⟩
  simp only [Storage.highWater, hst, Option.map_some, Option.getD_some]
  rcases st.heightHighwater_cases with hmark | ⟨hnone, -⟩
  · exact hmark
  · exact absurd hhas (hnone height)

/-! ## The reads -/

/-- The number `eth_blockNumber` writes is read as that number. -/
theorem blockNumberArg_lowerHexText {n : Nat} (h : n < 2 ^ 64) :
    blockNumberArg (lowerHexText n) = some n := by
  simp only [blockNumberArg, lowerHexText]
  rw [String.toList_ofList]
  exact u64FromRadix16_toDigits h

theorem lowerHexText_notin_tags (n : Nat) :
    lowerHexText n ∉ tipTags ∧ lowerHexText n ∉ unsupportedTags := by
  have hhead : (lowerHexText n).toList.head? = some '0' := by
    rw [lowerHexText, String.toList_ofList]
    rfl
  have hne : ∀ tag ∈ tipTags ++ unsupportedTags, lowerHexText n ≠ tag := by
    have hother : ∀ tag ∈ tipTags ++ unsupportedTags, tag.toList.head? ≠ some '0' := by
      decide
    intro tag htag heq
    exact hother tag htag (heq ▸ hhead)
  exact ⟨fun h => hne _ (List.mem_append_left _ h) rfl,
    fun h => hne _ (List.mem_append_right _ h) rfl⟩

section Reads

variable {J : Codec} {s : Storage} {bufferedBlock : Nat → Option Bytes}

theorem resolveBlockTag_tip {tag : String} (h : tag ∈ tipTags) (hpos : 0 < s.highWater) :
    resolveBlockTag s tag = .ok s.highWater := by
  rw [resolveBlockTag, if_pos h, if_neg (Nat.ne_of_gt hpos)]

theorem resolveBlockTag_tip_zero {tag : String} (h : tag ∈ tipTags) (hzero : s.highWater = 0) :
    resolveBlockTag s tag = .error "no blocks stored yet" := by
  rw [resolveBlockTag, if_pos h, if_pos hzero]

theorem resolveBlockTag_number {n : Nat} (h : n < 2 ^ 64) :
    resolveBlockTag s (lowerHexText n) = .ok n := by
  obtain ⟨htip, hun⟩ := lowerHexText_notin_tags n
  rw [resolveBlockTag, if_neg htip, if_neg hun, blockNumberArg_lowerHexText h]

/-- A block read by a tag is the one stored at the height the tag stands for. -/
theorem getBlockByNumber_of_stored {tag : String} {height : Nat} {bytes : Bytes} {v : Value}
    (htag : resolveBlockTag s tag = .ok height)
    (hbytes : s.getByHeight J height = .ok (some bytes)) (hv : J.fromSlice bytes = some v)
    (fullTx : Bool) :
    getBlockByNumber J s bufferedBlock tag fullTx = .ok (some (shapeBlock v fullTx)) := by
  have hread : NeveEthIngest.readBlockValue J s bufferedBlock height = .ok (some v) := by
    simp only [NeveEthIngest.readBlockValue, hbytes, hv, bind, Except.bind]
  simp only [getBlockByNumber, htag]
  change (NeveEthIngest.readBlockValue J s bufferedBlock height).bind _ = _
  rw [hread]
  rfl

/-- **Tip reads that agree.**  A number is reported exactly if a block is stored; then it
    is of a stored height, and asking for it, for `latest`, `safe` or `finalized` gives the
    block at that height, in whichever shape.  Where nothing is stored the tags give no
    block. -/
structure TipReadsAgree (J : Codec) (s : Storage) (bufferedBlock : Nat → Option Bytes) :
    Prop where
  reported : (∃ text, blockNumber s = .ok text) ↔ ∃ height, s.Has height
  blocks : ∀ text, blockNumber s = .ok text → (∃ height, s.Has height) →
    ∃ n bytes v, text = lowerHexText n ∧ s.getByHeight J n = .ok (some bytes) ∧
      J.fromSlice bytes = some v ∧
      ∀ tag ∈ text :: tipTags, ∀ fullTx,
        getBlockByNumber J s bufferedBlock tag fullTx = .ok (some (shapeBlock v fullTx))
  nothing : (¬∃ height, s.Has height) → ∀ tag ∈ tipTags, ∀ fullTx v,
    getBlockByNumber J s bufferedBlock tag fullTx ≠ .ok (some v)

/-- A tag that is refused gives no block. -/
theorem getBlockByNumber_of_error {tag e : String} (h : resolveBlockTag s tag = .error e)
    (fullTx : Bool) : getBlockByNumber J s bufferedBlock tag fullTx = .error e := by
  simp only [getBlockByNumber, h]
  rfl

/-- **When the tip reads agree**: exactly if some block above height zero is stored. -/
theorem tip_reads_agree_iff {R : RawReader J} (h : CStore R s)
    (bufferedBlock : Nat → Option Bytes) :
    TipReadsAgree J s bufferedBlock ↔ ∃ height, 0 < height ∧ s.Has height := by
  constructor
  · intro hagree
    -- the number is always reported, so something is stored, and `latest` gives it
    obtain ⟨height, hhas⟩ := hagree.reported.mp ⟨_, rfl⟩
    obtain ⟨n, bytes, v, -, -, -, htags⟩ := hagree.blocks _ rfl ⟨height, hhas⟩
    by_contra hnone
    have hzero : s.highWater = 0 := by
      by_contra hne
      exact hnone ⟨s.highWater, Nat.pos_of_ne_zero hne, has_highWater hhas⟩
    have hlatest := htags "latest" (List.mem_cons_of_mem _ (by decide)) true
    rw [getBlockByNumber_of_error (resolveBlockTag_tip_zero (by decide) hzero)] at hlatest
    cases hlatest
  · rintro ⟨height, hheight, hstored⟩
    have hpos : 0 < s.highWater := Nat.lt_of_lt_of_le hheight (le_highWater hstored)
    have hhas := has_highWater hstored
    have hlt := h.bounded _ hhas
    have hfit : s.highWater < 2 ^ 64 := by
      simp only [u64Max] at hlt
      omega
    obtain ⟨bytes, v, hbytes, hv⟩ := h.block hhas
    refine ⟨⟨fun _ => ⟨_, hhas⟩, fun _ => ⟨_, rfl⟩⟩, ?_,
      fun hnone => absurd ⟨_, hhas⟩ hnone⟩
    intro text htext _
    rw [← Except.ok.inj htext]
    refine ⟨s.highWater, bytes, v, rfl, hbytes, hv, ?_⟩
    intro tag htag fullTx
    rcases List.mem_cons.mp htag with rfl | htip
    · exact getBlockByNumber_of_stored (resolveBlockTag_number hfit) hbytes hv fullTx
    · exact getBlockByNumber_of_stored (resolveBlockTag_tip htip hpos) hbytes hv fullTx

end Reads

/-- An empty block without logs, put at a height of a C-chain store. -/
def emptyBlockPut (height : Nat) : Put :=
  ⟨.none, height, Vector.replicate 32 1, [], [[123, 125], EMPTY_ARRAY]⟩

theorem cPut_emptyBlock {height : Nat} (h : height < u64Max) :
    CPut JsonText.spacedReader (emptyBlockPut height) where
  values := by
    intro e he
    rcases List.mem_cons.mp he with rfl | he
    · exact isPrinted_object
    · rw [List.mem_singleton.mp he]
      exact isPrinted_empty_array
  height := h
  record := {
    block := by
      intro e he
      rw [← Option.some.inj he]
      exact ⟨.object [], rfl⟩
    logs := by
      intro e he
      rw [← Option.some.inj he]
      exact ⟨[], rfl⟩ }

/-- A store with one empty block. -/
def oneBlock (height : Nat) : Storage :=
  ((Storage.fresh memory .C none).put .none height (Vector.replicate 32 1) []
    [[123, 125], EMPTY_ARRAY]).2

theorem cStore_oneBlock {height : Nat} (h : height < u64Max) :
    CStore JsonText.spacedReader (oneBlock height) :=
  (cStore_fresh _ memory .C none).put (p := emptyBlockPut height) (cPut_emptyBlock h)

theorem tip_reads_agree_at_five :
    TipReadsAgree JsonText.spacedCodec (oneBlock 5) fun _ => none :=
  (tip_reads_agree_iff (cStore_oneBlock (by decide)) fun _ => none).mpr
    ⟨5, by decide, _, rfl, by decide⟩

/-- **The tip reads part at zero**: a store without a block reports height 0, and one that
    holds height 0 refuses `latest`. -/
theorem tip_reads_part_at_zero :
    (blockNumber (Storage.fresh memory .C none) = .ok "0x0" ∧
      ¬TipReadsAgree JsonText.spacedCodec (Storage.fresh memory .C none) fun _ => none) ∧
    (oneBlock 0).Has 0 ∧
      getBlockByNumber JsonText.spacedCodec (oneBlock 0) (fun _ => none) "latest" true
        = .error "no blocks stored yet" ∧
      ¬TipReadsAgree JsonText.spacedCodec (oneBlock 0) fun _ => none := by
  have hlatest : getBlockByNumber JsonText.spacedCodec (oneBlock 0) (fun _ => none) "latest" true
      = .error "no blocks stored yet" :=
    getBlockByNumber_of_error (resolveBlockTag_tip_zero (by decide) rfl) true
  have hhas : (oneBlock 0).Has 0 := ⟨_, rfl, by decide⟩
  refine ⟨⟨rfl, fun hagree => ?_⟩, hhas, hlatest, fun hagree => ?_⟩
  · obtain ⟨height, st, hst, -⟩ := hagree.reported.mp ⟨_, rfl⟩
    cases hst
  · obtain ⟨n, bytes, v, -, -, -, htags⟩ := hagree.blocks _ rfl ⟨0, hhas⟩
    have hsome := htags "latest" (List.mem_cons_of_mem _ (by decide)) true
    rw [hlatest] at hsome
    cases hsome

end NeveEthRpc
