import Neve.JsonTextProofs
import Neve.IngestWriteProofs

/-! # Transaction index — the position written and the position served

    Ingest drops the malformed transaction entries of a block and then numbers
    what is left; the readers number the block's own list.  The two agree
    exactly on blocks in which no malformed entry stands before a well-formed
    one, and then the transaction served for a key is the one that carries it. -/

namespace NeveTxIndex

open JsonValue ByteText NeveRecord NeveStorage NeveEthIngest NevePlatformIngest
open NevePlatformCodec NeveIngestWrite Outcome

/-! ## Numbering a filtered list -/

section Packed

variable {α β : Type*}

/-- No entry that `d` rejects stands before one that it accepts. -/
def Packed (d : α → Option β) (es : List α) : Prop :=
  ∀ i j : Nat, i < j → (es[j]?.bind d).isSome → (es[i]?.bind d).isSome

theorem Packed.tail {d : α → Option β} {e : α} {es : List α} (h : Packed d (e :: es)) :
    Packed d es :=
  fun i j hij hj => h (i + 1) (j + 1) (Nat.succ_lt_succ hij) hj

theorem Packed.filterMap_eq_nil {d : α → Option β} {e : α} {es : List α}
    (h : Packed d (e :: es)) (he : d e = none) : es.filterMap d = [] := by
  refine List.filterMap_eq_nil_iff.mpr ?_
  intro x hx
  obtain ⟨j, hj⟩ := List.mem_iff_getElem?.mp hx
  cases hd : d x with
  | none => rfl
  | some b =>
      have hsome : ((e :: es)[j + 1]?.bind d).isSome := by
        rw [List.getElem?_cons_succ, hj, Option.bind_some, hd]
        rfl
      have hhead := h 0 (j + 1) (Nat.succ_pos j) hsome
      rw [List.getElem?_cons_zero, Option.bind_some, he] at hhead
      cases hhead

/-- On a packed list, position `i` of the filtered list is position `i` of the
    list itself. -/
theorem Packed.getElem_filterMap {d : α → Option β} {es : List α} (h : Packed d es)
    {i : Nat} {b : β} (hi : (es.filterMap d)[i]? = some b) :
    ∃ e, es[i]? = some e ∧ d e = some b := by
  induction es generalizing i with
  | nil => cases hi
  | cons e rest ih =>
      cases he : d e with
      | none =>
          rw [List.filterMap_cons_none he, h.filterMap_eq_nil he] at hi
          cases hi
      | some b' =>
          rw [List.filterMap_cons_some he] at hi
          cases i with
          | zero => exact ⟨e, rfl, he.trans hi⟩
          | succ i => exact ih h.tail hi

end Packed

/-! ## Serving -/

section Serving

variable (J : Codec)

/-- The stored P-chain block JSON at a height, parsed. -/
def storedBlock (s : Storage) (height : Nat) : Except String (Option Value) := do
  match ← s.getByHeight J height with
  | none => .ok none
  | some stored =>
      match J.fromSlice stored with
      | none => .error "stored P-chain block decode"
      | some block => .ok (some block)

/-- `platform.getTx` with the JSON encoding, past the parsing of its argument. -/
def getTx (s : Storage) (raw : Bytes32) : Except String (Option Value) := do
  match ← s.getTxLocation raw with
  | none => .ok none
  | some (height, idx) =>
      match ← storedBlock J s height with
      | none => .ok none
      | some block =>
          match takeNthTx block idx with
          | none => .ok none
          | some tx => .ok (some (.object [("encoding", .string "json"), ("tx", tx)]))

/-- The transaction a store serves for a key, by the dialect of its chain. -/
def servedTx (s : Storage) (bufferedBlock : Nat → Option Bytes) (key : Bytes32) :
    Except String (Option Value) :=
  match s.chain with
  | .C => getTransactionByHash J s bufferedBlock key
  | .P => (getTx J s key).map (·.bind (Value.get "tx"))

end Serving

/-- Whatever key has a location is served as a transaction that carries it. -/
def TxIndexSound (J : Codec) (sha256 : Bytes → Bytes32) (s : Storage) : Prop :=
  ∀ bufferedBlock key loc, s.getTxLocation key = .ok (some loc) →
    ∃ tx, servedTx J s bufferedBlock key = .ok (some tx) ∧
      ownKey sha256 s.chain tx = some key

/-- Writes that reach the same height carry the same block. -/
def OneBlockPerHeight (J : Codec) (sha256 : Bytes → Bytes32)
    (ops : List (IngestWrite × Fault)) : Prop :=
  ∀ a ∈ ops, ∀ b ∈ ops, ∀ c d, a.1.call J sha256 = some c →
    b.1.call J sha256 = some d → c.height = d.height → c.block = d.block

/-- The transaction entries of a write are numbered the same by ingest and by
    the readers: no malformed entry before a well-formed one, and no position
    beyond 32 bits. -/
def WellNumbered (sha256 : Bytes → Bytes32) (w : IngestWrite) : Prop :=
  Packed (ownKey sha256 w.chain) (entries w.chain w.block) ∧
    ((entries w.chain w.block).filterMap (ownKey sha256 w.chain)).length ≤ 2 ^ 32

section Sound

variable {J : Codec} {sha256 : Bytes → Bytes32}

theorem getTxLocation_eq_some {s : Storage} {key : Bytes32} {loc : Nat × Nat}
    (h : s.getTxLocation key = .ok (some loc)) :
    ∃ slice, (key, slice) ∈ s.txToBlock ∧
      loc = (fromLeBytes (slice.take 8), fromLeBytes (slice.drop 8)) := by
  simp only [Storage.getTxLocation] at h
  cases hl : s.txToBlock.lookup key with
  | none => rw [hl] at h; cases h
  | some slice =>
      rw [hl] at h
      dsimp only at h
      by_cases hlen : slice.length ≠ 12
      · rw [if_pos hlen] at h; cases h
      rw [if_neg hlen] at h
      exact ⟨slice, mem_of_lookup hl, (Option.some.inj (Except.ok.inj h)).symm⟩

/-- What is served for a key located at position `idx` of a stored block. -/
theorem servedTx_of_record {s : Storage} {bufferedBlock : Nat → Option Bytes}
    {key : Bytes32} {height idx : Nat} {block e : Value} {derived : List Value}
    (hlen : 1 ≤ derived.length)
    (hraw : s.rawAt height = some (encode ((block :: derived).map J.toVec)))
    (hloc : s.getTxLocation key = .ok (some (height, idx)))
    (he : (entries s.chain block)[idx]? = some e) :
    servedTx J s bufferedBlock key = .ok (some (e.mapFloat J.refloat)) := by
  have hentry : (entries s.chain (block.mapFloat J.refloat))[idx]?
      = some (e.mapFloat J.refloat) := by
    rw [entries_mapFloat, List.getElem?_map, he]
    rfl
  simp only [servedTx]
  cases hc : s.chain with
  | C =>
      rw [hc] at hentry
      -- the C-chain's reader takes the element of `transactions`
      show getTransactionByHash J s bufferedBlock key = _
      simp only [getTransactionByHash]
      rw [hloc]
      dsimp only [bind, Except.bind]
      rw [readBlockValue_of_rawAt J bufferedBlock hlen hraw]
      dsimp only
      rw [nthTransaction_eq, ← hentry]
      rfl
  | P =>
      rw [hc] at hentry
      have htake : takeNthTx (block.mapFloat J.refloat) idx
          = some (e.mapFloat J.refloat) := (takeNthTx_eq _ idx).trans hentry
      have hstored : storedBlock J s height = .ok (some (block.mapFloat J.refloat)) := by
        simp only [storedBlock]
        rw [s.getByHeight_of_rawAt J hlen hraw]
        show (match J.fromSlice (J.toVec block) with | none => _ | some v => _) = _
        rw [J.fromSlice_toVec]
      -- the P-chain's takes it from the stored block's `txs`, or its one `tx`
      show (getTx J s key).map _ = _
      simp only [getTx]
      rw [hloc]
      dsimp only [bind, Except.bind]
      rw [hstored]
      dsimp only
      rw [htake]
      rfl

/-- **Index soundness over runs.** After any sequence of writes, one block per
    height, in which every block that is put is numbered alike on both sides, each
    located key is served as the transaction that carries it. -/
theorem txIndexSound_of_wellNumbered (J : Codec) (sha256 : Bytes → Bytes32)
    (blockdb : Blockdb) (chain : Chain) (anchorFloor : Option Nat)
    (ops : List (IngestWrite × Fault)) (s : Storage) (hone : OneBlockPerHeight J sha256 ops)
    (hnum : ∀ a ∈ ops, (a.1.call J sha256).isSome = true → WellNumbered sha256 a.1)
    (hrun : Run.exec (writeStep J sha256) (Storage.fresh blockdb chain anchorFloor) ops = some s) :
    TxIndexSound J sha256 s := by
  have ht : Traced J (fun c => ∃ a ∈ ops, a.1.call J sha256 = some c) s :=
    traced_exec (traced_fresh blockdb chain anchorFloor) (fun a ha c hc => ⟨a, ha, hc⟩) hrun
  intro bufferedBlock key loc hloc
  obtain ⟨slice, hmem, hslice⟩ := getTxLocation_eq_some hloc
  obtain ⟨c, idx, ⟨a, ha, hc⟩, hchain, hid, rfl, hsome⟩ := ht.tx key slice hmem
  obtain ⟨raw, hraw⟩ := Option.isSome_iff_exists.mp hsome
  obtain ⟨d, ⟨b, hb, hd⟩, hchain', hheight, hrec⟩ := ht.record c.height raw hraw
  have hblock : d.block = c.block := hone b hb a ha d c hd hc hheight
  have hcl := IngestWrite.call_spec hc
  have hdl := IngestWrite.call_spec hd
  obtain ⟨hac, hab⟩ := IngestWrite.call_block hc
  -- position `idx` of the ids is position `idx` of the entries
  obtain ⟨hpacked, hcount⟩ := hnum a ha (Option.isSome_iff_exists.mpr ⟨c, hc⟩)
  rw [← hac, ← hab] at hpacked hcount
  rw [hcl.ids] at hid
  obtain ⟨e, he, hkey⟩ := hpacked.getElem_filterMap hid
  have hidx : idx < 2 ^ 32 :=
    Nat.lt_of_lt_of_le (List.getElem?_eq_some_iff.mp hid).1 hcount
  rw [Storage.location_of_entry hcl.height_lt hidx] at hslice
  rw [hslice] at hloc
  rw [hrec] at hraw
  rw [← hblock, hchain] at he
  refine ⟨_, servedTx_of_record hdl.one_le hraw hloc he, ?_⟩
  rw [ownKey_mapFloat, ← hchain]
  exact hkey

end Sound

/-! ## Runs on one block -/

/-- A hash for the sample blocks. -/
def sampleHash : Bytes32 := Vector.replicate 32 7

/-- A block with the given transaction entries. -/
def sampleBlock (txs : List Value) : Value :=
  .object [("hash", .string (hashText sampleHash)), ("transactions", .array txs)]

/-- A transaction object that carries the sample hash. -/
def sampleTx : Value := .object [("hash", .string (hashText sampleHash))]

/-- A store into which one block was backfilled. -/
def sampleRun (txs : List Value) : List (IngestWrite × Fault) :=
  [(.persistBackfilled 5 (sampleBlock txs) (.array []), .none)]

theorem txHash_sampleTx : txHash sampleTx = some sampleHash := by
  show (decodeHash (hashText sampleHash)).toOption = _
  rw [decodeHash_hashText]
  rfl

theorem oneBlockPerHeight_sampleRun (J : Codec) (sha256 : Bytes → Bytes32)
    (txs : List Value) : OneBlockPerHeight J sha256 (sampleRun txs) := by
  intro a ha b hb c d hc hd _
  rw [List.mem_singleton.mp ha] at hc
  rw [List.mem_singleton.mp hb, hc] at hd
  rw [Option.some.inj hd]

/-- What the sample run leaves behind. -/
theorem sampleRun_state (J : Codec) (sha256 : Bytes → Bytes32) (txs : List Value) :
    ∃ s, Run.exec (writeStep J sha256) (Storage.fresh memory .C none) (sampleRun txs) = some s ∧
      s.chain = .C ∧
      s.rawAt 5 = some (encode ([sampleBlock txs, .array []].map J.toVec)) ∧
      s.txToBlock = (Storage.txEntries 5 (txs.filterMap txHash)).reverse := by
  have hcall : (IngestWrite.persistBackfilled 5 (sampleBlock txs) (.array [])).call J sha256
      = some ⟨.C, 5, sampleHash, txs.filterMap txHash, sampleBlock txs, [.array []]⟩ := by
    simp only [IngestWrite.call]
    rw [show txHash (sampleBlock txs) = txHash sampleTx from rfl, txHash_sampleTx]
    rfl
  obtain ⟨s, hrun, hchain, hraw, -, htx⟩ := PutCall.run_fresh J memory
    (c := ⟨.C, 5, sampleHash, txs.filterMap txHash, sampleBlock txs, [.array []]⟩) rfl
  refine ⟨s, ?_, hchain, hraw, htx⟩
  show some ((IngestWrite.persistBackfilled 5 (sampleBlock txs) (.array [])).run J sha256
    (Storage.fresh memory .C none) .none).2 = some s
  rw [(IngestWrite.run_of_call _ _ hcall).1, hrun]

/-- The sample run locates its transaction at position 0. -/
theorem getTxLocation_sampleRun {s : Storage}
    (h : s.txToBlock = (Storage.txEntries 5 [sampleHash]).reverse) :
    s.getTxLocation sampleHash = .ok (some (5, 0)) := by
  simp only [Storage.getTxLocation]
  rw [h]
  rfl

/-- A block that lacks its hash, with a malformed transaction in front: no put is issued. -/
def unputWrite : IngestWrite × Fault :=
  (.persistBackfilled 6 (.object [("transactions", .array [.object [], sampleTx])]) (.array []),
    .none)

/-- A block whose one transaction is well formed, and one that is not put. -/
theorem txIndexSound_sampleTx :
    ∃ s, Run.exec (writeStep JsonText.codec (fun _ => sampleHash)) (Storage.fresh memory .C none)
        (sampleRun [sampleTx] ++ [unputWrite]) = some s ∧
      s.getTxLocation sampleHash = .ok (some (5, 0)) ∧
      TxIndexSound JsonText.codec (fun _ => sampleHash) s := by
  obtain ⟨s, hrun, -, -, htx⟩ :=
    sampleRun_state JsonText.codec (fun _ => sampleHash) [sampleTx]
  have hids : [sampleTx].filterMap txHash = [sampleHash] :=
    List.filterMap_cons_some txHash_sampleTx
  rw [hids] at htx
  have hunput : unputWrite.1.call JsonText.codec (fun _ => sampleHash) = none := rfl
  have hrest : Run.exec (writeStep JsonText.codec (fun _ => sampleHash)) s [unputWrite]
      = some s := by
    show some (unputWrite.1.run JsonText.codec _ s unputWrite.2).2 = some s
    rw [IngestWrite.run_of_call_none s unputWrite.2 hunput]
  have hboth := Run.exec_trans hrun hrest
  refine ⟨s, hboth, getTxLocation_sampleRun htx, ?_⟩
  refine txIndexSound_of_wellNumbered JsonText.codec (fun _ => sampleHash) memory .C none
    (sampleRun [sampleTx] ++ [unputWrite]) s ?_ ?_ hboth
  · -- only the first write issues a put
    have hfirst : ∀ a ∈ sampleRun [sampleTx] ++ [unputWrite], ∀ c,
        a.1.call JsonText.codec (fun _ => sampleHash) = some c → a ∈ sampleRun [sampleTx] := by
      intro a ha c hc
      rcases List.mem_append.mp ha with ha | ha
      · exact ha
      · rw [List.mem_singleton.mp ha, hunput] at hc
        cases hc
    intro a ha b hb c d hc hd
    exact oneBlockPerHeight_sampleRun _ _ _ a (hfirst a ha c hc) b (hfirst b hb d hd) c d hc hd
  · intro a ha hput
    rcases List.mem_append.mp ha with ha | ha
    · rw [List.mem_singleton.mp ha]
      constructor
      · intro i j hij hj
        obtain ⟨k, rfl⟩ : ∃ k, j = k + 1 := ⟨j - 1, by omega⟩
        cases hj
      · show ([sampleTx].filterMap txHash).length ≤ 2 ^ 32
        rw [hids]
        decide
    · rw [List.mem_singleton.mp ha, hunput] at hput
      cases hput

/-- A malformed entry in front of a well-formed one: the key is located at
    position 0 and the malformed entry is served for it. -/
theorem txIndexSound_fails_malformed_first :
    ¬ ∀ (J : Codec) (sha256 : Bytes → Bytes32) (blockdb : Blockdb) (chain : Chain)
      (anchorFloor : Option Nat) (ops : List (IngestWrite × Fault)) (s : Storage),
      OneBlockPerHeight J sha256 ops →
      Run.exec (writeStep J sha256) (Storage.fresh blockdb chain anchorFloor) ops = some s →
      TxIndexSound J sha256 s := by
  intro hall
  obtain ⟨s, hrun, hchain, hraw, htx⟩ :=
    sampleRun_state JsonText.codec (fun _ => sampleHash) [.object [], sampleTx]
  have hids : [.object [], sampleTx].filterMap txHash = [sampleHash] :=
    (List.filterMap_cons_none rfl).trans (List.filterMap_cons_some txHash_sampleTx)
  rw [hids] at htx
  have hloc := getTxLocation_sampleRun htx
  obtain ⟨tx, hserved, hkey⟩ := hall JsonText.codec (fun _ => sampleHash) memory .C none
    (sampleRun [.object [], sampleTx]) s (oneBlockPerHeight_sampleRun _ _ _) hrun
    (fun _ => none) sampleHash (5, 0) hloc
  have hentry : (entries s.chain (sampleBlock [.object [], sampleTx]))[0]?
      = some (.object []) := by
    rw [hchain]
    rfl
  have hlen : 1 ≤ [Value.array []].length := Nat.le_refl 1
  rw [servedTx_of_record hlen hraw hloc hentry] at hserved
  rw [← Option.some.inj (Except.ok.inj hserved), hchain] at hkey
  cases hkey

end NeveTxIndex
