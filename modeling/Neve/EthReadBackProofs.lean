import Neve.HeldPutProofs
import Neve.TxIndexProofs
import Neve.TipTagsProofs
import Neve.SubscribeProofs

/-! # Reading back — what the C-chain's reads make of a stored block

    `lookup_block` resolves a selector to a stored block, and every read is a projection
    of it: the block itself in one of two shapes, the number of its transactions, or one
    of them.  A block that was written is read back by all of them, by its number as by
    its hash, however many writes elsewhere came after (`eth_reads_back`). -/

namespace NeveEthRpc

open JsonValue ByteText NeveRecord NeveStorage NeveIngestWrite NeveEthIngest
open NeveSubscribe (parseQuantity)

/-! ## Selectors -/

/-- How a request picks a block. -/
inductive BlockSelector where
  | Number (tag : String)
  | Height (height : Nat)
  | Hash (hash : String)

section Reads

variable (J : Codec) (s : Storage) (bufferedBlock : Nat → Option Bytes)

/-- The block a selector resolves to; reading by hash does not see the join buffer. -/
def selectBlock : BlockSelector → Except String (Option Value)
  | .Number tag => do
      let h ← resolveBlockTag s tag
      readBlockValue J s bufferedBlock h
  | .Height h => readBlockValue J s bufferedBlock h
  | .Hash hash => do
      let arr ← parseHash hash
      match ← s.getByHash J arr with
      | none => .ok none
      | some bytes =>
          match J.fromSlice bytes with
          | none => .error "stored block decode"
          | some v => .ok (some v)

def lookupBlock {R : Type} (sel : BlockSelector)
    (project : Value → Except String (Option R)) : Except String (Option R) := do
  match ← selectBlock J s bufferedBlock sel with
  | none => .ok none
  | some v => project v

/-- A block's count of transactions, as a quantity. -/
def txCountHex (v : Value) : String := lowerHexText (transactions v).length

/-- The three reads of a block, by any selector. -/
def readBlock (sel : BlockSelector) (fullTx : Bool) : Except String (Option Value) :=
  lookupBlock J s bufferedBlock sel fun v => .ok (some (shapeBlock v fullTx))

def readTxCount (sel : BlockSelector) : Except String (Option String) :=
  lookupBlock J s bufferedBlock sel fun v => .ok (some (txCountHex v))

def readTx (sel : BlockSelector) (index : String) : Except String (Option Value) := do
  let idx ← parseQuantity index
  lookupBlock J s bufferedBlock sel fun v => .ok (nthTransaction v idx)

/-- `eth_getBlockByHash`. -/
def getBlockByHash (hash : String) (fullTx : Bool) : Except String (Option Value) :=
  readBlock J s bufferedBlock (.Hash hash) fullTx

/-- `eth_getBlockTransactionCountByNumber`. -/
def getBlockTransactionCountByNumber (block : String) : Except String (Option String) :=
  readTxCount J s bufferedBlock (.Number block)

/-- `eth_getBlockTransactionCountByHash`. -/
def getBlockTransactionCountByHash (hash : String) : Except String (Option String) :=
  readTxCount J s bufferedBlock (.Hash hash)

/-- `eth_getTransactionByBlockNumberAndIndex`. -/
def getTransactionByBlockNumberAndIndex (block index : String) :
    Except String (Option Value) :=
  readTx J s bufferedBlock (.Number block) index

/-- `eth_getTransactionByBlockHashAndIndex`. -/
def getTransactionByBlockHashAndIndex (hash index : String) :
    Except String (Option Value) :=
  readTx J s bufferedBlock (.Hash hash) index

/-- `eth_getTransactionByHash`, with the parsing of its argument. -/
def getTransactionByHashText (hash : String) : Except String (Option Value) := do
  let arr ← parseHash hash
  getTransactionByHash J s bufferedBlock arr

end Reads

section Selected

variable {J : Codec} {s : Storage} {bufferedBlock : Nat → Option Bytes}

/-- `eth_getBlockByNumber` is the same read. -/
theorem getBlockByNumber_eq (block : String) (fullTx : Bool) :
    getBlockByNumber J s bufferedBlock block fullTx
      = readBlock J s bufferedBlock (.Number block) fullTx := by
  simp only [getBlockByNumber, readBlock, lookupBlock, selectBlock]
  cases resolveBlockTag s block with
  | error e => rfl
  | ok h => rfl

theorem lookupBlock_of_selected {R : Type} {sel : BlockSelector} {v : Value}
    (h : selectBlock J s bufferedBlock sel = .ok (some v))
    (project : Value → Except String (Option R)) :
    lookupBlock J s bufferedBlock sel project = project v := by
  simp only [lookupBlock]
  rw [h]
  rfl

/-- The texts that name a call's block. -/
inductive Picks (s : Storage) (c : PutCall) : BlockSelector → Prop where
  | number {tag : String} (h : resolveBlockTag s tag = .ok c.height) : Picks s c (.Number tag)
  | height : Picks s c (.Height c.height)
  | hash {text : String} (h : parseHash text = .ok c.hash) : Picks s c (.Hash text)

/-- Whatever names a block that is held resolves to it, floats reread. -/
theorem selectBlock_of_held {sha256 : Bytes → Bytes32} {c : PutCall} (hl : c.Lawful sha256)
    (h : Held J c s) {sel : BlockSelector} (hsel : Picks s c sel) :
    selectBlock J s bufferedBlock sel = .ok (some (c.block.mapFloat J.refloat)) := by
  have hread : readBlockValue J s bufferedBlock c.height
      = .ok (some (c.block.mapFloat J.refloat)) :=
    readBlockValue_of_rawAt J bufferedBlock hl.one_le h.record
  cases hsel with
  | number htag =>
      simp only [selectBlock]
      rw [htag]
      exact hread
  | height => exact hread
  | hash htext =>
      have hbytes : s.getByHash J c.hash = .ok (some (J.toVec c.block)) :=
        NeveHashIndex.getByHash_of_record hl h.hash h.record
      simp only [selectBlock]
      rw [htext]
      dsimp only [bind, Except.bind]
      rw [hbytes]
      dsimp only
      rw [J.fromSlice_toVec]

/-! ## Shapes, counts and positions -/

theorem parseHash_hashText (hash : Bytes32) : parseHash (hashText hash) = .ok hash := by
  simp only [parseHash, hashText]
  rw [String.toList_ofList]
  show (match hexDecode (hexEncode hash.toList) with | none => _ | some raw => _) = _
  rw [hexDecode_hexEncode]
  dsimp only
  rw [toBytes32_toList]

theorem parseQuantity_lowerHexText {n : Nat} (h : n < 2 ^ 64) :
    parseQuantity (lowerHexText n) = .ok n := by
  have harg : u64FromRadix16
      ((stripPrefix0x (lowerHexText n).toList).getD (lowerHexText n).toList) = some n :=
    blockNumberArg_lowerHexText h
  simp only [parseQuantity, harg]

/-! ## What was written is read back -/

/-- Everything the C-chain's reads make of a block that was written, for every way to name
    it; `w` is the block with its floats reread. -/
structure ReadsBack (J : Codec) (s : Storage) (bufferedBlock : Nat → Option Bytes)
    (c : PutCall) : Prop where
  named : Picks s c (.Number (lowerHexText c.height)) ∧ Picks s c (.Hash (hashText c.hash))
  block : ∀ sel, Picks s c sel → ∀ fullTx, readBlock J s bufferedBlock sel fullTx
    = .ok (some (shapeBlock (c.block.mapFloat J.refloat) fullTx))
  count : ∀ sel, Picks s c sel → readTxCount J s bufferedBlock sel
    = .ok (some (lowerHexText (transactions c.block).length))
  nth : ∀ sel, Picks s c sel → ∀ (index : String) (i : Nat), parseQuantity index = .ok i →
    readTx J s bufferedBlock sel index
      = .ok (((transactions c.block)[i]?).map (Value.mapFloat J.refloat))
  pages : ∀ sel, Picks s c sel → (transactions c.block).length ≤ 2 ^ 64 →
    (List.range (transactions c.block).length).map
        (fun i => readTx J s bufferedBlock sel (lowerHexText i))
      = (transactions c.block).map fun tx => .ok (some (tx.mapFloat J.refloat))
  byHash : NeveTxIndex.Packed txHash (transactions c.block) → c.ids.Nodup →
    c.ids.length ≤ 2 ^ 32 → ∀ (i : Nat) (key : Bytes32), c.ids[i]? = some key →
      ∀ text, parseHash text = .ok key →
        ∃ tx, (transactions c.block)[i]? = some tx ∧ txHash tx = some key ∧
          getTransactionByHashText J s bufferedBlock text
            = .ok (some (tx.mapFloat J.refloat))

theorem readsBack_of_held {sha256 : Bytes → Bytes32} {c : PutCall} (hl : c.Lawful sha256)
    (hchain : c.chain = .C) (h : Held J c s) : ReadsBack J s bufferedBlock c := by
  have hselect : ∀ {sel}, Picks s c sel →
      selectBlock J s bufferedBlock sel = .ok (some (c.block.mapFloat J.refloat)) :=
    fun hsel => selectBlock_of_held hl h hsel
  have hnth : ∀ sel, Picks s c sel → ∀ (index : String) (i : Nat),
      parseQuantity index = .ok i → readTx J s bufferedBlock sel index
        = .ok (((transactions c.block)[i]?).map (Value.mapFloat J.refloat)) := by
    intro sel hsel index i hindex
    simp only [readTx]
    rw [hindex]
    show lookupBlock J s bufferedBlock sel _ = _
    rw [lookupBlock_of_selected (hselect hsel), nthTransaction_eq, transactions_mapFloat,
      List.getElem?_map]
  refine ⟨⟨.number (resolveBlockTag_number hl.height_lt), .hash (parseHash_hashText c.hash)⟩,
    ?_, ?_, hnth, ?_, ?_⟩
  · intro sel hsel fullTx
    exact lookupBlock_of_selected (hselect hsel) _
  · intro sel hsel
    simp only [readTxCount]
    rw [lookupBlock_of_selected (hselect hsel), txCountHex, transactions_mapFloat,
      List.length_map]
  · intro sel hsel hlen
    refine List.ext_getElem (by rw [List.length_map, List.length_map, List.length_range]) ?_
    intro i hi htx
    rw [List.length_map] at htx
    rw [List.getElem_map, List.getElem_range, List.getElem_map,
      hnth sel hsel _ i (parseQuantity_lowerHexText (Nat.lt_of_lt_of_le htx hlen)),
      List.getElem?_eq_getElem htx]
    rfl
  · intro hpacked hnodup hlen i key hi text htext
    have hids : c.ids = (transactions c.block).filterMap txHash := by
      rw [hl.ids, hchain]
      rfl
    rw [hids] at hi
    obtain ⟨tx, htx, hkey⟩ := hpacked.getElem_filterMap hi
    rw [← hids] at hi
    refine ⟨tx, htx, hkey, ?_⟩
    have hloc := h.location hnodup hlen hi
    have hs : s.chain = .C := h.chain.trans hchain
    have hserved : NeveTxIndex.servedTx J s bufferedBlock key
        = .ok (some (tx.mapFloat J.refloat)) := by
      refine NeveTxIndex.servedTx_of_record hl.one_le h.record hloc ?_
      rw [hs]
      exact htx
    simp only [NeveTxIndex.servedTx, hs] at hserved
    simp only [getTransactionByHashText]
    rw [htext]
    exact hserved

/-- **Reading back.**  A block that a write of the C-chain's ingest stored is given by all
    of its reads, whatever names it and whatever was written elsewhere since, failed writes
    included: the block in either shape, the count of its transactions, each of them by its
    position, and where the hashes are well formed and differ, each of them by its hash. -/
theorem eth_reads_back {sha256 : Bytes → Bytes32} {w : IngestWrite} {c : PutCall}
    (hcall : w.call J sha256 = some c) (hchain : w.chain = .C) {s0 s1 : Storage}
    {fault : Fault} (hwrite : w.run J sha256 s0 fault = (.ok (), s1))
    {ops : List (IngestWrite × Fault)}
    (hspares : ∀ a ∈ ops, ∀ d, a.1.call J sha256 = some d → c.Spares d)
    (hrun : Run.exec (writeStep J sha256) s1 ops = some s)
    (bufferedBlock : Nat → Option Bytes) : ReadsBack J s bufferedBlock c := by
  have hheld : Held J c s := (held_of_write hcall hwrite).run hspares hrun
  exact readsBack_of_held (IngestWrite.call_spec hcall)
    ((IngestWrite.call_block hcall).1.trans hchain) hheld

end Selected

/-! ## A block with one transaction -/

/-- The put a backfill of the sample block issues. -/
def sampleCall : PutCall :=
  ⟨.C, 5, NeveTxIndex.sampleHash, [NeveTxIndex.sampleHash],
    NeveTxIndex.sampleBlock [NeveTxIndex.sampleTx], [.array []]⟩

/-- The backfill. -/
def sampleWrite : IngestWrite := .persistBackfilled 5 sampleCall.block (.array [])

theorem call_sampleWrite (J : Codec) (sha256 : Bytes → Bytes32) :
    sampleWrite.call J sha256 = some sampleCall := by
  have hkey : txHash sampleCall.block = some NeveTxIndex.sampleHash := NeveTxIndex.txHash_sampleTx
  have hids : extractTxHashes sampleCall.block = [NeveTxIndex.sampleHash] :=
    List.filterMap_cons_some NeveTxIndex.txHash_sampleTx
  simp only [sampleWrite, IngestWrite.call]
  rw [hkey, hids]
  rfl

/-- It is read back after a body without a hash came in at another height. -/
theorem eth_reads_back_sample :
    ∃ s1 s, sampleWrite.run JsonText.codec (fun _ => NeveTxIndex.sampleHash)
        (Storage.fresh memory .C none) .none = (.ok (), s1) ∧
      Run.exec (writeStep JsonText.codec (fun _ => NeveTxIndex.sampleHash)) s1
        [(.persistBackfilled 6 (.object []) (.array []), .none)] = some s ∧
      ReadsBack JsonText.codec s (fun _ => none) sampleCall := by
  obtain ⟨s1, hput, -⟩ := sampleCall.run_fresh JsonText.codec memory rfl
  have hcall := call_sampleWrite JsonText.codec fun _ => NeveTxIndex.sampleHash
  obtain ⟨hstate, hok⟩ := IngestWrite.run_of_call (Storage.fresh memory .C none) .none hcall
  rw [show sampleCall.run JsonText.codec (Storage.fresh memory .C none) .none = (.ok (), s1)
    from hput] at hstate hok
  have hwrite : sampleWrite.run JsonText.codec (fun _ => NeveTxIndex.sampleHash)
      (Storage.fresh memory .C none) .none = (.ok (), s1) := Prod.ext (hok.mpr rfl) hstate
  obtain ⟨s, hrun⟩ : ∃ s,
    Run.exec (writeStep JsonText.codec fun _ => NeveTxIndex.sampleHash) s1
      [(.persistBackfilled 6 (.object []) (.array []), .none)] = some s := ⟨_, rfl⟩
  refine ⟨s1, s, hwrite, hrun, eth_reads_back hcall rfl hwrite ?_ hrun fun _ => none⟩
  intro a ha d hd
  rw [List.mem_singleton.mp ha] at hd
  cases hd

end NeveEthRpc
