import Neve.StorageProofs

/-! # C-chain ingest — from a block body to a put

    Decoding of the pieces a C-chain write needs (`decodeHash`,
    `extractTxHashes`, `prepareBlock`), the two direct write paths, the logs
    sources, and the reads that slice a transaction back out. -/

namespace NeveEthIngest

open JsonValue ByteText NeveRecord NeveStorage

/-- Decode a `0x`-prefixed (or bare) 32-byte hex hash. -/
def decodeHash (s : String) : Except String Bytes32 :=
  match hexDecode (trimStart0x s.toList) with
  | none => .error "invalid hex"
  | some raw =>
      match toBytes32 raw with
      | none => .error "hash must be 32 bytes"
      | some hash => .ok hash

/-- How a hash is spelled on the wire. -/
def hashText (hash : Bytes32) : String :=
  String.ofList ('0' :: 'x' :: hexEncode hash.toList)

theorem decodeHash_hashText (hash : Bytes32) : decodeHash (hashText hash) = .ok hash := by
  simp only [decodeHash, hashText]
  rw [String.toList_ofList]
  show (match hexDecode (trimStart0x (hexEncode hash.toList)) with
    | none => _ | some raw => _) = _
  rw [trimStart0x_hexEncode, hexDecode_hexEncode]
  dsimp only
  rw [toBytes32_toList]

/-- The transaction entries of a full block, malformed ones included. -/
def transactions (block : Value) : List Value :=
  ((block.get "transactions").bind Value.asArray).getD []

/-- The hash a transaction entry names, if it is well formed. -/
def txHash (tx : Value) : Option Bytes32 :=
  ((tx.get "hash").bind Value.asStr).bind fun s => (decodeHash s).toOption

/-- The per-transaction hashes of a block; malformed entries are skipped. -/
def extractTxHashes (block : Value) : List Bytes32 :=
  (transactions block).filterMap txHash

/-- The decoded pieces needed to store a live block. -/
structure PreparedBlock where
  hash : Bytes32
  txHashes : List Bytes32
  bytes : Bytes

section Paths

variable (J : Codec)

/-- Check a live body against the head hash and decode what the store needs.
    `none` on a fork mismatch or a bad hash: the caller skips the height. -/
def prepareBlock (expectedHash : String) (block : Value) : Option PreparedBlock :=
  let bodyHash := ((block.get "hash").bind Value.asStr).getD ""
  if bodyHash ≠ expectedHash then none
  else match decodeHash expectedHash with
    | .error _ => none
    | .ok hash => some ⟨hash, extractTxHashes block, J.toVec block⟩

/-- Live path with log ingestion off: store the block at once with an empty
    logs half. -/
def persistBlock (s : Storage) (fault : Fault) (height : Nat) (expectedHash : String)
    (block : Value) : Except String Unit × Storage :=
  match prepareBlock J expectedHash block with
  | none => (.ok (), s)
  | some p => s.put fault height p.hash p.txHashes [p.bytes, EMPTY_ARRAY]

/-- Persist a block fetched by backfill or streamed by the bootstrap; the
    body's own hash is trusted. -/
def persistBackfilled (s : Storage) (fault : Fault) (height : Nat) (block : Value)
    (logs : Bytes) : Except String Unit × Storage :=
  match (block.get "hash").bind Value.asStr with
  | none => (.error "backfilled block missing hash", s)
  | some bodyHash =>
      match decodeHash bodyHash with
      | .error e => (.error e, s)
      | .ok hash =>
          s.put fault height hash (extractTxHashes block) [J.toVec block, logs]

end Paths

/-! ## Serving a transaction -/

/-- Take the `idx`-th transaction out of a block. -/
def nthTransaction (v : Value) (idx : Nat) : Option Value :=
  (v.get "transactions").bind Value.asArray >>= (·[idx]?)

section Serving

variable (J : Codec)

/-- Read a block by height, consulting the in-flight join buffer when the store
    does not have it yet. -/
def readBlockValue (s : Storage) (bufferedBlock : Nat → Option Bytes) (height : Nat) :
    Except String (Option Value) := do
  match ← s.getByHeight J height with
  | some bytes =>
      match J.fromSlice bytes with
      | none => .error "stored block decode"
      | some v => .ok (some v)
  | none =>
      match bufferedBlock height with
      | none => .ok none
      | some raw =>
          match J.fromSlice raw with
          | none => .error "buffered block decode"
          | some v => .ok (some v)

/-- `eth_getTransactionByHash`, past the parsing of its argument. -/
def getTransactionByHash (s : Storage) (bufferedBlock : Nat → Option Bytes)
    (hash : Bytes32) : Except String (Option Value) := do
  match ← s.getTxLocation hash with
  | none => .ok none
  | some (height, txIdx) =>
      match ← readBlockValue J s bufferedBlock height with
      | none => .ok none
      | some v => .ok (nthTransaction v txIdx)

end Serving

theorem nthTransaction_eq (v : Value) (idx : Nat) :
    nthTransaction v idx = (transactions v)[idx]? := by
  simp only [nthTransaction, transactions]
  cases (v.get "transactions").bind Value.asArray with
  | none => rfl
  | some items => rfl

theorem transactions_mapFloat (g : Decimal → Decimal) (block : Value) :
    transactions (block.mapFloat g) = (transactions block).map (Value.mapFloat g) := by
  simp only [transactions]
  rw [Value.get_mapFloat]
  cases block.get "transactions" with
  | none => rfl
  | some txs =>
      show ((txs.mapFloat g).asArray).getD []
        = (txs.asArray.getD []).map (Value.mapFloat g)
      rw [Value.asArray_mapFloat]
      cases txs.asArray with
      | none => rfl
      | some items => rfl

theorem txHash_mapFloat (g : Decimal → Decimal) (tx : Value) :
    txHash (tx.mapFloat g) = txHash tx := by
  simp only [txHash]
  rw [Value.get_asStr_mapFloat]

/-- A stored block is read back from the store, floats reread. -/
theorem readBlockValue_of_rawAt (J : Codec) {s : Storage}
    (bufferedBlock : Nat → Option Bytes) {height : Nat} {block : Value}
    {derived : List Value} (hlen : 1 ≤ derived.length)
    (h : s.rawAt height = some (encode ((block :: derived).map J.toVec))) :
    readBlockValue J s bufferedBlock height = .ok (some (block.mapFloat J.refloat)) := by
  simp only [readBlockValue]
  rw [s.getByHeight_of_rawAt J hlen h]
  show (match J.fromSlice (J.toVec block) with | none => _ | some v => _) = _
  rw [J.fromSlice_toVec]

end NeveEthIngest
