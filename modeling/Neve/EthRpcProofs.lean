import Neve.EthIngestProofs
import Neve.FrontierProofs
import Neve.StrTextProofs

/-! # The `eth_*` reads — tags, blocks and logs

    The C-chain's JSON-RPC reads over a store: the tip, a block by number or tag, and
    `eth_getLogs` with its filter, which is read in chunks.

    Two of them part from what they are meant to be.  A filter that is empty, or longer
    than a log, is not taken as a node takes it (`logMatches_iff_geth`); and the tip reads
    agree only above height 0 (`tip_reads_agree_iff`). -/

namespace NeveEthRpc

open JsonValue ByteText StrText NeveRecord NeveStorage NeveFrontier

/-! ## Arguments -/

/-- A 32-byte hash, with or without the marker. -/
def parseHash (hash : String) : Except String Bytes32 :=
  match hexDecode ((stripPrefix0x hash.toList).getD hash.toList) with
  | none => .error "bad hash: invalid hex"
  | some raw =>
      match toBytes32 raw with
      | none => .error "hash must be 32 bytes"
      | some arr => .ok arr

/-- A block number in radix 16, with or without the marker. -/
def blockNumberArg (hex : String) : Option Nat :=
  u64FromRadix16 ((stripPrefix0x hex.toList).getD hex.toList)

/-- The tags that stand for the tip. -/
def tipTags : List String := ["latest", "finalized", "safe"]

/-- The tags that are refused. -/
def unsupportedTags : List String := ["earliest", "pending"]

def resolveBlockTag (s : Storage) (tag : String) : Except String Nat :=
  if tag ∈ tipTags then
    if s.highWater = 0 then .error "no blocks stored yet" else .ok s.highWater
  else if tag ∈ unsupportedTags then .error s!"unsupported block tag: {tag}"
  else
    match blockNumberArg tag with
    | none => .error s!"invalid block number: {tag}"
    | some h => .ok h

/-! ## Blocks -/

/-- Take one hash out of a transaction, if it has one. -/
def txHashOnly (tx : Value) : Value := (tx.get "hash").getD tx

/-- A block with its `transactions` replaced. -/
def mapTransactions (f : Value → Value) : Value → Value
  | .object fields =>
      .object (fields.map fun field =>
        match field with
        | ("transactions", .array txs) => ("transactions", .array (txs.map f))
        | other => other)
  | v => v

/-- A block in the shape a client asked for: whole transactions, or their hashes. -/
def shapeBlock (v : Value) (fullTx : Bool) : Value :=
  if fullTx then v else mapTransactions txHashOnly v

/-- `eth_blockNumber`. -/
def blockNumber (s : Storage) : Except String String := .ok (lowerHexText s.highWater)

section Reads

variable (J : Codec)

/-- `eth_getBlockByNumber`; `none` is a miss, which is deferred upstream. -/
def getBlockByNumber (s : Storage) (bufferedBlock : Nat → Option Bytes) (block : String)
    (fullTx : Bool) : Except String (Option Value) := do
  let h ← resolveBlockTag s block
  match ← NeveEthIngest.readBlockValue J s bufferedBlock h with
  | none => .ok none
  | some v => .ok (some (shapeBlock v fullTx))

end Reads

/-! ## Log filters -/

/-- A filter slot: a single value, or any of several. -/
inductive OneOrMany where
  | One (s : String)
  | Many (v : List String)
  deriving DecidableEq

/-- The `eth_getLogs` filter object. -/
structure LogFilter where
  fromBlock : Option String
  toBlock : Option String
  blockHash : Option String
  address : Option OneOrMany
  topics : Option (List (Option OneOrMany))

def OneOrMany.matches : OneOrMany → String → Bool
  | .One s, candidate => eqIgnoreAsciiCase s candidate
  | .Many v, candidate => v.any fun s => eqIgnoreAsciiCase s candidate

/-- The address of a log, empty if it has none. -/
def logAddress (log : Value) : String := ((log.get "address").bind Value.asStr).getD ""

/-- The topics of a log, none if they are no array. -/
def logTopics (log : Value) : List Value := ((log.get "topics").bind Value.asArray).getD []

/-- The address constraint of a filter; an absent one matches anything. -/
def addressMatches (log : Value) : Option OneOrMany → Bool
  | none => true
  | some address => address.matches (logAddress log)

/-- The constraint at topic position `i`; a log with fewer topics fails it. -/
def topicMatches (log : Value) (i : Nat) : Option OneOrMany → Bool
  | none => true
  | some slot =>
      match ((logTopics log)[i]?).bind Value.asStr with
      | none => false
      | some topic => slot.matches topic

/-- The topic constraints of a filter. -/
def topicsMatch (log : Value) : Option (List (Option OneOrMany)) → Bool
  | none => true
  | some topics => topics.zipIdx.all fun slot => topicMatches log slot.2 slot.1

/-- Does one stored log match the filter's address and topic constraints? -/
def logMatches (log : Value) (address : Option OneOrMany)
    (topics : Option (List (Option OneOrMany))) : Bool :=
  addressMatches log address && topicsMatch log topics

/-! ## `eth_getLogs` -/

def MAX_GETLOGS_RANGE : Nat := 2048

/-- Blocks read per batch while serving a range. -/
def GETLOGS_READ_CHUNK : Nat := 256

section GetLogs

variable (J : Codec)

/-- The logs of a stored logs element that match. -/
def matchingLogs (filter : LogFilter) (logs : Value) : List Value :=
  match logs.asArray with
  | none => []
  | some arr => arr.filter fun log => logMatches log filter.address filter.topics

/-- Go through the logs elements of a chunk. -/
def collectLogs (filter : LogFilter) : List Bytes → List Value → Except String (List Value)
  | [], out => .ok out
  | logsBytes :: rest, out =>
      match J.fromSlice logsBytes with
      | none => .error "stored logs decode"
      | some logs => collectLogs filter rest (out ++ matchingLogs filter logs)

/-- The last height of the chunk that starts at a height. -/
def chunkEnd (chunkStart toHeight : Nat) : Nat :=
  min (saturatingAdd chunkStart GETLOGS_READ_CHUNK - 1) toHeight

/-- Read a range chunk by chunk, at most `fuel` of them; `none` if there are more. -/
def scanLogs (s : Storage) (filter : LogFilter) (toHeight : Nat) :
    Nat → Nat → List Value → Option (Except String (Option Value))
  | 0, _, _ => none
  | fuel + 1, chunkStart, out =>
      if chunkStart ≤ toHeight then
        match s.readElementRange J chunkStart (chunkEnd chunkStart toHeight) C_LOGS with
        | .error e => some (.error s!"storage error: {e}")
        | .ok none => some (.ok none)
        | .ok (some perHeight) =>
            match collectLogs J filter perHeight out with
            | .error e => some (.error e)
            | .ok out =>
                scanLogs s filter toHeight fuel
                  (saturatingAdd (chunkEnd chunkStart toHeight) 1) out
      else some (.ok (some (.array out)))

/-- The heights a filter asks for; `none` where the store cannot answer for them. -/
def getLogsRange (s : Storage) (filter : LogFilter) : Except String (Option (Nat × Nat)) :=
  match filter.blockHash with
  | some blockHash => do
      let arr ← parseHash blockHash
      match s.heightOfHash arr with
      | .error e => .error s!"storage error: {e}"
      | .ok none => .ok none
      | .ok (some h) => .ok (some (h, h))
  | none => do
      let fromHeight ← resolveBlockTag s (filter.fromBlock.getD "latest")
      let toHeight ← resolveBlockTag s (filter.toBlock.getD "latest")
      if toHeight < fromHeight then
        .error s!"fromBlock ({fromHeight}) is after toBlock ({toHeight})"
      else if MAX_GETLOGS_RANGE < saturatingAdd (toHeight - fromHeight) 1 then
        .error (s!"getLogs range too large: {saturatingAdd (toHeight - fromHeight) 1} blocks " ++
            s!"(max {MAX_GETLOGS_RANGE})")
      else if fromHeight < s.minHeight ∨ s.maxContiguousHeight < toHeight then .ok none
      else .ok (some (fromHeight, toHeight))

/-- `eth_getLogs`, reading at most `fuel` chunks. -/
def getLogs (s : Storage) (ingestsLogs : Bool) (filter : LogFilter) (fuel : Nat) :
    Option (Except String (Option Value)) :=
  if !ingestsLogs then some (.ok none)
  else
    match getLogsRange s filter with
    | .error e => some (.error e)
    | .ok none => some (.ok none)
    | .ok (some (fromHeight, toHeight)) => scanLogs J s filter toHeight fuel fromHeight []

end GetLogs

end NeveEthRpc
