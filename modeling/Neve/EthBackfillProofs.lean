import Mathlib
import Neve.EthIngestProofs

/-! # C-chain backfill — the logs of a height and what one fetch yields

    The pieces the backfill loop is made of: the window of logs one
    `eth_getLogs` covers, the logs flattened out of a block's receipts, the
    upstream tip kept in a cache, and the fetch of one height, which is skipped
    when the live path has already filled the slot.

    Every upstream reply comes through `fetchRpc`, which gives up on a `null`
    result and looks no further into the others: a logs reply need not be an
    array. -/

namespace NeveEthBackfill

open JsonValue ByteText NeveRecord NeveStorage NeveEthIngest

/-! ## Upstream replies -/

/-- The `result` of a request, if one came within the retry budget and is not
    `null`. -/
def fetchRpc (result : Option Value) : Option Value := result.filter (!·.isNull)

/-- A quantity such as `0x2a`. -/
def quantity (v : Value) : Option Nat :=
  v.asStr.bind fun s => u64FromRadix16 (trimStart0x s.toList)

theorem quantity_lt {v : Value} {n : Nat} (h : quantity v = some n) : n < 2 ^ 64 := by
  obtain ⟨s, -, hs⟩ := Option.bind_eq_some_iff.mp h
  exact u64FromRadix16_lt hs

/-- The height an `eth_blockNumber` response names. -/
def upstreamBlockNumber (response : Option Value) : Option Nat :=
  (response.bind (·.get "result")).bind quantity

theorem upstreamBlockNumber_lt {response : Option Value} {n : Nat}
    (h : upstreamBlockNumber response = some n) : n < 2 ^ 64 := by
  obtain ⟨v, -, hv⟩ := Option.bind_eq_some_iff.mp h
  exact quantity_lt hv

/-- Where a height's logs come from, as probed at startup. -/
inductive LogsSource where
  | Receipts
  | GetLogs
  deriving DecidableEq, Repr

/-- Flatten a receipts array into the logs `eth_getLogs` would have returned. -/
def logsFromReceipts (receipts : Value) : Value :=
  match receipts.asArray with
  | none => .array []
  | some items => .array ((items.filterMap fun r => (r.get "logs").bind Value.asArray).flatten)

/-- A height's logs, from whichever source the startup probe settled on. -/
def fetchLogsForHeight (source : LogsSource) (result : Option Value) : Option Value :=
  match source with
  | .Receipts => (fetchRpc result).map logsFromReceipts
  | .GetLogs => fetchRpc result

/-! ## The logs window -/

/-- The `blockNumber` of a log object, if present and well formed. -/
def blockNumberOf (log : Value) : Option Nat := (log.get "blockNumber").bind quantity

/-- One window's worth of logs by block height; heights with none are absent. -/
structure LogWindow where
  byHeight : AList (fun _ : Nat => List Value)

namespace LogWindow

def empty : LogWindow := ⟨∅⟩

/-- Append one log to its height's bucket. -/
def push (w : LogWindow) (log : Value) : LogWindow :=
  match blockNumberOf log with
  | none => w
  | some height =>
      ⟨w.byHeight.insert height ((w.byHeight.lookup height).getD [] ++ [log])⟩

/-- Replace the window with a freshly fetched reply, bucketed by height.  A reply
    that is not an array leaves it empty. -/
def load (logs : Value) : LogWindow :=
  match logs with
  | .array items => items.foldl push empty
  | _ => empty

section Serialized

variable (J : Codec)

/-- A logs array as stored bytes, with its entry count. -/
def serialize (logs : Value) : Bytes × Nat :=
  (J.toVec logs, (logs.asArray.map List.length).getD 0)

/-- This height's logs as stored bytes, the empty array if there are none. -/
def serialized (w : LogWindow) (height : Nat) : Bytes × Nat :=
  match w.byHeight.lookup height with
  | some logs => serialize J (.array logs)
  | none => (EMPTY_ARRAY, 0)

end Serialized

end LogWindow

/-! ## The tip cache -/

/-- The upstream tip last read, and whether it was ever read. -/
structure TipCache where
  height : Nat
  fetched : Bool
  deriving DecidableEq, Repr

namespace TipCache

def new : TipCache := ⟨0, false⟩

/-- Always read upstream; a failed read keeps the previous value. -/
def getUncached (t : TipCache) (response : Option Value) : TipCache :=
  ⟨(upstreamBlockNumber response).getD t.height, true⟩

/-- Read upstream only once the cached value has aged. -/
def get (t : TipCache) (aged : Bool) (response : Option Value) : TipCache :=
  if t.fetched && !aged then t else t.getUncached response

end TipCache

/-! ## Fetching one height -/

/-- How the C-chain pipeline is set up. -/
structure IngestCfg where
  ingestLogs : Bool
  logsSource : LogsSource
  subscribeBlocks : Bool
  backfillFloor : Option UInt64
  fetchConcurrency : Nat
  joinBufferCap : Nat

namespace IngestCfg

/-- Does a run fetch its logs up front, in one window? -/
def windowed (cfg : IngestCfg) : Bool := cfg.ingestLogs && cfg.logsSource = .GetLogs

/-- Are logs fetched with each height, from its receipts? -/
def perHeightLogs (cfg : IngestCfg) : Bool := cfg.ingestLogs && cfg.logsSource = .Receipts

def floor (cfg : IngestCfg) : Option Nat := cfg.backfillFloor.map UInt64.toNat

end IngestCfg

/-- One height's outcome from the concurrent fetch stage. -/
inductive Fetched where
  | Skip
  | Block (height : Nat) (block : Value) (logs : Option Value)

section Fetch

variable (J : Codec) (cfg : IngestCfg)

/-- The logs fetched alongside a block: none to fetch, or those of its receipts. -/
def fetchHeightLogs (receipts : Option Value) : Option (Option Value) :=
  if !cfg.perHeightLogs then some none
  else (fetchRpc receipts).map fun r => some (logsFromReceipts r)

/-- One height's block, and its logs too when they come from its receipts.
    `none` is a fetch failure; a slot already filled is skipped. -/
def fetchOne (s : Storage) (height : Nat) (block receipts : Option Value) :
    Option Fetched :=
  match s.getByHeight J height with
  | .ok (some _) => some .Skip
  | _ => do
      let block ← fetchRpc block
      let logs ← fetchHeightLogs cfg receipts
      some (.Block height block logs)

/-- The logs half a fetched height is written with. -/
def logsHalf (w : LogWindow) (height : Nat) (fetchedLogs : Option Value) : Bytes × Nat :=
  match cfg.ingestLogs, fetchedLogs with
  | false, _ => (EMPTY_ARRAY, 0)
  | true, some logs => LogWindow.serialize J logs
  | true, none => w.serialized J height

end Fetch

/-- What a fetch of a height yields: nothing, a skip of a stored height, or the
    block of that height. -/
theorem fetchOne_cases {J : Codec} {cfg : IngestCfg} {s : Storage} {height : Nat}
    {block receipts : Option Value} {fetched : Fetched}
    (h : fetchOne J cfg s height block receipts = some fetched) :
    (fetched = .Skip ∧ s.Has height) ∨
      ∃ v logs, fetched = .Block height v logs ∧ fetchRpc block = some v ∧
        (if cfg.perHeightLogs then
          ∃ r, fetchRpc receipts = some r ∧ logs = some (logsFromReceipts r)
        else logs = none) := by
  simp only [fetchOne] at h
  split at h
  · rename_i bytes hget
    refine Or.inl ⟨(Option.some.inj h).symm, ?_⟩
    -- the read came back with a block, so the height is stored
    rw [Storage.has_iff_rawAt, ← Option.ne_none_iff_exists']
    intro hraw
    rw [(Storage.getByHeight_eq_none_iff J s height).mpr hraw] at hget
    cases hget
  · refine Or.inr ?_
    obtain ⟨v, hv, h⟩ := Option.bind_eq_some_iff.mp h
    obtain ⟨logs, hlogs, h⟩ := Option.bind_eq_some_iff.mp h
    refine ⟨v, logs, (Option.some.inj h).symm, hv, ?_⟩
    simp only [fetchHeightLogs] at hlogs
    by_cases hper : cfg.perHeightLogs = true
    · rw [if_pos hper]
      rw [hper] at hlogs
      obtain ⟨r, hr, hlogs⟩ := Option.map_eq_some_iff.mp hlogs
      exact ⟨r, hr, hlogs.symm⟩
    · rw [if_neg hper]
      rw [Bool.not_eq_true] at hper
      rw [hper] at hlogs
      exact (Option.some.inj hlogs).symm

end NeveEthBackfill
