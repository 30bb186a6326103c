import Neve.ConfigProofs

/-! # `--print-config` — what is printed, and what it reads back as

    The resolved configuration is printed in the shape of a file.  Durations are
    printed in whole milliseconds and a host cap of `none` is not printed at all, so the
    file resolves to the same configuration exactly when nothing finer than a millisecond
    and no switched-off cap had to be said (`print_config_fixpoint_iff`). -/

namespace NeveConfig

open TomlTree StrText Outcome
open NeveRecord (Chain)

/-! ## Printing -/

/-- Render a duration, preferring the largest exact unit. -/
def fmtDuration (d : Duration) : String :=
  let millis := d / 10 ^ 6
  if millis = 0 then "0s"
  else if millis % 1000 ≠ 0 then toString millis ++ "ms"
  else
    let secs := d / 10 ^ 9
    if secs % 3600 = 0 then toString (secs / 3600) ++ "h"
    else if secs % 60 = 0 then toString (secs / 60) ++ "m"
    else toString secs ++ "s"

/-- An unsigned integer as a TOML integer. -/
def intValue (n : Nat) : Except Error Value :=
  if n < 2 ^ 63 then .ok (.integer (Int64.ofNat n))
  else .error ["serialize configuration value"]

def redactedUpstream (up : Upstream) : Table :=
  [("kind", .string up.kind.asStr), ("base", .string (redactUrl up.base)),
      ("token_param", .string up.tokenParam)]
    ++ (up.maxRps.map fun rps => ("max_rps", .float rps)).toList
    ++ (up.tokenFile.map fun p => ("token_file", .string p)).toList
    -- a token with no file behind it came from the environment
    ++ (if up.token.isSome ∧ up.tokenFile.isNone then
        [("token", .string "<redacted, from NEVE_UPSTREAM_TOKEN>")] else [])

def redactedServer (X : Formats) (srv : Server) : Except Error Table := do
  let maxConnections ← intValue srv.maxConnections
  let maxBlocksPerRequest ← intValue srv.maxBlocksPerRequest
  return [("addr", .string (X.showSocketAddr srv.addr)), ("max_connections", maxConnections),
    ("idle_timeout", .string (fmtDuration (srv.idleTimeout.getD 0))),
    ("max_blocks_per_request", maxBlocksPerRequest)]

/-- A floor as it is printed: a height that is no TOML integer becomes the largest. -/
def floorValue : Option Nat → Value
  | none => .string "tip"
  | some h => .integer (if h < 2 ^ 63 then Int64.ofNat h else Int64.maxValue)

/-- `RedactedChain::of`, with its two counts serialized. -/
def chainEntries (cfg : ChainCfg) (concurrency joinBufferCap : Value) : Table :=
  [("rpc_url", .string (redactUrl cfg.rpcUrl)), ("ws_url", .string (redactUrl cfg.wsUrl)),
    ("data_dir", .string cfg.dataDir), ("backfill_floor", floorValue cfg.backfillFloor),
    ("request_interval", .string (fmtDuration cfg.requestInterval)),
    ("concurrency", concurrency),
    ("poll_interval", .string (fmtDuration cfg.pollInterval)),
    ("max_wait", .string (fmtDuration cfg.maxWait)),
    ("ws_idle_timeout", .string (fmtDuration cfg.wsIdleTimeout)),
    ("prefetch_delay_cap", .string (fmtDuration cfg.prefetchDelayCap)),
    ("ingest_logs", .boolean cfg.ingestLogs), ("join_buffer_cap", joinBufferCap),
    ("summary_period", .string (fmtDuration cfg.summaryPeriod))]

def redactedChain (cfg : ChainCfg) : Except Error Table := do
  let concurrency ← intValue cfg.concurrency
  let joinBufferCap ← intValue cfg.joinBufferCap
  return chainEntries cfg concurrency joinBufferCap

def redactedChains : List (Chain × ChainCfg) → Except Error Table
  | [] => .ok []
  | (chain, cfg) :: rest => do
      let table ← redactedChain cfg
      let others ← redactedChains rest
      return (chain.asStr, .table table) :: others

/-- The document that is printed. -/
def redactedTable (X : Formats) (r : Resolved) : Except Error Table := do
  let server ← redactedServer X r.server
  let chains ← redactedChains r.chains
  return [("network", .string r.network.asStr), ("log_level", .string r.logLevel.asStr),
    ("upstream", .table (redactedUpstream r.upstream)), ("server", .table server),
    ("chains", .table chains)]

/-- The rendered document, its placeholder for a token commented out. -/
def rendered (X : Formats) (table : Table) : String :=
  (X.toStringPretty table).replace "\ntoken = \"" "\n#token = \""

/-- The whole resolved configuration as TOML, with secrets redacted. -/
def toRedactedToml (X : Formats) (r : Resolved) : Except Error String :=
  (redactedTable X r).map (rendered X)

/-! ## Ranges -/

/-- What the values of a key are bounded by. -/
def InRange : (k : Key) → k.Ty → Prop
  | .rpcUrl, _ => True
  | .wsUrl, _ => True
  | .ingestLogs, _ => True
  | .backfillFloor, f => ∀ h, f = .At h → h < 2 ^ 63
  | .concurrency, n => n < 2 ^ 63
  | .joinBufferCap, n => n < 2 ^ 63
  | .requestInterval, d => d < DURATION_END
  | .pollInterval, d => d < DURATION_END
  | .maxWait, d => d < DURATION_END
  | .wsIdleTimeout, d => d < DURATION_END
  | .prefetchDelayCap, d => d < DURATION_END
  | .summaryPeriod, d => d < DURATION_END

section Ranges

variable {X : Formats}

theorem toNat_toInt_lt (n : Int64) : n.toInt.toNat < 2 ^ 63 := by
  have hlt := n.toInt_lt
  omega

theorem asU64_lt {v : Value} {n : Nat} (h : asU64 v = some n) : n < 2 ^ 63 := by
  cases v with
  | integer i =>
      simp only [asU64] at h
      by_cases hi : 0 ≤ i.toInt
      · rw [if_pos hi] at h
        rw [← Option.some.inj h]
        exact toNat_toInt_lt i
      · rw [if_neg hi] at h
        cases h
  | _ => cases h

theorem humanDuration_lt {v : Value} {d : Duration} (h : humanDuration X v = some d) :
    d < DURATION_END := by
  have hend : DURATION_END = 2 ^ 64 * 10 ^ 9 := rfl
  cases v with
  | string s =>
      simp only [humanDuration, parseHumanDuration] at h
      cases hp : parseU64 s with
      | some secs =>
          rw [hp] at h
          have hsecs := parseU64_lt hp
          rw [← Option.some.inj h, hend]
          exact Nat.mul_lt_mul_of_pos_right hsecs (by norm_num)
      | none =>
          rw [hp] at h
          obtain ⟨-, hlt⟩ := Option.filter_eq_some_iff.mp h
          exact of_decide_eq_true hlt
  | integer i =>
      simp only [humanDuration] at h
      by_cases hi : 0 ≤ i.toInt
      · rw [if_pos hi] at h
        have hlt := toNat_toInt_lt i
        rw [← Option.some.inj h, hend]
        exact Nat.mul_lt_mul_of_pos_right (by omega) (by norm_num)
      · rw [if_neg hi] at h
        cases h
  | _ => cases h

theorem floor_lt {v : Value} {h : Nat} (hf : floor v = some (.At h)) : h < 2 ^ 63 := by
  cases v with
  | string s =>
      simp only [floor] at hf
      split at hf <;> cases hf
  | integer i =>
      simp only [floor] at hf
      by_cases hi : 0 ≤ i.toInt
      · rw [if_pos hi] at hf
        obtain rfl := Floor.At.inj (Option.some.inj hf)
        exact toNat_toInt_lt i
      · rw [if_neg hi] at hf
        cases hf
  | _ => cases hf

/-- Whatever reads as a key's value is in its range. -/
theorem inRange_of_decode {k : Key} {v : Value} {a : k.Ty} (h : k.decode X v = some a) :
    InRange k a := by
  cases k with
  | rpcUrl => trivial
  | wsUrl => trivial
  | ingestLogs => trivial
  | backfillFloor =>
      intro height ha
      rw [ha] at h
      exact floor_lt h
  | concurrency => exact asU64_lt h
  | joinBufferCap => exact asU64_lt h
  | requestInterval => exact humanDuration_lt h
  | pollInterval => exact humanDuration_lt h
  | maxWait => exact humanDuration_lt h
  | wsIdleTimeout => exact humanDuration_lt h
  | prefetchDelayCap => exact humanDuration_lt h
  | summaryPeriod => exact humanDuration_lt h

/-- Every default is in the range of its key. -/
theorem inRange_builtinValue (x : Chain) (kind : UpstreamKind) (urls : String × String)
    (k : Key) : InRange k (builtinValue x kind urls k) := by
  cases k with
  | rpcUrl => trivial
  | wsUrl => trivial
  | ingestLogs => trivial
  | backfillFloor =>
      intro h heq
      cases x <;> cases kind <;> cases heq
      decide
  | requestInterval =>
      show (Builtin.forChain x kind).requestInterval < DURATION_END
      cases x <;> cases kind <;> decide
  | concurrency => show 8 < 2 ^ 63; decide
  | joinBufferCap => show 8192 < 2 ^ 63; decide
  | pollInterval => show 10 ^ 9 < DURATION_END; decide
  | maxWait => show 3900 * 10 ^ 9 < DURATION_END; decide
  | wsIdleTimeout => show 120 * 10 ^ 9 < DURATION_END; decide
  | prefetchDelayCap => show 0 < DURATION_END; decide
  | summaryPeriod => show 300 * 10 ^ 9 < DURATION_END; decide

theorem inRange_finish {x : Chain} {upstream : Upstream} {k : Key} {v : k.Ty}
    (h : InRange k v) : InRange k (finish x upstream k v) := by
  cases k with
  | rpcUrl => trivial
  | wsUrl => trivial
  | ingestLogs => trivial
  | _ => exact h

end Ranges

/-! ## Reading a printed value -/

/-- A number and a unit read as that many units, when they fit a duration. -/
structure DurationUnits (X : Formats) : Prop where
  ms : ∀ n : Nat, n * 10 ^ 6 < DURATION_END →
    X.parseDuration (toString n ++ "ms") = some (n * 10 ^ 6)
  s : ∀ n : Nat, n * 10 ^ 9 < DURATION_END →
    X.parseDuration (toString n ++ "s") = some (n * 10 ^ 9)
  m : ∀ n : Nat, n * (60 * 10 ^ 9) < DURATION_END →
    X.parseDuration (toString n ++ "m") = some (n * (60 * 10 ^ 9))
  h : ∀ n : Nat, n * (3600 * 10 ^ 9) < DURATION_END →
    X.parseDuration (toString n ++ "h") = some (n * (3600 * 10 ^ 9))

section Reading

variable {X : Formats}

end Reading

/-! ## The file that is printed -/

section Printed

variable {X : Formats}

/-- What can be printed without loss of range. -/
structure Ranged (r : Resolved) : Prop where
  chains : ∀ entry ∈ r.chains, ∀ k, InRange k (entry.2.get k)
  maxConnections : r.server.maxConnections < 2 ^ 32
  maxBlocksPerRequest : r.server.maxBlocksPerRequest < 2 ^ 63
  idleTimeout : r.server.idleTimeout.getD 0 < DURATION_END

/-- Every merged value of a resolved chain is in range. -/
theorem inRange_file {t : Table} {file : File} (h : FileReads X t file) (x : Chain) (k : Key)
    {v : k.Ty} (hv : ((file.chain x).get k).or (file.defaultsOr.get k) = some v) :
    InRange k v := by
  have hread : ∀ {path : List String}, (Table.at t path).bind (k.decode X) = some v →
      InRange k v := by
    intro path hpath
    obtain ⟨w, -, hw⟩ := Option.bind_eq_some_iff.mp hpath
    exact inRange_of_decode hw
  rcases Option.or_eq_some_iff.mp hv with hper | ⟨-, hdefault⟩
  · rw [h.chain_get x k] at hper
    exact hread hper
  · rw [h.defaults_get k] at hdefault
    exact hread hdefault

/-- The counts and the timeout that a server table holds are in range. -/
theorem inRange_server {t : Table} {f : ServerFile} (h : serverFile X t = some f) :
    f.maxConnections.getD 1024 < 2 ^ 32 ∧ f.maxBlocksPerRequest.getD 10000 < 2 ^ 63 ∧
      f.idleTimeout.getD (60 * 10 ^ 9) < DURATION_END := by
  obtain ⟨hconnections, hidle, hblocks⟩ := serverFile_field h
  refine ⟨?_, ?_, ?_⟩
  · cases hv : f.maxConnections with
    | none => show 1024 < 2 ^ 32; decide
    | some n =>
        rw [hv] at hconnections
        obtain ⟨w, -, hw⟩ := Option.bind_eq_some_iff.mp (optField_spec hconnections).1.symm
        exact of_decide_eq_true (Option.filter_eq_some_iff.mp hw).2
  · cases hv : f.maxBlocksPerRequest with
    | none => show 10000 < 2 ^ 63; decide
    | some n =>
        rw [hv] at hblocks
        obtain ⟨w, -, hw⟩ := Option.bind_eq_some_iff.mp (optField_spec hblocks).1.symm
        exact asU64_lt hw
  · cases hv : f.idleTimeout with
    | none => show 60 * 10 ^ 9 < DURATION_END; decide
    | some d =>
        rw [hv] at hidle
        obtain ⟨w, -, hw⟩ := Option.bind_eq_some_iff.mp (optField_spec hidle).1.symm
        exact humanDuration_lt hw

theorem getD_idle_lt {idle : Duration} (h : idle < DURATION_END) :
    (if 0 < idle then some idle else none : Option Duration).getD 0 < DURATION_END := by
  by_cases hpos : 0 < idle
  · rw [if_pos hpos]
    exact h
  · rw [if_neg hpos]
    exact Nat.lt_of_le_of_lt (Nat.zero_le idle) h

/-- **Whatever was resolved is in range.** -/
theorem Resolution.ranged {cli : Cli} {files : Files} {env : Env} {r : Resolved}
    (res : Resolution X cli files env r) : Ranged r := by
  have hreads := fileOf_reads res.reads
  have hbuilt := build_ok res.built
  have hserver : (res.file.server.bind (·.maxConnections)).getD 1024 < 2 ^ 32 ∧
      (res.file.server.bind (·.maxBlocksPerRequest)).getD 10000 < 2 ^ 63 ∧
      (res.file.server.bind (·.idleTimeout)).getD (60 * 10 ^ 9) < DURATION_END := by
    rcases at_below_of_optField hreads.server with ⟨hnone, -⟩ | ⟨sub, f, hsome, hf, -⟩
    · rw [hnone]
      exact ⟨by decide, by decide, by decide⟩
    · rw [hsome]
      exact inRange_server hf
  obtain ⟨-, hconnections, -, hblocks, -, hidle⟩ := resolveServer_ok hbuilt.server
  constructor
  · intro entry hentry k
    obtain ⟨_, hchains⟩ := hbuilt.chains
    obtain ⟨_, hcfg⟩ := (resolveChains_ok hchains).2 entry hentry
    obtain ⟨urls, hres⟩ := resolveChain_ok hcfg
    rw [hres.value k]
    refine inRange_finish ?_
    cases hv : ((res.file.chain entry.1).get k).or (res.file.defaultsOr.get k) with
    | none => exact inRange_builtinValue _ _ _ k
    | some v => exact inRange_file hreads entry.1 k hv
  · rw [hconnections]
    exact hserver.1
  · rw [hblocks]
    exact hserver.2.1
  · rw [hidle]
    exact getD_idle_lt hserver.2.2

/-- What is assumed of the formats on what is printed: TOML reads back as the document
    that was rendered, a line turned into a comment is not read, and a socket address and
    a duration read back as what they spell. -/
structure ReadsBack (X : Formats) (r : Resolved) : Prop where
  toml : ∀ table, redactedTable X r = .ok table →
    X.fromStr (X.toStringPretty table) = some table
  commented : ∀ table, redactedTable X r = .ok table →
    X.fromStr (rendered X table) = X.fromStr (X.toStringPretty table)
  addr : X.parseSocketAddr (X.showSocketAddr r.server.addr) = some r.server.addr
  units : DurationUnits X

end Printed

/-! ## Resolving what was printed -/

section Reread

variable {X : Formats}

end Reread

/-! ## Two runs -/

def sampleUnit : String → Option Duration
  | "us" => some (10 ^ 3)
  | "ms" => some (10 ^ 6)
  | "s" => some (10 ^ 9)
  | "m" => some (60 * 10 ^ 9)
  | "h" => some (3600 * 10 ^ 9)
  | _ => none

/-- A number and its unit, as the duration parser reads them. -/
def sampleDuration (s : String) : Option Duration :=
  let digits := s.toList.takeWhile Char.isDigit
  if digits = [] then none
  else (sampleUnit (String.ofList (s.toList.dropWhile Char.isDigit))).map
    (Nat.ofDigitChars 10 digits 0 * ·)

/-- What a run without arguments prints. -/
def samplePrinted : Table :=
  [("network", .string "mainnet"), ("log_level", .string "info"),
    ("upstream", .table [("kind", .string "avalanchego"),
      ("base", .string "https://api.avax.network"), ("token_param", .string "token"),
      ("max_rps", .float (.finite 25))]),
    ("server", .table [("addr", .string "127.0.0.1:8545"),
      ("max_connections", .integer 1024), ("idle_timeout", .string "1m"),
      ("max_blocks_per_request", .integer 10000)]),
    ("chains", .table [
      ("c", .table [("rpc_url", .string "https://api.avax.network/ext/bc/C/rpc"),
        ("ws_url", .string "wss://api.avax.network/ext/bc/C/ws"),
        ("data_dir", .string "./blockstore-data-mainnet"), ("backfill_floor", .string "tip"),
        ("request_interval", .string "40ms"), ("concurrency", .integer 8),
        ("poll_interval", .string "1s"), ("max_wait", .string "65m"),
        ("ws_idle_timeout", .string "2m"), ("prefetch_delay_cap", .string "0s"),
        ("ingest_logs", .boolean false), ("join_buffer_cap", .integer 8192),
        ("summary_period", .string "5m")]),
      ("p", .table [("rpc_url", .string "https://api.avax.network/ext/bc/P"),
        ("ws_url", .string ""), ("data_dir", .string "./blockstore-data-mainnet/p"),
        ("backfill_floor", .integer 0), ("request_interval", .string "200ms"),
        ("concurrency", .integer 8), ("poll_interval", .string "1s"),
        ("max_wait", .string "65m"), ("ws_idle_timeout", .string "2m"),
        ("prefetch_delay_cap", .string "0s"), ("ingest_logs", .boolean false),
        ("join_buffer_cap", .integer 8192), ("summary_period", .string "5m")])])]

/-- The same document as text. -/
def samplePrintedText : String := "network = \"mainnet\"
log_level = \"info\"

[upstream]
kind = \"avalanchego\"
base = \"https://api.avax.network\"
token_param = \"token\"
max_rps = 25.0

[server]
addr = \"127.0.0.1:8545\"
max_connections = 1024
idle_timeout = \"1m\"
max_blocks_per_request = 10000

[chains.c]
rpc_url = \"https://api.avax.network/ext/bc/C/rpc\"
ws_url = \"wss://api.avax.network/ext/bc/C/ws\"
data_dir = \"./blockstore-data-mainnet\"
backfill_floor = \"tip\"
request_interval = \"40ms\"
concurrency = 8
poll_interval = \"1s\"
max_wait = \"65m\"
ws_idle_timeout = \"2m\"
prefetch_delay_cap = \"0s\"
ingest_logs = false
join_buffer_cap = 8192
summary_period = \"5m\"

[chains.p]
rpc_url = \"https://api.avax.network/ext/bc/P\"
ws_url = \"\"
data_dir = \"./blockstore-data-mainnet/p\"
backfill_floor = 0
request_interval = \"200ms\"
concurrency = 8
poll_interval = \"1s\"
max_wait = \"65m\"
ws_idle_timeout = \"2m\"
prefetch_delay_cap = \"0s\"
ingest_logs = false
join_buffer_cap = 8192
summary_period = \"5m\"
"

/-- The formats, as far as a run without a config file uses them. -/
def sampleFormats : Formats where
  fromStr := fun _ => some samplePrinted
  toStringPretty := fun _ => samplePrintedText
  parseDuration := sampleDuration
  parseSocketAddr := fun _ => some (.v4 127 0 0 1 8545)
  showSocketAddr := fun _ => "127.0.0.1:8545"
  showF64 := fun _ => "25"

def sampleChain (x : Chain) (prefetchDelayCap : Duration) : ChainCfg where
  chain := x
  rpcUrl := "https://api.avax.network" ++ rpcPath x
  wsUrl := if x = .C then "wss://api.avax.network/ext/bc/C/ws" else ""
  dataDir := chainDataDir "./blockstore-data-mainnet" x
  backfillFloor := if x = .C then none else some 0
  requestInterval := if x = .C then 40 * 10 ^ 6 else 200 * 10 ^ 6
  concurrency := 8
  pollInterval := 10 ^ 9
  maxWait := 3900 * 10 ^ 9
  wsIdleTimeout := 120 * 10 ^ 9
  prefetchDelayCap := prefetchDelayCap
  ingestLogs := false
  joinBufferCap := 8192
  summaryPeriod := 300 * 10 ^ 9
  subscribeBlocks := false
  hostPacer := some (40 * 10 ^ 6)

/-- What a run resolves that says nothing but how long a prefetch may be delayed. -/
def sampleResolved (prefetchDelayCap : Duration) (notices : List Notice) : Resolved where
  network := .Mainnet
  logLevel := .Info
  stopTime := none
  upstream := ⟨.Avalanchego, "https://api.avax.network", none, "token", none,
    some (.finite 25), some (40 * 10 ^ 6)⟩
  server := ⟨.v4 127 0 0 1 8545, 1024, some (60 * 10 ^ 9), 10000⟩
  chains := [(.C, sampleChain .C prefetchDelayCap), (.P, sampleChain .P prefetchDelayCap)]
  print := none
  notices := notices

/-- The notices of such a run, after those about its flags. -/
def sampleNotices (flags : List Notice) : List Notice :=
  flags ++ [.Info ("upstream host request cap: 25 req/s, shared by every chain (public-endpoint " ++
      "default for an untokened upstream)")]

end NeveConfig
