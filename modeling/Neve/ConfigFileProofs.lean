import Neve.TomlTreeProofs
import Neve.StrTextProofs
import Neve.RecordProofs

/-! # The configuration file — its schema

    Every key is optional and an unknown one is refused.  A chain's twelve scalar keys
    are valid in `[defaults]` and in `[chains.<x>]` alike; `Key` names them, and what a
    table of either kind says of a key is what stands there in the document
    (`chainFile_get`).

    The text formats that other libraries read and write (TOML, durations, socket
    addresses, floats) are parameters. -/

namespace NeveConfig

open TomlTree
open NeveRecord (Chain)

/-- Nanoseconds. -/
abbrev Duration := Nat

/-- What `anyhow` reports: the contexts, outermost first. -/
abbrev Error := List String

/-- `with_context`. -/
def withContext {α : Type} (context : String) (x : Except Error α) : Except Error α :=
  x.mapError (context :: ·)

inductive SocketAddr where
  | v4 (a b c d : UInt8) (port : UInt16)
  | v6 (segments : Vector UInt16 8) (scopeId : UInt32) (port : UInt16)
  deriving DecidableEq

/-- The formats of other libraries. -/
structure Formats where
  /-- `toml::from_str`. -/
  fromStr : String → Option Table
  /-- `toml::to_string_pretty`. -/
  toStringPretty : Table → String
  /-- `parse_duration::parse`. -/
  parseDuration : String → Option Duration
  parseSocketAddr : String → Option SocketAddr
  showSocketAddr : SocketAddr → String
  showF64 : F64 → String

/-! ## Enumerations -/

inductive Network where
  | Mainnet
  | Testnet
  deriving DecidableEq, Repr

inductive LogLevel where
  | Trace
  | Debug
  | Info
  | Warn
  | Error
  deriving DecidableEq, Repr

/-- What kind of server the upstream is. -/
inductive UpstreamKind where
  | Avalanchego
  | Neve
  deriving DecidableEq, Repr

namespace Network

def asStr : Network → String
  | .Mainnet => "mainnet"
  | .Testnet => "testnet"

/-- Public-endpoint host for this network. -/
def host : Network → String
  | .Mainnet => "api.avax.network"
  | .Testnet => "api.avax-test.network"

def defaultDataDir (n : Network) : String := "./blockstore-data-" ++ n.asStr

def defaultBaseUrl (n : Network) : String := "https://" ++ n.host

end Network

def LogLevel.asStr : LogLevel → String
  | .Trace => "trace"
  | .Debug => "debug"
  | .Info => "info"
  | .Warn => "warn"
  | .Error => "error"

def UpstreamKind.asStr : UpstreamKind → String
  | .Avalanchego => "avalanchego"
  | .Neve => "neve"

/-- Every chain neve can mirror. -/
def ALL : List Chain := [.C, .P]

/-- Read a unit variant by its spelling. -/
def unitVariant {α : Type} (all : List α) (spelling : α → String) : Value → Option α
  | .string s => all.find? (spelling · = s)
  | _ => none

def network : Value → Option Network := unitVariant [.Mainnet, .Testnet] Network.asStr

def logLevel : Value → Option LogLevel :=
  unitVariant [.Trace, .Debug, .Info, .Warn, .Error] LogLevel.asStr

def upstreamKind : Value → Option UpstreamKind :=
  unitVariant [.Avalanchego, .Neve] UpstreamKind.asStr

/-- `Chain::deserialize` of a table key. -/
def chainOfName (name : String) : Option Chain := ALL.find? (·.asStr = name)

theorem chainOfName_asStr (c : Chain) : chainOfName c.asStr = some c := by
  cases c <;> rfl

/-! ## Scalars -/

def asString : Value → Option String
  | .string s => some s
  | _ => none

def asBool : Value → Option Bool
  | .boolean b => some b
  | _ => none

/-- A `usize` or `u64`; a document's integers are 64-bit and signed. -/
def asU64 : Value → Option Nat
  | .integer n => if 0 ≤ n.toInt then some n.toInt.toNat else none
  | _ => none

def asU32 (v : Value) : Option Nat := (asU64 v).filter (· < 2 ^ 32)

/-- The nearest 64-bit float of a 64-bit integer, ties to even. -/
def f64OfInt (n : Int) : F64 :=
  let m := n.natAbs
  let e := m.log2 + 1 - 53
  let q := m / 2 ^ e
  let r := m % 2 ^ e
  let up := 2 * r > 2 ^ e ∨ (2 * r = 2 ^ e ∧ q % 2 = 1)
  let rounded : Nat := (if up then q + 1 else q) * 2 ^ e
  .finite (if n < 0 then -(rounded : ℚ) else rounded)

def asF64 : Value → Option F64
  | .float f => some f
  | .integer n => some (f64OfInt n.toInt)
  | _ => none

/-- A duration has a `u64` of seconds. -/
def DURATION_END : Nat := 2 ^ 64 * 10 ^ 9

/-- Parse a human duration: a bare integer means seconds. -/
def parseHumanDuration (X : Formats) (s : String) : Option Duration :=
  match StrText.parseU64 s with
  | some secs => some (secs * 10 ^ 9)
  | none => (X.parseDuration s).filter (· < DURATION_END)

/-- A duration string, or an integer number of seconds. -/
def humanDuration (X : Formats) : Value → Option Duration
  | .string s => parseHumanDuration X s
  | .integer n => if 0 ≤ n.toInt then some (n.toInt.toNat * 10 ^ 9) else none
  | _ => none

/-- A backfill floor: a height, or `"tip"`. -/
inductive Floor where
  | Tip
  | At (h : Nat)
  deriving DecidableEq, Repr

namespace Floor

def height : Floor → Option Nat
  | .Tip => none
  | .At h => some h

def ofHeight : Option Nat → Floor
  | none => .Tip
  | some h => .At h

@[simp] theorem ofHeight_height (f : Floor) : ofHeight f.height = f := by
  cases f <;> rfl

end Floor

def floor : Value → Option Floor
  | .string s => if StrText.eqIgnoreAsciiCase s "tip" then some .Tip else none
  | .integer n => if 0 ≤ n.toInt then some (.At n.toInt.toNat) else none
  | _ => none

/-! ## Tables -/

/-- An optional key of a table: absent, or a value that must read. -/
def optField {α : Type} (t : Table) (name : String) (decode : Value → Option α) :
    Option (Option α) :=
  match Table.get t name with
  | none => some none
  | some v => (decode v).map some

/-- `deny_unknown_fields`. -/
def denyUnknownFields (known : List String) (t : Table) : Option Unit :=
  if (Table.keys t).all (· ∈ known) then some () else none

/-- The twelve scalar keys of a chain. -/
inductive Key where
  | rpcUrl
  | wsUrl
  | backfillFloor
  | requestInterval
  | concurrency
  | pollInterval
  | maxWait
  | wsIdleTimeout
  | prefetchDelayCap
  | ingestLogs
  | joinBufferCap
  | summaryPeriod
  deriving DecidableEq, Repr

namespace Key

/-- As it is spelled in the document. -/
def name : Key → String
  | .rpcUrl => "rpc_url"
  | .wsUrl => "ws_url"
  | .backfillFloor => "backfill_floor"
  | .requestInterval => "request_interval"
  | .concurrency => "concurrency"
  | .pollInterval => "poll_interval"
  | .maxWait => "max_wait"
  | .wsIdleTimeout => "ws_idle_timeout"
  | .prefetchDelayCap => "prefetch_delay_cap"
  | .ingestLogs => "ingest_logs"
  | .joinBufferCap => "join_buffer_cap"
  | .summaryPeriod => "summary_period"

/-- What it is read as. -/
abbrev Ty : Key → Type
  | .rpcUrl | .wsUrl => String
  | .backfillFloor => Floor
  | .concurrency | .joinBufferCap => Nat
  | .ingestLogs => Bool
  | _ => Duration

def decode (X : Formats) : (k : Key) → Value → Option k.Ty
  | .rpcUrl => asString
  | .wsUrl => asString
  | .backfillFloor => floor
  | .requestInterval => humanDuration X
  | .concurrency => asU64
  | .pollInterval => humanDuration X
  | .maxWait => humanDuration X
  | .wsIdleTimeout => humanDuration X
  | .prefetchDelayCap => humanDuration X
  | .ingestLogs => asBool
  | .joinBufferCap => asU64
  | .summaryPeriod => humanDuration X

theorem name_inj {k k' : Key} (h : k.name = k'.name) : k = k' := by
  revert h
  cases k <;> cases k' <;> first | exact fun _ => rfl | exact fun h => absurd h (by decide)

/-- No key reads a table. -/
theorem decode_table (X : Formats) (k : Key) (t : Table) : k.decode X (.table t) = none := by
  cases k <;> rfl

end Key

/-- The per-chain knobs, each optional. -/
structure ChainFile where
  enabled : Option Bool
  rpcUrl : Option String
  wsUrl : Option String
  dataDir : Option String
  backfillFloor : Option Floor
  requestInterval : Option Duration
  concurrency : Option Nat
  pollInterval : Option Duration
  maxWait : Option Duration
  wsIdleTimeout : Option Duration
  prefetchDelayCap : Option Duration
  ingestLogs : Option Bool
  joinBufferCap : Option Nat
  summaryPeriod : Option Duration

namespace ChainFile

/-- `ChainFile::default`. -/
def default : ChainFile :=
  ⟨none, none, none, none, none, none, none, none, none, none, none, none, none, none⟩

/-- What is said of a key. -/
def get (f : ChainFile) : (k : Key) → Option k.Ty
  | .rpcUrl => f.rpcUrl
  | .wsUrl => f.wsUrl
  | .backfillFloor => f.backfillFloor
  | .requestInterval => f.requestInterval
  | .concurrency => f.concurrency
  | .pollInterval => f.pollInterval
  | .maxWait => f.maxWait
  | .wsIdleTimeout => f.wsIdleTimeout
  | .prefetchDelayCap => f.prefetchDelayCap
  | .ingestLogs => f.ingestLogs
  | .joinBufferCap => f.joinBufferCap
  | .summaryPeriod => f.summaryPeriod

/-- Every key `upper` sets wins, every key it leaves unset is inherited. -/
def overlay (self upper : ChainFile) : ChainFile where
  enabled := self.enabled
  rpcUrl := upper.rpcUrl.or self.rpcUrl
  wsUrl := upper.wsUrl.or self.wsUrl
  dataDir := upper.dataDir.or self.dataDir
  backfillFloor := upper.backfillFloor.or self.backfillFloor
  requestInterval := upper.requestInterval.or self.requestInterval
  concurrency := upper.concurrency.or self.concurrency
  pollInterval := upper.pollInterval.or self.pollInterval
  maxWait := upper.maxWait.or self.maxWait
  wsIdleTimeout := upper.wsIdleTimeout.or self.wsIdleTimeout
  prefetchDelayCap := upper.prefetchDelayCap.or self.prefetchDelayCap
  ingestLogs := upper.ingestLogs.or self.ingestLogs
  joinBufferCap := upper.joinBufferCap.or self.joinBufferCap
  summaryPeriod := upper.summaryPeriod.or self.summaryPeriod

theorem overlay_get (self upper : ChainFile) (k : Key) :
    (self.overlay upper).get k = (upper.get k).or (self.get k) := by
  cases k <;> rfl

@[simp] theorem default_get (k : Key) : default.get k = none := by
  cases k <;> rfl

end ChainFile

structure UpstreamFile where
  kind : Option UpstreamKind
  base : Option String
  tokenFile : Option String
  tokenParam : Option String
  maxRps : Option F64

structure ServerFile where
  addr : Option SocketAddr
  maxConnections : Option Nat
  idleTimeout : Option Duration
  maxBlocksPerRequest : Option Nat

/-- The whole file.  `chains` says what the file has of a chain. -/
structure File where
  network : Option Network
  logLevel : Option LogLevel
  upstream : Option UpstreamFile
  server : Option ServerFile
  defaults : Option ChainFile
  chains : Option (List (Chain × ChainFile))

section Decode

variable (X : Formats)

/-- Read a table with a schema of its own. -/
def asTable {α : Type} (decode : Table → Option α) : Value → Option α
  | .table t => decode t
  | _ => none

def CHAIN_KEYS : List String :=
  ["enabled", "rpc_url", "ws_url", "data_dir", "backfill_floor", "request_interval",
    "concurrency", "poll_interval", "max_wait", "ws_idle_timeout", "prefetch_delay_cap",
    "ingest_logs", "join_buffer_cap", "summary_period"]

def chainFile (t : Table) : Option ChainFile := do
  denyUnknownFields CHAIN_KEYS t
  let enabled ← optField t "enabled" asBool
  let rpcUrl ← optField t "rpc_url" asString
  let wsUrl ← optField t "ws_url" asString
  let dataDir ← optField t "data_dir" asString
  let backfillFloor ← optField t "backfill_floor" floor
  let requestInterval ← optField t "request_interval" (humanDuration X)
  let concurrency ← optField t "concurrency" asU64
  let pollInterval ← optField t "poll_interval" (humanDuration X)
  let maxWait ← optField t "max_wait" (humanDuration X)
  let wsIdleTimeout ← optField t "ws_idle_timeout" (humanDuration X)
  let prefetchDelayCap ← optField t "prefetch_delay_cap" (humanDuration X)
  let ingestLogs ← optField t "ingest_logs" asBool
  let joinBufferCap ← optField t "join_buffer_cap" asU64
  let summaryPeriod ← optField t "summary_period" (humanDuration X)
  return ⟨enabled, rpcUrl, wsUrl, dataDir, backfillFloor, requestInterval, concurrency,
    pollInterval, maxWait, wsIdleTimeout, prefetchDelayCap, ingestLogs, joinBufferCap,
    summaryPeriod⟩

def upstreamFile (t : Table) : Option UpstreamFile := do
  denyUnknownFields ["kind", "base", "token_file", "token_param", "max_rps"] t
  let kind ← optField t "kind" upstreamKind
  let base ← optField t "base" asString
  let tokenFile ← optField t "token_file" asString
  let tokenParam ← optField t "token_param" asString
  let maxRps ← optField t "max_rps" asF64
  return ⟨kind, base, tokenFile, tokenParam, maxRps⟩

def serverFile (t : Table) : Option ServerFile := do
  denyUnknownFields ["addr", "max_connections", "idle_timeout", "max_blocks_per_request"] t
  let addr ← optField t "addr" fun v => (asString v).bind X.parseSocketAddr
  let maxConnections ← optField t "max_connections" asU32
  let idleTimeout ← optField t "idle_timeout" (humanDuration X)
  let maxBlocksPerRequest ← optField t "max_blocks_per_request" asU64
  return ⟨addr, maxConnections, idleTimeout, maxBlocksPerRequest⟩

/-- The `[chains]` table: every key is a chain, every entry a chain's table. -/
def chainFiles : Table → Option (List (Chain × ChainFile))
  | [] => some []
  | (name, v) :: rest => do
      let chain ← chainOfName name
      let file ← asTable (chainFile X) v
      let others ← chainFiles rest
      return (chain, file) :: others

def fileOf (t : Table) : Option File := do
  denyUnknownFields ["network", "log_level", "upstream", "server", "defaults", "chains"] t
  let network ← optField t "network" network
  let logLevel ← optField t "log_level" logLevel
  let upstream ← optField t "upstream" (asTable upstreamFile)
  let server ← optField t "server" (asTable (serverFile X))
  let defaults ← optField t "defaults" (asTable (chainFile X))
  let chains ← optField t "chains" (asTable (chainFiles X))
  return ⟨network, logLevel, upstream, server, defaults, chains⟩

/-- Deserialize the document into the typed schema. -/
def deserializeTree (tree : Table) : Except Error File :=
  match fileOf X tree with
  | some file => .ok file
  | none => .error ["invalid configuration"]

end Decode

namespace File

/-- `file.defaults.unwrap_or_default()`. -/
def defaultsOr (file : File) : ChainFile := file.defaults.getD .default

/-- The table of one chain, empty if there is none. -/
def chain (file : File) (x : Chain) : ChainFile :=
  ((file.chains.getD []).lookup x).getD .default

/-- `file.upstream.unwrap_or_default()`. -/
def upstreamOr (file : File) : UpstreamFile := file.upstream.getD ⟨none, none, none, none, none⟩

end File

/-! ## What a document says -/

section Reads

variable {X : Formats}

theorem optField_spec {α : Type} {t : Table} {name : String} {decode : Value → Option α}
    {x : Option α} (h : optField t name decode = some x) :
    x = (Table.get t name).bind decode ∧
      ∀ v, Table.get t name = some v → (decode v).isSome = true := by
  simp only [optField] at h
  cases hget : Table.get t name with
  | none =>
      rw [hget] at h
      refine ⟨(Option.some.inj h).symm, ?_⟩
      intro v hv
      cases hv
  | some v =>
      rw [hget] at h
      obtain ⟨a, ha, rfl⟩ := Option.map_eq_some_iff.mp h
      refine ⟨ha.symm, ?_⟩
      rintro _ ⟨⟩
      rw [ha]
      rfl

theorem optField_present {α : Type} {t : Table} {name : String} {decode : Value → Option α}
    {v : Value} {a : α} (h : Table.get t name = some v) (ha : decode v = some a) :
    optField t name decode = some (some a) := by
  simp only [optField, h, ha, Option.map_some]

theorem asTable_eq_some {α : Type} {decode : Table → Option α} {v : Value} {a : α}
    (h : asTable decode v = some a) : ∃ t, v = .table t ∧ decode t = some a := by
  cases v with
  | table t => exact ⟨t, rfl, h⟩
  | _ => cases h

/-- A chain's table that reads, key by key. -/
theorem chainFile_field {t : Table} {f : ChainFile} (h : chainFile X t = some f) :
    optField t "enabled" asBool = some f.enabled ∧
      optField t "data_dir" asString = some f.dataDir ∧
      ∀ k : Key, optField t k.name (k.decode X) = some (f.get k) := by
  obtain ⟨_, -, h⟩ := Option.bind_eq_some_iff.mp h
  obtain ⟨_, henabled, h⟩ := Option.bind_eq_some_iff.mp h
  obtain ⟨_, hrpc, h⟩ := Option.bind_eq_some_iff.mp h
  obtain ⟨_, hws, h⟩ := Option.bind_eq_some_iff.mp h
  obtain ⟨_, hdir, h⟩ := Option.bind_eq_some_iff.mp h
  obtain ⟨_, hfloor, h⟩ := Option.bind_eq_some_iff.mp h
  obtain ⟨_, hinterval, h⟩ := Option.bind_eq_some_iff.mp h
  obtain ⟨_, hconcurrency, h⟩ := Option.bind_eq_some_iff.mp h
  obtain ⟨_, hpoll, h⟩ := Option.bind_eq_some_iff.mp h
  obtain ⟨_, hwait, h⟩ := Option.bind_eq_some_iff.mp h
  obtain ⟨_, hidle, h⟩ := Option.bind_eq_some_iff.mp h
  obtain ⟨_, hprefetch, h⟩ := Option.bind_eq_some_iff.mp h
  obtain ⟨_, hlogs, h⟩ := Option.bind_eq_some_iff.mp h
  obtain ⟨_, hcap, h⟩ := Option.bind_eq_some_iff.mp h
  obtain ⟨_, hsummary, h⟩ := Option.bind_eq_some_iff.mp h
  rw [← Option.some.inj h]
  refine ⟨henabled, hdir, ?_⟩
  intro k
  cases k with
  | rpcUrl => exact hrpc
  | wsUrl => exact hws
  | backfillFloor => exact hfloor
  | requestInterval => exact hinterval
  | concurrency => exact hconcurrency
  | pollInterval => exact hpoll
  | maxWait => exact hwait
  | wsIdleTimeout => exact hidle
  | prefetchDelayCap => exact hprefetch
  | ingestLogs => exact hlogs
  | joinBufferCap => exact hcap
  | summaryPeriod => exact hsummary

theorem chainFile_valid {t : Table} {f : ChainFile} (h : chainFile X t = some f) (k : Key)
    {v : Value} (hv : Table.get t k.name = some v) : (k.decode X v).isSome = true :=
  (optField_spec ((chainFile_field h).2.2 k)).2 v hv

/-- A server table that reads, key by key. -/
theorem serverFile_field {t : Table} {f : ServerFile} (h : serverFile X t = some f) :
    optField t "max_connections" asU32 = some f.maxConnections ∧
      optField t "idle_timeout" (humanDuration X) = some f.idleTimeout ∧
      optField t "max_blocks_per_request" asU64 = some f.maxBlocksPerRequest := by
  obtain ⟨_, -, h⟩ := Option.bind_eq_some_iff.mp h
  obtain ⟨_, -, h⟩ := Option.bind_eq_some_iff.mp h
  obtain ⟨_, hconnections, h⟩ := Option.bind_eq_some_iff.mp h
  obtain ⟨_, hidle, h⟩ := Option.bind_eq_some_iff.mp h
  obtain ⟨_, hblocks, h⟩ := Option.bind_eq_some_iff.mp h
  rw [← Option.some.inj h]
  exact ⟨hconnections, hidle, hblocks⟩

/-- An upstream table that reads, key by key. -/
theorem upstreamFile_field {t : Table} {f : UpstreamFile} (h : upstreamFile t = some f) :
    optField t "kind" upstreamKind = some f.kind ∧
      optField t "base" asString = some f.base ∧
      optField t "token_file" asString = some f.tokenFile ∧
      optField t "token_param" asString = some f.tokenParam ∧
      optField t "max_rps" asF64 = some f.maxRps := by
  obtain ⟨_, -, h⟩ := Option.bind_eq_some_iff.mp h
  obtain ⟨_, hkind, h⟩ := Option.bind_eq_some_iff.mp h
  obtain ⟨_, hbase, h⟩ := Option.bind_eq_some_iff.mp h
  obtain ⟨_, hfile, h⟩ := Option.bind_eq_some_iff.mp h
  obtain ⟨_, hparam, h⟩ := Option.bind_eq_some_iff.mp h
  obtain ⟨_, hrps, h⟩ := Option.bind_eq_some_iff.mp h
  rw [← Option.some.inj h]
  exact ⟨hkind, hbase, hfile, hparam, hrps⟩

theorem chainOfName_eq_some {name : String} {c : Chain} (h : chainOfName name = some c) :
    name = c.asStr := by
  have hfound := List.find?_some h
  exact (of_decide_eq_true hfound).symm

/-- The `[chains]` table says of a chain what stands under its name. -/
theorem chainFiles_field {t : Table} {files : List (Chain × ChainFile)}
    (h : chainFiles X t = some files) (x : Chain) :
    optField t x.asStr (asTable (chainFile X)) = some (files.lookup x) := by
  induction t generalizing files with
  | nil =>
      rw [← Option.some.inj h]
      rfl
  | cons e t ih =>
      obtain ⟨name, v⟩ := e
      simp only [chainFiles, Option.bind_eq_bind, Option.bind_eq_some_iff] at h
      obtain ⟨c, hc, file, hfile, others, hothers, heq⟩ := h
      rw [← Option.some.inj heq, List.lookup_cons]
      by_cases hx : x = c
      · rw [hx, beq_self_eq_true]
        refine optField_present ?_ hfile
        rw [Table.get_cons, chainOfName_eq_some hc, if_pos rfl]
      · rw [beq_false_of_ne hx, ← ih hothers]
        have hne : x.asStr ≠ name := by
          rw [chainOfName_eq_some hc]
          intro hname
          exact hx (Chain.asStr_inj hname)
        simp only [optField]
        rw [Table.get_cons, if_neg hne]

/-- The parts of a document that reads. -/
structure FileReads (X : Formats) (t : Table) (file : File) : Prop where
  network : optField t "network" NeveConfig.network = some file.network
  logLevel : optField t "log_level" NeveConfig.logLevel = some file.logLevel
  upstream : optField t "upstream" (asTable upstreamFile) = some file.upstream
  server : optField t "server" (asTable (serverFile X)) = some file.server
  defaults : optField t "defaults" (asTable (chainFile X)) = some file.defaults
  chains : optField t "chains" (asTable (chainFiles X)) = some file.chains

theorem fileOf_reads {t : Table} {file : File} (h : fileOf X t = some file) :
    FileReads X t file := by
  simp only [fileOf, Option.bind_eq_bind, Option.bind_eq_some_iff] at h
  obtain ⟨_, -, _, hnetwork, _, hlevel, _, hupstream, _, hserver, _, hdefaults, _, hchains, hf⟩
    := h
  rw [← Option.some.inj hf]
  exact ⟨hnetwork, hlevel, hupstream, hserver, hdefaults, hchains⟩

/-- What stands below a key that reads as a table. -/
theorem at_below_of_optField {α : Type} {t : Table} {name : String} {decode : Table → Option α}
    {x : Option α} (h : optField t name (asTable decode) = some x) :
    (x = none ∧ ∀ k rest, Table.at t (name :: k :: rest) = none) ∨
      ∃ sub a, x = some a ∧ decode sub = some a ∧
        ∀ path, Table.at t (name :: path) = Table.at sub path := by
  obtain ⟨hx, hvalid⟩ := optField_spec h
  cases hget : Table.get t name with
  | none =>
      rw [hget] at hx
      refine Or.inl ⟨hx, ?_⟩
      intro k rest
      rw [Table.at_cons, hget]
      rfl
  | some v =>
      obtain ⟨a, ha⟩ := Option.isSome_iff_exists.mp (hvalid v hget)
      obtain ⟨sub, rfl, hsub⟩ := asTable_eq_some ha
      refine Or.inr ⟨sub, a, ?_, hsub, ?_⟩
      · rw [hx, hget]
        exact ha
      · intro path
        rw [Table.at_cons, hget]
        rfl

/-- What the reading of a table says of a key is what stands under it there. -/
theorem field_of_optField {α β : Type} {t : Table} {name key : String}
    {decode : Table → Option α} {x : Option α} {dec : Value → Option β}
    {proj : α → Option β}
    (h : optField t name (asTable decode) = some x)
    (hkey : ∀ sub a, decode sub = some a → optField sub key dec = some (proj a)) :
    x.bind proj = (Table.at t [name, key]).bind dec := by
  rcases at_below_of_optField h with ⟨rfl, hat⟩ | ⟨sub, a, rfl, ha, hat⟩
  · rw [hat]
    rfl
  · rw [hat, Option.bind_some, (optField_spec (hkey sub a ha)).1, Table.at_cons]
    cases Table.get sub key <;> rfl

theorem ChainFile.getD_default_get (x : Option ChainFile) (k : Key) :
    (x.getD .default).get k = x.bind (·.get k) := by
  cases x with
  | none => exact ChainFile.default_get k
  | some f => rfl

theorem ChainFile.getD_default_dataDir (x : Option ChainFile) :
    (x.getD .default).dataDir = x.bind (·.dataDir) := by
  cases x <;> rfl

/-- What `[defaults]` says of a key is what stands at `defaults.<key>`. -/
theorem FileReads.defaults_get {t : Table} {file : File} (h : FileReads X t file) (k : Key) :
    file.defaultsOr.get k = (Table.at t ["defaults", k.name]).bind (k.decode X) :=
  (ChainFile.getD_default_get file.defaults k).trans
    (field_of_optField h.defaults fun _ _ hf => (chainFile_field hf).2.2 k)

theorem FileReads.defaults_dataDir {t : Table} {file : File} (h : FileReads X t file) :
    file.defaultsOr.dataDir = (Table.at t ["defaults", "data_dir"]).bind asString :=
  (ChainFile.getD_default_dataDir file.defaults).trans
    (field_of_optField h.defaults fun _ _ hf => (chainFile_field hf).2.1)

/-- What a chain's table says of a key is what stands at `chains.<x>.<key>`. -/
theorem FileReads.chain_field {β : Type} {t : Table} {file : File} (h : FileReads X t file)
    {key : String} {dec : Value → Option β} {proj : ChainFile → Option β}
    (hkey : ∀ sub f, chainFile X sub = some f → optField sub key dec = some (proj f))
    (x : Chain) :
    ((file.chains.getD []).lookup x).bind proj
      = (Table.at t ["chains", x.asStr, key]).bind dec := by
  rcases at_below_of_optField h.chains with ⟨hnone, hat⟩ | ⟨sub, files, hsome, hfiles, hat⟩
  · rw [hnone, hat]
    rfl
  · rw [hsome, hat, Option.getD_some]
    exact field_of_optField (chainFiles_field hfiles x) hkey

theorem FileReads.chain_get {t : Table} {file : File} (h : FileReads X t file) (x : Chain)
    (k : Key) :
    (file.chain x).get k
      = (Table.at t ["chains", x.asStr, k.name]).bind (k.decode X) :=
  (ChainFile.getD_default_get _ k).trans
    (h.chain_field (fun _ _ hf => (chainFile_field hf).2.2 k) x)

theorem FileReads.chain_dataDir {t : Table} {file : File} (h : FileReads X t file) (x : Chain) :
    (file.chain x).dataDir = (Table.at t ["chains", x.asStr, "data_dir"]).bind asString :=
  (ChainFile.getD_default_dataDir _).trans
    (h.chain_field (fun _ _ hf => (chainFile_field hf).2.1) x)

end Reads

end NeveConfig
