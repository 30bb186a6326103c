import Neve.ConfigFileProofs
import Neve.OutcomeProofs
import Mathlib.Data.Int.Log

/-! # Configuration — from the layers to what the process runs with

    A file, the environment and the command line are merged into one document, which
    is deserialized and then resolved chain by chain over the built-in defaults.  Every
    override is a write at one path of the document, checked against the schema before
    the next one (`setChecked`), so a resolution is a list of writes and one reading of
    the result (`resolve_ok`). -/

namespace NeveConfig

open TomlTree StrText Outcome
open NeveRecord (Chain)

/-! ## URLs -/

/-- A URL with any query string replaced, for logging. -/
def redactUrl (url : String) : String :=
  match splitOnce '?' url with
  | some (base, _) => base ++ "?<redacted>"
  | none => url

/-- The upstream rate-limit bypass token. -/
structure Token where
  expose : String
  deriving DecidableEq

/-- Append `?<param>=<token>` to an upstream URL. -/
def withToken (url param : String) (token : Token) : String :=
  if url = "" then ""
  else
    match splitOnce '?' url with
    | none => url ++ "?" ++ param ++ "=" ++ token.expose
    | some (_, query) =>
        if query = "" then url ++ param ++ "=" ++ token.expose
        else if (split '&' query).any fun pair => (split '=' pair).head? = some param then url
        else url ++ "&" ++ param ++ "=" ++ token.expose

/-- Whether a query has a parameter of that name. -/
def hasParam (param query : String) : Bool :=
  (split '&' query).any fun pair => (split '=' pair).head? = some param

/-- **The spec of `withToken`**: the parameter goes to the end, behind a `?`, behind the
    one that is there or behind an `&`, unless there is no URL or it has the parameter. -/
theorem withToken_cases (url param : String) (token : Token) :
    (url = "" ∧ withToken url param token = url) ∨
    (url ≠ "" ∧ splitOnce '?' url = none ∧
      withToken url param token = url ++ ("?" ++ (param ++ "=" ++ token.expose))) ∨
    ∃ before query, splitOnce '?' url = some (before, query) ∧
      ((query = "" ∧ withToken url param token = url ++ (param ++ "=" ++ token.expose)) ∨
        (query ≠ "" ∧ hasParam param query = true ∧ withToken url param token = url) ∨
        (query ≠ "" ∧ hasParam param query = false ∧
          withToken url param token = url ++ ("&" ++ (param ++ "=" ++ token.expose)))) := by
  by_cases hurl : url = ""
  · refine Or.inl ⟨hurl, ?_⟩
    rw [withToken, if_pos hurl, hurl]
  · rw [withToken, if_neg hurl]
    cases hsplit : splitOnce '?' url with
    | none =>
        refine Or.inr (Or.inl ⟨hurl, rfl, ?_⟩)
        simp only [String.append_assoc]
    | some parts =>
        obtain ⟨before, query⟩ := parts
        refine Or.inr (Or.inr ⟨before, query, rfl, ?_⟩)
        dsimp only
        by_cases hquery : query = ""
        · refine Or.inl ⟨hquery, ?_⟩
          rw [if_pos hquery]
          simp only [String.append_assoc]
        · cases hpresent : hasParam param query with
          | true =>
              refine Or.inr (Or.inl ⟨hquery, rfl, ?_⟩)
              rw [hasParam] at hpresent
              rw [if_neg hquery, if_pos hpresent]
          | false =>
              refine Or.inr (Or.inr ⟨hquery, rfl, ?_⟩)
              rw [hasParam] at hpresent
              rw [if_neg hquery, if_neg (ne_true_of_eq_false hpresent)]
              simp only [String.append_assoc]

/-- The `host[:port]` of a URL. -/
def authority (url : String) : Option String :=
  let rest := trimStartMatches '/' (((splitOnceSub "://" url).map Prod.snd).getD url)
  let mine := rest.toList.takeWhile fun c => c ≠ '/' ∧ c ≠ '?' ∧ c ≠ '#'
  if mine = [] then none else some (String.ofList mine)

/-- Derive a WebSocket URL from an HTTP(S) base. -/
def deriveWsUrl (base : String) : Except Error String :=
  match stripPrefix "https://" base with
  | some rest => .ok ("wss://" ++ rest)
  | none =>
      match stripPrefix "http://" base with
      | some rest => .ok ("ws://" ++ rest)
      | none =>
          if (stripPrefix "ws://" base).isSome ∨ (stripPrefix "wss://" base).isSome then .ok base
          else .error
            [s!"upstream base must be an http(s):// (or ws(s)://) URL, got: {base}"]

/-- This chain's JSON-RPC path on an avalanchego host. -/
def rpcPath : Chain → String
  | .C => "/ext/bc/C/rpc"
  | .P => "/ext/bc/P"

def wsPath : Chain → Option String
  | .C => some "/ext/bc/C/ws"
  | .P => none

/-- `(rpc_url, ws_url)` for a chain, before any explicit override or token. -/
def deriveEndpoints (kind : UpstreamKind) (base : String) (chain : Chain) :
    Except Error (String × String) :=
  match kind with
  | .Avalanchego =>
      match wsPath chain with
      | some path => (deriveWsUrl base).map fun ws => (base ++ rpcPath chain, ws ++ path)
      | none => .ok (base ++ rpcPath chain, "")
  | .Neve => (deriveWsUrl base).map fun ws => (base, ws)

/-! ## Paths of the file system -/

/-- `Path::join` of a relative segment. -/
def joinPath (base segment : String) : String :=
  if base = "" then segment
  else if base.toList.getLast? = some '/' then base ++ segment
  else base ++ "/" ++ segment

/-- What two paths are compared by: whether they start at the root, and their
    components, without empty ones and without a `.` other than a leading one. -/
def pathComponents (path : String) : Bool × List String :=
  let parts := split '/' path
  let rooted := path.toList.head? = some '/'
  let named := (parts.drop 1).filter fun part => part ≠ "" ∧ part ≠ "."
  match parts.head? with
  | some first =>
      if rooted ∨ first = "" then (rooted, named) else (rooted, first :: named)
  | none => (rooted, named)

/-- This chain's store location under the base directory. -/
def chainDataDir (base : String) : Chain → String
  | .C => base
  | .P => joinPath base Chain.P.asStr

/-! ## Inputs -/

/-- What the file system answers to a path. -/
inductive FileState where
  | missing
  | unreadable
  | text (s : String)
  deriving DecidableEq

abbrev Files := String → FileState

/-- Everything that is neither argv nor the config file. -/
structure Env where
  get : String → Option String
  /-- Config file consulted when none is named, and only if it exists. -/
  defaultConfig : Option String

/-- The command line. -/
structure Cli where
  config : Option String
  network : Option Network
  dataDir : Option String
  rpcAddr : Option SocketAddr
  chains : List Chain
  mirrorFrom : Option String
  stopTime : Option Duration
  logLevel : Option LogLevel
  ingestLogs : Bool
  set : List String
  printConfig : Bool
  printConfigExample : Bool
  wsUrl : Option String
  rpcUrl : Option String
  pRpcUrl : Option String
  pPollInterval : Option String
  requestInterval : Option String
  pRequestInterval : Option String
  pConcurrency : Option Nat
  pDataDir : Option String
  backfillFloor : Option Nat
  pBackfillFloor : Option Nat
  maxWait : Option String
  wsIdleTimeout : Option String
  prefetchDelayCap : Option String
  idleTimeout : Option String
  maxConnections : Option Nat
  maxBlocksPerRequest : Option Nat
  summaryPeriod : Option String
  joinBufferCap : Option Nat

/-- A command line without arguments. -/
def Cli.bare : Cli where
  config := none
  network := none
  dataDir := none
  rpcAddr := none
  chains := []
  mirrorFrom := none
  stopTime := none
  logLevel := none
  ingestLogs := false
  set := []
  printConfig := false
  printConfigExample := false
  wsUrl := none
  rpcUrl := none
  pRpcUrl := none
  pPollInterval := none
  requestInterval := none
  pRequestInterval := none
  pConcurrency := none
  pDataDir := none
  backfillFloor := none
  pBackfillFloor := none
  maxWait := none
  wsIdleTimeout := none
  prefetchDelayCap := none
  idleTimeout := none
  maxConnections := none
  maxBlocksPerRequest := none
  summaryPeriod := none
  joinBufferCap := none

/-- A startup log line held back until tracing is initialized. -/
inductive Notice where
  | Info (message : String)
  | Warn (message : String)
  deriving DecidableEq

/-! ## Built-in defaults -/

/-- The bottom layer: what a chain gets with no file, no environment, no flags. -/
structure Builtin where
  requestInterval : Duration
  backfillFloor : Floor
  concurrency : Nat
  pollInterval : Duration
  maxWait : Duration
  wsIdleTimeout : Duration
  prefetchDelayCap : Duration
  ingestLogs : Bool
  joinBufferCap : Nat
  summaryPeriod : Duration

def Builtin.forChain (chain : Chain) (kind : UpstreamKind) : Builtin where
  requestInterval :=
    match kind, chain with
    | .Neve, _ => 0
    | .Avalanchego, .C => 40 * 10 ^ 6
    | .Avalanchego, .P => 200 * 10 ^ 6
  backfillFloor :=
    match kind, chain with
    | .Avalanchego, .P => .At 0
    | _, _ => .Tip
  concurrency := 8
  pollInterval := 10 ^ 9
  maxWait := 3900 * 10 ^ 9
  wsIdleTimeout := 120 * 10 ^ 9
  prefetchDelayCap := 0
  ingestLogs := false
  joinBufferCap := 8192
  summaryPeriod := 300 * 10 ^ 9

/-! ## What a resolution gives -/

/-- The upstream this instance mirrors, shared by every chain. -/
structure Upstream where
  kind : UpstreamKind
  base : String
  token : Option Token
  tokenParam : String
  tokenFile : Option String
  /-- Effective host-wide request cap in req/s. -/
  maxRps : Option F64
  /-- The interval of the one pacer for the whole host. -/
  hostPacer : Option Duration
  deriving DecidableEq

structure Server where
  addr : SocketAddr
  maxConnections : Nat
  idleTimeout : Option Duration
  maxBlocksPerRequest : Nat
  deriving DecidableEq

/-- One chain's fully-resolved knobs. -/
structure ChainCfg where
  chain : Chain
  rpcUrl : String
  wsUrl : String
  dataDir : String
  backfillFloor : Option Nat
  requestInterval : Duration
  concurrency : Nat
  pollInterval : Duration
  maxWait : Duration
  wsIdleTimeout : Duration
  prefetchDelayCap : Duration
  ingestLogs : Bool
  joinBufferCap : Nat
  summaryPeriod : Duration
  subscribeBlocks : Bool
  hostPacer : Option Duration
  deriving DecidableEq

/-- The value of a key. -/
def ChainCfg.get (cfg : ChainCfg) : (k : Key) → k.Ty
  | .rpcUrl => cfg.rpcUrl
  | .wsUrl => cfg.wsUrl
  | .backfillFloor => Floor.ofHeight cfg.backfillFloor
  | .requestInterval => cfg.requestInterval
  | .concurrency => cfg.concurrency
  | .pollInterval => cfg.pollInterval
  | .maxWait => cfg.maxWait
  | .wsIdleTimeout => cfg.wsIdleTimeout
  | .prefetchDelayCap => cfg.prefetchDelayCap
  | .ingestLogs => cfg.ingestLogs
  | .joinBufferCap => cfg.joinBufferCap
  | .summaryPeriod => cfg.summaryPeriod

/-- What `--print-config` / `--print-config-example` asked for. -/
inductive PrintMode where
  | Config
  | Example
  deriving DecidableEq, Repr

/-- Everything the process needs, with every layer merged and validated. -/
structure Resolved where
  network : Network
  logLevel : LogLevel
  stopTime : Option Duration
  upstream : Upstream
  server : Server
  chains : List (Chain × ChainCfg)
  print : Option PrintMode
  notices : List Notice
  deriving DecidableEq

/-! ## Overrides -/

/-- One value for one path of the document, and where it comes from. -/
structure Override where
  path : List String
  value : Value
  origin : String

/-- A path as an operator writes it. -/
def dotted (path : List String) : String := ".".intercalate path

section Merge

variable (X : Formats)

/-- Write one override into the document and check the whole document. -/
def setChecked (tree : Table) (o : Override) : Except Error Table :=
  if o.path.any (· = "") then
    .error [s!"{o.origin}: `{dotted o.path}` has an empty path segment"]
  else
    match setPath tree o.path o.value with
    | .error .empty => .error [o.origin, "empty configuration key"]
    | .error (.notTable head) =>
        .error [o.origin, s!"cannot set `{dotted o.path}`: `{head}` is not a table"]
    | .ok tree' => (withContext o.origin (deserializeTree X tree')).map fun _ => tree'

/-- Write a list of overrides in order. -/
def applyAll (tree : Table) : List Override → Except Error Table
  | [] => .ok tree
  | o :: rest =>
      match setChecked X tree o with
      | .error e => .error e
      | .ok tree' => applyAll tree' rest

/-- Write one override; `chains.*.<name>` fans out to every chain served. -/
def fanOut (enabled : List Chain) (o : Override) : List Override :=
  match o.path with
  | ["chains", "*", name] =>
      enabled.map fun chain => { o with path := ["chains", chain.asStr, name] }
  | _ => [o]

/-- Parse a `--set` right-hand side; what is not TOML is a string. -/
def parseScalar (raw : String) : Value :=
  ((X.fromStr s!"v = {raw}").bind (Table.get · "v")).getD (.string raw)

end Merge

/-! ### The environment -/

def ENV_KEYS : List (String × List String) :=
  [("NEVE_RPC_URL", ["chains", "c", "rpc_url"]),
    ("NEVE_WS_URL", ["chains", "c", "ws_url"]),
    ("NEVE_P_RPC_URL", ["chains", "p", "rpc_url"])]

def envOverrides (env : Env) : List Override :=
  ENV_KEYS.filterMap fun (var, key) =>
    (env.get var).map fun value => ⟨key, .string value, s!"environment variable `{var}`"⟩

def envNotices (env : Env) : List Notice :=
  ENV_KEYS.filterMap fun (var, key) =>
    (env.get var).map fun _ => .Warn (s!"`{var}` is deprecated and will be removed in the next " ++
        s!"release; set `{dotted key}` in the config file instead — and if the URL carries a " ++
        "credential, move that to `upstream.token_file`, which is what these variables existed " ++
        "to allow")

/-! ### The hidden deprecated flags -/

/-- One entry of the table of flag and config key. -/
structure Pending where
  flag : String
  key : List String
  value : Value

def textFlag (flag : String) (key : List String) (v : Option String) : List Pending :=
  (v.map fun s => ⟨flag, key, .string s⟩).toList

/-- An integer-valued flag as a TOML integer. -/
def intFlag (flag : String) (key : List String) (v : Option Nat) :
    Except Error (List Pending) :=
  match v with
  | none => .ok []
  | some n =>
      if n < 2 ^ 63 then .ok [⟨flag, key, .integer (Int64.ofNat n)⟩]
      else .error [s!"value for `{flag}` is out of range: {n}"]

def pendingFlags (cli : Cli) : Except Error (List Pending) := do
  let pConcurrency ← intFlag "--p-concurrency" ["chains", "p", "concurrency"] cli.pConcurrency
  let joinBufferCap ←
    intFlag "--join-buffer-cap" ["chains", "*", "join_buffer_cap"] cli.joinBufferCap
  let backfillFloor ←
    intFlag "--backfill-floor" ["chains", "c", "backfill_floor"] cli.backfillFloor
  let pBackfillFloor ←
    intFlag "--p-backfill-floor" ["chains", "p", "backfill_floor"] cli.pBackfillFloor
  let maxConnections ←
    intFlag "--max-connections" ["server", "max_connections"] cli.maxConnections
  let maxBlocksPerRequest ←
    intFlag "--max-blocks-per-request" ["server", "max_blocks_per_request"]
      cli.maxBlocksPerRequest
  return textFlag "--ws-url" ["chains", "c", "ws_url"] cli.wsUrl
    ++ textFlag "--rpc-url" ["chains", "c", "rpc_url"] cli.rpcUrl
    ++ textFlag "--p-rpc-url" ["chains", "p", "rpc_url"] cli.pRpcUrl
    ++ textFlag "--p-poll-interval" ["chains", "p", "poll_interval"] cli.pPollInterval
    ++ textFlag "--request-interval" ["chains", "c", "request_interval"] cli.requestInterval
    ++ textFlag "--p-request-interval" ["chains", "p", "request_interval"] cli.pRequestInterval
    ++ textFlag "--max-wait" ["chains", "*", "max_wait"] cli.maxWait
    ++ textFlag "--ws-idle-timeout" ["chains", "*", "ws_idle_timeout"] cli.wsIdleTimeout
    ++ textFlag "--prefetch-delay-cap" ["chains", "*", "prefetch_delay_cap"]
        cli.prefetchDelayCap
    ++ textFlag "--idle-timeout" ["server", "idle_timeout"] cli.idleTimeout
    ++ textFlag "--summary-period" ["chains", "*", "summary_period"] cli.summaryPeriod
    ++ textFlag "--p-data-dir" ["chains", "p", "data_dir"] cli.pDataDir
    ++ pConcurrency ++ joinBufferCap ++ backfillFloor ++ pBackfillFloor ++ maxConnections
    ++ maxBlocksPerRequest

/-- Where an operator is pointed to: a `chains.*` flag has no chain of its own. -/
def suggestion : List String → String
  | ["chains", "*", name] => "defaults." ++ name
  | key => dotted key

def deprecatedNotice (p : Pending) : Notice :=
  .Warn (s!"`{p.flag}` is deprecated and will be removed in the next release; use " ++
      s!"`{suggestion p.key}` in the config file (or `--set {suggestion p.key}=…`)")

def deprecatedOverrides (enabled : List Chain) (pending : List Pending) : List Override :=
  pending.flatMap fun p => fanOut enabled ⟨p.key, p.value, s!"flag `{p.flag}`"⟩

/-! ### The visible flags and `--set` -/

section Flags

variable (X : Formats)

def flagOverrides (cli : Cli) (enabled : List Chain) : List Override :=
  (cli.network.map fun n => ⟨["network"], .string n.asStr, "flag `--network`"⟩).toList
    ++ (cli.logLevel.map fun l =>
        ⟨["log_level"], .string l.asStr, "flag `--log-level`"⟩).toList
    ++ (cli.dataDir.map fun dir =>
        ⟨["defaults", "data_dir"], .string dir, "flag `--data-dir`"⟩).toList
    ++ (cli.rpcAddr.map fun addr =>
        ⟨["server", "addr"], .string (X.showSocketAddr addr), "flag `--rpc-addr`"⟩).toList
    ++ (if cli.ingestLogs then
        fanOut enabled ⟨["chains", "*", "ingest_logs"], .boolean true, "flag `--ingest-logs`"⟩
      else [])
    ++ (match cli.mirrorFrom with
      | some base =>
          [⟨["upstream", "kind"], .string UpstreamKind.Neve.asStr, "flag `--mirror-from`"⟩,
            ⟨["upstream", "base"], .string base, "flag `--mirror-from`"⟩]
      | none => [])

/-- The override of one `--set` argument, if it is `KEY=VALUE`. -/
def setOverride (arg : String) : Option Override :=
  (splitOnce '=' arg).map fun (key, raw) =>
    ⟨split '.' key, parseScalar X raw, s!"`--set {key}={raw}`"⟩

/-- `--set`, applied last so it can override anything. -/
def applySets (tree : Table) : List String → Except Error Table
  | [] => .ok tree
  | arg :: rest =>
      match setOverride X arg with
      | none => .error [s!"`--set` expects KEY=VALUE, got `{arg}`"]
      | some o =>
          match setChecked X tree o with
          | .error e => .error e
          | .ok tree' => applySets tree' rest

end Flags

/-! ## Which chains a run serves -/

/-- Deduplicated and in chain order. -/
def normalizeChains (chains : List Chain) : Except Error (List Chain) :=
  let out := chains.foldl (fun out chain => if out.contains chain then out else out ++ [chain]) []
  if out = [] then
    .error ["--chains selected no chains; there would be nothing to serve"]
  else .ok (out.insertionSort fun a b => a = .C ∨ b = .P)

/-- The chain a key of `[chains]` names. -/
def declaredChain (key : String) : Except Error Chain :=
  match chainOfName key with
  | some chain => .ok chain
  | none => .error [s!"unknown chain `chains.{key}`"]

/-- The chains the file declares a table for, or `none` when it has no `[chains]`. -/
def declaredChains (tree : Table) : Except Error (Option (List Chain)) :=
  match Table.get tree "chains" with
  | none => .ok none
  | some (.table chains) => ((Table.keys chains).mapM declaredChain).map some
  | some _ => .error ["`chains` must be a table of per-chain tables"]

/-- `chains.<x>.enabled` as the file spells it; absent means enabled. -/
def fileEnabled (tree : Table) (chain : Chain) : Except Error Bool :=
  match Table.at tree ["chains", chain.asStr, "enabled"] with
  | none => .ok true
  | some v =>
      match asBool v with
      | some b => .ok b
      | none => .error [s!"`chains.{chain.asStr}.enabled` must be a boolean"]

/-- `chains.<x>.enabled` as given by `--set`; the last occurrence wins. -/
def setEnabled (chain : Chain) : List String → Option Bool → Except Error (Option Bool)
  | [], found => .ok found
  | arg :: rest, found =>
      let wanted := s!"chains.{chain.asStr}.enabled"
      match splitOnce '=' arg with
      | none => setEnabled chain rest found
      | some (key, raw) =>
          if trim key = wanted then
            match parseBool raw with
            | some b => setEnabled chain rest (some b)
            | none => .error [s!"`--set {wanted}={raw}`: expected `true` or `false`"]
          else setEnabled chain rest found

/-- Whether a chain is served, when `--chains` does not say. -/
def chainOn (cli : Cli) (tree : Table) (declared : Option (List Chain)) (chain : Chain) :
    Except Error Bool :=
  match setEnabled chain cli.set none with
  | .error e => .error e
  | .ok (some explicit) => .ok explicit
  | .ok none =>
      if declared.all (·.contains chain) then fileEnabled tree chain else .ok false

/-- The chains of a list that are on. -/
def chainsOn (cli : Cli) (tree : Table) (declared : Option (List Chain)) :
    List Chain → Except Error (List Chain)
  | [] => .ok []
  | chain :: rest =>
      match chainOn cli tree declared chain with
      | .error e => .error e
      | .ok on =>
          (chainsOn cli tree declared rest).map fun chains =>
            if on then chain :: chains else chains

/-- Which chains this run serves. -/
def selectChains (cli : Cli) (tree : Table) : Except Error (List Chain) :=
  if cli.chains ≠ [] then normalizeChains cli.chains
  else
    match declaredChains tree with
    | .error e => .error e
    | .ok declared =>
        if declared.any (·.isEmpty) then
          .error ["the `[chains]` table is empty; there would be nothing to serve"]
        else
          match chainsOn cli tree declared ALL with
          | .error e => .error e
          | .ok chains =>
              if chains = [] then
                .error ["every chain is disabled; enable one with `--chains <list>` or by " ++
                    "setting `enabled = true`"]
              else normalizeChains chains

/-- Reject a `--set` aimed at a chain this run does not serve. -/
def rejectSetsForIdleChains (enabled : List Chain) : List String → Except Error Unit
  | [] => .ok ()
  | arg :: rest =>
      match splitOnce '=' arg with
      | none => rejectSetsForIdleChains enabled rest
      | some (key, _) =>
          match split '.' (trim key) with
          | "chains" :: name :: field :: _ =>
              match chainOfName name with
              | none => rejectSetsForIdleChains enabled rest
              | some chain =>
                  if field = "enabled" ∨ chain ∈ enabled then
                    rejectSetsForIdleChains enabled rest
                  else
                    .error [s!"`--set {key}=…` configures the {name}-chain, which this run " ++
                        s!"does not serve; add `--chains {name}` or " ++
                        s!"`--set chains.{name}.enabled=true`"]
          | _ => rejectSetsForIdleChains enabled rest

/-! ## Resolving the merged document -/

/-- Host-wide request cap applied to an untokened public endpoint, in req/s. -/
def PUBLIC_MAX_RPS : F64 := .finite 25

/-- Whether a URL carries the token parameter. -/
def carries (param : String) (url : Option String) : Bool :=
  url.any fun u => contains u ("?" ++ param ++ "=") || contains u ("&" ++ param ++ "=")

/-- Whether a URL written in the file already carries the token parameter. -/
def urlsAlreadyCarryAToken (file : File) : Bool :=
  let param := (file.upstream.bind (·.tokenParam)).getD "token"
  let has (c : ChainFile) : Bool := carries param c.rpcUrl || carries param c.wsUrl
  file.defaults.any has || file.chains.any (·.any fun entry => has entry.2)
    || file.upstream.any fun u => carries param u.base

/-- The nearest whole number, the even one of two that are equally near. -/
def roundTiesEven (q : ℚ) : ℤ :=
  if Int.fract q = 1 / 2 then 2 * round (q / 2) else round q

/-- The nearest positive double.  Its 53 bits are those of the normal range; below it a
    double is coarser, and far under a nanosecond. -/
def nearestDouble (q : ℚ) : ℚ :=
  let ulp : ℚ := 2 ^ (Int.log 2 q - 52)
  roundTiesEven (q / ulp) * ulp

/-- `Duration::from_secs_f64(rps.recip())`: the reciprocal is a double, which is rounded to
    nanoseconds, and an interval of 2^64 seconds and more panics. -/
def pacerInterval : F64 → Option Duration
  | .finite q =>
      let secs := nearestDouble q⁻¹
      if secs < 2 ^ 64 then some (roundTiesEven (secs * 10 ^ 9)).toNat else none
  | _ => some 0

/-- Read `upstream.token_file`. -/
def readTokenFile (files : Files) (path : String) : Except Error Token :=
  match files path with
  | .text text =>
      if trim text = "" then .error [s!"`upstream.token_file` {path} is empty"]
      else .ok ⟨trim text⟩
  | _ => .error [s!"read `upstream.token_file` {path}"]

/-- The token, from the file or else from the environment. -/
def resolveToken (files : Files) (env : Env) (tokenFile : Option String) :
    Except Error (Option Token) :=
  match tokenFile, env.get "NEVE_UPSTREAM_TOKEN" with
  | some path, _ => (readTokenFile files path).map some
  | none, some value =>
      if trim value = "" then .error ["NEVE_UPSTREAM_TOKEN is set but empty"]
      else .ok (some ⟨trim value⟩)
  | none, none => .ok none

section Resolve

variable (X : Formats)

/-- The effective host cap and why it is what it is. -/
def hostCap (configured : Option F64) (kind : UpstreamKind) (tokened : Bool) :
    Except Error (Option F64 × String) :=
  match configured, kind, tokened with
  | some rps, _, _ =>
      match rps with
      | .finite q =>
          if q < 0 then
            .error [s!"`upstream.max_rps` must be a non-negative number, got {X.showF64 rps}"]
          else .ok (if 0 < q then some rps else none, "configured with `upstream.max_rps`")
      | _ => .error [s!"`upstream.max_rps` must be a non-negative number, got {X.showF64 rps}"]
  | none, .Neve, _ => .ok (none, "upstream is another neve, which has no rate limit")
  | none, .Avalanchego, true =>
      .ok (none, "an upstream token is in play, and bypassing the limit is what a token is for")
  | none, .Avalanchego, false =>
      .ok (some PUBLIC_MAX_RPS, "public-endpoint default for an untokened upstream")

def capNotice (maxRps : Option F64) (why : String) : Notice :=
  match maxRps with
  | some rps =>
      .Info s!"upstream host request cap: {X.showF64 rps} req/s, shared by every chain ({why})"
  | none => .Info s!"upstream host request cap: none ({why})"

/-- The notice for a token that is given twice. -/
def bothTokensNotice (env : Env) (tokenFile : Option String) : List Notice :=
  if tokenFile.isSome ∧ (env.get "NEVE_UPSTREAM_TOKEN").isSome then
    [.Info "both `upstream.token_file` and NEVE_UPSTREAM_TOKEN are set; using the file"]
  else []

def resolveUpstream (files : Files) (env : Env) (file : UpstreamFile) (network : Network)
    (preTokened : Bool) : Except Error (Upstream × List Notice) := do
  let kind := file.kind.getD .Avalanchego
  let base := trimEndMatches '/' (file.base.getD network.defaultBaseUrl)
  if base = "" then
    throw ["`upstream.base` is empty"]
  let token ← resolveToken files env file.tokenFile
  let (maxRps, why) ← hostCap X file.maxRps kind (token.isSome || preTokened)
  let hostPacer ← match maxRps with
    | none => pure none
    | some rps =>
        match pacerInterval rps with
        | some interval => pure (some interval)
        | none => throw ["panicked: can not convert float seconds to Duration"]
  return (⟨kind, base, token, file.tokenParam.getD "token", file.tokenFile, maxRps, hostPacer⟩,
    bothTokensNotice env file.tokenFile ++ [capNotice X maxRps why])

def resolveServer (file : Option ServerFile) : Except Error Server := do
  let file := file.getD ⟨none, none, none, none⟩
  let maxConnections := file.maxConnections.getD 1024
  if maxConnections = 0 then
    throw ["`server.max_connections` must be at least 1"]
  let maxBlocksPerRequest := file.maxBlocksPerRequest.getD 10000
  if maxBlocksPerRequest = 0 then
    throw ["`server.max_blocks_per_request` must be at least 1"]
  let idle := file.idleTimeout.getD (60 * 10 ^ 9)
  return {
    addr := file.addr.getD (.v4 127 0 0 1 8545)
    maxConnections := maxConnections
    idleTimeout := if 0 < idle then some idle else none
    maxBlocksPerRequest := maxBlocksPerRequest }

/-- The host pacer, but only for a chain that is actually on the upstream host. -/
def hostPacerFor (chain : Chain) (upstream : Upstream) (rpcUrl : String) :
    Option Duration × List Notice :=
  match upstream.hostPacer with
  | none => (none, [])
  | some pacer =>
      let host := authority upstream.base
      let mine := authority rpcUrl
      if mine.any fun a => host.any fun b => eqIgnoreAsciiCase a b then (some pacer, [])
      else
        let shown := mine.getD "an unparseable URL"
        let capped := host.getD "(none)"
        (none, [.Info (s!"chains.{chain.asStr}.rpc_url points at {shown}, not the upstream host " ++
            s!"{capped}; the host request cap does not apply to it")])

/-- A key that may not be zero. -/
def nonZero (chain : Chain) (k : Key) (rule : String) (n : Nat) : Except Error Nat :=
  if n = 0 then .error [s!"`chains.{chain.asStr}.{k.name}` must be {rule}"] else .ok n

/-- A URL with the token appended, if there is one. -/
def Upstream.tokened (upstream : Upstream) (url : String) : String :=
  match upstream.token with
  | some token => withToken url upstream.tokenParam token
  | none => url

def resolveChain (chain : Chain) (upstream : Upstream) (defaults per : ChainFile)
    (baseDir : String) : Except Error (ChainCfg × List Notice) := do
  let builtin := Builtin.forChain chain upstream.kind
  let merged := (ChainFile.default.overlay defaults).overlay per
  let (derivedRpc, derivedWs) ← deriveEndpoints upstream.kind upstream.base chain
  let rpcUrl := merged.rpcUrl.getD derivedRpc
  let wsUrl := merged.wsUrl.getD derivedWs
  let (hostPacer, notices) := hostPacerFor chain upstream rpcUrl
  let concurrency ← nonZero chain .concurrency "at least 1"
    (merged.concurrency.getD builtin.concurrency)
  let joinBufferCap ← nonZero chain .joinBufferCap "at least 1"
    (merged.joinBufferCap.getD builtin.joinBufferCap)
  let summaryPeriod ← nonZero chain .summaryPeriod "greater than zero"
    (merged.summaryPeriod.getD builtin.summaryPeriod)
  let pollInterval ← nonZero chain .pollInterval "greater than zero"
    (merged.pollInterval.getD builtin.pollInterval)
  return ({
    chain := chain
    rpcUrl := upstream.tokened rpcUrl
    wsUrl := upstream.tokened wsUrl
    dataDir := per.dataDir.getD (chainDataDir baseDir chain)
    backfillFloor := (merged.backfillFloor.getD builtin.backfillFloor).height
    requestInterval := merged.requestInterval.getD builtin.requestInterval
    concurrency := concurrency
    pollInterval := pollInterval
    maxWait := merged.maxWait.getD builtin.maxWait
    wsIdleTimeout := merged.wsIdleTimeout.getD builtin.wsIdleTimeout
    prefetchDelayCap := merged.prefetchDelayCap.getD builtin.prefetchDelayCap
    ingestLogs := merged.ingestLogs.getD builtin.ingestLogs && decide (chain = .C)
    joinBufferCap := joinBufferCap
    summaryPeriod := summaryPeriod
    subscribeBlocks := decide (upstream.kind = .Neve)
    hostPacer := hostPacer }, notices)

/-- Resolve every chain served, in order. -/
def resolveChains (upstream : Upstream) (file : File) (baseDir : String) :
    List Chain → Except Error (List (Chain × ChainCfg) × List Notice)
  | [] => .ok ([], [])
  | chain :: rest => do
      let (cfg, notices) ←
        resolveChain chain upstream file.defaultsOr (file.chain chain) baseDir
      let (cfgs, more) ← resolveChains upstream file baseDir rest
      return ((chain, cfg) :: cfgs, notices ++ more)

/-- Another chain with the same data dir. -/
def sharedDir (chains : List (Chain × ChainCfg)) (entry : Chain × ChainCfg) :
    Option (Chain × ChainCfg) :=
  chains.find? fun other =>
    other.1 ≠ entry.1 ∧ pathComponents other.2.dataDir = pathComponents entry.2.dataDir

/-- Two chains sharing a store directory would each reject the other's stamp. -/
def rejectSharedDirs (chains : List (Chain × ChainCfg)) :
    List (Chain × ChainCfg) → Except Error Unit
  | [] => .ok ()
  | entry :: rest =>
      match sharedDir chains entry with
      | some other =>
          .error [s!"chains `{entry.1.asStr}` and `{other.1.asStr}` resolve to the same data " ++
              s!"dir {entry.2.dataDir}; set `chains.{other.1.asStr}.data_dir`"]
      | none => rejectSharedDirs chains rest

/-- Turn the merged document into the resolved configuration. -/
def build (cli : Cli) (files : Files) (env : Env) (file : File) (enabled : List Chain)
    (notices : List Notice) : Except Error Resolved := do
  let network := file.network.getD .Mainnet
  let preTokened := urlsAlreadyCarryAToken file
  let (upstream, upstreamNotices) ←
    resolveUpstream X files env file.upstreamOr network preTokened
  let server ← resolveServer file.server
  if file.defaultsOr.enabled.isSome then
    throw ["`defaults.enabled` would mean \"serve no chains\"; set `enabled` in a " ++
        "`[chains.<x>]` table, or select with `--chains`"]
  let baseDir := file.defaultsOr.dataDir.getD network.defaultDataDir
  let (chains, chainNotices) ← resolveChains upstream file baseDir enabled
  rejectSharedDirs chains chains
  return {
    network := network
    logLevel := file.logLevel.getD .Info
    stopTime := cli.stopTime
    upstream := upstream
    server := server
    chains := chains
    print := if cli.printConfigExample then some .Example
      else if cli.printConfig then some .Config else none
    notices := notices ++ upstreamNotices ++ chainNotices }

/-- The config file to read, and whether it must be there. -/
def configPath (cli : Cli) (env : Env) : Option String × Bool :=
  match cli.config, env.get "NEVE_CONFIG" with
  | some p, _ => (some p, true)
  | none, some p => (some p, true)
  | none, none => (env.defaultConfig, false)

/-- Read the config file into a document, or start from an empty one. -/
def loadTree (cli : Cli) (files : Files) (env : Env) : Except Error Table :=
  match configPath cli env with
  | (none, _) => .ok []
  | (some path, required) =>
      match files path with
      | .missing => if required then .error [s!"read config file {path}"] else .ok []
      | .unreadable => .error [s!"read config file {path}"]
      | .text text =>
          match X.fromStr text with
          | none => .error [s!"invalid config file {path}"]
          | some tree =>
              match fileOf X tree with
              | none => .error [s!"invalid config file {path}"]
              | some _ => .ok tree

/-- Merge every layer and validate. -/
def resolveWith (cli : Cli) (files : Files) (env : Env) : Except Error Resolved := do
  let tree ← loadTree X cli files env
  let enabled ← selectChains cli tree
  rejectSetsForIdleChains enabled cli.set
  let tree ← applyAll X tree (envOverrides env)
  let pending ← pendingFlags cli
  let tree ← applyAll X tree (deprecatedOverrides enabled pending)
  let tree ← applyAll X tree (flagOverrides X cli enabled)
  let tree ← applySets X tree cli.set
  let file ← deserializeTree X tree
  build X cli files env file enabled (envNotices env ++ pending.map deprecatedNotice)

end Resolve

/-! ## A resolution is a list of writes and one reading -/

section Merged

variable {X : Formats}

theorem deserializeTree_eq_ok {tree : Table} {file : File}
    (h : deserializeTree X tree = .ok file) : fileOf X tree = some file := by
  simp only [deserializeTree] at h
  cases hfile : fileOf X tree with
  | none =>
      rw [hfile] at h
      cases h
  | some f =>
      rw [hfile] at h
      rw [Except.ok.inj h]

/-- An accepted override was written, and the document still reads. -/
theorem setChecked_ok {tree tree' : Table} {o : Override}
    (h : setChecked X tree o = .ok tree') :
    setPath tree o.path o.value = .ok tree' ∧ ∃ file, fileOf X tree' = some file := by
  simp only [setChecked] at h
  by_cases hempty : o.path.any (· = "") = true
  · rw [if_pos hempty] at h
    cases h
  · rw [if_neg hempty] at h
    cases hset : setPath tree o.path o.value with
    | error e =>
        rw [hset] at h
        cases e with
        | empty => cases h
        | notTable head => cases h
    | ok t =>
        rw [hset] at h
        dsimp only at h
        cases hread : deserializeTree X t with
        | error e =>
            rw [hread] at h
            cases h
        | ok file =>
            rw [hread] at h
            have ht : t = tree' := Except.ok.inj h
            rw [ht] at hread ⊢
            exact ⟨rfl, file, deserializeTree_eq_ok hread⟩

theorem applyAll_append (tree : Table) (os os' : List Override) :
    applyAll X tree (os ++ os') = (applyAll X tree os).bind fun t => applyAll X t os' := by
  induction os generalizing tree with
  | nil => rfl
  | cons o os ih =>
      rw [List.cons_append, applyAll, applyAll]
      cases setChecked X tree o with
      | error e => rfl
      | ok t => exact ih t

/-- Accepted overrides, as writes. -/
def writes (os : List Override) : List (List String × Value) :=
  os.map fun o => (o.path, o.value)

/-- **Accepted overrides are writes**, and the document read after each of them. -/
theorem applyAll_ok {tree tree' : Table} {os : List Override}
    (h : applyAll X tree os = .ok tree') :
    foldPaths tree (writes os) = .ok tree' ∧
      ∀ o ∈ os, ∃ before after file, setPath before o.path o.value = .ok after ∧
        fileOf X after = some file := by
  induction os generalizing tree with
  | nil =>
      rw [← Except.ok.inj h]
      refine ⟨rfl, ?_⟩
      intro o ho
      cases ho
  | cons o os ih =>
      simp only [applyAll] at h
      cases hset : setChecked X tree o with
      | error e =>
          rw [hset] at h
          cases h
      | ok t =>
          rw [hset] at h
          obtain ⟨hpath, file, hfile⟩ := setChecked_ok hset
          obtain ⟨hfold, hreads⟩ := ih h
          refine ⟨?_, ?_⟩
          · simp only [writes, List.map_cons, foldPaths]
            rw [hpath]
            exact hfold
          · intro o' ho'
            rcases List.mem_cons.mp ho' with rfl | hmem
            · exact ⟨tree, t, file, hpath, hfile⟩
            · exact hreads o' hmem

/-- The `--set` arguments, as overrides. -/
def setOverrides (X : Formats) (args : List String) : List Override :=
  args.filterMap (setOverride X)

theorem applySets_ok {tree tree' : Table} {args : List String}
    (h : applySets X tree args = .ok tree') :
    applyAll X tree (setOverrides X args) = .ok tree' := by
  induction args generalizing tree with
  | nil => exact h
  | cons arg args ih =>
      simp only [applySets] at h
      cases ho : setOverride X arg with
      | none =>
          rw [ho] at h
          cases h
      | some o =>
          rw [ho] at h
          dsimp only at h
          rw [setOverrides, List.filterMap_cons_some ho, applyAll]
          cases hset : setChecked X tree o with
          | error e =>
              rw [hset] at h
              cases h
          | ok t =>
              rw [hset] at h
              exact ih h

/-- Every override of a run, in the order they are written. -/
def overrides (X : Formats) (cli : Cli) (env : Env) (enabled : List Chain)
    (pending : List Pending) : List Override :=
  envOverrides env ++ deprecatedOverrides enabled pending ++ flagOverrides X cli enabled
    ++ setOverrides X cli.set

/-- What a successful resolution went through. -/
structure Resolution (X : Formats) (cli : Cli) (files : Files) (env : Env) (r : Resolved) where
  tree : Table
  enabled : List Chain
  pending : List Pending
  merged : Table
  file : File
  loaded : loadTree X cli files env = .ok tree
  selected : selectChains cli tree = .ok enabled
  flags : pendingFlags cli = .ok pending
  merge : applyAll X tree (overrides X cli env enabled pending) = .ok merged
  reads : fileOf X merged = some file
  built : build X cli files env file enabled
    (envNotices env ++ pending.map deprecatedNotice) = .ok r

/-- **The spec of a resolution.** -/
theorem resolveWith_ok {cli : Cli} {files : Files} {env : Env} {r : Resolved}
    (h : resolveWith X cli files env = .ok r) : Nonempty (Resolution X cli files env r) := by
  obtain ⟨tree, hload, h⟩ := bind_eq_ok h
  obtain ⟨enabled, hselect, h⟩ := bind_eq_ok h
  obtain ⟨_, -, h⟩ := bind_eq_ok h
  obtain ⟨tree₁, hmerge₁, h⟩ := bind_eq_ok h
  obtain ⟨pending, hpending, h⟩ := bind_eq_ok h
  obtain ⟨tree₂, hmerge₂, h⟩ := bind_eq_ok h
  obtain ⟨tree₃, hmerge₃, h⟩ := bind_eq_ok h
  obtain ⟨merged, hmerge₄, h⟩ := bind_eq_ok h
  obtain ⟨file, hfile, hbuild⟩ := bind_eq_ok h
  refine ⟨⟨tree, enabled, pending, merged, file, hload, hselect, hpending, ?_,
    deserializeTree_eq_ok hfile, hbuild⟩⟩
  simp only [overrides, applyAll_append]
  rw [hmerge₁]
  dsimp only [Except.bind]
  rw [hmerge₂]
  dsimp only
  rw [hmerge₃]
  exact applySets_ok hmerge₄

end Merged

/-! ## What was resolved -/

section Built

variable {X : Formats}

/-- What a chain's key is when nothing sets it. -/
def builtinValue (chain : Chain) (kind : UpstreamKind) (derived : String × String) :
    (k : Key) → k.Ty
  | .rpcUrl => derived.1
  | .wsUrl => derived.2
  | .backfillFloor => (Builtin.forChain chain kind).backfillFloor
  | .requestInterval => (Builtin.forChain chain kind).requestInterval
  | .concurrency => (Builtin.forChain chain kind).concurrency
  | .pollInterval => (Builtin.forChain chain kind).pollInterval
  | .maxWait => (Builtin.forChain chain kind).maxWait
  | .wsIdleTimeout => (Builtin.forChain chain kind).wsIdleTimeout
  | .prefetchDelayCap => (Builtin.forChain chain kind).prefetchDelayCap
  | .ingestLogs => (Builtin.forChain chain kind).ingestLogs
  | .joinBufferCap => (Builtin.forChain chain kind).joinBufferCap
  | .summaryPeriod => (Builtin.forChain chain kind).summaryPeriod

/-- What is done to a merged value: the token is appended to URLs, and only the C-chain
    ingests logs. -/
def finish (chain : Chain) (upstream : Upstream) : (k : Key) → k.Ty → k.Ty
  | .rpcUrl, url => upstream.tokened url
  | .wsUrl, url => upstream.tokened url
  | .ingestLogs, on => on && decide (chain = .C)
  | .backfillFloor, v => v
  | .requestInterval, v => v
  | .concurrency, v => v
  | .pollInterval, v => v
  | .maxWait, v => v
  | .wsIdleTimeout, v => v
  | .prefetchDelayCap, v => v
  | .joinBufferCap, v => v
  | .summaryPeriod, v => v

theorem nonZero_ok {chain : Chain} {k : Key} {rule : String} {n m : Nat}
    (h : nonZero chain k rule n = .ok m) : m = n ∧ n ≠ 0 := by
  simp only [nonZero] at h
  by_cases hn : n = 0
  · rw [if_pos hn] at h
    cases h
  · rw [if_neg hn] at h
    exact ⟨(Except.ok.inj h).symm, hn⟩

/-- What a chain's configuration is, once it was resolved. -/
structure ChainResolved (x : Chain) (upstream : Upstream) (defaults per : ChainFile)
    (baseDir : String) (cfg : ChainCfg) (urls : String × String) : Prop where
  chain : cfg.chain = x
  derived : deriveEndpoints upstream.kind upstream.base x = .ok urls
  value : ∀ k, cfg.get k = finish x upstream k
    (((per.get k).or (defaults.get k)).getD (builtinValue x upstream.kind urls k))
  dataDir : cfg.dataDir = per.dataDir.getD (chainDataDir baseDir x)
  concurrency : cfg.concurrency ≠ 0
  joinBufferCap : cfg.joinBufferCap ≠ 0
  summaryPeriod : cfg.summaryPeriod ≠ 0
  pollInterval : cfg.pollInterval ≠ 0
  subscribeBlocks : cfg.subscribeBlocks = decide (upstream.kind = .Neve)
  hostPacer : cfg.hostPacer = (hostPacerFor x upstream
    (((per.rpcUrl).or defaults.rpcUrl).getD urls.1)).1

/-- **The spec of a chain's resolution.** -/
theorem resolveChain_ok {chain : Chain} {upstream : Upstream} {defaults per : ChainFile}
    {baseDir : String} {cfg : ChainCfg} {notices : List Notice}
    (h : resolveChain chain upstream defaults per baseDir = .ok (cfg, notices)) :
    ∃ derived, ChainResolved chain upstream defaults per baseDir cfg derived := by
  have hmerged : ∀ k, ((ChainFile.default.overlay defaults).overlay per).get k
      = (per.get k).or (defaults.get k) := by
    intro k
    rw [ChainFile.overlay_get, ChainFile.overlay_get, ChainFile.default_get, Option.or_none]
  obtain ⟨derived, hderived, h⟩ := bind_eq_ok h
  obtain ⟨concurrency, hconcurrency, h⟩ := bind_eq_ok h
  obtain ⟨joinBufferCap, hcap, h⟩ := bind_eq_ok h
  obtain ⟨summaryPeriod, hsummary, h⟩ := bind_eq_ok h
  obtain ⟨pollInterval, hpoll, h⟩ := bind_eq_ok h
  obtain ⟨rfl, hconcurrency₀⟩ := nonZero_ok hconcurrency
  obtain ⟨rfl, hcap₀⟩ := nonZero_ok hcap
  obtain ⟨rfl, hsummary₀⟩ := nonZero_ok hsummary
  obtain ⟨rfl, hpoll₀⟩ := nonZero_ok hpoll
  obtain ⟨rfl, -⟩ := Prod.mk.inj (Except.ok.inj h)
  refine ⟨derived, rfl, hderived, ?_, rfl, hconcurrency₀, hcap₀, hsummary₀, hpoll₀,
    rfl, ?_⟩
  · intro k
    rw [← hmerged k]
    cases k with
    | backfillFloor => exact Floor.ofHeight_height _
    | _ => rfl
  · exact congrArg (fun url => (hostPacerFor chain upstream (Option.getD url derived.1)).1)
      (hmerged .rpcUrl)

/-- Every chain of a run resolves on its own. -/
theorem resolveChains_ok {upstream : Upstream} {file : File} {baseDir : String}
    {enabled : List Chain} {cfgs : List (Chain × ChainCfg)} {notices : List Notice}
    (h : resolveChains upstream file baseDir enabled = .ok (cfgs, notices)) :
    cfgs.map Prod.fst = enabled ∧
      ∀ entry ∈ cfgs, ∃ more, resolveChain entry.1 upstream file.defaultsOr
        (file.chain entry.1) baseDir = .ok (entry.2, more) := by
  induction enabled generalizing cfgs notices with
  | nil =>
      obtain ⟨rfl, -⟩ := Prod.mk.inj (Except.ok.inj h)
      refine ⟨rfl, ?_⟩
      intro entry hentry
      cases hentry
  | cons chain rest ih =>
      obtain ⟨⟨cfg, ns⟩, hcfg, h⟩ := bind_eq_ok h
      obtain ⟨⟨others, more⟩, hothers, h⟩ := bind_eq_ok h
      obtain ⟨rfl, -⟩ := Prod.mk.inj (Except.ok.inj h)
      obtain ⟨hkeys, hall⟩ := ih hothers
      refine ⟨by rw [List.map_cons, hkeys], ?_⟩
      intro entry hentry
      rcases List.mem_cons.mp hentry with rfl | hmem
      · exact ⟨ns, hcfg⟩
      · exact hall entry hmem

/-- The parts of a resolved configuration. -/
structure Built (X : Formats) (files : Files) (env : Env) (file : File)
    (enabled : List Chain) (r : Resolved) : Prop where
  network : r.network = file.network.getD .Mainnet
  logLevel : r.logLevel = file.logLevel.getD .Info
  upstream : ∃ notices, resolveUpstream X files env file.upstreamOr r.network
    (urlsAlreadyCarryAToken file) = .ok (r.upstream, notices)
  server : resolveServer file.server = .ok r.server
  defaults : file.defaultsOr.enabled = none
  chains : ∃ notices, resolveChains r.upstream file
    (file.defaultsOr.dataDir.getD r.network.defaultDataDir) enabled = .ok (r.chains, notices)
  dirs : rejectSharedDirs r.chains r.chains = .ok ()

theorem build_ok {cli : Cli} {files : Files} {env : Env} {file : File} {enabled : List Chain}
    {notices : List Notice} {r : Resolved}
    (h : build X cli files env file enabled notices = .ok r) :
    Built X files env file enabled r := by
  obtain ⟨⟨upstream, ns⟩, hupstream, h⟩ := bind_eq_ok h
  obtain ⟨server, hserver, h⟩ := bind_eq_ok h
  by_cases hdefaults : file.defaultsOr.enabled.isSome = true
  · simp only [hdefaults, if_true] at h
    cases h
  · simp only [hdefaults, Bool.false_eq_true, if_false] at h
    obtain ⟨⟨chains, more⟩, hchains, h⟩ := bind_eq_ok h
    obtain ⟨_, hdirs, h⟩ := bind_eq_ok h
    obtain rfl := Except.ok.inj h
    exact ⟨rfl, rfl, ⟨ns, hupstream⟩, hserver, Option.not_isSome_iff_eq_none.mp hdefaults,
      ⟨more, hchains⟩, hdirs⟩

/-- What the server settings are, once they were resolved. -/
theorem resolveServer_ok {file : Option ServerFile} {srv : Server}
    (h : resolveServer file = .ok srv) :
    srv.addr = (file.bind (·.addr)).getD (.v4 127 0 0 1 8545) ∧
      srv.maxConnections = (file.bind (·.maxConnections)).getD 1024 ∧
      srv.maxConnections ≠ 0 ∧
      srv.maxBlocksPerRequest = (file.bind (·.maxBlocksPerRequest)).getD 10000 ∧
      srv.maxBlocksPerRequest ≠ 0 ∧
      srv.idleTimeout = (if 0 < (file.bind (·.idleTimeout)).getD (60 * 10 ^ 9)
        then some ((file.bind (·.idleTimeout)).getD (60 * 10 ^ 9)) else none) := by
  have hfields : ∀ {α : Type} (field : ServerFile → Option α),
      field ⟨none, none, none, none⟩ = none →
        field (file.getD ⟨none, none, none, none⟩) = file.bind field := by
    intro α field hnone
    cases file with
    | none => exact hnone
    | some f => rfl
  simp only [resolveServer, hfields (·.addr) rfl, hfields (·.maxConnections) rfl,
    hfields (·.maxBlocksPerRequest) rfl, hfields (·.idleTimeout) rfl] at h
  by_cases hconnections : (file.bind (·.maxConnections)).getD 1024 = 0
  · rw [if_pos hconnections] at h
    cases h
  · rw [if_neg hconnections] at h
    by_cases hblocks : (file.bind (·.maxBlocksPerRequest)).getD 10000 = 0
    · rw [if_pos hblocks] at h
      cases h
    · rw [if_neg hblocks] at h
      obtain rfl := Except.ok.inj h
      exact ⟨rfl, rfl, hconnections, rfl, hblocks, rfl⟩

/-- What the upstream is, once it was resolved. -/
structure UpstreamResolved (X : Formats) (files : Files) (env : Env) (file : UpstreamFile)
    (network : Network) (preTokened : Bool) (up : Upstream) (why : String) : Prop where
  kind : up.kind = file.kind.getD .Avalanchego
  base : up.base = trimEndMatches '/' (file.base.getD network.defaultBaseUrl)
  base_ne : up.base ≠ ""
  token : resolveToken files env file.tokenFile = .ok up.token
  tokenParam : up.tokenParam = file.tokenParam.getD "token"
  tokenFile : up.tokenFile = file.tokenFile
  cap : hostCap X file.maxRps up.kind (up.token.isSome || preTokened) = .ok (up.maxRps, why)
  hostPacer : up.maxRps.map pacerInterval = up.hostPacer.map some

/-- **The spec of the upstream's resolution.** -/
theorem resolveUpstream_ok {files : Files} {env : Env} {file : UpstreamFile}
    {network : Network} {preTokened : Bool} {up : Upstream} {notices : List Notice}
    (h : resolveUpstream X files env file network preTokened = .ok (up, notices)) :
    ∃ why, UpstreamResolved X files env file network preTokened up why := by
  simp only [resolveUpstream] at h
  by_cases hbase : trimEndMatches '/' (file.base.getD network.defaultBaseUrl) = ""
  · rw [if_pos hbase] at h
    cases h
  rw [if_neg hbase] at h
  obtain ⟨token, htoken, h⟩ := bind_eq_ok h
  obtain ⟨⟨maxRps, why⟩, hcap, h⟩ := bind_eq_ok h
  cases maxRps with
  | none =>
      obtain ⟨rfl, -⟩ := Prod.mk.inj (Except.ok.inj h)
      exact ⟨why, rfl, rfl, hbase, htoken, rfl, rfl, hcap, rfl⟩
  | some rps =>
      dsimp only at h
      cases hinterval : pacerInterval rps with
      | none =>
          rw [hinterval] at h
          cases h
      | some interval =>
          rw [hinterval] at h
          obtain ⟨rfl, -⟩ := Prod.mk.inj (Except.ok.inj h)
          exact ⟨why, rfl, rfl, hbase, htoken, rfl, rfl, hcap, congrArg some hinterval⟩

/-! ## Which chains -/

/-- What a selection went through, when `--chains` does not say. -/
theorem selectChains_cases {cli : Cli} {tree : Table} {enabled : List Chain}
    (h : selectChains cli tree = .ok enabled) :
    (cli.chains ≠ [] ∧ normalizeChains cli.chains = .ok enabled) ∨
      (cli.chains = [] ∧ ∃ declared chains, declaredChains tree = .ok declared ∧
        chainsOn cli tree declared ALL = .ok chains ∧ normalizeChains chains = .ok enabled) := by
  simp only [selectChains] at h
  by_cases hcli : cli.chains ≠ []
  · rw [if_pos hcli] at h
    exact Or.inl ⟨hcli, h⟩
  · rw [if_neg hcli] at h
    refine Or.inr ⟨not_not.mp hcli, ?_⟩
    cases hdeclared : declaredChains tree with
    | error e =>
        rw [hdeclared] at h
        cases h
    | ok declared =>
        rw [hdeclared] at h
        dsimp only at h
        by_cases hempty : declared.any (·.isEmpty) = true
        · rw [if_pos hempty] at h
          cases h
        · rw [if_neg hempty] at h
          cases hon : chainsOn cli tree declared ALL with
          | error e =>
              rw [hon] at h
              cases h
          | ok chains =>
              rw [hon] at h
              dsimp only at h
              by_cases hnil : chains = []
              · rw [if_pos hnil] at h
                cases h
              · rw [if_neg hnil] at h
                exact ⟨declared, chains, rfl, hon, h⟩

end Built

end NeveConfig
