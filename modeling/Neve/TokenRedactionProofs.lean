import Neve.ConfigLayersProofs

/-! # The upstream token — what a configuration shows of it

    A token is put into every upstream URL, so everything that shows a URL has to cut its
    query.  What is shown of a configuration is a function of the configuration
    with the token's value forgotten and the queries cut (`shown_redacted`), and
    a resolution gives the same such configuration whatever the token is
    (`resolveWith_redacted`). -/

namespace NeveConfig

open TomlTree StrText
open NeveRecord (Chain)

/-! ## What is shown -/

/-- What a `Debug` formatter is given. -/
inductive DebugValue where
  | str (s : String)
  | word (s : String)
  | nat (n : Nat)
  | bool (b : Bool)
  | float (f : F64)
  | duration (d : Duration)
  | none
  | some (v : DebugValue)
  | struct (name : String) (fields : List (String × DebugValue)) (exhaustive : Bool)

namespace DebugValue

def option {α : Type} (show' : α → DebugValue) : Option α → DebugValue
  | .none => .none
  | .some a => .some (show' a)

end DebugValue

/-- The derived `Debug` of an enumeration is the variant's name. -/
def debugKind : UpstreamKind → DebugValue
  | .Avalanchego => .word "Avalanchego"
  | .Neve => .word "Neve"

def debugChainName : Chain → DebugValue
  | .C => .word "C"
  | .P => .word "P"

/-- `Token` is written as a placeholder. -/
def debugToken (_ : Token) : DebugValue := .word "<redacted>"

/-- A pacer that has not been waited on: its next slot is the time it was made. -/
def debugPacer (now : Nat) (interval : Duration) : DebugValue :=
  .struct "Pacer" [("interval", .duration interval),
    ("next_slot", .struct "Mutex" [("data", .nat now)] false)] true

def debugUpstream (now : Nat) (up : Upstream) : DebugValue :=
  .struct "Upstream" [("kind", debugKind up.kind), ("base", .str (redactUrl up.base)),
    ("token", .option debugToken up.token), ("token_param", .str up.tokenParam),
    ("token_file", .option .str up.tokenFile), ("max_rps", .option .float up.maxRps),
    ("host_pacer", .option (debugPacer now) up.hostPacer)] true

def debugChain (cfg : ChainCfg) : DebugValue :=
  .struct "ChainCfg" [("chain", debugChainName cfg.chain),
    ("rpc_url", .str (redactUrl cfg.rpcUrl)), ("ws_url", .str (redactUrl cfg.wsUrl)),
    ("data_dir", .str cfg.dataDir),
    ("backfill_floor", .option .nat cfg.backfillFloor),
    ("request_interval", .duration cfg.requestInterval), ("concurrency", .nat cfg.concurrency),
    ("poll_interval", .duration cfg.pollInterval), ("max_wait", .duration cfg.maxWait),
    ("ws_idle_timeout", .duration cfg.wsIdleTimeout),
    ("prefetch_delay_cap", .duration cfg.prefetchDelayCap),
    ("ingest_logs", .bool cfg.ingestLogs), ("join_buffer_cap", .nat cfg.joinBufferCap),
    ("summary_period", .duration cfg.summaryPeriod),
    ("subscribe_blocks", .bool cfg.subscribeBlocks),
    ("host_paced", .bool cfg.hostPacer.isSome)] true

/-- What an ingest task is given of a chain's configuration. -/
structure IngestCfg where
  chain : Chain
  maxWait : Duration
  pacer : Duration
  hostPacer : Option Duration
  fetchConcurrency : Nat
  wsIdleTimeout : Duration
  wsUrl : String
  rpcUrl : String
  pollInterval : Duration
  subscribeBlocks : Bool
  backfillInterFetch : Duration
  backfillFloor : Option Nat
  prefetchDelayCap : Duration
  progressPeriod : Duration
  ingestLogs : Bool

def ingestCfg (cfg : ChainCfg) (backfillFloor : Option Nat) : IngestCfg where
  chain := cfg.chain
  maxWait := cfg.maxWait
  pacer := cfg.requestInterval
  hostPacer := cfg.hostPacer
  fetchConcurrency := cfg.concurrency
  wsIdleTimeout := cfg.wsIdleTimeout
  wsUrl := cfg.wsUrl
  rpcUrl := cfg.rpcUrl
  pollInterval := cfg.pollInterval
  subscribeBlocks := cfg.subscribeBlocks
  backfillInterFetch := cfg.requestInterval
  backfillFloor := backfillFloor
  prefetchDelayCap := cfg.prefetchDelayCap
  progressPeriod := cfg.summaryPeriod
  ingestLogs := cfg.ingestLogs

def debugIngest (cfg : IngestCfg) : DebugValue :=
  .struct "IngestCfg" [("chain", debugChainName cfg.chain),
    ("rpc_url", .str (redactUrl cfg.rpcUrl)), ("ws_url", .str (redactUrl cfg.wsUrl))] false

/-- Everything that is shown of a configuration. -/
structure Shown where
  printed : Except Error String
  upstream : DebugValue
  chains : List DebugValue
  ingest : List DebugValue
  notices : List Notice

/-- `floors` are the floors that the chains' ingest tasks are given. -/
def shown (X : Formats) (now : Nat) (floors : Chain → Option Nat) (r : Resolved) : Shown where
  printed := toRedactedToml X r
  upstream := debugUpstream now r.upstream
  chains := r.chains.map fun entry => debugChain entry.2
  ingest := r.chains.map fun entry => debugIngest (ingestCfg entry.2 (floors entry.1))
  notices := r.notices

/-! ## A configuration without its token -/

def Upstream.redacted (up : Upstream) : Upstream :=
  { up with token := up.token.map fun _ => ⟨"<redacted>"⟩ }

def ChainCfg.redacted (cfg : ChainCfg) : ChainCfg :=
  { cfg with rpcUrl := redactUrl cfg.rpcUrl, wsUrl := redactUrl cfg.wsUrl }

def redactedCfgs (cfgs : List (Chain × ChainCfg)) : List (Chain × ChainCfg) :=
  cfgs.map fun entry => (entry.1, entry.2.redacted)

def Resolved.redacted (r : Resolved) : Resolved :=
  { r with upstream := r.upstream.redacted, chains := redactedCfgs r.chains }

theorem redactUrl_of_split {url base query : String} (h : splitOnce '?' url = some (base, query)) :
    redactUrl url = base ++ "?<redacted>" := by
  rw [redactUrl, h]

/-- A URL that is given a query. -/
theorem redactUrl_query {base : String} (h : '?' ∉ base.toList) (query : String) :
    redactUrl (base ++ "?" ++ query) = base ++ "?<redacted>" := by
  have hquery : (base ++ "?" ++ query).toList = base.toList ++ '?' :: query.toList := by
    rw [String.toList_append, String.toList_append, List.append_assoc]
    rfl
  exact redactUrl_of_split (splitOnce_iff.mpr ⟨hquery, h⟩)

theorem redactUrl_idem (url : String) : redactUrl (redactUrl url) = redactUrl url := by
  cases h : splitOnce '?' url with
  | none =>
      have hsame : redactUrl url = url := by rw [redactUrl, h]
      rw [hsame, hsame]
  | some parts =>
      obtain ⟨base, query⟩ := parts
      have hcut : redactUrl url = base ++ "?" ++ "<redacted>" := by
        rw [redactUrl_of_split h, String.append_assoc]
        rfl
      rw [hcut, redactUrl_query (splitOnce_iff.mp h).2, String.append_assoc]
      rfl

theorem redactedChain_redacted (cfg : ChainCfg) :
    redactedChain cfg.redacted = redactedChain cfg := by
  simp only [redactedChain, chainEntries, ChainCfg.redacted, redactUrl_idem]

theorem redactedChains_redacted (cfgs : List (Chain × ChainCfg)) :
    redactedChains (redactedCfgs cfgs) = redactedChains cfgs := by
  induction cfgs with
  | nil => rfl
  | cons entry rest ih =>
      rw [redactedCfgs, List.map_cons, redactedChains, redactedChains, redactedChain_redacted]
      rw [redactedCfgs] at ih
      rw [ih]

theorem redactedUpstream_redacted (up : Upstream) :
    redactedUpstream up.redacted = redactedUpstream up := by
  simp only [redactedUpstream, Upstream.redacted, Option.isSome_map]

/-- **What is shown does not depend on the token or on any query.** -/
theorem shown_redacted (X : Formats) (now : Nat) (floors : Chain → Option Nat) (r : Resolved) :
    shown X now floors r.redacted = shown X now floors r := by
  have htoken : ∀ token : Option Token,
      DebugValue.option debugToken (token.map fun _ => (⟨"<redacted>"⟩ : Token))
        = DebugValue.option debugToken token := by
    intro token
    cases token <;> rfl
  have hprinted : toRedactedToml X r.redacted = toRedactedToml X r := by
    simp only [toRedactedToml, redactedTable, Resolved.redacted, redactedChains_redacted,
      redactedUpstream_redacted]
  have hupstream : debugUpstream now r.upstream.redacted = debugUpstream now r.upstream := by
    simp only [debugUpstream, Upstream.redacted, htoken]
  have hchain : ∀ cfg : ChainCfg, debugChain cfg.redacted = debugChain cfg := by
    intro cfg
    simp only [debugChain, ChainCfg.redacted, redactUrl_idem]
  have hingest : ∀ (cfg : ChainCfg) floor,
      debugIngest (ingestCfg cfg.redacted floor) = debugIngest (ingestCfg cfg floor) := by
    intro cfg floor
    simp only [debugIngest, ingestCfg, ChainCfg.redacted, redactUrl_idem]
  simp only [shown, hprinted]
  simp only [Resolved.redacted, redactedCfgs, hupstream, List.map_map, Function.comp_def, hchain,
    hingest]

/-! ## Resolving with another token -/

/-- A URL with a token shows the same whatever the token is. -/
theorem redactUrl_withToken (url param : String) (token token' : Token) :
    redactUrl (withToken url param token') = redactUrl (withToken url param token) := by
  simp only [withToken]
  by_cases hurl : url = ""
  · rw [if_pos hurl, if_pos hurl]
  · rw [if_neg hurl, if_neg hurl]
    cases hsplit : splitOnce '?' url with
    | none =>
        have hmem := splitOnce_eq_none.mp hsplit
        have hshow : ∀ t : Token, redactUrl (url ++ "?" ++ param ++ "=" ++ t.expose)
            = url ++ "?<redacted>" := by
          intro t
          rw [String.append_assoc, String.append_assoc, redactUrl_query hmem]
        exact (hshow token').trans (hshow token).symm
    | some parts =>
        obtain ⟨base, query⟩ := parts
        have hshow : ∀ more, redactUrl (url ++ more) = base ++ "?<redacted>" :=
          fun more => redactUrl_of_split (splitOnce_append hsplit more)
        dsimp only
        by_cases hquery : query = ""
        · rw [if_pos hquery, if_pos hquery]
          simp only [String.append_assoc, hshow]
        · rw [if_neg hquery, if_neg hquery]
          by_cases hpresent : ((split '&' query).any fun pair =>
              (split '=' pair).head? = some param) = true
          · rw [if_pos hpresent, if_pos hpresent]
          · rw [if_neg hpresent, if_neg hpresent]
            simp only [String.append_assoc, hshow]

/-- Two upstreams that are the same but for the token's value. -/
theorem redactUrl_tokened {up up' : Upstream} (h : up'.redacted = up.redacted) (url : String) :
    redactUrl (up'.tokened url) = redactUrl (up.tokened url) := by
  have hparam : up'.tokenParam = up.tokenParam :=
    show up'.redacted.tokenParam = up.redacted.tokenParam by rw [h]
  have htoken : up'.token.map (fun _ => (⟨"<redacted>"⟩ : Token))
      = up.token.map fun _ => ⟨"<redacted>"⟩ :=
    show up'.redacted.token = up.redacted.token by rw [h]
  simp only [Upstream.tokened, hparam]
  cases ht : up.token with
  | none =>
      cases ht' : up'.token with
      | none => rfl
      | some token' =>
          rw [ht, ht'] at htoken
          cases htoken
  | some token =>
      cases ht' : up'.token with
      | none =>
          rw [ht, ht'] at htoken
          cases htoken
      | some token' => exact redactUrl_withToken url up.tokenParam token token'

/-- Steps that agree up to what is shown of them. -/
theorem Except.map_bind_congr {ε α β γ δ : Type} {x x' : Except ε α}
    {f f' : α → Except ε β}
    {p : α → γ} {g : β → δ} (hx : x'.map p = x.map p)
    (hf : ∀ a a', p a' = p a → (f' a').map g = (f a).map g) :
    (x' >>= f').map g = (x >>= f).map g := by
  cases x with
  | error e =>
      cases x' with
      | error e' =>
          rw [Except.error.inj hx]
          rfl
      | ok a' => cases hx
  | ok a =>
      cases x' with
      | error e' => cases hx
      | ok a' => exact hf a a' (Except.ok.inj hx)

theorem Except.map_bind_congr_right {ε α β δ : Type} {x : Except ε α}
    {f f' : α → Except ε β}
    {g : β → δ} (hf : ∀ a, (f' a).map g = (f a).map g) :
    (x >>= f').map g = (x >>= f).map g := by
  cases x with
  | error e => rfl
  | ok a => exact hf a

def redactedPair (x : ChainCfg × List Notice) : ChainCfg × List Notice := (x.1.redacted, x.2)

/-- A chain resolves alike with another token. -/
theorem resolveChain_redacted {up up' : Upstream} (h : up'.redacted = up.redacted) (x : Chain)
    (defaults per : ChainFile) (baseDir : String) :
    (resolveChain x up' defaults per baseDir).map redactedPair
      = (resolveChain x up defaults per baseDir).map redactedPair := by
  have hkind : up'.kind = up.kind :=
    show up'.redacted.kind = up.redacted.kind by rw [h]
  have hbase : up'.base = up.base :=
    show up'.redacted.base = up.redacted.base by rw [h]
  have hpacer : up'.hostPacer = up.hostPacer :=
    show up'.redacted.hostPacer = up.redacted.hostPacer by rw [h]
  have hfor : ∀ url, hostPacerFor x up' url = hostPacerFor x up url := by
    intro url
    simp only [hostPacerFor, hpacer, hbase]
  simp only [resolveChain, hkind, hbase, hfor]
  refine Except.map_bind_congr_right fun derived => ?_
  refine Except.map_bind_congr_right fun concurrency => ?_
  refine Except.map_bind_congr_right fun joinBufferCap => ?_
  refine Except.map_bind_congr_right fun summaryPeriod => ?_
  refine Except.map_bind_congr_right fun pollInterval => ?_
  show Except.ok _ = Except.ok _
  simp only [redactedPair, ChainCfg.redacted, redactUrl_tokened h]

def redactedChainPair (x : List (Chain × ChainCfg) × List Notice) :
    List (Chain × ChainCfg) × List Notice := (redactedCfgs x.1, x.2)

theorem resolveChains_redacted {up up' : Upstream} (h : up'.redacted = up.redacted)
    (file : File) (baseDir : String) (enabled : List Chain) :
    (resolveChains up' file baseDir enabled).map redactedChainPair
      = (resolveChains up file baseDir enabled).map redactedChainPair := by
  induction enabled with
  | nil => rfl
  | cons x rest ih =>
      simp only [resolveChains]
      refine Except.map_bind_congr
        (resolveChain_redacted h x file.defaultsOr (file.chain x) baseDir) ?_
      intro one one' hone
      refine Except.map_bind_congr ih ?_
      intro others others' hothers
      obtain ⟨hcfg, hnotices⟩ := Prod.mk.inj hone
      obtain ⟨hcfgs, hmore⟩ := Prod.mk.inj hothers
      show Except.ok _ = Except.ok _
      simp only [redactedChainPair, redactedCfgs, List.map_cons, hcfg, hnotices, hmore]
      rw [show others'.1.map (fun entry => (entry.1, entry.2.redacted))
        = others.1.map (fun entry => (entry.1, entry.2.redacted)) from hcfgs]

/-- Whether directories are shared is not about URLs. -/
theorem rejectSharedDirs_redacted (all rest : List (Chain × ChainCfg)) :
    rejectSharedDirs (redactedCfgs all) (redactedCfgs rest) = rejectSharedDirs all rest := by
  induction rest with
  | nil => rfl
  | cons entry rest ih =>
      have hfind : sharedDir (redactedCfgs all) (entry.1, entry.2.redacted)
          = (sharedDir all entry).map fun other => (other.1, other.2.redacted) := by
        rw [sharedDir, sharedDir, redactedCfgs, List.find?_map]
        rfl
      have hcons : redactedCfgs (entry :: rest)
          = (entry.1, entry.2.redacted) :: redactedCfgs rest := rfl
      rw [hcons, rejectSharedDirs, rejectSharedDirs, hfind]
      cases sharedDir all entry with
      | none => exact ih
      | some other => rfl

/-- Two worlds that differ in the token's value only: in the environment, or in a file that
    is not the config file. -/
structure TokenTwin (cli : Cli) (files files' : Files) (env env' : Env) : Prop where
  defaultConfig : env'.defaultConfig = env.defaultConfig
  unchanged : ∀ var, var ≠ "NEVE_UPSTREAM_TOKEN" → env'.get var = env.get var
  token : env'.get "NEVE_UPSTREAM_TOKEN" = env.get "NEVE_UPSTREAM_TOKEN" ∨
    ∃ s s', env.get "NEVE_UPSTREAM_TOKEN" = some s ∧
      env'.get "NEVE_UPSTREAM_TOKEN" = some s' ∧ trim s ≠ "" ∧ trim s' ≠ ""
  config : ∀ path, (configPath cli env).1 = some path → files' path = files path
  file : ∀ path, files' path = files path ∨
    ∃ s s', files path = .text s ∧ files' path = .text s' ∧ trim s ≠ "" ∧ trim s' ≠ ""

section Twin

variable {X : Formats} {cli : Cli} {files files' : Files} {env env' : Env}

/-- Whether there is a token does not depend on its value. -/
theorem TokenTwin.resolveToken (h : TokenTwin cli files files' env env')
    (tokenFile : Option String) :
    (resolveToken files' env' tokenFile).map (·.map fun _ => ())
      = (resolveToken files env tokenFile).map (·.map fun _ => ()) := by
  cases tokenFile with
  | some path =>
      simp only [NeveConfig.resolveToken, readTokenFile]
      rcases h.file path with hsame | ⟨s, s', hs, hs', hne, hne'⟩
      · rw [hsame]
      · rw [hs, hs']
        dsimp only
        rw [if_neg hne, if_neg hne']
        rfl
  | none =>
      simp only [NeveConfig.resolveToken]
      rcases h.token with hsame | ⟨s, s', hs, hs', hne, hne'⟩
      · rw [hsame]
        cases env.get "NEVE_UPSTREAM_TOKEN" <;> rfl
      · rw [hs, hs']
        dsimp only
        rw [if_neg hne, if_neg hne']
        rfl

theorem TokenTwin.envSet (h : TokenTwin cli files files' env env') :
    (env'.get "NEVE_UPSTREAM_TOKEN").isSome = (env.get "NEVE_UPSTREAM_TOKEN").isSome := by
  rcases h.token with hsame | ⟨s, s', hs, hs', -, -⟩
  · rw [hsame]
  · rw [hs, hs']
    rfl

def redactedUpstreamPair (x : Upstream × List Notice) : Upstream × List Notice :=
  (x.1.redacted, x.2)

theorem TokenTwin.resolveUpstream (h : TokenTwin cli files files' env env')
    (file : UpstreamFile) (network : Network) (preTokened : Bool) :
    (resolveUpstream X files' env' file network preTokened).map redactedUpstreamPair
      = (resolveUpstream X files env file network preTokened).map redactedUpstreamPair := by
  have hboth : bothTokensNotice env' file.tokenFile = bothTokensNotice env file.tokenFile := by
    simp only [bothTokensNotice, h.envSet]
  simp only [NeveConfig.resolveUpstream, hboth]
  by_cases hbase : trimEndMatches '/' (file.base.getD network.defaultBaseUrl) = ""
  · rw [if_pos hbase, if_pos hbase]
    rfl
  · rw [if_neg hbase, if_neg hbase]
    refine Except.map_bind_congr (h.resolveToken file.tokenFile) ?_
    intro token token' htoken
    have hsome : token'.isSome = token.isSome := by
      rw [← Option.isSome_map (f := fun _ => ()), htoken, Option.isSome_map]
    rw [hsome]
    have hredacted : token'.map (fun _ => (⟨"<redacted>"⟩ : Token))
        = token.map fun _ => ⟨"<redacted>"⟩ := by
      have hmap := congrArg (Option.map fun _ => (⟨"<redacted>"⟩ : Token)) htoken
      simpa only [Option.map_map, Function.comp_def] using hmap
    have hlast : ∀ kind base param path maxRps pacer notices,
        redactedUpstreamPair (⟨kind, base, token', param, path, maxRps, pacer⟩, notices)
          = redactedUpstreamPair
            (⟨kind, base, token, param, path, maxRps, pacer⟩, notices) := by
      intros
      simp only [redactedUpstreamPair, Upstream.redacted, hredacted]
    refine Except.map_bind_congr_right fun cap => ?_
    obtain ⟨maxRps, why⟩ := cap
    cases maxRps with
    | none => exact congrArg Except.ok (hlast _ _ _ _ _ _ _)
    | some rps =>
        dsimp only
        cases pacerInterval rps with
        | none => rfl
        | some interval => exact congrArg Except.ok (hlast _ _ _ _ _ _ _)

theorem TokenTwin.build (h : TokenTwin cli files files' env env') (file : File)
    (enabled : List Chain) (notices : List Notice) :
    (build X cli files' env' file enabled notices).map Resolved.redacted
      = (build X cli files env file enabled notices).map Resolved.redacted := by
  simp only [NeveConfig.build]
  refine Except.map_bind_congr (h.resolveUpstream _ _ _) ?_
  rintro ⟨up, upNotices⟩ ⟨up', upNotices'⟩ hup
  obtain ⟨hredacted, rfl⟩ := Prod.mk.inj hup
  refine Except.map_bind_congr_right fun server => ?_
  by_cases henabled : file.defaultsOr.enabled.isSome = true
  · simp only [henabled, if_true]
    rfl
  · simp only [henabled, Bool.false_eq_true, if_false]
    refine Except.map_bind_congr (resolveChains_redacted hredacted _ _ _) ?_
    rintro ⟨chains, more⟩ ⟨chains', more'⟩ hchains
    obtain ⟨hcfgs, rfl⟩ := Prod.mk.inj hchains
    have hdirs : rejectSharedDirs chains' chains' = rejectSharedDirs chains chains := by
      rw [← rejectSharedDirs_redacted, show redactedCfgs chains' = redactedCfgs chains from hcfgs,
        rejectSharedDirs_redacted]
    rw [hdirs]
    refine Except.map_bind_congr_right fun _ => ?_
    show Except.ok _ = Except.ok _
    simp only [Resolved.redacted, hredacted,
      show redactedCfgs chains' = redactedCfgs chains from hcfgs]

/-- **A resolution gives the same configuration, up to the token's value**, and the same
    error. -/
theorem TokenTwin.resolveWith (h : TokenTwin cli files files' env env') :
    (resolveWith X cli files' env').map Resolved.redacted
      = (resolveWith X cli files env).map Resolved.redacted := by
  have hconfig : env'.get "NEVE_CONFIG" = env.get "NEVE_CONFIG" := h.unchanged _ (by decide)
  have hpath : configPath cli env' = configPath cli env := by
    simp only [configPath, hconfig, h.defaultConfig]
  have hload : loadTree X cli files' env' = loadTree X cli files env := by
    simp only [loadTree, hpath]
    cases hp : configPath cli env with
    | mk path required =>
        cases path with
        | none => rfl
        | some path =>
            have hsame := h.config path (by rw [hp])
            dsimp only
            rw [hsame]
  have hover : envOverrides env' = envOverrides env := by
    simp only [envOverrides, ENV_KEYS, List.filterMap_cons, List.filterMap_nil,
      h.unchanged "NEVE_RPC_URL" (by decide), h.unchanged "NEVE_WS_URL" (by decide),
      h.unchanged "NEVE_P_RPC_URL" (by decide)]
  have hnotices : envNotices env' = envNotices env := by
    simp only [envNotices, ENV_KEYS, List.filterMap_cons, List.filterMap_nil,
      h.unchanged "NEVE_RPC_URL" (by decide), h.unchanged "NEVE_WS_URL" (by decide),
      h.unchanged "NEVE_P_RPC_URL" (by decide)]
  simp only [NeveConfig.resolveWith, hload, hover, hnotices]
  refine Except.map_bind_congr_right fun tree => ?_
  refine Except.map_bind_congr_right fun enabled => ?_
  refine Except.map_bind_congr_right fun _ => ?_
  refine Except.map_bind_congr_right fun tree => ?_
  refine Except.map_bind_congr_right fun pending => ?_
  refine Except.map_bind_congr_right fun tree => ?_
  refine Except.map_bind_congr_right fun tree => ?_
  refine Except.map_bind_congr_right fun tree => ?_
  exact Except.map_bind_congr_right fun file => h.build file enabled _

/-- **The token does not show.**  Two worlds that differ in the token's value only show
    the same: the printed configuration, the `Debug` of its parts and of what the ingest
    tasks are given, and the notices. -/
theorem token_not_shown (h : TokenTwin cli files files' env env') (now : Nat)
    (floors : Chain → Option Nat) :
    (resolveWith X cli files' env').map (shown X now floors)
      = (resolveWith X cli files env).map (shown X now floors) := by
  have hview : ∀ x : Except Error Resolved,
      x.map (shown X now floors) = (x.map Resolved.redacted).map (shown X now floors) := by
    intro x
    cases x with
    | error e => rfl
    | ok r => exact congrArg Except.ok (shown_redacted X now floors r).symm
  calc (resolveWith X cli files' env').map (shown X now floors)
      = ((resolveWith X cli files' env').map Resolved.redacted).map (shown X now floors) :=
        hview _
    _ = ((resolveWith X cli files env).map Resolved.redacted).map (shown X now floors) := by
        rw [h.resolveWith]
    _ = (resolveWith X cli files env).map (shown X now floors) := (hview _).symm

end Twin

/-- An environment with a token. -/
def tokenEnv (token : String) : Env :=
  ⟨fun var => if var = "NEVE_UPSTREAM_TOKEN" then some token else none, none⟩

theorem token_not_shown_two :
    (resolveWith plainFormats Cli.bare (fun _ => .missing) (tokenEnv "hunter2")).map
        (shown plainFormats 0 fun _ => none)
      = (resolveWith plainFormats Cli.bare (fun _ => .missing) (tokenEnv "s3cr3t")).map
        (shown plainFormats 0 fun _ => none) := by
  have htwin : TokenTwin Cli.bare (fun _ => .missing) (fun _ => .missing) (tokenEnv "s3cr3t")
      (tokenEnv "hunter2") := by
    refine ⟨rfl, ?_, ?_, fun _ _ => rfl, fun _ => Or.inl rfl⟩
    · intro var hvar
      simp only [tokenEnv, if_neg hvar]
    · exact Or.inr ⟨"s3cr3t", "hunter2", rfl, rfl, by decide, by decide⟩
  exact token_not_shown htwin 0 fun _ => none

end NeveConfig
