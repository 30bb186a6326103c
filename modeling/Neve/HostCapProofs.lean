import Neve.ConfigLayersProofs

/-! # The default host cap — decided once for every chain

    Without a configured cap and without a token, an avalanchego host is capped at the
    public rate.  Whether a token is in play is read off every URL of the merged
    configuration at once, so one URL that spells the token parameter, on another host
    or of a chain that is not served, lifts the cap from all (`default_cap_iff`). -/

namespace NeveConfig

open TomlTree StrText
open NeveRecord (Chain)

/-- Whether the query of a URL has the parameter. -/
def queryHas (param url : String) : Bool :=
  (splitOnce '?' url).any fun parts =>
    (split '&' parts.2).any fun pair => (split '=' pair).head? = some param

/-- A chain on the upstream host whose URL carries no token. -/
structure UntokenedOnHost (r : Resolved) (cfg : ChainCfg) : Prop where
  host : ((authority cfg.rpcUrl).any fun a =>
    (authority r.upstream.base).any fun b => eqIgnoreAsciiCase a b) = true
  query : queryHas r.upstream.tokenParam cfg.rpcUrl = false

/-- The interval of 25 requests a second. -/
def PUBLIC_INTERVAL : Duration := 40 * 10 ^ 6

theorem pacerInterval_public : pacerInterval PUBLIC_MAX_RPS = some PUBLIC_INTERVAL := by
  decide +kernel

section Cap

variable {X : Formats} {cli : Cli} {files : Files} {env : Env} {r : Resolved}

/-- The pacer of an untokened upstream whose cap is not configured. -/
theorem Resolution.hostPacer_default (res : Resolution X cli files env r)
    (hkind : r.upstream.kind = .Avalanchego) (hmax : res.file.upstreamOr.maxRps = none)
    (htoken : r.upstream.token = none) :
    r.upstream.hostPacer
      = if urlsAlreadyCarryAToken res.file then none else some PUBLIC_INTERVAL := by
  obtain ⟨_, hup⟩ := (build_ok res.built).upstream
  obtain ⟨why, hup⟩ := resolveUpstream_ok hup
  have hcap := hup.cap
  have hpacer := hup.hostPacer
  rw [hmax, hkind, htoken, Option.isSome_none, Bool.false_or] at hcap
  cases hcarry : urlsAlreadyCarryAToken res.file with
  | true =>
      rw [hcarry] at hcap
      have hnone : r.upstream.maxRps = none := (Prod.mk.inj (Except.ok.inj hcap)).1.symm
      rw [hnone] at hpacer
      rw [if_pos rfl]
      cases hhost : r.upstream.hostPacer with
      | none => rfl
      | some interval =>
          rw [hhost] at hpacer
          cases hpacer
  | false =>
      rw [hcarry] at hcap
      have hrps : r.upstream.maxRps = some PUBLIC_MAX_RPS :=
        (Prod.mk.inj (Except.ok.inj hcap)).1.symm
      rw [hrps, Option.map_some, pacerInterval_public] at hpacer
      rw [if_neg (by decide)]
      cases hhost : r.upstream.hostPacer with
      | none =>
          rw [hhost] at hpacer
          cases hpacer
      | some interval =>
          rw [hhost] at hpacer
          exact (Option.some.inj hpacer).symm

/-- A chain on the upstream host has the upstream's pacer. -/
theorem hostPacerFor_on_host {x : Chain} {upstream : Upstream} {rpcUrl : String}
    (h : ((authority rpcUrl).any fun a =>
      (authority upstream.base).any fun b => eqIgnoreAsciiCase a b) = true) :
    (hostPacerFor x upstream rpcUrl).1 = upstream.hostPacer := by
  simp only [hostPacerFor]
  cases upstream.hostPacer with
  | none => rfl
  | some pacer =>
      dsimp only
      rw [if_pos h]

/-- **When the default cap applies.**  With an avalanchego upstream, no configured cap and
    no token, a served chain that reads the upstream host without a token is paced at 25
    requests a second exactly when no URL of the merged configuration spells the token
    parameter. -/
theorem default_cap_iff (res : Resolution X cli files env r)
    (hkind : r.upstream.kind = .Avalanchego) (hmax : res.file.upstreamOr.maxRps = none)
    (htoken : r.upstream.token = none) {entry : Chain × ChainCfg} (hentry : entry ∈ r.chains)
    (hchain : UntokenedOnHost r entry.2) :
    entry.2.hostPacer = some PUBLIC_INTERVAL ↔ urlsAlreadyCarryAToken res.file = false := by
  obtain ⟨_, hchains⟩ := (build_ok res.built).chains
  obtain ⟨_, hcfg⟩ := (resolveChains_ok hchains).2 entry hentry
  obtain ⟨urls, hres⟩ := resolveChain_ok hcfg
  have hurl : entry.2.rpcUrl
      = ((res.file.chain entry.1).rpcUrl.or res.file.defaultsOr.rpcUrl).getD urls.1 := by
    refine (hres.value .rpcUrl).trans ?_
    simp only [finish, Upstream.tokened, htoken]
    rfl
  have hpacer : entry.2.hostPacer = r.upstream.hostPacer := by
    rw [hres.hostPacer, ← hurl, hostPacerFor_on_host hchain.host]
  rw [hpacer, res.hostPacer_default hkind hmax htoken]
  cases urlsAlreadyCarryAToken res.file with
  | true => simp
  | false => simp

end Cap

theorem bare_built :
    build plainFormats Cli.bare (fun _ => .missing) ⟨fun _ => none, none⟩
      ⟨none, none, none, none, none, none⟩ [.C, .P] [] = .ok bareRun.r := by decide +kernel

theorem bare_steps :
    loadTree plainFormats Cli.bare (fun _ => .missing) ⟨fun _ => none, none⟩ = .ok [] ∧
      selectChains Cli.bare [] = .ok [.C, .P] ∧ pendingFlags Cli.bare = .ok [] ∧
      applyAll plainFormats []
        (overrides plainFormats Cli.bare ⟨fun _ => none, none⟩ [.C, .P] []) = .ok [] ∧
      fileOf plainFormats [] = some ⟨none, none, none, none, none, none⟩ :=
  ⟨rfl, rfl, rfl, rfl, rfl⟩

/-- The resolution of a run without arguments. -/
def bareResolution :
    Resolution plainFormats Cli.bare (fun _ => .missing) ⟨fun _ => none, none⟩ bareRun.r where
  tree := []
  enabled := [.C, .P]
  pending := []
  merged := []
  file := ⟨none, none, none, none, none, none⟩
  loaded := bare_steps.1
  selected := bare_steps.2.1
  flags := bare_steps.2.2.1
  merge := bare_steps.2.2.2.1
  reads := bare_steps.2.2.2.2
  built := bare_built

theorem default_cap_iff_bare : (sampleChain .C 0).hostPacer = some PUBLIC_INTERVAL := by
  have hentry : ((.C, sampleChain .C 0) : Chain × ChainCfg) ∈ bareRun.r.chains := by decide
  exact (default_cap_iff bareResolution rfl rfl rfl hentry ⟨by decide, by decide⟩).mpr rfl

/-- The P-chain reads a private node with a token, the C-chain the public host without. -/
def privateNodeCli : Cli :=
  { Cli.bare with pRpcUrl := some "http://node.local:9650/ext/bc/P?token=abc" }

def privateNodePending : Pending :=
  ⟨"--p-rpc-url", ["chains", "p", "rpc_url"],
    .string "http://node.local:9650/ext/bc/P?token=abc"⟩

def privateNodeResolved : Resolved :=
  { sampleResolved 0 [deprecatedNotice privateNodePending,
      .Info ("upstream host request cap: none (an upstream token is in play, and bypassing the " ++
          "limit is what a token is for)")] with
    upstream := ⟨.Avalanchego, "https://api.avax.network", none, "token", none, none, none⟩
    chains := [(.C, { sampleChain .C 0 with hostPacer := none }),
      (.P, { sampleChain .P 0 with
        rpcUrl := "http://node.local:9650/ext/bc/P?token=abc"
        hostPacer := none })] }

def privateNodeResolution : Resolution plainFormats privateNodeCli (fun _ => .missing)
    ⟨fun _ => none, none⟩ privateNodeResolved where
  tree := []
  enabled := [.C, .P]
  pending := [privateNodePending]
  merged := [("chains", .table [("p", .table
    [("rpc_url", .string "http://node.local:9650/ext/bc/P?token=abc")])])]
  file := ⟨none, none, none, none, none, some [(.P, { ChainFile.default with
    rpcUrl := some "http://node.local:9650/ext/bc/P?token=abc" })]⟩
  loaded := rfl
  selected := rfl
  flags := rfl
  merge := rfl
  reads := rfl
  built := by decide +kernel

/-- A token for a private node lifts the cap from the chain on the public host. -/
theorem private_node_lifts_cap :
    ∃ X cli files env r, ∃ res : Resolution X cli files env r,
      r.upstream.kind = .Avalanchego ∧ res.file.upstreamOr.maxRps = none ∧
      r.upstream.token = none ∧
      ∃ entry ∈ r.chains, UntokenedOnHost r entry.2 ∧ entry.2.hostPacer = none := by
  have hentry : (.C, { sampleChain .C 0 with hostPacer := none })
      ∈ privateNodeResolved.chains := by decide
  exact ⟨_, _, _, _, _, privateNodeResolution, rfl, rfl, rfl, _, hentry,
    ⟨by decide, by decide⟩, rfl⟩

end NeveConfig
