import Neve.ConfigPrintProofs

/-! # Configuration layers — which one a value comes from

    The layers above the file are writes into one document.  A scalar key of the schema
    reads there what was written to it last, since an accepted document holds tables
    and scalars where the schema has them (`Leaf.at_merged`); so a per-chain key
    is decided by the highest layer that sets it (`value_of_layers`), whatever else is
    set. -/

namespace NeveConfig

open TomlTree StrText Outcome
open NeveRecord (Chain)

variable {X : Formats}

/-! ## Scalar keys of the schema -/

/-- A path at which an accepted document has no table, and above it nothing else. -/
structure Leaf (X : Formats) (q : List String) : Prop where
  scalar : ∀ t file, fileOf X t = some file → ∀ v, Table.at t q = some v → v.isTable = false
  below : ∀ t file, fileOf X t = some file → ∀ p v, p <+: q → p ≠ q →
    Table.at t p = some v → v.isTable = true

/-- A key that reads holds no table, if tables do not read. -/
theorem not_table_of_optField {α : Type} {t : Table} {key : String} {dec : Value → Option α}
    {x : Option α} (h : optField t key dec = some x) (htable : ∀ s, dec (.table s) = none)
    {v : Value} (hv : Table.get t key = some v) : v.isTable = false := by
  have hsome := (optField_spec h).2 v hv
  cases v with
  | table s =>
      rw [htable] at hsome
      cases hsome
  | _ => rfl

theorem isTable_of_optField {α : Type} {t : Table} {key : String} {dec : Table → Option α}
    {x : Option α} (h : optField t key (asTable dec) = some x) {v : Value}
    (hv : Table.get t key = some v) : v.isTable = true := by
  obtain ⟨a, ha⟩ := Option.isSome_iff_exists.mp ((optField_spec h).2 v hv)
  obtain ⟨s, rfl, -⟩ := asTable_eq_some ha
  rfl

theorem at_singleton (t : Table) (k : String) : Table.at t [k] = Table.get t k := by
  rw [Table.at_cons]
  cases Table.get t k with
  | none => rfl
  | some v => exact Value.at_nil v

/-- The proper starts of a path of two keys. -/
theorem start_of_two {p : List String} {a b : String} (h : p <+: [a, b]) (hne : p ≠ [a, b]) :
    p = [] ∨ p = [a] := by
  match p, h, hne with
  | [], _, _ => exact Or.inl rfl
  | [c], h, _ =>
      rw [List.cons_prefix_cons] at h
      rw [h.1]
      exact Or.inr rfl
  | c :: d :: rest, h, hne =>
      rw [List.cons_prefix_cons, List.cons_prefix_cons] at h
      obtain ⟨rfl, rfl, hrest⟩ := h
      rw [List.prefix_nil.mp hrest] at hne
      exact absurd rfl hne

/-- A key of a table that stands at the top of the document. -/
theorem leaf_of_section {α β : Type} {name key : String} {decode : Table → Option α}
    {dec : Value → Option β}
    (hname : ∀ t file, fileOf X t = some file →
      ∃ x, optField t name (asTable decode) = some x)
    (hkey : ∀ sub a, decode sub = some a → ∃ b, optField sub key dec = some b)
    (htable : ∀ s, dec (.table s) = none) : Leaf X [name, key] where
  scalar := by
    intro t file hfile v hv
    obtain ⟨x, hx⟩ := hname t file hfile
    rcases at_below_of_optField hx with ⟨-, hat⟩ | ⟨sub, a, -, hsub, hat⟩
    · rw [hat] at hv
      cases hv
    · rw [hat, at_singleton] at hv
      obtain ⟨b, hb⟩ := hkey sub a hsub
      exact not_table_of_optField hb htable hv
  below := by
    intro t file hfile p v hp hne hv
    obtain ⟨x, hx⟩ := hname t file hfile
    rcases start_of_two hp hne with rfl | rfl
    · rw [← Option.some.inj hv]
      rfl
    · rw [at_singleton] at hv
      exact isTable_of_optField hx hv

theorem leaf_default {β : Type} {key : String} {dec : Value → Option β}
    (hkey : ∀ sub a, chainFile X sub = some a → ∃ b, optField sub key dec = some b)
    (htable : ∀ s, dec (.table s) = none) : Leaf X ["defaults", key] :=
  leaf_of_section (fun _ _ hfile => ⟨_, (fileOf_reads hfile).defaults⟩) hkey htable

/-- A key of a chain's table. -/
theorem leaf_chain {β : Type} {x : Chain} {key : String} {dec : Value → Option β}
    (hkey : ∀ sub a, chainFile X sub = some a → ∃ b, optField sub key dec = some b)
    (htable : ∀ s, dec (.table s) = none) : Leaf X ["chains", x.asStr, key] where
  scalar := by
    intro t file hfile v hv
    rcases at_below_of_optField (fileOf_reads hfile).chains with
      ⟨-, hat⟩ | ⟨sub, files, -, hfiles, hat⟩
    · rw [hat] at hv
      cases hv
    · rw [hat] at hv
      rcases at_below_of_optField (chainFiles_field hfiles x) with
        ⟨-, hat'⟩ | ⟨inner, f, -, hf, hat'⟩
      · rw [hat'] at hv
        cases hv
      · rw [hat', at_singleton] at hv
        obtain ⟨b, hb⟩ := hkey inner f hf
        exact not_table_of_optField hb htable hv
  below := by
    intro t file hfile p v hp hne hv
    have hchains := (fileOf_reads hfile).chains
    cases p with
    | nil =>
        rw [← Option.some.inj hv]
        rfl
    | cons c p =>
        rw [List.cons_prefix_cons] at hp
        obtain ⟨rfl, hp⟩ := hp
        have hne' : p ≠ [x.asStr, key] := by
          rintro rfl
          exact hne rfl
        rcases start_of_two hp hne' with rfl | rfl
        · rw [at_singleton] at hv
          exact isTable_of_optField hchains hv
        · rcases at_below_of_optField hchains with ⟨-, hat⟩ | ⟨sub, files, -, hfiles, hat⟩
          · rw [hat] at hv
            cases hv
          · rw [hat, at_singleton] at hv
            exact isTable_of_optField (chainFiles_field hfiles x) hv

theorem leaf_chain_key (x : Chain) (k : Key) : Leaf X ["chains", x.asStr, k.name] :=
  leaf_chain (fun _ _ h => ⟨_, (chainFile_field h).2.2 k⟩) (k.decode_table X)

theorem leaf_chain_dataDir (x : Chain) : Leaf X ["chains", x.asStr, "data_dir"] :=
  leaf_chain (fun _ _ h => ⟨_, (chainFile_field h).2.1⟩) fun _ => rfl

theorem leaf_default_key (k : Key) : Leaf X ["defaults", k.name] :=
  leaf_default (fun _ _ h => ⟨_, (chainFile_field h).2.2 k⟩) (k.decode_table X)

theorem leaf_default_dataDir : Leaf X ["defaults", "data_dir"] :=
  leaf_default (fun _ _ h => ⟨_, (chainFile_field h).2.1⟩) fun _ => rfl

/-- The document that was loaded reads. -/
theorem loadTree_ok {cli : Cli} {files : Files} {env : Env} {tree : Table}
    (h : loadTree X cli files env = .ok tree) :
    ∃ file, fileOf X tree = some file := by
  have hempty : ∃ file, fileOf X [] = some file :=
    ⟨⟨none, none, none, none, none, none⟩, rfl⟩
  simp only [loadTree] at h
  cases hpath : configPath cli env with
  | mk path required =>
      rw [hpath] at h
      -- no path, or a path not asked for that is not there, reads as the empty file
      cases path with
      | none =>
          rw [← Except.ok.inj h]
          exact hempty
      | some path =>
          dsimp only at h
          cases hfile : files path with
          | missing =>
              rw [hfile] at h
              cases required with
              | true => cases h
              | false =>
                  rw [← Except.ok.inj h]
                  exact hempty
          | unreadable =>
              rw [hfile] at h
              cases h
          | text text =>
              rw [hfile] at h
              dsimp only at h
              cases htoml : X.fromStr text with
              | none =>
                  rw [htoml] at h
                  cases h
              | some t =>
                  rw [htoml] at h
                  dsimp only at h
                  -- the text parses, and its tables are the file's
                  cases hread : fileOf X t with
                  | none =>
                      rw [hread] at h
                      cases h
                  | some file =>
                      rw [hread] at h
                      rw [← Except.ok.inj h]
                      exact ⟨file, hread⟩

/-! ## The merged document -/

/-- Accepted scalar overrides are beside a scalar key, or at it. -/
theorem Leaf.beside {q : List String} (hq : Leaf X q) {os : List Override}
    (hreads : ∀ o ∈ os, ∃ before after file, setPath before o.path o.value = .ok after ∧
      fileOf X after = some file)
    (hscalar : ∀ o ∈ os, o.value.isTable = false) : Beside q (writes os) := by
  intro w hw hcross
  obtain ⟨o, ho, rfl⟩ := List.mem_map.mp hw
  obtain ⟨before, after, file, hset, hfile⟩ := hreads o ho
  by_contra hne
  rcases hcross with habove | hbelow
  · have htable := hq.below after file hfile _ _ habove hne (at_setPath_self hset)
    rw [hscalar o ho] at htable
    cases htable
  · obtain ⟨sub, hsub⟩ := at_setPath_start hset hbelow (Ne.symm hne)
    have hnot := hq.scalar after file hfile _ hsub
    cases hnot

/-- **The last write wins**, at every scalar key of the schema. -/
theorem Leaf.at_merged {q : List String} (hq : Leaf X q) {os : List Override}
    {tree merged : Table} (hmerge : applyAll X tree os = .ok merged)
    (hscalar : ∀ o ∈ os, o.value.isTable = false) :
    Table.at merged q = (lastAt (writes os) q).or (Table.at tree q) := by
  obtain ⟨hfold, hreads⟩ := applyAll_ok hmerge
  exact at_foldPaths hfold (hq.beside hreads hscalar)

theorem writes_append (os os' : List Override) : writes (os ++ os') = writes os ++ writes os' :=
  List.map_append

/-! ## What each layer says -/

/-- The last `--set` of a path. -/
def lastSet (X : Formats) (q : List String) : List String → Option Value
  | [] => none
  | arg :: rest =>
      (lastSet X q rest).or ((splitOnce '=' arg).bind fun (key, raw) =>
        if split '.' key = q then some (parseScalar X raw) else none)

/-- The visible flags, which name no chain. -/
def visibleFlag (cli : Cli) : Key → Option Value
  | .ingestLogs => if cli.ingestLogs then some (.boolean true) else none
  | _ => none

/-- The deprecated flags that name no chain. -/
def starFlag (cli : Cli) : Key → Option Value
  | .maxWait => cli.maxWait.map .string
  | .wsIdleTimeout => cli.wsIdleTimeout.map .string
  | .prefetchDelayCap => cli.prefetchDelayCap.map .string
  | .summaryPeriod => cli.summaryPeriod.map .string
  | .joinBufferCap => cli.joinBufferCap.map fun n => .integer (Int64.ofNat n)
  | _ => none

/-- The deprecated flags of one chain. -/
def chainFlag (cli : Cli) : Chain → Key → Option Value
  | .C, .rpcUrl => cli.rpcUrl.map .string
  | .C, .wsUrl => cli.wsUrl.map .string
  | .C, .requestInterval => cli.requestInterval.map .string
  | .C, .backfillFloor => cli.backfillFloor.map fun n => .integer (Int64.ofNat n)
  | .P, .rpcUrl => cli.pRpcUrl.map .string
  | .P, .pollInterval => cli.pPollInterval.map .string
  | .P, .requestInterval => cli.pRequestInterval.map .string
  | .P, .concurrency => cli.pConcurrency.map fun n => .integer (Int64.ofNat n)
  | .P, .backfillFloor => cli.pBackfillFloor.map fun n => .integer (Int64.ofNat n)
  | _, _ => none

/-- The environment variables. -/
def envValue (env : Env) : Chain → Key → Option Value
  | .C, .rpcUrl => (env.get "NEVE_RPC_URL").map .string
  | .C, .wsUrl => (env.get "NEVE_WS_URL").map .string
  | .P, .rpcUrl => (env.get "NEVE_P_RPC_URL").map .string
  | _, _ => none

theorem lastAt_setOverrides (q : List String) (args : List String) :
    lastAt (writes (setOverrides X args)) q = lastSet X q args := by
  induction args with
  | nil => rfl
  | cons arg rest ih =>
      rw [setOverrides, lastSet]
      cases hsplit : splitOnce '=' arg with
      | none =>
          have ho : setOverride X arg = none := by rw [setOverride, hsplit]; rfl
          rw [List.filterMap_cons_none ho, Option.bind_none, Option.or_none]
          exact ih
      | some pair =>
          obtain ⟨key, raw⟩ := pair
          have ho : setOverride X arg
              = some ⟨split '.' key, parseScalar X raw, s!"`--set {key}={raw}`"⟩ := by
            rw [setOverride, hsplit]
            rfl
          rw [List.filterMap_cons_some ho, writes, List.map_cons, lastAt_cons]
          exact congrArg (Option.or · _) ih

/-- At most one override. -/
theorem lastAt_optional {α : Type} (v : Option α) (key : List String) (value : α → Value)
    (origin : String) (q : List String) :
    lastAt (writes (v.map fun a => ⟨key, value a, origin⟩).toList) q
      = if key = q then v.map value else none := by
  cases v with
  | none =>
      rw [Option.map_none, Option.map_none, ite_self]
      rfl
  | some a =>
      rw [Option.map_some, Option.toList_some, writes, List.map_cons, lastAt_cons]
      rfl

theorem lastAt_envOverrides (env : Env) (x : Chain) (k : Key) :
    lastAt (writes (envOverrides env)) ["chains", x.asStr, k.name] = envValue env x k := by
  simp only [envOverrides, ENV_KEYS, List.filterMap_eq_flatMap_toList, List.flatMap_cons,
    List.flatMap_nil, writes_append, lastAt_append, lastAt_optional]
  cases x <;> cases k <;> simp [Chain.asStr, Key.name, envValue, writes]

/-- Whether an override with this key is one of a chain's key. -/
def Aims (enabled : List Chain) (key : List String) (x : Chain) (name : String) : Prop :=
  key = ["chains", x.asStr, name] ∨ (key = ["chains", "*", name] ∧ x ∈ enabled)

instance (enabled : List Chain) (key : List String) (x : Chain) (name : String) :
    Decidable (Aims enabled key x name) :=
  inferInstanceAs (Decidable (_ ∨ _))

theorem asStr_ne_star (x : Chain) : x.asStr ≠ "*" := by
  cases x <;> decide

/-- A value written to every chain of a list. -/
theorem lastAt_chains (enabled : List Chain) (name : String) (v : Value) (origin : String)
    (x : Chain) (name' : String) :
    lastAt (writes (enabled.map fun chain => ⟨["chains", chain.asStr, name], v, origin⟩))
        ["chains", x.asStr, name']
      = if name = name' ∧ x ∈ enabled then some v else none := by
  induction enabled with
  | nil => simp [writes]
  | cons c rest ih =>
      rw [List.map_cons, writes, List.map_cons, lastAt_cons]
      rw [writes] at ih
      rw [ih]
      by_cases hname : name = name'
      · subst hname
        by_cases hx : x = c
        · subst hx
          by_cases hrest : x ∈ rest <;> simp [hrest]
        · have hne : c.asStr ≠ x.asStr := fun h => hx (Chain.asStr_inj h).symm
          simp [hne, hx]
      · simp [hname]

theorem fanOut_star {enabled : List Chain} {o : Override} {name : String}
    (h : o.path = ["chains", "*", name]) :
    fanOut enabled o
      = enabled.map fun chain => { o with path := ["chains", chain.asStr, name] } := by
  obtain ⟨path, value, origin⟩ := o
  obtain rfl : path = ["chains", "*", name] := h
  rfl

theorem fanOut_plain {enabled : List Chain} {o : Override}
    (h : ∀ name, o.path ≠ ["chains", "*", name]) : fanOut enabled o = [o] := by
  simp only [fanOut]

/-- What an override says of a chain's key, once it is fanned out. -/
theorem lastAt_fanOut (enabled : List Chain) (o : Override) (x : Chain) (name : String) :
    lastAt (writes (fanOut enabled o)) ["chains", x.asStr, name]
      = if Aims enabled o.path x name then some o.value else none := by
  obtain ⟨path, value, origin⟩ := o
  by_cases hstar : ∃ name', path = ["chains", "*", name']
  · obtain ⟨name', rfl⟩ := hstar
    have haims : Aims enabled ["chains", "*", name'] x name ↔ name' = name ∧ x ∈ enabled := by
      simp [Aims, (asStr_ne_star x).symm]
    rw [fanOut_star rfl, lastAt_chains]
    exact if_congr haims.symm rfl rfl
  · have haims : Aims enabled path x name ↔ path = ["chains", x.asStr, name] := by
      constructor
      · rintro (h | ⟨h, -⟩)
        · exact h
        · exact absurd ⟨name, h⟩ hstar
      · exact Or.inl
    rw [fanOut_plain fun name' h => hstar ⟨name', h⟩, writes, List.map_singleton, lastAt_cons,
      lastAt_nil, Option.none_or]
    exact if_congr haims.symm rfl rfl

theorem deprecatedOverrides_append (enabled : List Chain) (ps ps' : List Pending) :
    deprecatedOverrides enabled (ps ++ ps')
      = deprecatedOverrides enabled ps ++ deprecatedOverrides enabled ps' :=
  List.flatMap_append

/-- At most one flag. -/
theorem lastAt_optionalFlag {α : Type} (enabled : List Chain) (v : Option α) (flag : String)
    (key : List String) (value : α → Value) (x : Chain) (name : String) :
    lastAt (writes (deprecatedOverrides enabled (v.map fun a => ⟨flag, key, value a⟩).toList))
        ["chains", x.asStr, name]
      = if Aims enabled key x name then v.map value else none := by
  cases v with
  | none =>
      rw [Option.map_none, Option.map_none, ite_self]
      rfl
  | some a =>
      have hone : deprecatedOverrides enabled
          ((some a).map fun a => (⟨flag, key, value a⟩ : Pending)).toList
          = fanOut enabled ⟨key, value a, s!"flag `{flag}`"⟩ := by
        rw [Option.map_some, Option.toList_some, deprecatedOverrides, List.flatMap_cons,
          List.flatMap_nil, List.append_nil]
      rw [hone, lastAt_fanOut]
      rfl

theorem lastAt_textFlag (enabled : List Chain) (flag : String) (key : List String)
    (v : Option String) (x : Chain) (name : String) :
    lastAt (writes (deprecatedOverrides enabled (textFlag flag key v))) ["chains", x.asStr, name]
      = if Aims enabled key x name then v.map .string else none :=
  lastAt_optionalFlag enabled v flag key .string x name

/-- An accepted integer flag, as a list of at most one. -/
theorem intFlag_ok {flag : String} {key : List String} {v : Option Nat} {ps : List Pending}
    (h : intFlag flag key v = .ok ps) :
    ps = (v.map fun n => ⟨flag, key, .integer (Int64.ofNat n)⟩).toList := by
  cases v with
  | none => exact (Except.ok.inj h).symm
  | some n =>
      simp only [intFlag] at h
      by_cases hn : n < 2 ^ 63
      · rw [if_pos hn] at h
        exact (Except.ok.inj h).symm
      · rw [if_neg hn] at h
        cases h

/-- An integer-valued flag, once it was read. -/
def integerFlag (flag : String) (key : List String) (v : Option Nat) : List Pending :=
  (v.map fun n => ⟨flag, key, .integer (Int64.ofNat n)⟩).toList

/-- **The spec of the deprecated flags**: at most one entry for each, in this order. -/
theorem pendingFlags_ok {cli : Cli} {pending : List Pending}
    (h : pendingFlags cli = .ok pending) :
    pending = textFlag "--ws-url" ["chains", "c", "ws_url"] cli.wsUrl
      ++ textFlag "--rpc-url" ["chains", "c", "rpc_url"] cli.rpcUrl
      ++ textFlag "--p-rpc-url" ["chains", "p", "rpc_url"] cli.pRpcUrl
      ++ textFlag "--p-poll-interval" ["chains", "p", "poll_interval"] cli.pPollInterval
      ++ textFlag "--request-interval" ["chains", "c", "request_interval"] cli.requestInterval
      ++ textFlag "--p-request-interval" ["chains", "p", "request_interval"]
          cli.pRequestInterval
      ++ textFlag "--max-wait" ["chains", "*", "max_wait"] cli.maxWait
      ++ textFlag "--ws-idle-timeout" ["chains", "*", "ws_idle_timeout"] cli.wsIdleTimeout
      ++ textFlag "--prefetch-delay-cap" ["chains", "*", "prefetch_delay_cap"]
          cli.prefetchDelayCap
      ++ textFlag "--idle-timeout" ["server", "idle_timeout"] cli.idleTimeout
      ++ textFlag "--summary-period" ["chains", "*", "summary_period"] cli.summaryPeriod
      ++ textFlag "--p-data-dir" ["chains", "p", "data_dir"] cli.pDataDir
      ++ integerFlag "--p-concurrency" ["chains", "p", "concurrency"] cli.pConcurrency
      ++ integerFlag "--join-buffer-cap" ["chains", "*", "join_buffer_cap"] cli.joinBufferCap
      ++ integerFlag "--backfill-floor" ["chains", "c", "backfill_floor"] cli.backfillFloor
      ++ integerFlag "--p-backfill-floor" ["chains", "p", "backfill_floor"] cli.pBackfillFloor
      ++ integerFlag "--max-connections" ["server", "max_connections"] cli.maxConnections
      ++ integerFlag "--max-blocks-per-request" ["server", "max_blocks_per_request"]
          cli.maxBlocksPerRequest := by
  obtain ⟨_, hconcurrency, h⟩ := bind_eq_ok h
  obtain ⟨_, hcap, h⟩ := bind_eq_ok h
  obtain ⟨_, hfloor, h⟩ := bind_eq_ok h
  obtain ⟨_, hpFloor, h⟩ := bind_eq_ok h
  obtain ⟨_, hconnections, h⟩ := bind_eq_ok h
  obtain ⟨_, hblocks, h⟩ := bind_eq_ok h
  rw [← Except.ok.inj h, intFlag_ok hconcurrency, intFlag_ok hcap, intFlag_ok hfloor,
    intFlag_ok hpFloor, intFlag_ok hconnections, intFlag_ok hblocks]
  rfl

/-- **The deprecated flags.** -/
theorem lastAt_deprecated {cli : Cli} {enabled : List Chain} {pending : List Pending}
    (h : pendingFlags cli = .ok pending) (x : Chain) (k : Key) :
    lastAt (writes (deprecatedOverrides enabled pending)) ["chains", x.asStr, k.name]
      = (if x ∈ enabled then starFlag cli k else none).or (chainFlag cli x k) := by
  rw [pendingFlags_ok h]
  simp only [deprecatedOverrides_append, writes_append, lastAt_append, lastAt_textFlag,
    integerFlag, lastAt_optionalFlag]
  cases x <;> cases k <;> simp [Chain.asStr, Key.name, Aims, starFlag, chainFlag]

/-- **The visible flags.** -/
theorem lastAt_flagOverrides (cli : Cli) (enabled : List Chain) (x : Chain) (k : Key) :
    lastAt (writes (flagOverrides X cli enabled)) ["chains", x.asStr, k.name]
      = if x ∈ enabled then visibleFlag cli k else none := by
  have hmirror : ∀ base : String, lastAt (writes
      [⟨["upstream", "kind"], .string UpstreamKind.Neve.asStr, "flag `--mirror-from`"⟩,
        ⟨["upstream", "base"], .string base, "flag `--mirror-from`"⟩])
      ["chains", x.asStr, k.name] = none := by
    intro base
    simp [writes, lastAt_cons]
  have haims : Aims enabled ["chains", "*", "ingest_logs"] x k.name
      ↔ k = .ingestLogs ∧ x ∈ enabled := by
    simp only [Aims, List.cons.injEq, (asStr_ne_star x).symm, true_and, and_true, false_and,
      false_or]
    exact and_congr_left' ⟨fun h => Key.name_inj h.symm, fun h => by rw [h]; rfl⟩
  have hlogs : lastAt (writes (if cli.ingestLogs then
        fanOut enabled ⟨["chains", "*", "ingest_logs"], .boolean true, "flag `--ingest-logs`"⟩
      else [])) ["chains", x.asStr, k.name]
      = if x ∈ enabled then visibleFlag cli k else none := by
    cases hon : cli.ingestLogs with
    | false =>
        have hnone : visibleFlag cli k = none := by
          cases k <;> simp [visibleFlag, hon]
        rw [hnone, ite_self]
        rfl
    | true =>
        rw [if_pos rfl, lastAt_fanOut, if_congr haims rfl rfl]
        by_cases hk : k = .ingestLogs
        · simp [hk, visibleFlag, hon]
        · have hnone : visibleFlag cli k = none := by
            cases k <;> first | rfl | exact absurd rfl hk
          rw [if_neg fun h => hk h.1, hnone, ite_self]
  have hother : ∀ path : List String, path.length ≠ 3 →
      path ≠ ["chains", x.asStr, k.name] := by
    rintro path hlength rfl
    exact hlength rfl
  simp only [flagOverrides, writes_append, lastAt_append, lastAt_optional, hlogs,
    if_neg (hother ["network"] (by decide)), if_neg (hother ["log_level"] (by decide)),
    if_neg (hother ["defaults", "data_dir"] (by decide)),
    if_neg (hother ["server", "addr"] (by decide)), Option.or_none]
  cases cli.mirrorFrom with
  | none => rfl
  | some base => rw [hmirror, Option.none_or]

/-! ## Scalar overrides -/

theorem fanOut_value {enabled : List Chain} {o o' : Override} (h : o' ∈ fanOut enabled o) :
    o'.value = o.value := by
  simp only [fanOut] at h
  split at h
  · obtain ⟨c, -, rfl⟩ := List.mem_map.mp h
    rfl
  · rw [List.mem_singleton.mp h]

theorem forall_mem_optional {α β : Type} {v : Option α} {f : α → β} {P : β → Prop}
    (h : ∀ a, P (f a)) : ∀ b ∈ (v.map f).toList, P b := by
  intro b hb
  cases v with
  | none => cases hb
  | some a =>
      rw [Option.map_some, Option.toList_some, List.mem_singleton] at hb
      rw [hb]
      exact h a

theorem pendingFlags_scalar {cli : Cli} {pending : List Pending}
    (h : pendingFlags cli = .ok pending) : ∀ p ∈ pending, p.value.isTable = false := by
  rw [pendingFlags_ok h]
  simp only [List.forall_mem_append, textFlag, integerFlag]
  repeat' constructor
  all_goals exact forall_mem_optional fun _ => rfl

theorem flagOverrides_scalar (cli : Cli) (enabled : List Chain) :
    ∀ o ∈ flagOverrides X cli enabled, o.value.isTable = false := by
  simp only [flagOverrides, List.forall_mem_append]
  refine ⟨⟨⟨⟨⟨?_, ?_⟩, ?_⟩, ?_⟩, ?_⟩, ?_⟩
  · exact forall_mem_optional fun _ => rfl
  · exact forall_mem_optional fun _ => rfl
  · exact forall_mem_optional fun _ => rfl
  · exact forall_mem_optional fun _ => rfl
  · cases cli.ingestLogs with
    | false =>
        intro o ho
        cases ho
    | true =>
        intro o ho
        rw [if_pos rfl] at ho
        rw [fanOut_value ho]
        rfl
  · cases cli.mirrorFrom with
    | none =>
        intro o ho
        cases ho
    | some base =>
        intro o ho
        rcases List.mem_pair.mp ho with rfl | rfl
        · rfl
        · rfl

/-- Only a `--set` can write a table. -/
theorem overrides_scalar {cli : Cli} {env : Env} {enabled : List Chain} {pending : List Pending}
    (hpending : pendingFlags cli = .ok pending)
    (hsets : ∀ o ∈ setOverrides X cli.set, o.value.isTable = false) :
    ∀ o ∈ overrides X cli env enabled pending, o.value.isTable = false := by
  simp only [overrides, List.forall_mem_append]
  refine ⟨⟨⟨?_, ?_⟩, flagOverrides_scalar cli enabled⟩, hsets⟩
  · intro o ho
    obtain ⟨⟨var, key⟩, -, hvar⟩ := List.mem_filterMap.mp ho
    obtain ⟨value, -, rfl⟩ := Option.map_eq_some_iff.mp hvar
    rfl
  · intro o ho
    obtain ⟨p, hp, ho⟩ := List.mem_flatMap.mp ho
    rw [fanOut_value ho]
    exact pendingFlags_scalar hpending p hp

/-! ## The highest layer -/

/-- The first layer that says something. -/
def highest : List (Option Value) → Option Value
  | [] => none
  | layer :: rest => layer.or (highest rest)

theorem highest_append (ls ls' : List (Option Value)) :
    highest (ls ++ ls') = (highest ls).or (highest ls') := by
  induction ls with
  | nil => rfl
  | cons l ls ih => rw [List.cons_append, highest, highest, ih, Option.or_assoc]

/-- What is said of one chain's key, the highest layer first: `--set`, the visible flags,
    the deprecated flags, the environment, and the chain's table in the file.  A flag
    that names no chain says it of every chain served. -/
def chainLayers (X : Formats) (cli : Cli) (env : Env) (tree : Table) (served : List Chain)
    (x : Chain) (k : Key) : List (Option Value) :=
  [lastSet X ["chains", x.asStr, k.name] cli.set,
    if x ∈ served then visibleFlag cli k else none,
    if x ∈ served then starFlag cli k else none,
    chainFlag cli x k,
    envValue env x k,
    Table.at tree ["chains", x.asStr, k.name]]

/-- What `[defaults]` says of a key: a `--set` writes into that table, over the file. -/
def defaultLayers (X : Formats) (cli : Cli) (tree : Table) (k : Key) : List (Option Value) :=
  [lastSet X ["defaults", k.name] cli.set, Table.at tree ["defaults", k.name]]

def layers (X : Formats) (cli : Cli) (env : Env) (tree : Table) (served : List Chain)
    (x : Chain) (k : Key) : List (Option Value) :=
  chainLayers X cli env tree served x k ++ defaultLayers X cli tree k

theorem fanOut_path {enabled : List Chain} {o o' : Override} (h : o' ∈ fanOut enabled o) :
    o'.path = o.path ∨ ∃ x : Chain, ∃ name, o.path = ["chains", "*", name] ∧
      o'.path = ["chains", x.asStr, name] := by
  simp only [fanOut] at h
  split at h
  · next name hpath =>
      obtain ⟨x, -, rfl⟩ := List.mem_map.mp h
      exact Or.inr ⟨x, name, hpath, rfl⟩
  · rw [List.mem_singleton.mp h]
    exact Or.inl rfl

/-- Every deprecated flag names a chain's key or one of `[server]`. -/
theorem pendingFlags_key {cli : Cli} {pending : List Pending}
    (h : pendingFlags cli = .ok pending) :
    ∀ p ∈ pending, p.key.head? = some "chains" ∨ p.key.head? = some "server" := by
  rw [pendingFlags_ok h]
  simp only [List.forall_mem_append, textFlag, integerFlag]
  repeat' constructor
  all_goals exact forall_mem_optional fun _ => by first | exact Or.inl rfl | exact Or.inr rfl

/-- No override but a `--set` writes a key of `[defaults]`. -/
theorem lastAt_default_key {cli : Cli} {env : Env} {enabled : List Chain}
    {pending : List Pending} (h : pendingFlags cli = .ok pending) (k : Key) :
    lastAt (writes (overrides X cli env enabled pending)) ["defaults", k.name]
      = lastSet X ["defaults", k.name] cli.set := by
  have henv : lastAt (writes (envOverrides env)) ["defaults", k.name] = none := by
    simp only [envOverrides, ENV_KEYS, List.filterMap_eq_flatMap_toList, List.flatMap_cons,
      List.flatMap_nil, writes_append, lastAt_append, lastAt_optional]
    simp [writes]
  have hdeprecated : lastAt (writes (deprecatedOverrides enabled pending)) ["defaults", k.name]
      = none := by
    refine lastAt_eq_none ?_
    intro w hw heq
    obtain ⟨o, ho, rfl⟩ := List.mem_map.mp hw
    obtain ⟨p, hp, ho⟩ := List.mem_flatMap.mp ho
    dsimp only at heq
    rcases fanOut_path ho with hpath | ⟨x, name, -, hpath⟩
    · have hkey := pendingFlags_key h p hp
      rw [show p.key = ["defaults", k.name] from hpath.symm.trans heq] at hkey
      rcases hkey with hkey | hkey
      · exact absurd (Option.some.inj hkey) (by decide)
      · exact absurd (Option.some.inj hkey) (by decide)
    · rw [heq] at hpath
      exact absurd (List.cons.inj hpath).1 (by decide)
  have hlogs : lastAt (writes (if cli.ingestLogs then
        fanOut enabled ⟨["chains", "*", "ingest_logs"], .boolean true, "flag `--ingest-logs`"⟩
      else [])) ["defaults", k.name] = none := by
    refine lastAt_eq_none ?_
    intro w hw heq
    obtain ⟨o, ho, rfl⟩ := List.mem_map.mp hw
    dsimp only at heq
    by_cases hon : cli.ingestLogs = true
    · rw [if_pos hon] at ho
      rcases fanOut_path ho with hpath | ⟨x, name, -, hpath⟩
      · rw [heq] at hpath
        exact absurd (List.cons.inj hpath).1 (by decide)
      · rw [heq] at hpath
        exact absurd (List.cons.inj hpath).1 (by decide)
    · rw [if_neg hon] at ho
      cases ho
  have hdir : ["defaults", "data_dir"] ≠ ["defaults", k.name] := by
    cases k <;> decide
  have hflags : lastAt (writes (flagOverrides X cli enabled)) ["defaults", k.name] = none := by
    simp only [flagOverrides, writes_append, lastAt_append, lastAt_optional, hlogs, if_neg hdir]
    cases cli.mirrorFrom <;> simp [writes, lastAt_cons]
  rw [overrides, writes_append, writes_append, writes_append, lastAt_append, lastAt_append,
    lastAt_append, henv, hdeprecated, hflags, lastAt_setOverrides]
  simp only [Option.or_none]

section Run

variable {cli : Cli} {files : Files} {env : Env} {r : Resolved}

/-- Every override of a run is a scalar. -/
theorem Resolution.scalars (res : Resolution X cli files env r)
    (hsets : ∀ o ∈ setOverrides X cli.set, o.value.isTable = false) :
    ∀ o ∈ overrides X cli env res.enabled res.pending, o.value.isTable = false :=
  overrides_scalar res.flags hsets

/-- **The merged document at a chain's key** holds what the highest layer says. -/
theorem Resolution.merged_chain_key (res : Resolution X cli files env r)
    (hsets : ∀ o ∈ setOverrides X cli.set, o.value.isTable = false) (x : Chain) (k : Key) :
    Table.at res.merged ["chains", x.asStr, k.name]
      = highest (chainLayers X cli env res.tree res.enabled x k) := by
  rw [(leaf_chain_key x k).at_merged res.merge (res.scalars hsets)]
  simp only [overrides, writes_append, lastAt_append, lastAt_setOverrides, lastAt_flagOverrides,
    lastAt_deprecated res.flags, lastAt_envOverrides, chainLayers, highest, Option.or_none,
    Option.or_assoc]

theorem Resolution.merged_default_key (res : Resolution X cli files env r)
    (hsets : ∀ o ∈ setOverrides X cli.set, o.value.isTable = false) (k : Key) :
    Table.at res.merged ["defaults", k.name] = highest (defaultLayers X cli res.tree k) := by
  rw [(leaf_default_key k).at_merged res.merge (res.scalars hsets), lastAt_default_key res.flags]
  simp only [defaultLayers, highest, Option.or_none]

/-- What an accepted document holds at a chain's key reads. -/
theorem leaf_decodes {t : Table} {file : File} (h : fileOf X t = some file) (x : Chain) (k : Key)
    {v : Value} (hv : Table.at t ["chains", x.asStr, k.name] = some v) :
    ∃ a, k.decode X v = some a := by
  rcases at_below_of_optField (fileOf_reads h).chains with ⟨-, hat⟩ |
    ⟨sub, files, -, hfiles, hat⟩
  · rw [hat] at hv
    cases hv
  · rw [hat] at hv
    rcases at_below_of_optField (chainFiles_field hfiles x) with
      ⟨-, hat'⟩ | ⟨inner, f, -, hf, hat'⟩
    · rw [hat'] at hv
      cases hv
    · rw [hat', at_singleton] at hv
      exact Option.isSome_iff_exists.mp (chainFile_valid hf k hv)

theorem default_decodes {t : Table} {file : File} (h : fileOf X t = some file) (k : Key)
    {v : Value} (hv : Table.at t ["defaults", k.name] = some v) :
    ∃ a, k.decode X v = some a := by
  rcases at_below_of_optField (fileOf_reads h).defaults with ⟨-, hat⟩ | ⟨sub, f, -, hf, hat⟩
  · rw [hat] at hv
    cases hv
  · rw [hat, at_singleton] at hv
    exact Option.isSome_iff_exists.mp (chainFile_valid hf k hv)

/-- What the two tables of a document say of a key is what the higher of them says. -/
theorem merged_get {t : Table} {file : File} (h : fileOf X t = some file) (x : Chain) (k : Key) :
    ((file.chain x).get k).or (file.defaultsOr.get k)
      = ((Table.at t ["chains", x.asStr, k.name]).or
          (Table.at t ["defaults", k.name])).bind (k.decode X) := by
  have hreads := fileOf_reads h
  rw [hreads.chain_get x k, hreads.defaults_get k]
  cases hv : Table.at t ["chains", x.asStr, k.name] with
  | none => rfl
  | some v =>
      -- the chain's own value reads, so it is not passed over
      obtain ⟨a, ha⟩ := (leaf_decodes h x k hv)
      rw [Option.some_or, Option.bind_some, ha]
      rfl

/-- The chains of a run are the ones that were selected. -/
theorem Resolution.chains_eq (res : Resolution X cli files env r) :
    r.chains.map Prod.fst = res.enabled := by
  obtain ⟨_, hchains⟩ := (build_ok res.built).chains
  exact (resolveChains_ok hchains).1

/-- **Precedence.**  A served chain's key has the value of the highest layer that sets
    it, or else its default. -/
theorem Resolution.value_of_layers (res : Resolution X cli files env r)
    (hsets : ∀ o ∈ setOverrides X cli.set, o.value.isTable = false)
    {entry : Chain × ChainCfg} (hentry : entry ∈ r.chains) (k : Key) :
    ∃ urls, deriveEndpoints r.upstream.kind r.upstream.base entry.1 = .ok urls ∧
      (∀ v, highest (layers X cli env res.tree res.enabled entry.1 k) = some v →
        ∃ a, k.decode X v = some a ∧ entry.2.get k = finish entry.1 r.upstream k a) ∧
      (highest (layers X cli env res.tree res.enabled entry.1 k) = none →
        entry.2.get k = finish entry.1 r.upstream k
          (builtinValue entry.1 r.upstream.kind urls k)) := by
  obtain ⟨_, hchains⟩ := (build_ok res.built).chains
  obtain ⟨_, hcfg⟩ := (resolveChains_ok hchains).2 entry hentry
  obtain ⟨urls, hres⟩ := resolveChain_ok hcfg
  have hmerged : ((res.file.chain entry.1).get k).or (res.file.defaultsOr.get k)
      = (highest (layers X cli env res.tree res.enabled entry.1 k)).bind (k.decode X) := by
    rw [merged_get res.reads, res.merged_chain_key hsets, res.merged_default_key hsets, layers,
      highest_append]
  have hvalue := hres.value k
  rw [hmerged] at hvalue
  refine ⟨urls, hres.derived, ?_, ?_⟩
  · intro v hv
    rw [hv, Option.bind_some] at hvalue
    obtain ⟨a, ha⟩ : ∃ a, k.decode X v = some a := by
      rw [layers, highest_append, ← res.merged_chain_key hsets, ← res.merged_default_key hsets]
        at hv
      rcases Option.or_eq_some_iff.mp hv with hchain | ⟨-, hdefault⟩
      · exact leaf_decodes res.reads entry.1 k hchain
      · exact default_decodes res.reads k hdefault
    rw [ha] at hvalue
    exact ⟨a, ha, hvalue⟩
  · intro hnone
    rw [hnone] at hvalue
    exact hvalue

end Run

/-! ## Two runs that differ in one key -/

/-- Whether a path is one of a key's: of one chain's, or with no chain, of every chain's,
    of `chains.*` and of `[defaults]`. -/
def ofKey (k : Key) : Option Chain → List String → Bool
  | some x, path => path = ["chains", x.asStr, k.name]
  | none, path =>
      path = ["defaults", k.name] || path = ["chains", "*", k.name]
        || ALL.any fun x => path = ["chains", x.asStr, k.name]

/-- The overrides of other keys. -/
def others (k : Key) (scope : Option Chain) (os : List Override) : List Override :=
  os.filter fun o => !ofKey k scope o.path

theorem ofKey_none_chain (k : Key) (x : Chain) :
    ofKey k none ["chains", x.asStr, k.name] = true := by
  cases x <;> simp [ofKey, ALL]

/-- What a key's override is fanned out to are that key's. -/
theorem ofKey_fanOut {k : Key} {scope : Option Chain} {enabled : List Chain} {o o' : Override}
    (hkey : ofKey k scope o.path = true) (h : o' ∈ fanOut enabled o) :
    ofKey k scope o'.path = true := by
  rcases fanOut_path h with hpath | ⟨x, name, hstar, hpath⟩
  · rw [hpath]
    exact hkey
  · rw [hstar] at hkey
    cases scope with
    | some y =>
        have heq : ["chains", "*", name] = ["chains", y.asStr, k.name] := of_decide_eq_true hkey
        exact absurd (List.cons.inj (List.cons.inj heq).2).1.symm (asStr_ne_star y)
    | none =>
        have hname : name = k.name := by
          simp only [ofKey, Bool.or_eq_true, decide_eq_true_eq, List.any_eq_true] at hkey
          rcases hkey with (hkey | hkey) | ⟨y, -, hkey⟩
          · exact absurd (List.cons.inj hkey).1 (by decide)
          · exact (List.cons.inj (List.cons.inj (List.cons.inj hkey).2).2).1
          · exact (List.cons.inj (List.cons.inj (List.cons.inj hkey).2).2).1
        rw [hpath, hname]
        exact ofKey_none_chain k x

/-- A key's overrides say nothing elsewhere. -/
theorem lastAt_fanOut_ofKey {k : Key} {scope : Option Chain} {enabled : List Chain}
    {o : Override} {q : List String} (hkey : ofKey k scope o.path = true)
    (hq : ofKey k scope q = false) : lastAt (writes (fanOut enabled o)) q = none := by
  refine lastAt_eq_none ?_
  intro w hw heq
  obtain ⟨o', ho', rfl⟩ := List.mem_map.mp hw
  have hof := ofKey_fanOut hkey ho'
  rw [show o'.path = q from heq, hq] at hof
  cases hof

/-- Which chains are served matters only at the keys of a chain. -/
theorem lastAt_fanOut_congr {enabled enabled' : List Chain} {q : List String}
    (h : ∀ (x : Chain) name, q = ["chains", x.asStr, name] → (x ∈ enabled' ↔ x ∈ enabled))
    (o : Override) :
    lastAt (writes (fanOut enabled' o)) q = lastAt (writes (fanOut enabled o)) q := by
  by_cases hq : ∃ (x : Chain) (name : String), q = ["chains", x.asStr, name]
  · obtain ⟨x, name, rfl⟩ := hq
    rw [lastAt_fanOut, lastAt_fanOut]
    exact if_congr (or_congr_right (and_congr_right' (h x name rfl))) rfl rfl
  · by_cases hstar : ∃ name, o.path = ["chains", "*", name]
    · obtain ⟨name, hstar⟩ := hstar
      have hnone : ∀ chains, lastAt (writes (fanOut chains o)) q = none := by
        intro chains
        refine lastAt_eq_none ?_
        intro w hw heq
        obtain ⟨o', ho', rfl⟩ := List.mem_map.mp hw
        rw [fanOut_star hstar] at ho'
        obtain ⟨x, -, rfl⟩ := List.mem_map.mp ho'
        exact hq ⟨x, name, heq.symm⟩
      rw [hnone, hnone]
    · rw [fanOut_plain fun name h => hstar ⟨name, h⟩,
        fanOut_plain fun name h => hstar ⟨name, h⟩]

/-- The deprecated flags of a key say nothing elsewhere. -/
theorem lastAt_deprecated_others {k : Key} {scope : Option Chain} (enabled : List Chain)
    (ps : List Pending) {q : List String} (hq : ofKey k scope q = false) :
    lastAt (writes (deprecatedOverrides enabled (ps.filter fun p => !ofKey k scope p.key))) q
      = lastAt (writes (deprecatedOverrides enabled ps)) q := by
  induction ps with
  | nil => rfl
  | cons p ps ih =>
      have hcons : ∀ rest, lastAt (writes (deprecatedOverrides enabled (p :: rest))) q
          = (lastAt (writes (deprecatedOverrides enabled rest)) q).or
            (lastAt (writes (fanOut enabled ⟨p.key, p.value, s!"flag `{p.flag}`"⟩)) q) := by
        intro rest
        rw [deprecatedOverrides, List.flatMap_cons, writes_append, lastAt_append]
        rfl
      cases hkey : ofKey k scope p.key with
      | true =>
          rw [List.filter_cons_of_neg (by simp [hkey]), hcons, lastAt_fanOut_ofKey hkey hq,
            Option.or_none, ih]
      | false => rw [List.filter_cons_of_pos (by simp [hkey]), hcons, hcons, ih]

theorem lastAt_deprecated_congr {enabled enabled' : List Chain} {q : List String}
    (h : ∀ (x : Chain) name, q = ["chains", x.asStr, name] → (x ∈ enabled' ↔ x ∈ enabled))
    (ps : List Pending) :
    lastAt (writes (deprecatedOverrides enabled' ps)) q
      = lastAt (writes (deprecatedOverrides enabled ps)) q := by
  induction ps with
  | nil => rfl
  | cons p ps ih =>
      simp only [deprecatedOverrides, List.flatMap_cons, writes_append, lastAt_append]
      simp only [deprecatedOverrides] at ih
      rw [ih, lastAt_fanOut_congr h]

theorem lastAt_others {k : Key} {scope : Option Chain} (os : List Override) {q : List String}
    (hq : ofKey k scope q = false) :
    lastAt (writes (others k scope os)) q = lastAt (writes os) q := by
  have hwrites : writes (others k scope os)
      = (writes os).filter fun w => !ofKey k scope w.1 := by
    rw [writes, writes, others, List.filter_map]
    rfl
  rw [hwrites, lastAt_filter (fun path => !ofKey k scope path) _ (by rw [hq]; rfl)]

/-- A run that resolves, its config file read, and its `--set` arguments scalars. -/
structure Run (X : Formats) where
  cli : Cli
  files : Files
  env : Env
  tree : Table
  r : Resolved
  loaded : loadTree X cli files env = .ok tree
  resolved : resolveWith X cli files env = .ok r
  scalars : ∀ o ∈ setOverrides X cli.set, o.value.isTable = false

/-- Two runs whose inputs are the same but for what they say of one key, in whatever
    layers. -/
structure SameBut (k : Key) (scope : Option Chain) (a b : Run X) : Prop where
  set : others k scope (setOverrides X b.cli.set) = others k scope (setOverrides X a.cli.set)
  network : b.cli.network = a.cli.network
  logLevel : b.cli.logLevel = a.cli.logLevel
  dataDir : b.cli.dataDir = a.cli.dataDir
  rpcAddr : b.cli.rpcAddr = a.cli.rpcAddr
  mirrorFrom : b.cli.mirrorFrom = a.cli.mirrorFrom
  ingestLogs : ofKey k scope ["chains", "*", "ingest_logs"] = false →
    b.cli.ingestLogs = a.cli.ingestLogs
  flags : ∀ ps ps', pendingFlags a.cli = .ok ps → pendingFlags b.cli = .ok ps' →
    (ps'.filter fun p => !ofKey k scope p.key) = ps.filter fun p => !ofKey k scope p.key
  env : others k scope (envOverrides b.env) = others k scope (envOverrides a.env)
  token : ∀ path, resolveToken b.files b.env path = resolveToken a.files a.env path
  file : ∀ path v, v.isTable = false → ofKey k scope path = false →
    (Table.at b.tree path = some v ↔ Table.at a.tree path = some v)

section Frame

variable {a b : Run X} {k : Key} {scope : Option Chain}

/-- The resolution of a run, with the document the run names. -/
theorem Run.resolution (a : Run X) :
    ∃ res : Resolution X a.cli a.files a.env a.r, res.tree = a.tree := by
  obtain ⟨res⟩ := resolveWith_ok a.resolved
  exact ⟨res, Except.ok.inj (res.loaded.symm.trans a.loaded)⟩

/-- The visible flags of the two runs say the same elsewhere. -/
theorem SameBut.flags_at (h : SameBut k scope a b) {enabled enabled' : List Chain}
    {q : List String} (hq : ofKey k scope q = false)
    (hon : ∀ (x : Chain) name, q = ["chains", x.asStr, name] →
      (x ∈ enabled' ↔ x ∈ enabled)) :
    lastAt (writes (flagOverrides X b.cli enabled')) q
      = lastAt (writes (flagOverrides X a.cli enabled)) q := by
  have hlogs : lastAt (writes (if b.cli.ingestLogs then
        fanOut enabled' ⟨["chains", "*", "ingest_logs"], .boolean true, "flag `--ingest-logs`"⟩
      else [])) q
      = lastAt (writes (if a.cli.ingestLogs then
        fanOut enabled ⟨["chains", "*", "ingest_logs"], .boolean true, "flag `--ingest-logs`"⟩
      else [])) q := by
    cases hkey : ofKey k scope ["chains", "*", "ingest_logs"] with
    | false =>
        rw [h.ingestLogs hkey]
        cases a.cli.ingestLogs with
        | false => rfl
        | true =>
            rw [if_pos rfl, if_pos rfl]
            exact lastAt_fanOut_congr hon _
    | true =>
        have hnone : ∀ (on : Bool) chains, lastAt (writes (if on then
            fanOut chains ⟨["chains", "*", "ingest_logs"], .boolean true,
              "flag `--ingest-logs`"⟩ else [])) q = none := by
          intro on chains
          cases on with
          | false => rfl
          | true =>
              rw [if_pos rfl]
              exact lastAt_fanOut_ofKey hkey hq
        rw [hnone, hnone]
  simp only [flagOverrides, writes_append, lastAt_append, h.network, h.logLevel, h.dataDir,
    h.rpcAddr, h.mirrorFrom, hlogs]

/-- **The frame rule of a key.**  At every other scalar key of the schema the merged
    documents of the two runs hold the same. -/
theorem SameBut.merged_at (h : SameBut k scope a b)
    (res : Resolution X a.cli a.files a.env a.r) (res' : Resolution X b.cli b.files b.env b.r)
    {q : List String} (hleaf : Leaf X q) (hq : ofKey k scope q = false)
    (hon : ∀ (x : Chain) name, q = ["chains", x.asStr, name] →
      (x ∈ res'.enabled ↔ x ∈ res.enabled)) :
    Table.at res'.merged q = Table.at res.merged q := by
  have hsame : ∀ (c : Run X) (resc : Resolution X c.cli c.files c.env c.r),
      resc.tree = c.tree := fun c resc => Except.ok.inj (resc.loaded.symm.trans c.loaded)
  have htree : Table.at res'.tree q = Table.at res.tree q := by
    rw [hsame a res, hsame b res']
    ext v
    by_cases hv : v.isTable = false
    · exact h.file q v hv hq
    · constructor
      · intro hat
        obtain ⟨file, hfile⟩ := loadTree_ok b.loaded
        exact absurd (hleaf.scalar b.tree file hfile v hat) hv
      · intro hat
        obtain ⟨file, hfile⟩ := loadTree_ok a.loaded
        exact absurd (hleaf.scalar a.tree file hfile v hat) hv
  have hdeprecated : lastAt (writes (deprecatedOverrides res'.enabled res'.pending)) q
      = lastAt (writes (deprecatedOverrides res.enabled res.pending)) q := by
    rw [← lastAt_deprecated_others res'.enabled res'.pending hq,
      h.flags _ _ res.flags res'.flags, lastAt_deprecated_others res'.enabled res.pending hq,
      lastAt_deprecated_congr hon]
  have henv : lastAt (writes (envOverrides b.env)) q = lastAt (writes (envOverrides a.env)) q := by
    rw [← lastAt_others _ hq, h.env, lastAt_others _ hq]
  have hset : lastAt (writes (setOverrides X b.cli.set)) q
      = lastAt (writes (setOverrides X a.cli.set)) q := by
    rw [← lastAt_others _ hq, h.set, lastAt_others _ hq]
  rw [hleaf.at_merged res'.merge (res'.scalars b.scalars),
    hleaf.at_merged res.merge (res.scalars a.scalars), htree]
  simp only [overrides, writes_append, lastAt_append, hdeprecated, henv, hset,
    h.flags_at hq hon]

/-- A path outside a chain and `[defaults]` is of no key. -/
theorem ofKey_eq_false {path : List String} (hchains : path.head? ≠ some "chains")
    (hdefaults : path.head? ≠ some "defaults") : ofKey k scope path = false := by
  cases scope with
  | some x =>
      refine decide_eq_false ?_
      rintro rfl
      exact hchains rfl
  | none =>
      simp only [ofKey, Bool.or_eq_false_iff, decide_eq_false_iff_not, List.any_eq_false,
        decide_eq_true_eq]
      refine ⟨⟨?_, ?_⟩, ?_⟩
      · rintro rfl
        exact hdefaults rfl
      · rintro rfl
        exact hchains rfl
      · rintro x - rfl
        exact hchains rfl

theorem no_chain {path : List String} {P Q : Chain → Prop}
    (hchains : path.head? ≠ some "chains") :
    ∀ (x : Chain) (name : String), path = ["chains", x.asStr, name] → (P x ↔ Q x) := by
  rintro x name rfl
  exact absurd rfl hchains

/-- A path of another name is of no key. -/
theorem ofKey_ne_name {path : List String} {name : String} (hlast : path.getLast? = some name)
    (hname : name ≠ k.name) : ofKey k scope path = false := by
  have hne : ∀ a b, path ≠ [a, b, k.name] := by
    rintro a b rfl
    exact hname (Option.some.inj hlast).symm
  have hne' : ∀ a, path ≠ [a, k.name] := by
    rintro a rfl
    exact hname (Option.some.inj hlast).symm
  cases scope with
  | some x => exact decide_eq_false (hne _ _)
  | none =>
      simp only [ofKey, Bool.or_eq_false_iff, decide_eq_false_iff_not, List.any_eq_false,
        decide_eq_true_eq]
      exact ⟨⟨hne' _, hne _ _⟩, fun x _ => hne _ _⟩

theorem leaf_upstream {β : Type} {key : String} {dec : Value → Option β}
    {proj : UpstreamFile → Option β}
    (hkey : ∀ sub f, upstreamFile sub = some f → optField sub key dec = some (proj f))
    (htable : ∀ s, dec (.table s) = none) : Leaf X ["upstream", key] :=
  leaf_of_section (fun _ _ hfile => ⟨_, (fileOf_reads hfile).upstream⟩)
    (fun sub f hf => ⟨_, hkey sub f hf⟩) htable

theorem leaf_network : Leaf X ["network"] where
  scalar := by
    intro t file hfile v hv
    rw [at_singleton] at hv
    exact not_table_of_optField (fileOf_reads hfile).network (fun _ => rfl) hv
  below := by
    intro t file hfile p v hp hne hv
    cases p with
    | nil =>
        rw [← Option.some.inj hv]
        rfl
    | cons c p =>
        rw [List.cons_prefix_cons, List.prefix_nil] at hp
        obtain ⟨rfl, rfl⟩ := hp
        exact absurd rfl hne

/-- A field of `[upstream]` is the same in the two runs. -/
theorem SameBut.upstream_field (h : SameBut k scope a b)
    (res : Resolution X a.cli a.files a.env a.r) (res' : Resolution X b.cli b.files b.env b.r)
    {β : Type} {key : String} {dec : Value → Option β} {proj : UpstreamFile → Option β}
    (hkey : ∀ sub f, upstreamFile sub = some f → optField sub key dec = some (proj f))
    (htable : ∀ s, dec (.table s) = none) :
    res'.file.upstream.bind proj = res.file.upstream.bind proj := by
  have hchains : ["upstream", key].head? ≠ some "chains" := by simp
  have hdefaults : ["upstream", key].head? ≠ some "defaults" := by simp
  rw [field_of_optField (fileOf_reads res'.reads).upstream hkey,
    field_of_optField (fileOf_reads res.reads).upstream hkey,
    h.merged_at res res' (leaf_upstream hkey htable) (ofKey_eq_false hchains hdefaults)
      (no_chain hchains)]

/-- The two runs mirror the same upstream. -/
theorem SameBut.upstream (h : SameBut k scope a b) :
    b.r.network = a.r.network ∧ b.r.upstream.kind = a.r.upstream.kind ∧
      b.r.upstream.base = a.r.upstream.base ∧ b.r.upstream.token = a.r.upstream.token ∧
      b.r.upstream.tokenParam = a.r.upstream.tokenParam := by
  obtain ⟨res, -⟩ := a.resolution
  obtain ⟨res', -⟩ := b.resolution
  have hnetwork : res'.file.network = res.file.network := by
    rw [(optField_spec (fileOf_reads res'.reads).network).1,
      (optField_spec (fileOf_reads res.reads).network).1, ← at_singleton, ← at_singleton,
      h.merged_at res res' leaf_network (ofKey_eq_false (by decide) (by decide))
        (no_chain (by decide))]
  have hr : b.r.network = a.r.network := by
    rw [(build_ok res'.built).network, (build_ok res.built).network, hnetwork]
  -- a field of the upstream section, or the field of none
  have hor : ∀ (file : File) {β : Type} (proj : UpstreamFile → Option β),
      proj ⟨none, none, none, none, none⟩ = none →
        proj file.upstreamOr = file.upstream.bind proj := by
    intro file β proj hnone
    rw [File.upstreamOr]
    cases file.upstream with
    | none => exact hnone
    | some f => rfl
  have hkind : res'.file.upstreamOr.kind = res.file.upstreamOr.kind := by
    rw [hor _ (·.kind) rfl, hor _ (·.kind) rfl]
    exact h.upstream_field res res' (fun _ _ hf => (upstreamFile_field hf).1) fun _ => rfl
  have hbase : res'.file.upstreamOr.base = res.file.upstreamOr.base := by
    rw [hor _ (·.base) rfl, hor _ (·.base) rfl]
    exact h.upstream_field res res' (fun _ _ hf => (upstreamFile_field hf).2.1) fun _ => rfl
  have hfile : res'.file.upstreamOr.tokenFile = res.file.upstreamOr.tokenFile := by
    rw [hor _ (·.tokenFile) rfl, hor _ (·.tokenFile) rfl]
    exact h.upstream_field res res' (fun _ _ hf => (upstreamFile_field hf).2.2.1) fun _ => rfl
  have hparam : res'.file.upstreamOr.tokenParam = res.file.upstreamOr.tokenParam := by
    rw [hor _ (·.tokenParam) rfl, hor _ (·.tokenParam) rfl]
    exact h.upstream_field res res' (fun _ _ hf => (upstreamFile_field hf).2.2.2.1) fun _ => rfl
  obtain ⟨_, hup⟩ := (build_ok res.built).upstream
  obtain ⟨_, hup'⟩ := (build_ok res'.built).upstream
  obtain ⟨_, hup⟩ := resolveUpstream_ok hup
  obtain ⟨_, hup'⟩ := resolveUpstream_ok hup'
  refine ⟨hr, ?_, ?_, ?_, ?_⟩
  · rw [hup'.kind, hup.kind, hkind]
  · rw [hup'.base, hup.base, hbase, hr]
  -- the token also comes from the environment, which the two runs share
  · have htoken := hup'.token
    rw [hfile, h.token, hup.token] at htoken
    exact (Except.ok.inj htoken).symm
  · rw [hup'.tokenParam, hup.tokenParam, hparam]

/-- The per-chain settings of two chains' configurations agree, but for one key. -/
structure SameSettings (k : Key) (scope : Option Chain) (x : Chain) (cfg cfg' : ChainCfg) :
    Prop where
  key : ∀ k', (k' ≠ k ∨ ∃ y, scope = some y ∧ y ≠ x) → cfg'.get k' = cfg.get k'
  chain : cfg'.chain = cfg.chain
  dataDir : cfg'.dataDir = cfg.dataDir
  subscribeBlocks : cfg'.subscribeBlocks = cfg.subscribeBlocks

theorem ofKey_other {x : Chain} {k' : Key} (h : k' ≠ k ∨ ∃ y, scope = some y ∧ y ≠ x) :
    ofKey k scope ["chains", x.asStr, k'.name] = false ∧
      (k' ≠ k ∨ ofKey k scope ["defaults", k'.name] = false) := by
  rcases h with hk | ⟨y, rfl, hy⟩
  · have hname : k'.name ≠ k.name := fun h => hk (Key.name_inj h)
    exact ⟨ofKey_ne_name rfl hname, Or.inl hk⟩
  · have hchain : ["chains", x.asStr, k'.name] ≠ ["chains", y.asStr, k.name] := by
      intro heq
      exact hy (Chain.asStr_inj (List.cons.inj (List.cons.inj heq).2).1.symm)
    have hdefault : ["defaults", k'.name] ≠ ["chains", y.asStr, k.name] := by
      intro heq
      exact absurd (List.cons.inj heq).1 (by decide)
    exact ⟨decide_eq_false hchain, Or.inr (decide_eq_false hdefault)⟩

/-- **Setting one key changes no other setting**, host pacing aside. -/
theorem SameBut.settings (h : SameBut k scope a b) {x : Chain} {cfg cfg' : ChainCfg}
    (hx : (x, cfg) ∈ a.r.chains) (hx' : (x, cfg') ∈ b.r.chains) :
    SameSettings k scope x cfg cfg' := by
  obtain ⟨res, -⟩ := a.resolution
  obtain ⟨res', -⟩ := b.resolution
  obtain ⟨hnetwork, hkind, hbase, htoken, hparam⟩ := h.upstream
  have hon : x ∈ res'.enabled ↔ x ∈ res.enabled := by
    rw [← res'.chains_eq, ← res.chains_eq]
    exact iff_of_true (List.mem_map_of_mem hx') (List.mem_map_of_mem hx)
  -- every other key of the chain reads the same in both documents
  have hat : ∀ key, Leaf X ["chains", x.asStr, key] →
      ofKey k scope ["chains", x.asStr, key] = false →
      Table.at res'.merged ["chains", x.asStr, key]
        = Table.at res.merged ["chains", x.asStr, key] := by
    intro key hleaf hq
    refine h.merged_at res res' hleaf hq ?_
    intro y name heq
    rw [← Chain.asStr_inj (List.cons.inj (List.cons.inj heq).2).1]
    exact hon
  -- and so does every other default
  have hdefault : ∀ key, Leaf X ["defaults", key] → ofKey k scope ["defaults", key] = false →
      Table.at res'.merged ["defaults", key] = Table.at res.merged ["defaults", key] := by
    intro key hleaf hq
    refine h.merged_at res res' hleaf hq ?_
    intro y name heq
    exact absurd (List.cons.inj heq).1 (by decide)
  obtain ⟨_, hchains⟩ := (build_ok res.built).chains
  obtain ⟨_, hchains'⟩ := (build_ok res'.built).chains
  obtain ⟨_, hcfg⟩ := (resolveChains_ok hchains).2 _ hx
  obtain ⟨_, hcfg'⟩ := (resolveChains_ok hchains').2 _ hx'
  obtain ⟨urls, hres⟩ := resolveChain_ok hcfg
  obtain ⟨urls', hres'⟩ := resolveChain_ok hcfg'
  -- the derived URLs depend on the upstream alone
  obtain rfl : urls' = urls := by
    have hderived := hres'.derived
    rw [hkind, hbase, hres.derived] at hderived
    exact (Except.ok.inj hderived).symm
  have hfinish : ∀ k' (v : k'.Ty), finish x b.r.upstream k' v = finish x a.r.upstream k' v := by
    intro k' v
    cases k' <;> simp only [finish, Upstream.tokened, htoken, hparam]
  refine ⟨?_, ?_, ?_, ?_⟩
  · intro k' hk'
    obtain ⟨hq, hdef⟩ := ofKey_other hk'
    have hq' : ofKey k scope ["defaults", k'.name] = false := by
      -- the key's default may differ only for the key itself
      rcases hdef with hne | hq'
      · exact ofKey_ne_name rfl fun heq => hne (Key.name_inj heq)
      · exact hq'
    rw [hres'.value k', hres.value k', hfinish, hkind, merged_get res'.reads, merged_get res.reads,
      hat _ (leaf_chain_key x k') hq, hdefault _ (leaf_default_key k') hq']
  · rw [hres'.chain, hres.chain]
  · have hname : "data_dir" ≠ k.name := by
      cases k <;> decide
    rw [hres'.dataDir, hres.dataDir, (fileOf_reads res'.reads).chain_dataDir,
      (fileOf_reads res.reads).chain_dataDir, (fileOf_reads res'.reads).defaults_dataDir,
      (fileOf_reads res.reads).defaults_dataDir, hnetwork,
      hat _ (leaf_chain_dataDir x) (ofKey_ne_name rfl hname),
      hdefault _ leaf_default_dataDir (ofKey_ne_name rfl hname)]
  · rw [hres'.subscribeBlocks, hres.subscribeBlocks, hkind]

end Frame

/-! ## Which chains are served -/

/-- Whether a `--set` argument spells a chain's `enabled` key. -/
def spellsEnabled (x : Chain) (arg : String) : Bool :=
  (splitOnce '=' arg).any fun pair => trim pair.1 = s!"chains.{x.asStr}.enabled"

/-- Two runs with the same selectors: `--chains`, the file's chain tables and the
    `enabled` keys. -/
structure SameSelectors (a b : Run X) : Prop where
  chains : b.cli.chains = a.cli.chains
  set : ∀ x, b.cli.set.filter (spellsEnabled x) = a.cli.set.filter (spellsEnabled x)
  declares : (Table.get b.tree "chains").isSome = (Table.get a.tree "chains").isSome
  tables : ∀ x : Chain, (Table.at b.tree ["chains", x.asStr]).isSome
    = (Table.at a.tree ["chains", x.asStr]).isSome
  enabled : ∀ x : Chain, Table.at b.tree ["chains", x.asStr, "enabled"]
    = Table.at a.tree ["chains", x.asStr, "enabled"]

theorem setEnabled_filter (x : Chain) (args : List String) (found : Option Bool) :
    setEnabled x (args.filter (spellsEnabled x)) found = setEnabled x args found := by
  induction args generalizing found with
  | nil => rfl
  | cons arg args ih =>
      cases hsplit : splitOnce '=' arg with
      | none =>
          rw [List.filter_cons_of_neg (by simp [spellsEnabled, hsplit]), ih]
          simp only [setEnabled, hsplit]
      | some pair =>
          obtain ⟨key, raw⟩ := pair
          by_cases hkey : trim key = s!"chains.{x.asStr}.enabled"
          · rw [List.filter_cons_of_pos (by simp [spellsEnabled, hsplit, hkey])]
            simp only [setEnabled, hsplit, hkey, if_true, ih]
          · rw [List.filter_cons_of_neg (by simpa [spellsEnabled, hsplit] using hkey), ih]
            simp only [setEnabled, hsplit, if_neg hkey]

theorem mem_mapM_declaredChain {keys : List String} {chains : List Chain}
    (h : keys.mapM declaredChain = .ok chains) (x : Chain) : x ∈ chains ↔ x.asStr ∈ keys := by
  induction keys generalizing chains with
  | nil =>
      rw [← Except.ok.inj h]
      simp
  | cons key keys ih =>
      rw [List.mapM_cons] at h
      obtain ⟨c, hc, h⟩ := bind_eq_ok h
      obtain ⟨rest, hrest, h⟩ := bind_eq_ok h
      have hname : key = c.asStr := by
        simp only [declaredChain] at hc
        cases hfound : chainOfName key with
        | none =>
            rw [hfound] at hc
            cases hc
        | some c' =>
            rw [hfound] at hc
            rw [← Except.ok.inj hc]
            exact chainOfName_eq_some hfound
      rw [← Except.ok.inj h, List.mem_cons, List.mem_cons, ih hrest, hname]
      exact or_congr_left ⟨fun heq => congrArg _ heq, Chain.asStr_inj⟩

/-- A chain is declared if there is no `[chains]` table, or one with a table for it. -/
theorem declaredChains_contains {tree : Table} {declared : Option (List Chain)}
    (h : declaredChains tree = .ok declared) (x : Chain) :
    declared.all (·.contains x)
      = (!(Table.get tree "chains").isSome || (Table.at tree ["chains", x.asStr]).isSome) := by
  simp only [declaredChains] at h
  rw [Table.at_cons]
  cases hget : Table.get tree "chains" with
  | none =>
      rw [hget] at h
      rw [← Except.ok.inj h]
      rfl
  | some v =>
      rw [hget] at h
      cases v with
      | table chains =>
          dsimp only at h
          cases hkeys : (Table.keys chains).mapM declaredChain with
          | error e =>
              rw [hkeys] at h
              cases h
          | ok found =>
              rw [hkeys] at h
              rw [← Except.ok.inj h, Option.all_some, Option.bind_some, Value.at_table,
                at_singleton, Bool.eq_iff_iff, List.contains_iff_mem,
                mem_mapM_declaredChain hkeys, Table.mem_keys_iff]
              rfl
      | _ => cases h

theorem chainsOn_congr {cli cli' : Cli} {tree tree' : Table} {d d' : Option (List Chain)}
    (h : ∀ x, chainOn cli' tree' d' x = chainOn cli tree d x) (chains : List Chain) :
    chainsOn cli' tree' d' chains = chainsOn cli tree d chains := by
  induction chains with
  | nil => rfl
  | cons x rest ih => rw [chainsOn, chainsOn, h, ih]

/-- **What is served is decided by the selectors alone**, not by which other keys were
    overridden. -/
theorem SameSelectors.served {a b : Run X} (h : SameSelectors a b) :
    b.r.chains.map Prod.fst = a.r.chains.map Prod.fst := by
  obtain ⟨res, htree⟩ := a.resolution
  obtain ⟨res', htree'⟩ := b.resolution
  rw [res.chains_eq, res'.chains_eq]
  rcases selectChains_cases res.selected with ⟨hcli, hnormal⟩ |
    ⟨hcli, d, cs, hd, hon, hnormal⟩
  · rcases selectChains_cases res'.selected with ⟨-, hnormal'⟩ | ⟨hcli', -⟩
    · rw [h.chains, hnormal] at hnormal'
      exact (Except.ok.inj hnormal').symm
    · exact absurd (h.chains.symm.trans hcli') hcli
  · rcases selectChains_cases res'.selected with ⟨hcli', -⟩ |
      ⟨-, d', cs', hd', hon', hnormal'⟩
    · exact absurd (h.chains.trans hcli) hcli'
    · have hchainOn : ∀ x, chainOn b.cli res'.tree d' x = chainOn a.cli res.tree d x := by
        intro x
        have hset : setEnabled x b.cli.set none = setEnabled x a.cli.set none := by
          rw [← setEnabled_filter, h.set, setEnabled_filter]
        have hall : d'.all (·.contains x) = d.all (·.contains x) := by
          rw [declaredChains_contains hd', declaredChains_contains hd, htree, htree', h.declares,
            h.tables]
        have hfile : fileEnabled res'.tree x = fileEnabled res.tree x := by
          rw [fileEnabled, fileEnabled, htree, htree', h.enabled]
        rw [chainOn, chainOn, hset, hall, hfile]
      rw [chainsOn_congr hchainOn, hon] at hon'
      obtain rfl := Except.ok.inj hon'
      rw [hnormal] at hnormal'
      exact (Except.ok.inj hnormal').symm

/-- **Configuration precedence.**  A key has the value of the highest layer that sets it;
    a flag that names no chain reaches the served ones and no other; what one key is set to
    changes no other setting; and the chains served depend on the selectors alone. -/
theorem configuration_precedence (a : Run X) :
    (∃ merged, applyAll X a.tree (overrides X a.cli a.env (a.r.chains.map Prod.fst)
        ((pendingFlags a.cli).toOption.getD [])) = .ok merged ∧
      ∀ x k, Table.at merged ["chains", x.asStr, k.name]
        = highest (chainLayers X a.cli a.env a.tree (a.r.chains.map Prod.fst) x k)) ∧
    (∀ x cfg, (x, cfg) ∈ a.r.chains → ∀ k, ∃ urls,
      deriveEndpoints a.r.upstream.kind a.r.upstream.base x = .ok urls ∧
      (∀ v, highest (layers X a.cli a.env a.tree (a.r.chains.map Prod.fst) x k) = some v →
        ∃ value, k.decode X v = some value ∧ cfg.get k = finish x a.r.upstream k value) ∧
      (highest (layers X a.cli a.env a.tree (a.r.chains.map Prod.fst) x k) = none →
        cfg.get k = finish x a.r.upstream k (builtinValue x a.r.upstream.kind urls k))) ∧
    (∀ b k scope, SameBut k scope a b → ∀ x cfg cfg', (x, cfg) ∈ a.r.chains →
      (x, cfg') ∈ b.r.chains → SameSettings k scope x cfg cfg') ∧
    (∀ b, SameSelectors a b → b.r.chains.map Prod.fst = a.r.chains.map Prod.fst) := by
  obtain ⟨res, htree⟩ := a.resolution
  refine ⟨⟨res.merged, ?_, ?_⟩, ?_, ?_, ?_⟩
  · rw [← htree, res.chains_eq, res.flags]
    exact res.merge
  · intro x k
    rw [← htree, res.chains_eq]
    exact res.merged_chain_key a.scalars x k
  · intro x cfg hx k
    rw [← htree, res.chains_eq]
    exact res.value_of_layers a.scalars hx k
  · intro b k scope h x cfg cfg' hx hx'
    exact h.settings hx hx'
  · intro b h
    exact h.served

/-- Formats for runs without a config file, whose `--set` values are no TOML. -/
def plainFormats : Formats := { sampleFormats with fromStr := fun _ => none }

/-- A run without arguments, and one that waits for less on the C-chain. -/
def bareRun : Run plainFormats where
  cli := Cli.bare
  files := fun _ => .missing
  env := ⟨fun _ => none, none⟩
  tree := []
  r := sampleResolved 0 (sampleNotices [])
  loaded := rfl
  resolved := by decide +kernel
  scalars := by decide

def shortWaitRun : Run plainFormats where
  cli := { Cli.bare with set := ["chains.c.max_wait=5s"] }
  files := fun _ => .missing
  env := ⟨fun _ => none, none⟩
  tree := []
  r := { sampleResolved 0 (sampleNotices []) with
    chains := [(.C, { sampleChain .C 0 with maxWait := 5 * 10 ^ 9 }), (.P, sampleChain .P 0)] }
  loaded := rfl
  resolved := by decide +kernel
  scalars := by decide

theorem configuration_precedence_max_wait :
    SameSettings .maxWait (some .C) .C (sampleChain .C 0)
        { sampleChain .C 0 with maxWait := 5 * 10 ^ 9 } ∧
      shortWaitRun.r.chains.map Prod.fst = bareRun.r.chains.map Prod.fst := by
  have hbut : SameBut .maxWait (some .C) bareRun shortWaitRun := by
    refine ⟨rfl, rfl, rfl, rfl, rfl, rfl, fun _ => rfl, ?_, rfl, fun _ => rfl,
      fun _ _ _ _ => Iff.rfl⟩
    intro ps ps' hps hps'
    rw [← Except.ok.inj hps, ← Except.ok.inj hps']
    rfl
  have hselect : SameSelectors bareRun shortWaitRun :=
    ⟨rfl, fun x => by cases x <;> decide, rfl, fun _ => rfl, fun _ => rfl⟩
  obtain ⟨-, -, hkey, hserved⟩ := configuration_precedence bareRun
  exact ⟨hkey shortWaitRun .maxWait (some .C) hbut .C _ _ (by decide) (by decide),
    hserved shortWaitRun hselect⟩

end NeveConfig
