import Neve.ConfigLayersProofs

/-! # `--set` — two readings of one argument

    Which chains a run serves, and which arguments it refuses because their chain is
    idle, is read off the raw text of the `--set` arguments; the merge reads the same
    arguments as TOML values at dotted paths.  For a key with three segments the two
    readings agree.  An inline table under `chains` or `chains.<x>` is seen by the merge
    alone (`set_took_effect_iff`). -/

namespace NeveConfig

open TomlTree StrText Outcome
open NeveRecord (Chain)

variable {X : Formats}

/-! ## What an argument gives -/

/-- The document that a `--set` argument is on its own. -/
def alone (X : Formats) (arg : String) : Option Table :=
  (setOverride X arg).bind fun o => (setPath [] o.path o.value).toOption

/-- What an argument gives for a chain, however deep its key goes. -/
def given (X : Formats) (arg : String) (x : Chain) : Option Value :=
  (alone X arg).bind fun doc => Table.at doc ["chains", x.asStr]

/-- The `enabled` value that an argument gives for a chain. -/
def enabledBy (X : Formats) (x : Chain) (arg : String) : Option Bool :=
  ((alone X arg).bind fun doc => Table.at doc ["chains", x.asStr, "enabled"]).bind asBool

/-- The last one of a list of arguments. -/
def lastEnabled (X : Formats) (args : List String) (x : Chain) : Option Bool :=
  (args.filterMap (enabledBy X x)).getLast?

/-- A table of one `enabled` key. -/
def OnlyEnabled (v : Value) : Prop := ∃ on, v = .table [("enabled", on)]

/-- **Accepted is in effect**: what is given is for chains that are served, `enabled`
    apart, and the last `enabled` value of a chain decides whether it is. -/
structure TookEffect (X : Formats) (cli : Cli) (r : Resolved) : Prop where
  served : ∀ arg ∈ cli.set, ∀ x v, given X arg x = some v → ¬ OnlyEnabled v →
    x ∈ r.chains.map Prod.fst
  enabled : cli.chains = [] → ∀ x on, lastEnabled X cli.set x = some on →
    (x ∈ r.chains.map Prod.fst ↔ on = true)

/-! ## What is chosen -/

/-- The `enabled` value of an argument whose key is `chains.<x>.enabled`. -/
def spelledBy (X : Formats) (x : Chain) (arg : String) : Option Bool :=
  (setOverride X arg).bind fun o =>
    if o.path = ["chains", x.asStr, "enabled"] then asBool o.value else none

def lastSpelled (X : Formats) (args : List String) (x : Chain) : Option Bool :=
  (args.filterMap (spelledBy X x)).getLast?

/-- Whether the config file asks for a chain. -/
def fileOn (tree : Table) (x : Chain) : Bool :=
  (!(Table.get tree "chains").isSome || (Table.at tree ["chains", x.asStr]).isSome)
    && ((Table.at tree ["chains", x.asStr, "enabled"]).bind asBool).getD true

/-- Whether `--chains`, the spelled `enabled` keys and the file ask for a chain. -/
def chosen (X : Formats) (cli : Cli) (tree : Table) (x : Chain) : Bool :=
  if cli.chains ≠ [] then decide (x ∈ cli.chains)
  else (lastSpelled X cli.set x).getD (fileOn tree x)

/-- The inline tables say nothing new: those under `chains` and `chains.<x>` are for
    chains that are chosen without them, and where one of them gives the last `enabled`
    value of a chain, it is the value that is chosen without it. -/
structure InlineAgrees (X : Formats) (cli : Cli) (tree : Table) : Prop where
  tables : ∀ arg ∈ cli.set, ∀ o, setOverride X arg = some o → o.path.length ≤ 2 →
    ∀ x v, given X arg x = some v → ¬ OnlyEnabled v → chosen X cli tree x = true
  enabled : cli.chains = [] → ∀ x on, lastEnabled X cli.set x = some on →
    chosen X cli tree x = on

/-! ## What is accepted -/

/-- A value that was written at a path of a document which read afterwards. -/
def Accepted (X : Formats) (path : List String) (v : Value) : Prop :=
  ∃ before after file, setPath before path v = .ok after ∧ fileOf X after = some file

def FILE_KEYS : List String := ["network", "log_level", "upstream", "server", "defaults", "chains"]

theorem known_of_denyUnknown {known : List String} {t : Table} {k : String}
    (h : denyUnknownFields known t = some ()) (hk : (Table.get t k).isSome = true) :
    k ∈ known := by
  simp only [denyUnknownFields] at h
  by_cases hall : (Table.keys t).all (· ∈ known) = true
  · have hmem := List.all_eq_true.mp hall k (Table.mem_keys_iff.mpr hk)
    exact of_decide_eq_true hmem
  · rw [if_neg hall] at h
    cases h

theorem fileOf_known {t : Table} {file : File} (h : fileOf X t = some file) :
    denyUnknownFields FILE_KEYS t = some () := by
  obtain ⟨u, hknown, -⟩ := Option.bind_eq_some_iff.mp h
  exact hknown

theorem chainFile_known {t : Table} {f : ChainFile} (h : chainFile X t = some f) :
    denyUnknownFields CHAIN_KEYS t = some () := by
  obtain ⟨u, hknown, -⟩ := Option.bind_eq_some_iff.mp h
  exact hknown

/-- Every key of a `[chains]` table that reads names a chain. -/
theorem chainFiles_known {t : Table} {files : List (Chain × ChainFile)}
    (h : chainFiles X t = some files) {name : String}
    (hname : (Table.get t name).isSome = true) : ∃ x : Chain, name = x.asStr := by
  induction t generalizing files with
  | nil => cases hname
  | cons e t ih =>
      obtain ⟨k, v⟩ := e
      simp only [chainFiles, Option.bind_eq_bind, Option.bind_eq_some_iff] at h
      obtain ⟨c, hc, _, -, others, hothers, -⟩ := h
      rw [Table.get_cons] at hname
      by_cases hk : name = k
      · exact ⟨c, hk.trans (chainOfName_eq_some hc)⟩
      · rw [if_neg hk] at hname
        exact ih hothers hname

/-- A chain's keys: `enabled`, `data_dir` and the twelve. -/
theorem chain_key_cases {key : String} (h : key ∈ CHAIN_KEYS) :
    key = "enabled" ∨ key = "data_dir" ∨ ∃ k : Key, key = k.name := by
  simp only [CHAIN_KEYS, List.mem_cons, List.not_mem_nil, or_false] at h
  rcases h with rfl | rfl | rfl | rfl | rfl | rfl | rfl | rfl | rfl | rfl | rfl | rfl | rfl | rfl
  · exact Or.inl rfl
  · exact Or.inr (Or.inr ⟨.rpcUrl, rfl⟩)
  · exact Or.inr (Or.inr ⟨.wsUrl, rfl⟩)
  · exact Or.inr (Or.inl rfl)
  · exact Or.inr (Or.inr ⟨.backfillFloor, rfl⟩)
  · exact Or.inr (Or.inr ⟨.requestInterval, rfl⟩)
  · exact Or.inr (Or.inr ⟨.concurrency, rfl⟩)
  · exact Or.inr (Or.inr ⟨.pollInterval, rfl⟩)
  · exact Or.inr (Or.inr ⟨.maxWait, rfl⟩)
  · exact Or.inr (Or.inr ⟨.wsIdleTimeout, rfl⟩)
  · exact Or.inr (Or.inr ⟨.prefetchDelayCap, rfl⟩)
  · exact Or.inr (Or.inr ⟨.ingestLogs, rfl⟩)
  · exact Or.inr (Or.inr ⟨.joinBufferCap, rfl⟩)
  · exact Or.inr (Or.inr ⟨.summaryPeriod, rfl⟩)

/-- Every key of a chain's table is a scalar. -/
theorem leaf_chain_known (x : Chain) {key : String} (h : key ∈ CHAIN_KEYS) :
    Leaf X ["chains", x.asStr, key] := by
  rcases chain_key_cases h with rfl | rfl | ⟨k, rfl⟩
  · exact leaf_chain (fun _ _ hf => ⟨_, (chainFile_field hf).1⟩) fun _ => rfl
  · exact leaf_chain_dataDir x
  · exact leaf_chain_key x k

theorem isSome_get_of_at {t : Table} {k : String} {rest : List String} {v : Value}
    (h : Table.at t (k :: rest) = some v) : (Table.get t k).isSome = true := by
  rw [Table.at_cons] at h
  obtain ⟨w, hw, -⟩ := Option.bind_eq_some_iff.mp h
  rw [hw]
  rfl

/-- An accepted path starts with a key of the document. -/
theorem Accepted.head {k : String} {rest : List String} {v : Value}
    (h : Accepted X (k :: rest) v) : k ∈ FILE_KEYS := by
  obtain ⟨before, after, file, hset, hfile⟩ := h
  exact known_of_denyUnknown (fileOf_known hfile) (isSome_get_of_at (at_setPath_self hset))

/-- An accepted path below a chain is one of the chain's keys, and no longer. -/
theorem Accepted.below_chain {name key : String} {rest : List String} {v : Value}
    (h : Accepted X ("chains" :: name :: key :: rest) v) :
    ∃ x : Chain, name = x.asStr ∧ key ∈ CHAIN_KEYS ∧ rest = [] := by
  obtain ⟨before, after, file, hset, hfile⟩ := h
  have hself := at_setPath_self hset
  rcases at_below_of_optField (fileOf_reads hfile).chains with
    ⟨-, hat⟩ | ⟨sub, files, -, hfiles, hat⟩
  · rw [hat] at hself
    cases hself
  rw [hat] at hself
  obtain ⟨x, rfl⟩ := chainFiles_known hfiles (isSome_get_of_at hself)
  rcases at_below_of_optField (chainFiles_field hfiles x) with
    ⟨-, hat'⟩ | ⟨inner, f, -, hf, hat'⟩
  · rw [hat'] at hself
    cases hself
  rw [hat'] at hself
  have hkey := known_of_denyUnknown (chainFile_known hf) (isSome_get_of_at hself)
  refine ⟨x, rfl, hkey, ?_⟩
  by_contra hrest
  -- a longer path would have made a table of a scalar key
  have hstart : ["chains", x.asStr, key] <+: "chains" :: x.asStr :: key :: rest :=
    ⟨rest, rfl⟩
  obtain ⟨deep, hdeep⟩ := at_setPath_start hset hstart (by simpa using Ne.symm hrest)
  have hscalar := (leaf_chain_known x hkey).scalar after file hfile _ hdeep
  cases hscalar

/-! ## What an accepted argument gives -/

theorem setOverride_eq_some {arg : String} {o : Override} (h : setOverride X arg = some o) :
    ∃ key raw, splitOnce '=' arg = some (key, raw) ∧ o.path = split '.' key ∧
      o.value = parseScalar X raw := by
  obtain ⟨⟨key, raw⟩, hsplit, rfl⟩ := Option.map_eq_some_iff.mp h
  exact ⟨key, raw, hsplit, rfl, rfl⟩

/-- Nothing stands in the way of a write to the empty document. -/
theorem setPath_nil {path : List String} (h : path ≠ []) (v : Value) :
    ∃ doc, setPath [] path v = .ok doc := by
  induction path with
  | nil => exact absurd rfl h
  | cons k rest ih =>
      cases rest with
      | nil => exact ⟨_, rfl⟩
      | cons next rest =>
          obtain ⟨sub, hsub⟩ := ih (List.cons_ne_nil _ _)
          simp only [setPath, Table.get_nil, hsub]
          exact ⟨_, rfl⟩

theorem alone_of_setOverride {arg : String} {o : Override} (h : setOverride X arg = some o) :
    ∃ doc, setPath [] o.path o.value = .ok doc ∧ alone X arg = some doc := by
  obtain ⟨key, raw, -, hpath, -⟩ := setOverride_eq_some h
  have hne : o.path ≠ [] := by
    rw [hpath, split, ne_eq, List.map_eq_nil_iff]
    exact List.splitOn_ne_nil _ _
  obtain ⟨doc, hdoc⟩ := setPath_nil hne o.value
  refine ⟨doc, hdoc, ?_⟩
  rw [alone, h, Option.bind_some, hdoc]
  rfl

/-- What an argument with a key of at least three segments gives for a chain. -/
theorem given_of_long {arg : String} {o : Override} (h : setOverride X arg = some o)
    (hacc : Accepted X o.path o.value) (hlong : 2 < o.path.length) {x : Chain} {v : Value}
    (hv : given X arg x = some v) :
    ∃ key ∈ CHAIN_KEYS, o.path = ["chains", x.asStr, key] ∧ v = .table [(key, o.value)] := by
  obtain ⟨doc, hdoc, halone⟩ := alone_of_setOverride h
  rw [given, halone, Option.bind_some] at hv
  -- the chain's table stands above what was written, so the path goes through it
  have hbelow : ["chains", x.asStr] <+: o.path := by
    by_contra hpre
    have hpost : ¬ o.path <+: ["chains", x.asStr] := by
      intro hle
      exact absurd hle.length_le (Nat.not_le.mpr hlong)
    rw [at_setPath_other hdoc hpost hpre] at hv
    cases hv
  obtain ⟨rest, hpath⟩ := hbelow
  cases rest with
  | nil =>
      rw [← hpath] at hlong
      exact absurd hlong (Nat.lt_irrefl 2)
  | cons key rest =>
      have hpath' : o.path = "chains" :: x.asStr :: key :: rest := hpath.symm
      rw [hpath'] at hacc hdoc ⊢
      obtain ⟨-, -, hkey, rfl⟩ := hacc.below_chain
      refine ⟨key, hkey, rfl, ?_⟩
      rw [← Except.ok.inj hdoc, Table.at_cons, Table.get_insert_self, Option.bind_some,
        Value.at_table, at_singleton, Table.get_insert_self] at hv
      exact (Option.some.inj hv).symm

/-! ## The raw reading of a key -/

/-- No key of a document starts with white space. -/
theorem first_of_file_key {k : String} (h : k ∈ FILE_KEYS) {c : Char}
    (hc : k.toList.head? = some c) : isWhiteSpace c = false := by
  have hall : ∀ k ∈ FILE_KEYS, k.toList.head?.all (fun c => !isWhiteSpace c) = true := by
    decide
  have hk := hall k h
  rw [hc] at hk
  simpa using hk

/-- No key of a chain ends with white space. -/
theorem last_of_chain_key {k : String} (h : k ∈ CHAIN_KEYS) :
    ∃ c, k.toList.getLast? = some c ∧ isWhiteSpace c = false := by
  have hall : ∀ k ∈ CHAIN_KEYS, k.toList.getLast?.any (fun c => !isWhiteSpace c) = true := by
    decide
  have hk := hall k h
  cases hc : k.toList.getLast? with
  | none =>
      rw [hc] at hk
      cases hk
  | some c =>
      rw [hc] at hk
      exact ⟨c, rfl, by simpa using hk⟩

/-- A key of a chain is read untrimmed as it is read trimmed. -/
theorem trim_chain_key {x : Chain} {name key : String} (hkey : key ∈ CHAIN_KEYS)
    (h : split '.' name = ["chains", x.asStr, key]) : trim name = name := by
  have hname := toList_of_split h
  simp only [List.map_cons, List.map_nil, List.intercalate_cons_cons,
    List.intercalate_singleton] at hname
  obtain ⟨last, hlast, hspace⟩ := last_of_chain_key hkey
  have hfirst : name.toList.head? = some 'c' := by
    rw [hname]
    rfl
  have hend : name.toList.getLast? = some last := by
    rw [hname, List.getLast?_append, List.getLast?_append, List.getLast?_append,
      List.getLast?_append, hlast]
    rfl
  exact trim_eq_self hfirst hend (by decide) hspace

theorem enabled_toList (x : Chain) : s!"chains.{x.asStr}.enabled".toList
    = ['.'].intercalate ["chains".toList, x.asStr.toList, "enabled".toList] := by
  cases x <;> rfl

theorem dot_not_mem {cs : List Char} (h : ∀ c ∈ cs, isWhiteSpace c = true) : '.' ∉ cs := by
  intro hmem
  have := h '.' hmem
  revert this
  decide

/-- An accepted key that is `chains.<x>.enabled` when trimmed is so untrimmed. -/
theorem split_of_trim_enabled {x : Chain} {name : String} {v : Value}
    (h : trim name = s!"chains.{x.asStr}.enabled") (hacc : Accepted X (split '.' name) v) :
    split '.' name = ["chains", x.asStr, "enabled"] := by
  obtain ⟨before, after, hname, hbefore, hafter⟩ := trim_spaces name
  rw [h, enabled_toList] at hname
  have hparts : split '.' name
      = [String.ofList (before ++ "chains".toList), x.asStr,
          String.ofList ("enabled".toList ++ after)] := by
    have hjoin : name.toList = ['.'].intercalate
        [before ++ "chains".toList, x.asStr.toList, "enabled".toList ++ after] := by
      rw [hname]
      simp only [List.intercalate_cons_cons, List.intercalate_singleton, List.append_assoc]
    have hfree : ∀ part ∈ [before ++ "chains".toList, x.asStr.toList,
        "enabled".toList ++ after], '.' ∉ part := by
      intro part hpart
      simp only [List.mem_cons, List.not_mem_nil, or_false] at hpart
      rcases hpart with rfl | rfl | rfl
      · rw [List.mem_append, not_or]
        exact ⟨dot_not_mem hbefore, by decide⟩
      · cases x <;> decide
      · rw [List.mem_append, not_or]
        exact ⟨by decide, dot_not_mem hafter⟩
    have hsplit := split_of_toList hjoin hfree (List.cons_ne_nil _ _)
    rw [List.map_cons, List.map_cons, List.map_cons, List.map_nil, String.ofList_toList] at hsplit
    exact hsplit
  rw [hparts] at hacc ⊢
  -- the first segment is a key of the document, so nothing was trimmed off before it
  have hb : before = [] := by
    cases before with
    | nil => rfl
    | cons c cs =>
        have hc := first_of_file_key hacc.head
          (c := c) (by rw [String.toList_ofList]; rfl)
        rw [hbefore c (List.mem_cons_self ..)] at hc
        cases hc
  subst hb
  -- and the last is a key of the chain, so nothing was trimmed off after it
  have hchains : String.ofList ([] ++ "chains".toList) = "chains" := by
    rw [List.nil_append, String.ofList_toList]
  rw [hchains] at hacc ⊢
  obtain ⟨_, -, hkey, -⟩ := hacc.below_chain
  have ha : after = [] := by
    obtain ⟨last, hlast, hspace⟩ := last_of_chain_key hkey
    rw [String.toList_ofList, List.getLast?_append] at hlast
    cases hend : after.getLast? with
    | none => exact List.getLast?_eq_none_iff.mp hend
    | some c =>
        rw [hend, Option.some_or] at hlast
        rw [← Option.some.inj hlast, hafter c (List.mem_of_getLast? hend)] at hspace
        cases hspace
  rw [ha, List.append_nil, String.ofList_toList]

theorem trim_of_split_enabled {x : Chain} {name : String}
    (h : split '.' name = ["chains", x.asStr, "enabled"]) :
    trim name = s!"chains.{x.asStr}.enabled" := by
  rw [trim_chain_key (by decide) h]
  refine String.toList_inj.mp ?_
  rw [enabled_toList, toList_of_split h]
  rfl

/-! ## What is refused -/

theorem rejectSets_tail {enabled : List Chain} {arg : String} {args : List String}
    (h : rejectSetsForIdleChains enabled (arg :: args) = .ok ()) :
    rejectSetsForIdleChains enabled args = .ok () := by
  rw [rejectSetsForIdleChains] at h
  cases hs : splitOnce '=' arg with
  | none =>
      rw [hs] at h
      exact h
  | some pair =>
      rw [hs] at h
      dsimp only at h
      split at h
      · rename_i name field rest hparts
        cases hname : chainOfName name with
        | none =>
            rw [hname] at h
            exact h
        | some x =>
            rw [hname] at h
            dsimp only at h
            by_cases hx : field = "enabled" ∨ x ∈ enabled
            · rw [if_pos hx] at h
              exact h
            · rw [if_neg hx] at h
              cases h
      · exact h

/-- What was not refused for its idle chain is for a chain that is served. -/
theorem rejectSets_ok {enabled : List Chain} {args : List String}
    (h : rejectSetsForIdleChains enabled args = .ok ()) {arg key raw : String}
    (harg : arg ∈ args) (hsplit : splitOnce '=' arg = some (key, raw)) {x : Chain}
    {field : String} {rest : List String}
    (hkey : split '.' (trim key) = "chains" :: x.asStr :: field :: rest)
    (hfield : field ≠ "enabled") : x ∈ enabled := by
  induction args with
  | nil => cases harg
  | cons first args ih =>
      rcases List.mem_cons.mp harg with rfl | hmem
      · simp only [rejectSetsForIdleChains, hsplit, hkey, chainOfName_asStr] at h
        by_cases hx : field = "enabled" ∨ x ∈ enabled
        · exact hx.resolve_left hfield
        · rw [if_neg hx] at h
          cases h
      · exact ih (rejectSets_tail h) hmem

/-! ## What is selected -/

/-- Booleans are read as they are spelled. -/
structure ReadsBools (X : Formats) : Prop where
  yes : X.fromStr "v = true" = some [("v", .boolean true)]
  no : X.fromStr "v = false" = some [("v", .boolean false)]

theorem parseBool_eq_some {raw : String} {on : Bool} (h : parseBool raw = some on) :
    raw = "true" ∧ on = true ∨ raw = "false" ∧ on = false := by
  simp only [parseBool] at h
  by_cases ht : raw = "true"
  · rw [if_pos ht] at h
    exact Or.inl ⟨ht, (Option.some.inj h).symm⟩
  · rw [if_neg ht] at h
    by_cases hf : raw = "false"
    · rw [if_pos hf] at h
      exact Or.inr ⟨hf, (Option.some.inj h).symm⟩
    · rw [if_neg hf] at h
      cases h

theorem ReadsBools.parseScalar (hX : ReadsBools X) {raw : String} {on : Bool}
    (h : parseBool raw = some on) : parseScalar X raw = .boolean on := by
  have hread : X.fromStr s!"v = {raw}" = some [("v", .boolean on)] := by
    rcases parseBool_eq_some h with ⟨rfl, rfl⟩ | ⟨rfl, rfl⟩
    · exact hX.yes
    · exact hX.no
  rw [NeveConfig.parseScalar, hread]
  rfl

/-- The raw `enabled` keys are the ones that the merge reads. -/
theorem setEnabled_ok (hX : ReadsBools X) {x : Chain} {args : List String}
    (hacc : ∀ arg ∈ args, ∀ o, setOverride X arg = some o → Accepted X o.path o.value)
    {found out : Option Bool} (h : setEnabled x args found = .ok out) :
    out = (lastSpelled X args x).or found := by
  induction args generalizing found with
  | nil => exact (Except.ok.inj h).symm
  | cons arg args ih =>
      rw [List.forall_mem_cons] at hacc
      simp only [setEnabled] at h
      have hlast : ∀ on, spelledBy X x arg = on →
          lastSpelled X (arg :: args) x = (lastSpelled X args x).or on := by
        rintro on rfl
        rw [lastSpelled, lastSpelled]
        cases hon : spelledBy X x arg with
        | none => rw [List.filterMap_cons_none hon, Option.or_none]
        | some b =>
            rw [List.filterMap_cons_some hon, List.getLast?_cons]
            cases (args.filterMap (spelledBy X x)).getLast? <;> rfl
      cases hsplit : splitOnce '=' arg with
      | none =>
          rw [hsplit] at h
          have hnone : spelledBy X x arg = none := by
            simp only [spelledBy, setOverride, hsplit, Option.map_none, Option.bind_none]
          rw [hlast none hnone, Option.or_none]
          exact ih hacc.2 h
      | some pair =>
          obtain ⟨key, raw⟩ := pair
          rw [hsplit] at h
          dsimp only at h
          have ho : setOverride X arg
              = some ⟨split '.' key, parseScalar X raw, s!"`--set {key}={raw}`"⟩ := by
            rw [setOverride, hsplit, Option.map_some]
          by_cases hwanted : trim key = s!"chains.{x.asStr}.enabled"
          · rw [if_pos hwanted] at h
            have hpath := split_of_trim_enabled hwanted (hacc.1 _ ho)
            cases hraw : parseBool raw with
            | none =>
                rw [hraw] at h
                cases h
            | some b =>
                rw [hraw] at h
                have hspelled : spelledBy X x arg = some b := by
                  rw [spelledBy, ho, Option.bind_some, if_pos hpath, hX.parseScalar hraw]
                  rfl
                rw [hlast _ hspelled, Option.or_assoc]
                exact ih hacc.2 h
          · rw [if_neg hwanted] at h
            have hnone : spelledBy X x arg = none := by
              rw [spelledBy, ho, Option.bind_some, if_neg]
              intro hpath
              exact hwanted (trim_of_split_enabled hpath)
            rw [hlast none hnone, Option.or_none]
            exact ih hacc.2 h

theorem mem_dedup (chains out : List Chain) (x : Chain) :
    x ∈ chains.foldl (fun out chain => if out.contains chain then out else out ++ [chain]) out
      ↔ x ∈ out ∨ x ∈ chains := by
  induction chains generalizing out with
  | nil => simp
  | cons chain rest ih =>
      rw [List.foldl_cons, ih, List.mem_cons]
      by_cases hmem : out.contains chain = true
      · rw [if_pos hmem]
        rw [List.contains_iff_mem] at hmem
        constructor
        · rintro (h | h)
          · exact Or.inl h
          · exact Or.inr (Or.inr h)
        · rintro (h | rfl | h)
          · exact Or.inl h
          · exact Or.inl hmem
          · exact Or.inr h
      · rw [if_neg hmem, List.mem_append, List.mem_singleton, or_assoc]

/-- Deduplicating and sorting keeps every chain. -/
theorem mem_normalizeChains {chains enabled : List Chain}
    (h : normalizeChains chains = .ok enabled) (x : Chain) : x ∈ enabled ↔ x ∈ chains := by
  simp only [normalizeChains] at h
  by_cases hnil : chains.foldl
      (fun out chain => if out.contains chain then out else out ++ [chain]) [] = []
  · rw [if_pos hnil] at h
    cases h
  · rw [if_neg hnil] at h
    rw [← Except.ok.inj h, List.mem_insertionSort, mem_dedup]
    simp

/-- The chains that are on; whether one is was decided for each. -/
theorem chainsOn_ok {cli : Cli} {tree : Table} {declared : Option (List Chain)}
    {all chains : List Chain} (h : chainsOn cli tree declared all = .ok chains) (x : Chain) :
    (x ∈ all → ∃ on, chainOn cli tree declared x = .ok on) ∧
      (x ∈ chains ↔ x ∈ all ∧ chainOn cli tree declared x = .ok true) := by
  induction all generalizing chains with
  | nil =>
      rw [← Except.ok.inj h]
      simp
  | cons chain rest ih =>
      simp only [chainsOn] at h
      cases hon : chainOn cli tree declared chain with
      | error e =>
          rw [hon] at h
          cases h
      | ok on =>
          rw [hon] at h
          dsimp only at h
          cases hrest : chainsOn cli tree declared rest with
          | error e =>
              rw [hrest] at h
              cases h
          | ok others =>
              rw [hrest] at h
              obtain ⟨hall, hmem⟩ := ih hrest
              -- the chain itself joins the list exactly if it is on
              have hchains : (if on = true then chain :: others else others) = chains :=
                Except.ok.inj h
              rw [← hchains]
              refine ⟨?_, ?_⟩
              · intro hx
                rcases List.mem_cons.mp hx with rfl | hx
                · exact ⟨on, hon⟩
                · exact hall hx
              · cases on with
                | true =>
                    rw [if_pos rfl, List.mem_cons, List.mem_cons, hmem]
                    constructor
                    · rintro (rfl | ⟨hx, hxon⟩)
                      · exact ⟨Or.inl rfl, hon⟩
                      · exact ⟨Or.inr hx, hxon⟩
                    · rintro ⟨rfl | hx, hxon⟩
                      · exact Or.inl rfl
                      · exact Or.inr ⟨hx, hxon⟩
                | false =>
                    rw [if_neg Bool.false_ne_true, List.mem_cons, hmem]
                    constructor
                    · rintro ⟨hx, hxon⟩
                      exact ⟨Or.inr hx, hxon⟩
                    · rintro ⟨rfl | hx, hxon⟩
                      · rw [hon] at hxon
                        cases hxon
                      · exact ⟨hx, hxon⟩

/-- Whether a chain is on: as the last spelled `enabled` key says, else as the file. -/
theorem chainOn_ok (hX : ReadsBools X) {cli : Cli} {tree : Table}
    {declared : Option (List Chain)} {x : Chain} {on : Bool}
    (hacc : ∀ arg ∈ cli.set, ∀ o, setOverride X arg = some o → Accepted X o.path o.value)
    (hdeclared : declaredChains tree = .ok declared)
    (h : chainOn cli tree declared x = .ok on) :
    on = (lastSpelled X cli.set x).getD (fileOn tree x) := by
  simp only [chainOn] at h
  cases hset : setEnabled x cli.set none with
  | error e =>
      rw [hset] at h
      cases h
  | ok found =>
      rw [hset] at h
      -- a spelled key decides
      have hfound := setEnabled_ok hX hacc hset
      rw [Option.or_none] at hfound
      rw [← hfound]
      cases found with
      | some explicit => exact (Except.ok.inj h).symm
      | none =>
          dsimp only at h
          -- else the file: a chain it leaves out is off, one it names is on by default
          rw [declaredChains_contains hdeclared] at h
          rw [Option.getD_none, fileOn]
          cases hdecl : (!(Table.get tree "chains").isSome
              || (Table.at tree ["chains", x.asStr]).isSome) with
          | false =>
              rw [hdecl, if_neg Bool.false_ne_true] at h
              exact (Except.ok.inj h).symm
          | true =>
              rw [hdecl, if_pos rfl] at h
              rw [Bool.true_and]
              simp only [fileEnabled] at h
              cases hat : Table.at tree ["chains", x.asStr, "enabled"] with
              | none =>
                  rw [hat] at h
                  exact (Except.ok.inj h).symm
              | some v =>
                  rw [hat] at h
                  dsimp only at h
                  rw [Option.bind_some]
                  cases hv : asBool v with
                  | none =>
                      rw [hv] at h
                      cases h
                  | some b =>
                      rw [hv] at h
                      exact (Except.ok.inj h).symm

/-- **The spec of the selection**: what `--chains`, the spelled keys and the file choose. -/
theorem selectChains_chosen (hX : ReadsBools X) {cli : Cli} {tree : Table}
    {enabled : List Chain}
    (hacc : ∀ arg ∈ cli.set, ∀ o, setOverride X arg = some o → Accepted X o.path o.value)
    (h : selectChains cli tree = .ok enabled) (x : Chain) :
    x ∈ enabled ↔ chosen X cli tree x = true := by
  rcases selectChains_cases h with ⟨hcli, hnormal⟩ |
    ⟨hcli, declared, chains, hd, hon, hnormal⟩
  · rw [mem_normalizeChains hnormal, chosen, if_pos hcli, decide_eq_true_eq]
  · have hall : x ∈ ALL := by cases x <;> decide
    obtain ⟨hdecided, hmem⟩ := chainsOn_ok hon x
    obtain ⟨on, hxon⟩ := hdecided hall
    have hchosen : chosen X cli tree x = on := by
      rw [chosen, if_neg (not_not.mpr hcli), chainOn_ok hX hacc hd hxon]
    rw [mem_normalizeChains hnormal, hmem, hchosen, hxon]
    constructor
    · rintro ⟨-, htrue⟩
      exact Except.ok.inj htrue
    · rintro rfl
      exact ⟨hall, rfl⟩

/-! ## A run -/

/-- What a resolution did with the `--set` arguments. -/
structure SetsRead (X : Formats) (cli : Cli) (tree : Table) (r : Resolved) : Prop where
  accepted : ∀ arg ∈ cli.set, ∀ o, setOverride X arg = some o → Accepted X o.path o.value
  selected : selectChains cli tree = .ok (r.chains.map Prod.fst)
  allowed : rejectSetsForIdleChains (r.chains.map Prod.fst) cli.set = .ok ()

theorem resolveWith_sets {cli : Cli} {files : Files} {env : Env} {r : Resolved} {tree : Table}
    (h : resolveWith X cli files env = .ok r) (hload : loadTree X cli files env = .ok tree) :
    SetsRead X cli tree r := by
  obtain ⟨res⟩ := resolveWith_ok h
  obtain ⟨tree', hload', h⟩ := bind_eq_ok h
  obtain ⟨enabled, hselect, h⟩ := bind_eq_ok h
  obtain ⟨_, hallowed, -⟩ := bind_eq_ok h
  obtain rfl : tree' = tree := Except.ok.inj (hload'.symm.trans hload)
  have htree : res.tree = tree' := Except.ok.inj (res.loaded.symm.trans hload)
  have hselect' := res.selected
  rw [htree, ← res.chains_eq] at hselect'
  have hsame : enabled = r.chains.map Prod.fst := Except.ok.inj (hselect.symm.trans hselect')
  refine ⟨?_, hselect', hsame ▸ hallowed⟩
  intro arg harg o ho
  obtain ⟨-, hreads⟩ := applyAll_ok res.merge
  exact hreads o (List.mem_append_right _ (List.mem_filterMap.mpr ⟨arg, harg, ho⟩))

/-- What an argument with a key of three segments gives was not refused. -/
theorem SetsRead.served {cli : Cli} {tree : Table} {r : Resolved} (h : SetsRead X cli tree r)
    {arg : String} (harg : arg ∈ cli.set) {o : Override} (ho : setOverride X arg = some o)
    (hlong : 2 < o.path.length) {x : Chain} {v : Value} (hv : given X arg x = some v)
    (honly : ¬ OnlyEnabled v) : x ∈ r.chains.map Prod.fst := by
  obtain ⟨key, hkey, hpath, rfl⟩ := given_of_long ho (h.accepted arg harg o ho) hlong hv
  obtain ⟨name, raw, hsplit, hname, -⟩ := setOverride_eq_some ho
  rw [hpath] at hname
  have htrim : split '.' (trim name) = ["chains", x.asStr, key] := by
    rw [trim_chain_key hkey hname.symm, ← hname]
  refine rejectSets_ok h.allowed harg hsplit htrim ?_
  rintro rfl
  exact honly ⟨o.value, rfl⟩

theorem given_of_head {arg : String} {o : Override} (h : setOverride X arg = some o)
    (hhead : o.path.head? ≠ some "chains") (x : Chain) : given X arg x = none := by
  obtain ⟨doc, hdoc, halone⟩ := alone_of_setOverride h
  rw [given, halone, Option.bind_some]
  cases hpath : o.path with
  | nil =>
      rw [hpath] at hdoc
      cases hdoc
  | cons k rest =>
      rw [hpath] at hdoc hhead
      have hk : k ≠ "chains" := by
        rintro rfl
        exact hhead rfl
      rw [at_setPath_other hdoc]
      · rfl
      · intro hle
        exact hk (List.cons_prefix_cons.mp hle).1
      · intro hle
        exact hk (List.cons_prefix_cons.mp hle).1.symm

theorem enabledBy_eq (arg : String) (x : Chain) :
    enabledBy X x arg = ((given X arg x).bind fun v => v.at ["enabled"]).bind asBool := by
  rw [enabledBy, given]
  cases alone X arg with
  | none => rfl
  | some doc =>
      rw [Option.bind_some, Option.bind_some, ← Table.at_append]
      rfl

/-- Whether a key has three segments, or lies outside `chains`. -/
def Spelled (path : List String) : Prop := 2 < path.length ∨ path.head? ≠ some "chains"

/-- Of such a key the two readings are the same. -/
theorem enabledBy_eq_spelledBy {arg : String} {o : Override} (h : setOverride X arg = some o)
    (hacc : Accepted X o.path o.value) (hspelled : Spelled o.path) (x : Chain) :
    enabledBy X x arg = spelledBy X x arg := by
  rw [spelledBy, h, Option.bind_some]
  by_cases hpath : o.path = ["chains", x.asStr, "enabled"]
  · obtain ⟨doc, hdoc, halone⟩ := alone_of_setOverride h
    rw [hpath] at hdoc
    rw [if_pos hpath, enabledBy, halone, Option.bind_some, at_setPath_self hdoc,
      Option.bind_some]
  · rw [if_neg hpath, enabledBy_eq]
    cases hv : given X arg x with
    | none => rfl
    | some v =>
        rcases hspelled with hlong | hhead
        · obtain ⟨key, -, hlong', rfl⟩ := given_of_long h hacc hlong hv
          have hkey : "enabled" ≠ key := by
            rintro rfl
            exact hpath hlong'
          rw [Option.bind_some, Value.at_table, at_singleton, Table.get_cons, if_neg hkey]
          rfl
        · rw [given_of_head h hhead] at hv
          cases hv

/-- Arguments whose keys have three segments leave no inline table to disagree. -/
theorem SetsRead.inlineAgrees {cli : Cli} {tree : Table} {r : Resolved}
    (h : SetsRead X cli tree r)
    (hspelled : ∀ arg ∈ cli.set, ∀ o, setOverride X arg = some o → Spelled o.path) :
    InlineAgrees X cli tree := by
  refine ⟨?_, ?_⟩
  · intro arg harg o ho hshort x v hv _
    rcases hspelled arg harg o ho with hlong | hhead
    · exact absurd hlong (Nat.not_lt.mpr hshort)
    · rw [given_of_head ho hhead] at hv
      cases hv
  · intro hcli x on hon
    have hsame : cli.set.filterMap (enabledBy X x) = cli.set.filterMap (spelledBy X x) := by
      refine List.filterMap_congr ?_
      intro arg harg
      cases ho : setOverride X arg with
      | none => rw [enabledBy, alone, spelledBy, ho]; rfl
      | some o =>
          exact enabledBy_eq_spelledBy ho (h.accepted arg harg o ho) (hspelled arg harg o ho) x
    rw [lastEnabled, hsame] at hon
    rw [chosen, if_neg (not_not.mpr hcli), lastSpelled, hon, Option.getD_some]

/-- **An accepted `--set` is in effect exactly when the inline tables say nothing new**:
    when what they give is for chains that `--chains`, the spelled `enabled` keys and the
    file choose, and the `enabled` values in them are the chosen ones. -/
theorem set_took_effect_iff (hX : ReadsBools X) {cli : Cli} {files : Files} {env : Env}
    {r : Resolved} {tree : Table} (h : resolveWith X cli files env = .ok r)
    (hload : loadTree X cli files env = .ok tree) :
    TookEffect X cli r ↔ InlineAgrees X cli tree := by
  have hsets := resolveWith_sets h hload
  have hchosen := selectChains_chosen hX hsets.accepted hsets.selected
  constructor
  · intro heffect
    refine ⟨?_, ?_⟩
    · intro arg harg o _ _ x v hv honly
      exact (hchosen x).mp (heffect.served arg harg x v hv honly)
    · intro hcli x on hon
      have hiff := (hchosen x).symm.trans (heffect.enabled hcli x on hon)
      exact Bool.eq_iff_iff.mpr hiff
  · intro hagrees
    refine ⟨?_, ?_⟩
    · intro arg harg x v hv honly
      cases ho : setOverride X arg with
      | none =>
          rw [given, alone, ho] at hv
          cases hv
      | some o =>
          by_cases hlong : 2 < o.path.length
          · exact hsets.served harg ho hlong hv honly
          · exact (hchosen x).mpr
              (hagrees.tables arg harg o ho (Nat.not_lt.mp hlong) x v hv honly)
    · intro hcli x on hon
      rw [hchosen x, hagrees.enabled hcli x on hon]

/-- Formats that read booleans and two inline tables. -/
def inlineFormats : Formats :=
  { plainFormats with
    fromStr := fun text =>
      if text = "v = true" then some [("v", .boolean true)]
      else if text = "v = false" then some [("v", .boolean false)]
      else if text = "v = \x7benabled=false\x7d" then
        some [("v", .table [("enabled", .boolean false)])]
      else if text = "v = \x7bconcurrency=4\x7d" then
        some [("v", .table [("concurrency", .integer 4)])]
      else none }

theorem inlineFormats_readsBools : ReadsBools inlineFormats where
  yes := rfl
  no := rfl

theorem set_took_effect_iff_max_wait :
    TookEffect inlineFormats { Cli.bare with set := ["chains.c.max_wait=5s"] }
      { sampleResolved 0 (sampleNotices []) with
        chains := [(.C, { sampleChain .C 0 with maxWait := 5 * 10 ^ 9 }),
          (.P, sampleChain .P 0)] } := by
  have hresolve : resolveWith inlineFormats { Cli.bare with set := ["chains.c.max_wait=5s"] }
      (fun _ => .missing) ⟨fun _ => none, none⟩ = .ok { sampleResolved 0 (sampleNotices []) with
        chains := [(.C, { sampleChain .C 0 with maxWait := 5 * 10 ^ 9 }),
          (.P, sampleChain .P 0)] } := by decide +kernel
  refine (set_took_effect_iff inlineFormats_readsBools hresolve rfl).mpr
    ((resolveWith_sets hresolve rfl).inlineAgrees ?_)
  intro arg harg o ho
  rw [List.mem_singleton.mp harg] at ho
  have hlength : (setOverride inlineFormats "chains.c.max_wait=5s").all
      (fun o => decide (2 < o.path.length)) = true := by decide
  rw [ho] at hlength
  exact Or.inl (of_decide_eq_true hlength)

/-- `--set chains.p={enabled=false}` leaves the P-chain on, and
    `--chains c --set chains.p={concurrency=4}` is accepted. -/
theorem inline_tables_without_effect :
    (∃ files env r, resolveWith inlineFormats
        { Cli.bare with set := ["chains.p=\x7benabled=false\x7d"] } files env = .ok r ∧
      ¬ TookEffect inlineFormats
        { Cli.bare with set := ["chains.p=\x7benabled=false\x7d"] } r) ∧
    ∃ files env r, resolveWith inlineFormats
        { Cli.bare with chains := [.C], set := ["chains.p=\x7bconcurrency=4\x7d"] }
        files env = .ok r ∧
      ¬ TookEffect inlineFormats
        { Cli.bare with chains := [.C], set := ["chains.p=\x7bconcurrency=4\x7d"] } r := by
  refine ⟨⟨fun _ => .missing, ⟨fun _ => none, none⟩, sampleResolved 0 (sampleNotices []),
    by decide +kernel, ?_⟩, fun _ => .missing, ⟨fun _ => none, none⟩,
    { sampleResolved 0 (sampleNotices []) with chains := [(.C, sampleChain .C 0)] },
    by decide +kernel, ?_⟩
  · intro heffect
    have hserved := (heffect.enabled rfl .P false rfl).mp (by decide)
    cases hserved
  · intro heffect
    have hgiven : given inlineFormats "chains.p=\x7bconcurrency=4\x7d" .P
        = some (.table [("concurrency", .integer 4)]) := rfl
    have hserved := heffect.served _ (List.mem_singleton.mpr rfl) .P _ hgiven (by
      rintro ⟨on, hon⟩
      have hkey := (Prod.mk.inj (List.cons.inj (Value.table.inj hon)).1).1
      exact absurd hkey (by decide))
    exact absurd hserved (by decide)

end NeveConfig
