import Neve.StorageProofs
import Neve.StrTextProofs

/-! # Health — the report and its reader

    `GET /health` reports every running chain under its name, and the default chain
    once more at the top level, where a neve from before the `chains` map had its only
    one.  `upstream_blocks_field` reads a number back out, of one chain: from the map,
    or for the C-chain from the top level.

    The top level is the C-chain's where the C-chain runs.  Where it does not, it is
    the first chain's that does, and the reader takes it for the C-chain's
    (`reads_own_iff`). -/

namespace NeveHealth

open JsonValue NeveRecord NeveStorage

/-! ## The report -/

/-- The block range of one chain. -/
structure BlocksReport where
  minHeight : Option UInt64
  maxContiguousHeight : Option UInt64
  highWater : Option UInt64
  behind : UInt64

/-- The on-disk sizes of one chain. -/
structure StorageReport where
  dataDir : String
  blockdbBytes : UInt64
  blockdbHuman : String
  indexBytes : UInt64
  indexHuman : String
  totalBytes : UInt64
  totalHuman : String

structure ChainReport where
  network : String
  blocks : BlocksReport
  storage : StorageReport

/-- Sizes in bytes, where the platform reports them. -/
structure MemoryReport where
  physicalBytes : Option UInt64
  physicalHuman : Option String
  virtualBytes : Option UInt64
  virtualHuman : Option String

structure HealthReport where
  status : String
  version : String
  commit : String
  uptimeSecs : UInt64
  uptime : String
  defaultChain : String
  chainId : Option Nat
  blocks : BlocksReport
  storage : StorageReport
  chains : List (String × ChainReport)
  memory : MemoryReport

/-! ### Serialized -/

/-- `null`, or the value. -/
def nullable {α : Type} (f : α → Value) : Option α → Value
  | none => .null
  | some a => f a

def u64 (n : UInt64) : Value := .number (.posInt n)

def BlocksReport.toValue (r : BlocksReport) : Value :=
  .object [
    ("min_height", nullable u64 r.minHeight),
    ("max_contiguous_height", nullable u64 r.maxContiguousHeight),
    ("high_water", nullable u64 r.highWater),
    ("behind", u64 r.behind)]

def StorageReport.toValue (r : StorageReport) : Value :=
  .object [
    ("data_dir", .string r.dataDir),
    ("blockdb_bytes", u64 r.blockdbBytes),
    ("blockdb_human", .string r.blockdbHuman),
    ("index_bytes", u64 r.indexBytes),
    ("index_human", .string r.indexHuman),
    ("total_bytes", u64 r.totalBytes),
    ("total_human", .string r.totalHuman)]

def ChainReport.toValue (r : ChainReport) : Value :=
  .object [
    ("network", .string r.network),
    ("blocks", r.blocks.toValue),
    ("storage", r.storage.toValue)]

def MemoryReport.toValue (r : MemoryReport) : Value :=
  .object [
    ("physical_bytes", nullable u64 r.physicalBytes),
    ("physical_human", nullable .string r.physicalHuman),
    ("virtual_bytes", nullable u64 r.virtualBytes),
    ("virtual_human", nullable .string r.virtualHuman)]

def HealthReport.toValue (r : HealthReport) : Value :=
  .object [
    ("status", .string r.status),
    ("version", .string r.version),
    ("commit", .string r.commit),
    ("uptime_secs", u64 r.uptimeSecs),
    ("uptime", .string r.uptime),
    ("default_chain", .string r.defaultChain),
    ("chain_id", nullable (fun id => u64 (UInt64.ofNat id)) r.chainId),
    ("blocks", r.blocks.toValue),
    ("storage", r.storage.toValue),
    ("chains", .object (r.chains.map fun entry => (entry.1, entry.2.toValue))),
    ("memory", r.memory.toValue)]

/-! ## Building it -/

/-- One running chain: what it serves, and the sizes of its two directories as they
    are measured for this report. -/
structure ChainServe where
  chain : Chain
  storage : Storage
  dataDir : String
  identity : String
  behindTip : UInt64
  blockdbSize : UInt64
  indexSize : UInt64

/-- The process around the chains: its build, its uptime, its memory (physical and
    virtual), and how it spells durations and sizes. -/
structure Process where
  version : String
  commit : String
  uptimeSecs : UInt64
  memory : Option (UInt64 × UInt64)
  formatDuration : UInt64 → String
  human : UInt64 → String

/-- `u64::saturating_add`. -/
def addBytes (a b : UInt64) : UInt64 := UInt64.ofNat (min (a.toNat + b.toNat) (2 ^ 64 - 1))

/-- One chain's block range and sizes.  A store anchored at height 0 reports 0 for all
    three heights, so emptiness decides whether they are null. -/
def buildChainReport (proc : Process) (c : ChainServe) : ChainReport :=
  let present (h : Nat) : Option UInt64 :=
    if c.storage.isEmpty then none else some (UInt64.ofNat h)
  let totalSize := addBytes c.blockdbSize c.indexSize
  { network := c.identity
    blocks := {
      minHeight := present c.storage.minHeight
      maxContiguousHeight := present c.storage.maxContiguousHeight
      highWater := present c.storage.highWater
      behind := c.behindTip }
    storage := {
      dataDir := c.dataDir
      blockdbBytes := c.blockdbSize
      blockdbHuman := proc.human c.blockdbSize
      indexBytes := c.indexSize
      indexHuman := proc.human c.indexSize
      totalBytes := totalSize
      totalHuman := proc.human totalSize } }

/-- Insertion into a map in key order. -/
def insertKey {α : Type} (k : String) (v : α) : List (String × α) → List (String × α)
  | [] => [(k, v)]
  | (k', v') :: rest =>
      if k = k' then (k, v) :: rest
      else if k < k' then (k, v) :: (k', v') :: rest
      else (k', v') :: insertKey k v rest

def chainReports (proc : Process) (chains : List ChainServe) : List (String × ChainReport) :=
  chains.foldl (fun m c => insertKey c.chain.asStr (buildChainReport proc c) m) []

/-- The chain behind the top-level fields: the C-chain when it is running, else the
    first there is. -/
def defaultServe (chains : List ChainServe) : Option ChainServe :=
  (chains.find? (·.chain = .C)).or chains.head?

/-- No chain's block range, and no chain's sizes. -/
def BlocksReport.default : BlocksReport := ⟨none, none, none, 0⟩
def StorageReport.default : StorageReport := ⟨"", 0, "", 0, "", 0, ""⟩

/-- The report of the chains that are running. -/
def buildHealthReport (proc : Process) (chains : List ChainServe) : HealthReport :=
  let reports := chainReports proc chains
  let ofDefault := (defaultServe chains).bind fun c => reports.lookup c.chain.asStr
  { status := "ok"
    version := proc.version
    commit := proc.commit
    uptimeSecs := proc.uptimeSecs
    uptime := proc.formatDuration proc.uptimeSecs
    defaultChain := ((defaultServe chains).map fun c => c.chain.asStr).getD "none"
    chainId := (defaultServe chains).bind fun c => StrText.parseU64 c.identity
    blocks := (ofDefault.map ChainReport.blocks).getD .default
    storage := (ofDefault.map ChainReport.storage).getD .default
    chains := reports
    memory := {
      physicalBytes := proc.memory.map Prod.fst
      physicalHuman := proc.memory.map fun m => proc.human m.1
      virtualBytes := proc.memory.map Prod.snd
      virtualHuman := proc.memory.map fun m => proc.human m.2 } }

/-- The body of the answer, as the document it spells. -/
def buildHealthResponse (proc : Process) (chains : List ChainServe) : Value :=
  (buildHealthReport proc chains).toValue

/-! ## Reading it -/

/-- The index an array token names: digits without a sign or a leading zero. -/
def parseIndex (token : String) : Option Nat :=
  match token.toList with
  | '+' :: _ => none
  | '0' :: _ :: _ => none
  | _ => StrText.parseU64 token

/-- What a token of a JSON pointer names in a value. -/
def item (token : String) : Value → Option Value
  | .object fields => fields.lookup token
  | .array items => (parseIndex token).bind (items[·]?)
  | _ => none

/-- `Value::pointer`, by the pointer's tokens. -/
def pointer : List String → Value → Option Value
  | [], v => some v
  | token :: rest, v => (item token v).bind (pointer rest)

/-- Read `blocks.<field>` of a chain out of an upstream's report: from its own entry,
    or for the C-chain from the top level. -/
def upstreamBlocksField (v : Value) (chain : Chain) (field : String) : Option Nat :=
  let perChain := (pointer ["chains", chain.asStr, "blocks", field] v).bind Value.asU64
  if perChain.isSome then perChain
  else if chain ≠ .C then none
  else (pointer ["blocks", field] v).bind Value.asU64

/-! ## The fields of a block range -/

inductive BlocksField where
  | minHeight
  | maxContiguousHeight
  | highWater
  | behind
  deriving DecidableEq

namespace BlocksField

def name : BlocksField → String
  | minHeight => "min_height"
  | maxContiguousHeight => "max_contiguous_height"
  | highWater => "high_water"
  | behind => "behind"

def of (r : BlocksReport) : BlocksField → Option UInt64
  | minHeight => r.minHeight
  | maxContiguousHeight => r.maxContiguousHeight
  | highWater => r.highWater
  | behind => some r.behind

end BlocksField

/-- What a running chain has to say: the heights of its store, and how far it is
    behind. -/
def ChainServe.value (c : ChainServe) : BlocksField → UInt64
  | .minHeight => UInt64.ofNat c.storage.minHeight
  | .maxContiguousHeight => UInt64.ofNat c.storage.maxContiguousHeight
  | .highWater => UInt64.ofNat c.storage.highWater
  | .behind => c.behindTip

theorem asU64_nullable (n : Option UInt64) : (nullable u64 n).asU64 = n.map UInt64.toNat := by
  cases n with
  | none => rfl
  | some n => rfl

/-- A serialized block range, read at a field. -/
theorem pointer_blocks (r : BlocksReport) (f : BlocksField) :
    (pointer [f.name] r.toValue).bind Value.asU64 = (f.of r).map UInt64.toNat := by
  cases f with
  | behind => rfl
  | _ => exact asU64_nullable _

/-- Only `behind` has a value on an empty store. -/
theorem of_buildChainReport (proc : Process) (c : ChainServe) (f : BlocksField) :
    f.of (buildChainReport proc c).blocks
      = if c.storage.isEmpty = true ∧ f ≠ .behind then none else some (c.value f) := by
  cases hempty : c.storage.isEmpty with
  | true => cases f <;> simp [BlocksField.of, buildChainReport, ChainServe.value, hempty]
  | false => cases f <;> simp [BlocksField.of, buildChainReport, ChainServe.value, hempty]

/-! ## The map of the chains -/

section InsertKey

variable {α β : Type}

theorem lookup_insertKey (k : String) (v : α) (m : List (String × α)) (j : String) :
    (insertKey k v m).lookup j = if j = k then some v else m.lookup j := by
  induction m with
  | nil =>
      rw [insertKey, List.lookup_cons]
      by_cases hj : j = k
      · rw [if_pos hj, hj, beq_self_eq_true]
      · rw [if_neg hj, beq_false_of_ne hj]
  | cons entry rest ih =>
      obtain ⟨k', v'⟩ := entry
      rw [insertKey]
      by_cases hk : k = k'
      · rw [if_pos hk, List.lookup_cons, List.lookup_cons, ← hk]
        by_cases hj : j = k
        · rw [if_pos hj, hj, beq_self_eq_true]
        · rw [if_neg hj, beq_false_of_ne hj]
      · rw [if_neg hk]
        by_cases hlt : k < k'
        · rw [if_pos hlt, List.lookup_cons]
          by_cases hj : j = k
          · rw [if_pos hj, hj, beq_self_eq_true]
          · rw [if_neg hj, beq_false_of_ne hj]
        · rw [if_neg hlt, List.lookup_cons, ih, List.lookup_cons]
          by_cases hj' : j = k'
          · rw [hj', beq_self_eq_true]
            exact (if_neg (Ne.symm hk)).symm
          · rw [beq_false_of_ne hj']

theorem lookup_map_snd (f : α → β) (m : List (String × α)) (k : String) :
    (m.map fun entry => (entry.1, f entry.2)).lookup k = (m.lookup k).map f := by
  induction m with
  | nil => rfl
  | cons entry rest ih =>
      rw [List.map_cons, List.lookup_cons, List.lookup_cons, ih]
      cases k == entry.1 <;> rfl

end InsertKey

/-- The running chain of a name. -/
def served (chains : List ChainServe) (x : Chain) : Option ChainServe :=
  chains.find? (·.chain = x)

/-- Later entries of the map leave the entry of a chain that is not among them. -/
theorem lookup_foldl (proc : Process) {chains : List ChainServe}
    (hnodup : (chains.map ChainServe.chain).Nodup) (m : List (String × ChainReport))
    (x : Chain) :
    (chains.foldl (fun m c => insertKey c.chain.asStr (buildChainReport proc c) m) m).lookup
        x.asStr
      = ((served chains x).map (buildChainReport proc)).or (m.lookup x.asStr) := by
  induction chains generalizing m with
  | nil => rfl
  | cons c rest ih =>
      obtain ⟨hnew, hrest⟩ := List.nodup_cons.mp hnodup
      rw [List.foldl_cons, ih hrest, lookup_insertKey]
      simp only [served, List.find?_cons]
      by_cases hx : c.chain = x
      · have hnone : rest.find? (fun d => decide (d.chain = x)) = none := by
          rw [List.find?_eq_none]
          intro d hd
          rw [decide_eq_true_eq]
          intro hdx
          exact hnew (List.mem_map.mpr ⟨d, hd, hdx.trans hx.symm⟩)
        rw [hnone, if_pos (congrArg Chain.asStr hx.symm), decide_eq_true hx]
        rfl
      · rw [if_neg fun h => hx (Chain.asStr_inj h).symm, decide_eq_false hx]

/-- **The map has the report of every chain that runs**, and of no other. -/
theorem lookup_chainReports (proc : Process) {chains : List ChainServe}
    (hnodup : (chains.map ChainServe.chain).Nodup) (x : Chain) :
    (chainReports proc chains).lookup x.asStr
      = (served chains x).map (buildChainReport proc) := by
  rw [chainReports, lookup_foldl proc hnodup]
  exact Option.or_none

/-! ## What the reader gets -/

section Reading

variable (proc : Process) {chains : List ChainServe}

/-- The reader's first look: the chain's entry of the map. -/
theorem pointer_chains (hnodup : (chains.map ChainServe.chain).Nodup) (x : Chain)
    (f : BlocksField) :
    (pointer ["chains", x.asStr, "blocks", f.name] (buildHealthResponse proc chains)).bind
        Value.asU64
      = ((served chains x).bind fun c => f.of (buildChainReport proc c).blocks).map
          UInt64.toNat := by
  have hentry : pointer ["chains", x.asStr, "blocks", f.name] (buildHealthResponse proc chains)
      = (((chainReports proc chains).map fun entry => (entry.1, entry.2.toValue)).lookup
          x.asStr).bind (pointer ["blocks", f.name]) := rfl
  rw [hentry, lookup_map_snd, lookup_chainReports proc hnodup]
  cases served chains x with
  | none => rfl
  | some c => exact pointer_blocks (buildChainReport proc c).blocks f

/-- The default chain is one that runs. -/
theorem served_default {c : ChainServe} (h : defaultServe chains = some c) :
    served chains c.chain = some c := by
  rw [defaultServe] at h
  cases hc : chains.find? (fun d => decide (d.chain = .C)) with
  | some d =>
      rw [hc] at h
      obtain rfl : d = c := Option.some.inj h
      have hchain : d.chain = .C := by
        have hfound := List.find?_some hc
        exact of_decide_eq_true hfound
      rw [served, hchain]
      exact hc
  | none =>
      rw [hc] at h
      obtain ⟨rest, rfl⟩ := List.head?_eq_some_iff.mp h
      rw [served, List.find?_cons, decide_eq_true rfl]

/-- The report at the top level: the C-chain's, or the first chain's. -/
theorem blocks_default (hnodup : (chains.map ChainServe.chain).Nodup) :
    (buildHealthReport proc chains).blocks
      = ((defaultServe chains).map fun c => (buildChainReport proc c).blocks).getD
          .default := by
  simp only [buildHealthReport]
  cases hdefault : defaultServe chains with
  | none => rfl
  | some c =>
      rw [Option.bind_some, lookup_chainReports proc hnodup, served_default hdefault]
      rfl

/-- The reader's second look, at the top level. -/
theorem pointer_top (f : BlocksField) :
    (pointer ["blocks", f.name] (buildHealthResponse proc chains)).bind Value.asU64
      = (f.of (buildHealthReport proc chains).blocks).map UInt64.toNat :=
  pointer_blocks (buildHealthReport proc chains).blocks f

/-- Both looks together. -/
theorem upstreamBlocksField_eq (hnodup : (chains.map ChainServe.chain).Nodup) (x : Chain)
    (f : BlocksField) :
    upstreamBlocksField (buildHealthResponse proc chains) x f.name
      = (((served chains x).bind fun c => f.of (buildChainReport proc c).blocks).or
          (if x = .C then f.of (buildHealthReport proc chains).blocks else none)).map
            UInt64.toNat := by
  simp only [upstreamBlocksField, pointer_chains proc hnodup]
  cases (served chains x).bind fun c => f.of (buildChainReport proc c).blocks with
  | some n => rfl
  | none =>
      by_cases hx : x = .C
      · rw [if_pos hx, if_neg (not_not.mpr hx)]
        exact pointer_top proc f
      · rw [if_neg hx, if_pos hx]
        rfl

/-- What the reader should get: the chain's own value, where the chain is served and
    its store is not empty. -/
def ownField (chains : List ChainServe) (x : Chain) (f : BlocksField) : Option Nat :=
  ((served chains x).filter fun c => !c.storage.isEmpty).map fun c => (c.value f).toNat

/-- The chain is another than the C-chain, or the C-chain runs, or nothing stands at the
    top level that could be taken for it; and `behind`, which is never null, is not asked
    of an empty store. -/
structure OwnReadable (chains : List ChainServe) (x : Chain) (f : BlocksField) : Prop where
  running : ∀ c, served chains x = some c → f = .behind → c.storage.isEmpty = false
  idle : served chains x = none → x = .C →
    f ≠ .behind ∧ ∀ c, chains.head? = some c → c.storage.isEmpty = true

/-- Where the C-chain does not run, nothing stands at the top level exactly if the first
    chain that does has an empty store, and not at `behind`. -/
theorem top_of_idle (hnodup : (chains.map ChainServe.chain).Nodup)
    (hidle : served chains .C = none) (f : BlocksField) :
    f.of (buildHealthReport proc chains).blocks = none ↔
      f ≠ .behind ∧ ∀ c, chains.head? = some c → c.storage.isEmpty = true := by
  have hdefault : defaultServe chains = chains.head? := by
    rw [defaultServe]
    rw [served] at hidle
    rw [hidle]
    rfl
  rw [blocks_default proc hnodup, hdefault]
  cases hhead : chains.head? with
  | none =>
      show f.of BlocksReport.default = none ↔ _
      cases f with
      | behind => simp [BlocksField.of]
      | _ => simp [BlocksField.of, BlocksReport.default]
  | some c =>
      show f.of (buildChainReport proc c).blocks = none ↔ _
      rw [of_buildChainReport, ite_eq_left_iff, and_comm]
      simp only [reduceCtorEq, imp_false, not_not]
      refine and_congr_right fun _ => ⟨?_, fun hall => hall c rfl⟩
      intro hempty d hd
      rw [← Option.some.inj hd]
      exact hempty

/-- **The reader gets the chain's own value, or none, exactly then.** -/
theorem reads_own_iff (hnodup : (chains.map ChainServe.chain).Nodup) (x : Chain)
    (f : BlocksField) :
    upstreamBlocksField (buildHealthResponse proc chains) x f.name = ownField chains x f ↔
      OwnReadable chains x f := by
  rw [upstreamBlocksField_eq proc hnodup]
  cases hserved : served chains x with
  | none =>
      have hown : ownField chains x f = none := by
        rw [ownField, hserved]
        rfl
      rw [hown, Option.map_eq_none_iff, Option.bind_none, Option.none_or]
      have hiff : OwnReadable chains x f ↔ (x = .C →
          f ≠ .behind ∧ ∀ c, chains.head? = some c → c.storage.isEmpty = true) := by
        constructor
        · exact fun h => h.idle hserved
        · intro h
          refine ⟨?_, fun _ => h⟩
          intro c hc
          rw [hserved] at hc
          cases hc
      rw [hiff]
      by_cases hx : x = .C
      · rw [if_pos hx, top_of_idle proc hnodup (hx ▸ hserved)]
        exact ⟨fun h _ => h, fun h => h hx⟩
      · rw [if_neg hx]
        exact ⟨fun _ h => absurd h hx, fun _ => rfl⟩
  | some c =>
      have hiff : OwnReadable chains x f ↔ (f = .behind → c.storage.isEmpty = false) := by
        constructor
        · exact fun h => h.running c hserved
        · intro h
          refine ⟨?_, ?_⟩
          · intro d hd
            rw [hserved] at hd
            exact Option.some.inj hd ▸ h
          · intro hnone
            rw [hserved] at hnone
            cases hnone
      rw [hiff, ownField, hserved, Option.bind_some, of_buildChainReport]
      cases hempty : c.storage.isEmpty with
      | false =>
          have hkept : Option.filter (fun c => !c.storage.isEmpty) (some c) = some c := by
            rw [Option.filter_some, if_pos (by rw [hempty]; rfl)]
          rw [hkept, if_neg fun h => Bool.false_ne_true h.1, Option.some_or]
          exact ⟨fun _ _ => rfl, fun _ => rfl⟩
      | true =>
          have hdropped : Option.filter (fun c => !c.storage.isEmpty) (some c) = none := by
            rw [Option.filter_some, if_neg (by rw [hempty]; decide)]
          rw [hdropped, Option.map_none, Option.map_eq_none_iff]
          by_cases hf : f = .behind
          · -- a count, also of an empty store
            rw [hf, if_neg fun h => h.2 rfl]
            constructor
            · intro h
              cases h
            · intro h
              cases h rfl
          · refine ⟨fun _ h => absurd h hf, fun _ => ?_⟩
            rw [if_pos ⟨rfl, hf⟩, Option.none_or]
            by_cases hx : x = .C
            · -- the top level is the C-chain's own
              have hdefault : defaultServe chains = some c := by
                rw [served, hx] at hserved
                rw [defaultServe, hserved]
                rfl
              rw [if_pos hx, blocks_default proc hnodup, hdefault]
              exact (of_buildChainReport proc c f).trans (if_pos ⟨hempty, hf⟩)
            · exact if_neg hx

end Reading

/-! ### A neve that serves the P-chain only -/

/-- A build that measures nothing. -/
def bareProcess : Process := ⟨"0.1.0", "0c1ea6d", 0, none, fun _ => "0s", fun _ => "0 B"⟩

/-- The P-chain, from block 700 on. -/
def pchainServe : ChainServe where
  chain := .P
  storage := { Storage.fresh memory .P none with
    store := some (Store.holding 700 [(700, [])] fun _ he => by rw [List.mem_singleton.mp he]) }
  dataDir := "./p"
  identity := "11111111111111111111111111111111LpoYY"
  behindTip := 0
  blockdbSize := 0
  indexSize := 0

/-- Its own reader gets 700. -/
theorem reads_own_iff_pchain :
    upstreamBlocksField (buildHealthResponse bareProcess [pchainServe]) .P "min_height"
      = some 700 := by
  have hnodup : ([pchainServe].map ChainServe.chain).Nodup := by decide
  have hreadable : OwnReadable [pchainServe] .P .minHeight := by
    constructor
    · intro c hc hbehind
      cases hbehind
    · intro hidle
      cases hidle
  exact (reads_own_iff bareProcess hnodup .P .minHeight).mpr hreadable

/-- A C-chain mirror of it gets 700 as well. -/
theorem cchain_reads_pchain :
    ¬ ∀ (proc : Process) (chains : List ChainServe), (chains.map ChainServe.chain).Nodup →
      ∀ (x : Chain) (f : BlocksField),
        upstreamBlocksField (buildHealthResponse proc chains) x f.name
          = ownField chains x f := by
  intro hall
  have hread : upstreamBlocksField (buildHealthResponse bareProcess [pchainServe]) .C
      "min_height" = some 700 := by decide
  have hown : ownField [pchainServe] .C .minHeight = none := rfl
  have h := hall bareProcess [pchainServe] (by decide) .C .minHeight
  rw [hown] at h
  rw [show BlocksField.minHeight.name = "min_height" from rfl, hread] at h
  cases h

end NeveHealth
