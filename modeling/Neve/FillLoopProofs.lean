import Neve.EthInstanceProofs

/-! # Fill loops — an iteration makes progress or sleeps

    Both chains fill their stores with a loop that measures, fills a bounded run
    of heights and measures again.  An iteration that does not raise the store's
    contiguous height should sleep, or the loop re-fetches the same heights as
    fast as the upstream answers.

    On the C-chain a run that completes has stored every height from its start
    to its end, so it raises the contiguous height whenever nothing from height one
    on is missing below its start (`OnTrack`).  On the P-chain a run that completes has stored
    all its heights but a reward proposal held at its end (`fillRange_true`). -/

namespace NeveFillLoop

open JsonValue ByteText FirstGap NeveRecord NeveStorage NeveEthIngest NeveEthBackfill
open NevePlatformIngest NevePlatformCodec NeveFrontier NeveEthInstance Outcome

/-- The iteration slept, or the contiguous height rose from its start to its end. -/
def Iteration.ProgressOrSleep (it : Iteration) : Prop :=
  it.sleep.isSome ∨ it.before < it.after

/-- The minimum height and the stored heights are 64-bit numbers. -/
structure Bounded (s : Storage) : Prop where
  floor : FloorFits s
  has : ∀ k, s.Has k → k < 2 ^ 64

theorem bounded_of_none {s : Storage} (h : s.store = none) : Bounded s := by
  constructor
  · intro st hst
    rw [h] at hst
    cases hst
  · rintro k ⟨st, hst, -⟩
    rw [h] at hst
    cases hst

theorem Bounded.wrote {s s' : Storage} {height : Nat} (h : Bounded s)
    (hlt : height < 2 ^ 64) (hw : Wrote height s s') : Bounded s' := by
  refine ⟨h.floor.wrote hlt hw, ?_⟩
  intro k hk
  rcases hw.has hk with rfl | hk
  · exact hlt
  · exact h.has k hk

theorem highWater_lt {s : Storage} (h : Bounded s) : s.highWater < 2 ^ 64 := by
  cases hs : s.store with
  | none => simp [Storage.highWater, hs]
  | some st =>
      simp only [Storage.highWater, hs, Option.map_some, Option.getD_some]
      rcases st.heightHighwater_cases with hhas | ⟨-, heq⟩
      · exact h.has _ ⟨st, hs, hhas⟩
      · have := h.floor st hs
        omega

/-! ## The C-chain loop -/

section Backfill

variable {J : Codec} {cfg : IngestCfg} {i i' : Instance}

/-- Everything from the store's floor, or from height one if that is higher, up to
    `cursor` is stored. -/
def FilledTo (s : Storage) (floor : Option Nat) (cursor : Nat) : Prop :=
  ∀ k, storeFloor s floor ≤ k → 0 < k → k < cursor → s.Has k

theorem FilledTo.lt_of_none {s : Storage} {floor : Option Nat} {cursor : Nat}
    (h : FilledTo s floor cursor) (hs : s.store = none) : cursor ≤ max 1 (floor.getD 0) := by
  by_contra hgt
  obtain ⟨st, hst, -⟩ := h (max 1 (floor.getD 0)) (by simp [storeFloor, hs]) (by omega)
    (by omega)
  rw [hs] at hst
  cases hst

/-- A store filled past `stop` has at least that contiguous height. -/
theorem le_maxContiguousHeight {s : Storage} {floor : Option Nat} {stop : Nat}
    (hfilled : FilledTo s floor (stop + 1)) (hpos : 0 < stop) (hfloor : floor.getD 0 ≤ stop) :
    stop ≤ s.maxContiguousHeight := by
  cases hs : s.store with
  | none =>
      -- nothing is stored yet, although `stop` itself should be
      have := hfilled.lt_of_none hs
      omega
  | some st =>
      rw [Storage.maxContiguousHeight_of_store hs]
      by_contra hlt
      -- the height above the frontier is stored, being one of those filled
      have hgap := st.isFirstGap_frontier
      obtain ⟨st', hst', hhas⟩ := hfilled (st.maxContiguousHeight + 1)
        (by have := hgap.le; simp only [storeFloor, hs, Option.map_some, Option.getD_some]; omega)
        (Nat.succ_pos _) (by omega)
      rw [← Option.some.inj (hs.symm.trans hst')] at hhas
      exact hgap.gap hhas

/-- While a run from `next` to `stop` is filled up to `cursor`: the contiguous
    height has risen already, or everything below the cursor is stored. -/
structure OnTrack (cfg : IngestCfg) (i : Instance) (next stop cursor : Nat) : Prop where
  start : i.before ≤ i.storage.maxContiguousHeight
  next_le : next ≤ stop
  cursor_ge : next ≤ cursor
  stop_lt : stop < 2 ^ 64
  ahead : i.before < i.storage.maxContiguousHeight ∨
    (i.before < next ∧ cfg.floor.getD 0 ≤ next ∧ FilledTo i.storage cfg.floor cursor)

/-- A store that a write creates counts its frontier from the configured floor on, or has
    one above zero already. -/
def Counts (floor : Option Nat) (st : Store) : Prop :=
  floor.getD 0 ≤ max 1 st.minHeight ∨ 0 < st.maxContiguousHeight

/-- A write keeps a run on track, unless it creates the store below the configured floor
    with a frontier of zero. -/
theorem OnTrack.grows {next stop cursor : Nat} (h : OnTrack cfg i next stop cursor)
    (hbefore : i'.before = i.before) (hgrows : Grows i.storage i'.storage)
    (hcreate : i.storage.store = none → ∀ st, i'.storage.store = some st →
      Counts cfg.floor st) :
    OnTrack cfg i' next stop cursor := by
  have hmono := hgrows.maxContiguousHeight_le
  refine ⟨hbefore ▸ Nat.le_trans h.start hmono, h.next_le, h.cursor_ge, h.stop_lt, ?_⟩
  rw [hbefore]
  rcases h.ahead with hahead | ⟨hnext, hfloor, hfilled⟩
  · exact Or.inl (Nat.lt_of_lt_of_le hahead hmono)
  cases hs : i.storage.store with
  | some st =>
      -- the minimum height stays, so the store's floor does too
      obtain ⟨st', hst', hmin⟩ := hgrows.minHeight st hs
      refine Or.inr ⟨hnext, hfloor, ?_⟩
      intro k hlo hpos hhi
      refine hgrows.has k (hfilled k ?_ hpos hhi)
      simpa [storeFloor, hs, hst', hmin] using hlo
  | none =>
      have hzero := Storage.maxContiguousHeight_of_none hs
      have hstart := h.start
      -- with no store yet nothing is filled, so the cursor is still at the floor
      have hcursor := hfilled.lt_of_none hs
      cases hs' : i'.storage.store with
      | none =>
          refine Or.inr ⟨hnext, hfloor, ?_⟩
          intro k hlo hpos hhi
          simp only [storeFloor, hs', Option.map_none, Option.getD_none] at hlo
          omega
      | some st' =>
          rcases hcreate hs st' hs' with hmin | hrisen
          · refine Or.inr ⟨hnext, hfloor, ?_⟩
            intro k hlo hpos hhi
            simp only [storeFloor, hs', Option.map_some, Option.getD_some] at hlo
            omega
          · refine Or.inl ?_
            rw [Storage.maxContiguousHeight_of_store hs']
            omega

/-- An outcome of the fetch stage is a skip of a stored height or the block of
    its own height. -/
def FetchedOk (s : Storage) (fetched : List (Nat × Option Fetched)) : Prop :=
  ∀ height f, (height, some f) ∈ fetched →
    (f = .Skip ∧ s.Has height) ∨ ∃ v logs, f = .Block height v logs

theorem FetchedOk.grows {s s' : Storage} {fetched : List (Nat × Option Fetched)}
    (h : FetchedOk s fetched) (hgrows : Grows s s') : FetchedOk s' fetched := by
  intro height f hmem
  rcases h height f hmem with ⟨hskip, hhas⟩ | hblock
  · exact Or.inl ⟨hskip, hgrows.has height hhas⟩
  · exact Or.inr hblock

/-- What holds wherever the loop is. -/
structure Base (cfg : IngestCfg) (i : Instance) : Prop where
  anchorFloor : i.storage.anchorFloor = cfg.floor
  bounded : Bounded i.storage
  task : ∀ height, i.task = .awaitingLogs height → height < 2 ^ 64
  tip : i.tip.height < 2 ^ 64
  iterations : ∀ it ∈ i.iterations, Iteration.ProgressOrSleep it

/-- What the phase of the loop adds. -/
def PhaseOk (cfg : IngestCfg) (i : Instance) : Prop :=
  match i.phase with
  | .top => True
  | .highWater hw => hw < 2 ^ 64 ∧ i.before ≤ i.storage.maxContiguousHeight
  | .contiguous hw rawContiguous =>
      hw < 2 ^ 64 ∧ i.before ≤ rawContiguous ∧
        rawContiguous ≤ i.storage.maxContiguousHeight
  | .loading next stop _ => OnTrack cfg i next stop next
  | .filling next stop _ cursor fetched =>
      OnTrack cfg i next stop cursor ∧ cursor ≤ stop ∧ FetchedOk i.storage fetched

/-- Is the loop between its decision to fill and the end of that fill? -/
def Instance.filling (i : Instance) : Prop :=
  match i.phase with
  | .loading .. => True
  | .filling .. => True
  | _ => False

/-- The side condition of a step.  When a pass decides to fill, nothing from height one
    on is missing between the store's floor and the configured one; and while a fill is
    under way no live write creates the store below the configured floor with a frontier
    of zero. -/
def BackfillCond (J : Codec) (cfg : IngestCfg) (i : Instance) : Action → Prop
  | .ingest a =>
      Instance.filling i → i.storage.store = none →
        ∀ i' st, ingestStep J cfg i a = some i' → i'.storage.store = some st →
          Counts cfg.floor st
  | .backfill (.readTip aged response) =>
      ∀ hw rawContiguous next stop target, i.phase = .contiguous hw rawContiguous →
        measure hw rawContiguous (readTip cfg i.tip hw rawContiguous aged response).height
          cfg.floor = .fill next stop target →
        FilledTo i.storage cfg.floor (cfg.floor.getD 0)
  | .backfill _ => True

/-- Ending an iteration is fine after a sleep or after progress. -/
theorem Base.endIteration {sleep : Option Sleep} (h : Base cfg i)
    (hprogress : sleep.isSome ∨ i.before < i.storage.maxContiguousHeight) :
    Base cfg (i.endIteration sleep) ∧ PhaseOk cfg (i.endIteration sleep) := by
  refine ⟨⟨h.anchorFloor, h.bounded, h.task, h.tip, ?_⟩, trivial⟩
  intro it hit
  rcases List.mem_cons.mp hit with rfl | hit
  · exact hprogress
  · exact h.iterations it hit

/-- Moving the cursor on: past the end of the run the iteration has made
    progress. -/
theorem Base.fillFrom {next stop target cursor : Nat}
    {fetched : List (Nat × Option Fetched)} (h : Base cfg i)
    (htrack : OnTrack cfg i next stop cursor) (hcursor : cursor ≤ stop + 1)
    (hfetched : FetchedOk i.storage fetched) :
    Base cfg (i.fillFrom next stop target cursor fetched) ∧
      PhaseOk cfg (i.fillFrom next stop target cursor fetched) := by
  simp only [Instance.fillFrom]
  by_cases hend : stop < cursor
  · rw [if_pos hend]
    refine h.endIteration (Or.inr ?_)
    rcases htrack.ahead with hahead | ⟨hnext, hfloor, hfilled⟩
    · exact hahead
    · have heq : cursor = stop + 1 := by omega
      rw [heq] at hfilled
      have hnext_le := htrack.next_le
      have hle := le_maxContiguousHeight hfilled (by omega) (Nat.le_trans hfloor hnext_le)
      omega
  · rw [if_neg hend]
    refine ⟨⟨h.anchorFloor, h.bounded, h.task, h.tip, h.iterations⟩, ?_⟩
    have htrack' : OnTrack cfg
        { i with phase := .filling next stop target cursor fetched } next stop cursor :=
      ⟨htrack.start, htrack.next_le, htrack.cursor_ge, htrack.stop_lt, htrack.ahead⟩
    exact ⟨htrack', by omega, hfetched⟩

theorem readTip_lt {tip : TipCache} (h : tip.height < 2 ^ 64) (cfg : IngestCfg)
    (hw rawContiguous : Nat) (aged : Bool) (response : Option Value) :
    (readTip cfg tip hw rawContiguous aged response).height < 2 ^ 64 := by
  have huncached : (tip.getUncached response).height < 2 ^ 64 := by
    simp only [TipCache.getUncached]
    cases hn : upstreamBlockNumber response with
    | none => exact h
    | some n => exact upstreamBlockNumber_lt hn
  simp only [readTip, TipCache.get]
  split
  · split
    · exact h
    · exact huncached
  · exact huncached

/-- A decision to fill starts on track when the floor is filled. -/
theorem onTrack_of_measure {hw rawContiguous tip next stop target : Nat}
    (hhw : hw < 2 ^ 64) (htip : tip < 2 ^ 64) (hbefore : i.before ≤ rawContiguous)
    (hraw : rawContiguous ≤ i.storage.maxContiguousHeight)
    (hfilled : FilledTo i.storage cfg.floor (cfg.floor.getD 0))
    (h : measure hw rawContiguous tip cfg.floor = .fill next stop target) :
    OnTrack cfg i next stop next := by
  obtain ⟨hnext, hstop, hlt⟩ := measure_fill hhw htip h
  refine ⟨Nat.le_trans hbefore hraw, hstop, Nat.le_refl next, hlt, Or.inr ⟨?_, ?_, ?_⟩⟩
  · omega
  · omega
  · intro k hlo hpos hhi
    rcases Nat.lt_or_ge k (cfg.floor.getD 0) with hk | hk
    · exact hfilled k hlo hpos hk
    -- from the floor on the start is not above the frontier
    cases hs : i.storage.store with
    | none =>
        have := Storage.maxContiguousHeight_of_none hs
        omega
    | some st =>
        rw [Storage.maxContiguousHeight_of_store hs] at hraw
        simp only [storeFloor, hs, Option.map_some, Option.getD_some] at hlo
        exact ⟨st, hs, st.isFirstGap_frontier.filled k (by omega) (by omega)⟩

/-- A step of the ingest task keeps what the loop relies on. -/
theorem paced_ingest {a : IngestAction} (hbase : Base cfg i) (hphase : PhaseOk cfg i)
    (hcond : BackfillCond J cfg i (.ingest a)) (h : ingestStep J cfg i a = some i') :
    Base cfg i' ∧ PhaseOk cfg i' := by
  have heff := ingestStep_effect h
  obtain ⟨hgrows, hbounded⟩ : Grows i.storage i'.storage ∧ Bounded i'.storage := by
    rcases heff.storage with hsame | ⟨height, hh, hw⟩
    · rw [hsame]
      exact ⟨Grows.refl _, hbase.bounded⟩
    · exact ⟨hw.grows, hbase.bounded.wrote (writeHeight_lt hbase.task hh) hw⟩
  have hcreate : Instance.filling i → i.storage.store = none →
      ∀ st, i'.storage.store = some st → Counts cfg.floor st :=
    fun hf hs st hst => hcond hf hs i' st h hst
  have hmono := hgrows.maxContiguousHeight_le
  refine ⟨⟨hgrows.anchorFloor.trans hbase.anchorFloor, hbounded, ?_, heff.tip ▸ hbase.tip,
    heff.iterations ▸ hbase.iterations⟩, ?_⟩
  · intro k hk
    rcases heff.task k hk with htask | hh
    · exact hbase.task k htask
    · exact writeHeight_lt hbase.task hh
  · simp only [PhaseOk, heff.phase, heff.before] at hphase ⊢
    split at hphase
    · trivial
    · exact ⟨hphase.1, Nat.le_trans hphase.2 hmono⟩
    · exact ⟨hphase.1, hphase.2.1, Nat.le_trans hphase.2.2 hmono⟩
    · rename_i next stop target heq
      refine hphase.grows heff.before hgrows (hcreate ?_)
      simp only [Instance.filling, heq]
    · rename_i next stop target cursor fetched heq
      refine ⟨hphase.1.grows heff.before hgrows (hcreate ?_), hphase.2.1,
        hphase.2.2.grows hgrows⟩
      simp only [Instance.filling, heq]

/-- Consuming one outcome stores the height at the cursor or sleeps. -/
theorem paced_consume {next stop target cursor : Nat}
    {fetched : List (Nat × Option Fetched)} {outcome : Option Fetched} (fault : Fault)
    (hbase : Base cfg i) (htrack : OnTrack cfg i next stop cursor) (hcursor : cursor ≤ stop)
    (hfetched : FetchedOk i.storage fetched) (hmem : (cursor, outcome) ∈ fetched) :
    Base cfg (consume J cfg i next stop target cursor fetched fault outcome) ∧
      PhaseOk cfg (consume J cfg i next stop target cursor fetched fault outcome) := by
  have hlt : cursor < 2 ^ 64 := Nat.lt_of_le_of_lt hcursor htrack.stop_lt
  -- with the height at the cursor stored the run is on track one further
  have hadvance : ∀ i1 : Instance, OnTrack cfg i1 next stop cursor →
      i1.storage.Has cursor → OnTrack cfg i1 next stop (cursor + 1) := by
    intro i1 h1 hhas
    refine ⟨h1.start, h1.next_le, Nat.le_succ_of_le h1.cursor_ge, h1.stop_lt, ?_⟩
    rcases h1.ahead with hahead | ⟨hnext, hfloor, hfilled⟩
    · exact Or.inl hahead
    · refine Or.inr ⟨hnext, hfloor, ?_⟩
      intro k hlo hpos hhi
      rcases Nat.lt_or_ge k cursor with hk | hk
      · exact hfilled k hlo hpos hk
      · rw [show k = cursor by omega]
        exact hhas
  cases outcome with
  | none => exact hbase.endIteration (Or.inl rfl)
  | some f =>
      rcases hfetched cursor f hmem with ⟨rfl, hhas⟩ | ⟨v, logs, rfl⟩
      · exact hbase.fillFrom (hadvance i htrack hhas) (by omega) hfetched
      · simp only [consume]
        have hw := persistBackfilled_wrote J i.storage fault cursor v
          (logsHalf J cfg i.logs cursor logs).1
        split
        · rename_i e s heq
          rw [heq] at hw
          have hbase' : Base cfg { i with storage := s } :=
            ⟨hw.grows.anchorFloor.trans hbase.anchorFloor, hbase.bounded.wrote hlt hw,
              hbase.task, hbase.tip, hbase.iterations⟩
          exact hbase'.endIteration (Or.inl rfl)
        · rename_i s heq
          have hhas := persistBackfilled_ok heq
          rw [heq] at hw
          have hbase' : Base cfg { i with storage := s, behindTip := target - cursor } :=
            ⟨hw.grows.anchorFloor.trans hbase.anchorFloor, hbase.bounded.wrote hlt hw,
              hbase.task, hbase.tip, hbase.iterations⟩
          -- a store created here starts at the floor, which the cursor is not below
          have hcreate : i.storage.store = none → ∀ st, s.store = some st →
              Counts cfg.floor st := by
            intro hnone st hst
            rcases htrack.ahead with hahead | ⟨-, hfloor, -⟩
            · rw [Storage.maxContiguousHeight_of_none hnone] at hahead
              exact absurd hahead (Nat.not_lt_zero _)
            · refine Or.inl ?_
              have hle := Nat.le_trans hfloor htrack.cursor_ge
              rw [hw.created hnone hst]
              rw [← hbase.anchorFloor] at hle ⊢
              exact Nat.le_trans (Storage.le_anchor hle) (Nat.le_max_right _ _)
          have htrack' : OnTrack cfg { i with storage := s, behindTip := target - cursor }
              next stop cursor := htrack.grows rfl hw.grows hcreate
          exact hbase'.fillFrom (hadvance _ htrack' hhas) (by omega) (hfetched.grows hw.grows)

/-- A step of the backfill task keeps what the loop relies on, and every
    iteration it ends has slept or made progress. -/
theorem paced_backfill {a : BackfillAction} (hbase : Base cfg i) (hphase : PhaseOk cfg i)
    (hcond : BackfillCond J cfg i (.backfill a)) (h : backfillStep J cfg i a = some i') :
    Base cfg i' ∧ PhaseOk cfg i' := by
  cases backfillStep_turn h with
  | cold htop _ hcold =>
      have hbase' : Base cfg { i with before := i.storage.maxContiguousHeight } :=
        ⟨hbase.anchorFloor, hbase.bounded, hbase.task, hbase.tip, hbase.iterations⟩
      exact hbase'.endIteration (Or.inl rfl)
  | highWater htop _ hwarm =>
      exact ⟨⟨hbase.anchorFloor, hbase.bounded, hbase.task, hbase.tip, hbase.iterations⟩,
        highWater_lt hbase.bounded, Nat.le_refl _⟩
  | contiguous hw heq =>
      simp only [PhaseOk, heq] at hphase
      exact ⟨⟨hbase.anchorFloor, hbase.bounded, hbase.task, hbase.tip, hbase.iterations⟩,
        hphase.1, hphase.2, Nat.le_refl _⟩
  | decided aged response hw rawContiguous tip heq hread =>
      simp only [PhaseOk, heq] at hphase
      obtain ⟨hhw, hbefore, hraw⟩ := hphase
      have htip := readTip_lt hbase.tip cfg hw rawContiguous aged response
      -- the condition speaks of the window that this measure opens
      have hfloor := hcond hw rawContiguous
      rw [hread] at htip hfloor
      -- asleep, asleep, or a window that starts at the first hole
      cases hm : measure hw rawContiguous tip.height cfg.floor with
      | coldStart =>
          have hbase' : Base cfg { i with tip := tip } :=
            ⟨hbase.anchorFloor, hbase.bounded, hbase.task, htip, hbase.iterations⟩
          exact hbase'.endIteration (Or.inl rfl)
      | caughtUp =>
          have hbase' : Base cfg { i with tip := tip, behindTip := 0 } :=
            ⟨hbase.anchorFloor, hbase.bounded, hbase.task, htip, hbase.iterations⟩
          exact hbase'.endIteration (Or.inl rfl)
      | fill next stop target =>
          have hbase' :
              Base cfg { i with tip := tip, behindTip := target - (next - 1) } :=
            ⟨hbase.anchorFloor, hbase.bounded, hbase.task, htip, hbase.iterations⟩
          have htrack := onTrack_of_measure (i := i) hhw htip hbefore hraw
            (hfloor next stop target heq hm) hm
          simp only [Instance.decide]
          split
          · exact ⟨⟨hbase.anchorFloor, hbase.bounded, hbase.task, htip, hbase.iterations⟩,
              htrack.start, htrack.next_le, htrack.cursor_ge, htrack.stop_lt, htrack.ahead⟩
          · have htrack' : OnTrack cfg
                { i with tip := tip, behindTip := target - (next - 1) } next stop next :=
              ⟨htrack.start, htrack.next_le, htrack.cursor_ge, htrack.stop_lt, htrack.ahead⟩
            exact hbase'.fillFrom htrack' (by have := htrack.next_le; omega)
              (fun _ _ hmem => nomatch hmem)
  | unanswered result next stop target heq hlogs =>
      -- no logs for the window: back off
      exact hbase.endIteration (Or.inl rfl)
  | loaded result logs next stop target heq hlogs =>
      simp only [PhaseOk, heq] at hphase
      have hbase' : Base cfg { i with
          logs := LogWindow.load logs
          replies := .getLogs next stop logs :: i.replies } :=
        ⟨hbase.anchorFloor, hbase.bounded, hbase.task, hbase.tip, hbase.iterations⟩
      have htrack : OnTrack cfg { i with
          logs := LogWindow.load logs
          replies := .getLogs next stop logs :: i.replies } next stop next :=
        ⟨hphase.start, hphase.next_le, hphase.cursor_ge, hphase.stop_lt, hphase.ahead⟩
      exact hbase'.fillFrom htrack (by have := hphase.next_le; omega)
        (fun _ _ hmem => nomatch hmem)
  | fetched height block receipts next stop target cursor outcomes heq _ _ _ _ =>
      simp only [PhaseOk, heq] at hphase
      obtain ⟨htrack, hcursor, hfetched⟩ := hphase
      refine ⟨⟨hbase.anchorFloor, hbase.bounded, hbase.task, hbase.tip,
        hbase.iterations⟩, ?_, hcursor, ?_⟩
      · exact ⟨htrack.start, htrack.next_le, htrack.cursor_ge, htrack.stop_lt, htrack.ahead⟩
      -- the new outcome is a skip of a stored height or a fetched block
      · intro k f hmem
        rcases List.mem_cons.mp hmem with hhd | hmem
        · obtain ⟨rfl, hf⟩ := Prod.mk.inj hhd
          rcases fetchOne_cases hf.symm with hskip | ⟨v, logs, hblock, -, -⟩
          · exact Or.inl hskip
          · exact Or.inr ⟨v, logs, hblock⟩
        · exact hfetched k f hmem
  | consumed fault next stop target cursor outcomes outcome heq hlookup =>
      simp only [PhaseOk, heq] at hphase
      obtain ⟨htrack, hcursor, hfetched⟩ := hphase
      -- the one branch that writes
      exact paced_consume fault hbase htrack hcursor hfetched (mem_of_lookup hlookup)

/-- **The C-chain loop**: in every run whose steps meet the condition, every
    iteration that ended slept or raised the contiguous height. -/
theorem backfill_progress {s : Storage} {actions : List Action}
    (hanchor : s.anchorFloor = cfg.floor) (hbounded : Bounded s)
    (hcond : Run.Meets (step J cfg) (BackfillCond J cfg) (Instance.start cfg s) actions)
    (hrun : Run.exec (step J cfg) (Instance.start cfg s) actions = some i') :
    ∀ it ∈ i'.iterations, Iteration.ProgressOrSleep it := by
  have hinit : Base cfg (Instance.start cfg s) ∧ PhaseOk cfg (Instance.start cfg s) := by
    refine ⟨⟨hanchor, hbounded, ?_, ?_, fun _ h => nomatch h⟩, trivial⟩
    · intro height h
      simp only [Instance.start] at h
      split at h <;> cases h
    · simp [Instance.start, TipCache.new]
  have hstep : ∀ j a j', Base cfg j ∧ PhaseOk cfg j → BackfillCond J cfg j a →
      step J cfg j a = some j' → Base cfg j' ∧ PhaseOk cfg j' := by
    rintro j a j' ⟨hbase, hphase⟩ hc h
    cases a with
    | ingest a => exact paced_ingest hbase hphase hc h
    | backfill a => exact paced_backfill hbase hphase hc h
  exact (Run.exec_invariant (BackfillCond J cfg) hstep hinit hcond hrun).1.iterations

end Backfill

/-! ## The P-chain loop -/

/-- The state the P-chain ingest loop carries from pass to pass, with the
    iterations that ended. -/
structure PlatformLoop where
  pipeline : Pipeline
  tip : Nat
  tipRead : Bool
  iterations : List Iteration

/-- What one pass meets: whether the poll interval has elapsed, the tip should it
    be polled, whether anyone listens, the replies for each height and how each
    write goes. -/
structure Pass where
  elapsed : Bool
  polled : Option UInt64
  listening : Bool
  replies : Nat → HeightReply
  fault : Nat → Fault

namespace PlatformLoop

def start (pipeline : Pipeline) : PlatformLoop := ⟨pipeline, 0, false, []⟩

/-- The tip a pass goes by; `none` when polling it failed. -/
def passTip (l : PlatformLoop) (x : Pass) : Option Nat :=
  if !l.tipRead || x.elapsed then x.polled.map UInt64.toNat else some l.tip

/-- The height a pass starts from. -/
def next (floor : Option Nat) (l : PlatformLoop) (tip : Nat) : Nat :=
  nextHeight l.pipeline.storage.isEmpty l.pipeline.storage.maxContiguousHeight floor tip

/-- The last height of the run a pass fills. -/
def stop (floor : Option Nat) (l : PlatformLoop) (tip : Nat) : Nat :=
  min tip (saturatingAdd (l.next floor tip) (FILL_CHUNK - 1))

def endPass (l : PlatformLoop) (p : Pipeline) (tip : Nat) (sleep : Option Sleep) :
    PlatformLoop where
  pipeline := p
  tip := tip
  tipRead := true
  iterations := ⟨l.pipeline.storage.maxContiguousHeight, p.storage.maxContiguousHeight,
    sleep⟩ :: l.iterations

end PlatformLoop

section Platform

variable (J : Codec) (sha256 : Bytes → Bytes32) (floor : Option Nat)

/-- The heights of a run with their replies. -/
def heightReplies (x : Pass) (next stop : Nat) : List (Nat × HeightReply) :=
  (List.range' next (stop + 1 - next)).map fun height => (height, x.replies height)

/-- One iteration of the P-chain ingest loop. -/
def pass (l : PlatformLoop) (x : Pass) : PlatformLoop :=
  match l.passTip x with
  | none => l.endPass l.pipeline l.tip (some .poll)
  | some tip =>
      let next := l.next floor tip
      if tip < next then
        l.endPass { l.pipeline with behindTip := 0 } tip (some .caughtUp)
      else
        let out := fillRange J sha256 x.listening x.fault tip
          { l.pipeline with behindTip := tip - next + 1 } none
          (heightReplies x next (l.stop floor tip))
        l.endPass out.2 tip (if out.1 then none else some .backoff)

/-- One past the last height a run that completes writes: a reward proposal at
    its end is held. -/
def writtenEnd (x : Pass) (stop : Nat) : Nat :=
  if ((x.replies stop).json.bind rewardStakingTx).isSome then stop else stop + 1

/-- The side condition of a pass that fills a run: some height of it is written,
    above zero if it is the first write of the store, and a store that exists has
    room above its frontier. -/
def PassCond (l : PlatformLoop) (x : Pass) : Prop :=
  ∀ tip, l.passTip x = some tip → l.next floor tip ≤ tip →
    l.next floor tip < writtenEnd x (l.stop floor tip) ∧
    (l.pipeline.storage.store = none → 1 < writtenEnd x (l.stop floor tip)) ∧
    l.pipeline.storage.maxContiguousHeight < u64Max

end Platform

section PlatformRun

variable {J : Codec} {sha256 : Bytes → Bytes32} {floor : Option Nat} {fault : Nat → Fault}

theorem fillRange_grows (J : Codec) (sha256 : Bytes → Bytes32) (fault : Nat → Fault)
    (listening : Bool) (tip : Nat) (runs : List (Nat × HeightReply)) (p : Pipeline)
    (pending : Option FetchedBlock) :
    Grows p.storage (fillRange J sha256 listening fault tip p pending runs).2.storage :=
  fillRange_invariant (Q := fun _ => True)
    (fun _ fetched _ h _ => h.trans (storeBlock_wrote _ _ fetched _).grows)
    listening tip runs (fun _ _ _ _ => trivial) (Grows.refl _) fun _ _ => trivial

/-- **A run that completes** has stored the proposal held when it began, and each
    of its heights except a proposal still held at its end. -/
theorem fillRange_true {listening : Bool} {tip : Nat} {runs : List (Nat × HeightReply)}
    {p p' : Pipeline} {pending : Option FetchedBlock}
    (h : fillRange J sha256 listening fault tip p pending runs = (true, p')) :
    (∀ proposal, pending = some proposal → runs ≠ [] →
      p'.storage.Has proposal.height) ∧
    ∀ pre height r post, runs = pre ++ (height, r) :: post →
      post ≠ [] ∨ (r.json.bind rewardStakingTx).isSome = false →
      p'.storage.Has height := by
  induction runs generalizing p pending with
  | nil =>
      refine ⟨fun _ _ hne => absurd rfl hne, ?_⟩
      intro pre height r post heq
      exact absurd heq.symm (List.append_ne_nil_of_right_ne_nil _ (List.cons_ne_nil _ _))
  | cons hd rest ih =>
      obtain ⟨height0, r0⟩ := hd
      obtain ⟨fetched, p1, hfetch, hsettle, hrest⟩ := fillRange_cons_true h
      have hheight := fetchBlock_height hfetch
      have hreward := fetchBlock_rewardStakingTx hfetch
      -- whichever way it goes on, what `p1` holds is kept
      have hgrow : Grows p1.storage p'.storage := by
        rcases hrest with ⟨-, hfill⟩ | ⟨-, p2, hemit, hfill⟩
        · have := fillRange_grows J sha256 fault listening tip rest p1 (some fetched)
          rwa [hfill] at this
        · have h2 := fillRange_grows J sha256 fault listening tip rest p2 none
          rw [hfill] at h2
          have h1 := storeBlock_wrote p1.storage (fault fetched.height) fetched EMPTY_ARRAY
          rw [emit_true hemit] at h1
          exact h1.grows.trans h2
      constructor
      · rintro proposal rfl -
        simp only [settlePending] at hsettle
        split at hsettle
        · cases hsettle
        · exact hgrow.has _ (storeBlock_some (emit_true hsettle))
      · intro pre height r post heq hlast
        rcases hrest with ⟨hheld, hfill⟩ | ⟨hfree, p2, hemit, hfill⟩
        · cases pre with
          | nil =>
              obtain ⟨hhd, hrest⟩ := List.cons.inj heq
              obtain ⟨rfl, rfl⟩ := Prod.mk.inj hhd
              rw [hreward] at hheld
              rcases hlast with hne | hnot
              · rw [← hheight]
                exact (ih hfill).1 fetched rfl (hrest ▸ hne)
              · rw [hheld] at hnot
                cases hnot
          | cons e pre => exact (ih hfill).2 pre height r post (List.cons.inj heq).2 hlast
        · cases pre with
          | nil =>
              obtain ⟨hhd, -⟩ := List.cons.inj heq
              obtain ⟨rfl, rfl⟩ := Prod.mk.inj hhd
              rw [← hheight]
              have h2 := fillRange_grows J sha256 fault listening tip rest p2 none
              rw [hfill] at h2
              exact h2.has _ (storeBlock_some (emit_true hemit))
          | cons e pre => exact (ih hfill).2 pre height r post (List.cons.inj heq).2 hlast

theorem heightReplies_split (x : Pass) {next stop height : Nat} (hlo : next ≤ height)
    (hhi : height ≤ stop) :
    ∃ pre post, heightReplies x next stop = pre ++ (height, x.replies height) :: post ∧
      (height < stop → post ≠ []) := by
  refine ⟨(List.range' next (height - next)).map fun k => (k, x.replies k),
    (List.range' (height + 1) (stop - height)).map fun k => (k, x.replies k), ?_, ?_⟩
  · have hlen : stop + 1 - next = (height - next) + (stop - height + 1) := by omega
    have hstart : next + (height - next) = height := by omega
    rw [heightReplies, hlen, ← List.range'_append_1, hstart, List.range'_succ,
      List.map_append, List.map_cons]
  · intro hlt
    simp only [ne_eq, List.map_eq_nil_iff, List.range'_eq_nil_iff]
    omega

/-- The heights a run that completes has written. -/
theorem fillRange_written {x : Pass} {tip next stop : Nat} {p p' : Pipeline}
    (h : fillRange J sha256 x.listening x.fault tip p none (heightReplies x next stop)
      = (true, p')) {height : Nat} (hlo : next ≤ height)
    (hhi : height < writtenEnd x stop) : p'.storage.Has height := by
  have hle : height ≤ stop := by
    simp only [writtenEnd] at hhi
    split at hhi <;> omega
  obtain ⟨pre, post, hsplit, hpost⟩ := heightReplies_split x hlo hle
  refine (fillRange_true h).2 pre height (x.replies height) post hsplit ?_
  rcases Nat.lt_or_ge height stop with hlt | hge
  · exact Or.inl (hpost hlt)
  · -- the last height is written only when it is no reward proposal
    have heq : height = stop := by omega
    refine Or.inr ?_
    simp only [writtenEnd] at hhi
    split at hhi
    · omega
    · rename_i hfree
      rw [heq]
      exact Bool.eq_false_iff.mpr hfree

/-- The first write of a store puts its minimum height at the start of the run. -/
theorem fillRange_anchor {l : PlatformLoop} {x : Pass} {tip : Nat} {p : Pipeline}
    (hempty : l.pipeline.storage.store = none) (hanchor : p.storage.anchorFloor = floor)
    (hstore : p.storage.store = none) {st : Store}
    (h : (fillRange J sha256 x.listening x.fault tip p none
      (heightReplies x (l.next floor tip) (l.stop floor tip))).2.storage.store = some st) :
    st.minHeight = l.next floor tip := by
  have hnext : l.next floor tip = floor.getD tip := by
    simp [PlatformLoop.next, nextHeight, Storage.isEmpty, hempty]
  have hinv : ∀ s fetched v,
      s.anchorFloor = floor ∧ (∀ st, s.store = some st → st.minHeight = l.next floor tip) →
      l.next floor tip ≤ fetched.height ∧ fetched.height ≤ tip →
      (NevePlatformIngest.storeBlock s (x.fault fetched.height) fetched
          (J.toVec v)).2.anchorFloor = floor ∧
        ∀ st, (NevePlatformIngest.storeBlock s (x.fault fetched.height) fetched
          (J.toVec v)).2.store = some st → st.minHeight = l.next floor tip := by
    rintro s fetched v ⟨hfloor, hmin⟩ ⟨hlo, hhi⟩
    have hw := storeBlock_wrote s (x.fault fetched.height) fetched (J.toVec v)
    refine ⟨hw.grows.anchorFloor.trans hfloor, ?_⟩
    intro st hst
    cases hs : s.store with
    | some st0 =>
        obtain ⟨st1, hst1, heq⟩ := hw.grows.minHeight st0 hs
        rw [Option.some.inj (hst.symm.trans hst1), heq]
        exact hmin st0 hs
    | none =>
        rw [hw.created hs hst]
        cases hf : floor with
        | none =>
            -- with no floor the run is the tip alone
            rw [hf] at hnext hlo
            simp only [Storage.anchor, hfloor, hf, Option.filter_none, Option.getD_none]
            rw [hnext] at hlo ⊢
            simp only [Option.getD_none] at hlo ⊢
            omega
        | some f =>
            rw [hf] at hnext hlo
            rw [hnext, Option.getD_some] at hlo ⊢
            simp [Storage.anchor, hfloor, hf, Option.filter_some, hlo]
  refine (fillRange_invariant hinv x.listening tip _ ?_ ⟨hanchor, ?_⟩ ?_).2 st h
  · rintro ⟨height, r⟩ hmem fetched hfetch
    obtain ⟨k, hk, heq⟩ := List.mem_map.mp hmem
    obtain ⟨rfl, rfl⟩ := Prod.mk.inj heq
    rw [List.mem_range'_1] at hk
    have hstop : l.stop floor tip ≤ tip := Nat.min_le_left _ _
    rw [fetchBlock_height hfetch]
    omega
  · intro st hst
    rw [hstore] at hst
    cases hst
  · intro _ h
    cases h

/-- One pass that meets the condition sleeps or raises the contiguous height. -/
theorem pass_progress {l : PlatformLoop} {x : Pass}
    (hanchor : l.pipeline.storage.anchorFloor = floor) (hcond : PassCond floor l x)
    (hall : ∀ it ∈ l.iterations, Iteration.ProgressOrSleep it) :
    ∀ it ∈ (pass J sha256 floor l x).iterations, Iteration.ProgressOrSleep it := by
  have hend : ∀ p tip sleep, sleep.isSome = true ∨
      l.pipeline.storage.maxContiguousHeight < p.storage.maxContiguousHeight →
      ∀ it ∈ (l.endPass p tip sleep).iterations, Iteration.ProgressOrSleep it := by
    intro p tip sleep hprogress it hit
    rcases List.mem_cons.mp hit with rfl | hit
    · exact hprogress
    · exact hall it hit
  simp only [pass]
  cases htip : l.passTip x with
  | none => exact hend _ _ _ (Or.inl rfl)
  | some tip =>
  dsimp only
  by_cases hcaught : tip < l.next floor tip
  · rw [if_pos hcaught]
    exact hend _ _ _ (Or.inl rfl)
  rw [if_neg hcaught]
  obtain ⟨hwritten, hfirst, hroom⟩ := hcond tip htip (Nat.le_of_not_lt hcaught)
  generalize hp : ({ l.pipeline with behindTip := tip - l.next floor tip + 1 } : Pipeline) = p
  have hstorage : p.storage = l.pipeline.storage := by rw [← hp]
  have hgrows := fillRange_grows J sha256 x.fault x.listening tip
    (heightReplies x (l.next floor tip) (l.stop floor tip)) p none
  have hanchored := @fillRange_anchor J sha256 floor l x tip p
  cases hout : fillRange J sha256 x.listening x.fault tip p none
      (heightReplies x (l.next floor tip) (l.stop floor tip)) with
  | mk ok p' =>
  cases ok with
  | false => exact hend _ _ _ (Or.inl rfl)
  | true =>
  refine hend _ _ _ (Or.inr ?_)
  rw [hout, hstorage] at hgrows
  change Grows l.pipeline.storage p'.storage at hgrows
  rw [hout] at hanchored
  have hhas : ∀ k, l.next floor tip ≤ k → k < writtenEnd x (l.stop floor tip) →
      p'.storage.Has k := fun k hlo hhi => fillRange_written hout hlo hhi
  cases hs : l.pipeline.storage.store with
  | none =>
      -- the store was just created with its minimum at the start of the run
      obtain ⟨st, hst, -⟩ := hhas _ (Nat.le_refl _) hwritten
      have hmin := hanchored hs (hstorage ▸ hanchor) (hstorage ▸ hs) hst
      have hgap := st.isFirstGap_frontier
      have hone := hfirst hs
      rw [Storage.maxContiguousHeight_of_none hs, Storage.maxContiguousHeight_of_store hst]
      by_contra hzero
      -- a frontier still at zero lacks height one, which the run has written
      have heq : st.maxContiguousHeight + 1 = 1 := by omega
      have hle := hgap.le
      rw [heq] at hgap hle
      obtain ⟨st', hst', hk⟩ := hhas 1 (by omega) hone
      rw [← Option.some.inj (hst.symm.trans hst')] at hk
      exact hgap.gap hk
  | some st =>
      obtain ⟨st', hst', hmin, hsub⟩ := hgrows.store hs
      rw [Storage.maxContiguousHeight_of_store hs] at hroom ⊢
      rw [Storage.maxContiguousHeight_of_store hst']
      have hnext : l.next floor tip = st.maxContiguousHeight + 1 := by
        simp only [u64Max] at hroom
        simp only [PlatformLoop.next, nextHeight, Storage.isEmpty, hs,
          Storage.maxContiguousHeight, Option.map_some, Option.getD_some, Option.isNone_some,
          Bool.false_eq_true, if_false]
        omega
      obtain ⟨st'', hst'', hk⟩ := hhas _ (Nat.le_refl _) hwritten
      rw [Option.some.inj (hst''.symm.trans hst'), hnext] at hk
      have hgap' := st'.isFirstGap_frontier
      rw [hmin] at hgap'
      have hlt := st.isFirstGap_frontier.lt_of_filled (e := st.maxContiguousHeight + 1) hsub
        hgap' (by
          intro k hlo hhi
          rw [show k = st.maxContiguousHeight + 1 by omega]
          exact hk)
      omega

theorem pass_anchorFloor {l : PlatformLoop} (x : Pass) :
    (pass J sha256 floor l x).pipeline.storage.anchorFloor
      = l.pipeline.storage.anchorFloor := by
  simp only [pass]
  split
  · rfl
  · split
    · rfl
    · exact (fillRange_grows J sha256 x.fault x.listening _ _ _ none).anchorFloor

end PlatformRun

/-- A pass as a step of a run. -/
def platformStep (J : Codec) (sha256 : Bytes → Bytes32) (floor : Option Nat)
    (l : PlatformLoop) (x : Pass) : Option PlatformLoop := some (pass J sha256 floor l x)

/-- **The P-chain loop**: in every run whose passes meet the condition, every
    iteration slept or raised the contiguous height. -/
theorem platform_progress {J : Codec} {sha256 : Bytes → Bytes32} {floor : Option Nat}
    {pipeline : Pipeline} {passes : List Pass} {l' : PlatformLoop}
    (hanchor : pipeline.storage.anchorFloor = floor)
    (hcond : Run.Meets (platformStep J sha256 floor) (PassCond floor)
      (PlatformLoop.start pipeline) passes)
    (hrun : Run.exec (platformStep J sha256 floor) (PlatformLoop.start pipeline) passes
      = some l') :
    ∀ it ∈ l'.iterations, Iteration.ProgressOrSleep it := by
  have hstep : ∀ l x l', (l.pipeline.storage.anchorFloor = floor ∧
      ∀ it ∈ l.iterations, Iteration.ProgressOrSleep it) → PassCond floor l x →
      platformStep J sha256 floor l x = some l' →
      l'.pipeline.storage.anchorFloor = floor ∧
        ∀ it ∈ l'.iterations, Iteration.ProgressOrSleep it := by
    rintro l x l' ⟨hfloor, hall⟩ hc h
    rw [← Option.some.inj h]
    exact ⟨(pass_anchorFloor x).trans hfloor, pass_progress hfloor hc hall⟩
  have hinit : (PlatformLoop.start pipeline).pipeline.storage.anchorFloor = floor ∧
      ∀ it ∈ (PlatformLoop.start pipeline).iterations, Iteration.ProgressOrSleep it := by
    refine ⟨hanchor, ?_⟩
    intro it hit
    simp [PlatformLoop.start] at hit
  exact (Run.exec_invariant (PassCond floor) hstep hinit hcond hrun).2

/-! ## Both loops -/

/-- **Fill loops progress or sleep**, in every run whose steps meet the
    condition of their loop: any upstream replies, any floor, any failing writes
    and, on the C-chain, any interleaving with the ingest task. -/
theorem fill_loops_progress_or_sleep (J : Codec) (sha256 : Bytes → Bytes32) :
    (∀ (cfg : IngestCfg) (s : Storage) (actions : List Action) (i : Instance),
      s.anchorFloor = cfg.floor → Bounded s →
      Run.Meets (step J cfg) (BackfillCond J cfg) (Instance.start cfg s) actions →
      Run.exec (step J cfg) (Instance.start cfg s) actions = some i →
      ∀ it ∈ i.iterations, Iteration.ProgressOrSleep it) ∧
    (∀ (floor : Option Nat) (pipeline : Pipeline) (passes : List Pass) (l : PlatformLoop),
      pipeline.storage.anchorFloor = floor →
      Run.Meets (platformStep J sha256 floor) (PassCond floor)
        (PlatformLoop.start pipeline) passes →
      Run.exec (platformStep J sha256 floor) (PlatformLoop.start pipeline) passes = some l →
      ∀ it ∈ l.iterations, Iteration.ProgressOrSleep it) := by
  constructor
  · intro cfg s actions i hanchor hbounded hcond hrun
    exact backfill_progress hanchor hbounded hcond hrun
  · intro floor pipeline passes l hanchor hcond hrun
    exact platform_progress hanchor hcond hrun

/-- Blocks only, straight from a node, with the given floor. -/
def blocksOnly (floor : UInt64) : IngestCfg := ⟨false, .GetLogs, false, some floor, 1, 8⟩

/-- One iteration that fills a run of heights, each fetched and then written. -/
def fillRun (tip : String) (heights : List Nat) : List Action :=
  [.backfill .readHighWater, .backfill .readContiguous,
    .backfill (.readTip true (some (.object [("result", .string tip)])))] ++
  heights.flatMap fun height =>
    [.backfill (.fetch height
      (some (.object [("hash", .string (hashText (Vector.replicate 32 0)))])) none),
    .backfill (.nextFetched .none)]

/-- A pass whose tip is 7, with a block of the given further fields there. -/
def passAtSeven (sha256 : Bytes → Bytes32) (fields : List (String × Value)) : Pass where
  elapsed := true
  polled := some 7
  listening := false
  replies := fun _ => agreeingReply sha256 [] 7 fields
  fault := fun _ => .none

def emptyPipeline : Pipeline := ⟨Storage.fresh memory .P none, 0, []⟩

/-- The first pass of a run over a store with no floor fills the tip alone. -/
theorem pass_seven {J : Codec} {sha256 : Bytes → Bytes32} {fields : List (String × Value)}
    {ok : Bool} {p : Pipeline}
    (h : fillRange J sha256 false (fun _ => .none) 7 ⟨Storage.fresh memory .P none, 1, []⟩ none
      [(7, (passAtSeven sha256 fields).replies 7)] = (ok, p)) :
    pass J sha256 none (PlatformLoop.start emptyPipeline) (passAtSeven sha256 fields)
      = (PlatformLoop.start emptyPipeline).endPass p 7
          (if ok then none else some .backoff) := by
  have htip : (PlatformLoop.start emptyPipeline).passTip (passAtSeven sha256 fields)
      = some 7 := rfl
  have hnext : (PlatformLoop.start emptyPipeline).next none 7 = 7 := rfl
  have hstop : (PlatformLoop.start emptyPipeline).stop none 7 = 7 := by decide
  have hfill : fillRange J sha256 (passAtSeven sha256 fields).listening
      (passAtSeven sha256 fields).fault 7
      { (PlatformLoop.start emptyPipeline).pipeline with behindTip := 7 - 7 + 1 } none
      (heightReplies (passAtSeven sha256 fields) 7 7) = (ok, p) := h
  simp only [pass, htip, hnext, hstop, Nat.lt_irrefl, if_false, hfill]

theorem fetchBlock_seven (J : Codec) (sha256 : Bytes → Bytes32)
    (fields : List (String × Value)) :
    ∃ fetched, fetchBlock J sha256 7 ((passAtSeven sha256 fields).replies 7) = some fetched ∧
      fetched.height = 7 ∧
      fetched.rewardStakingTx = rewardStakingTx (agreeingJson sha256 [] 7 fields) :=
  ⟨_, fetchBlock_agreeing J sha256 [] 7 fields, rfl, rfl⟩

/-- A reward proposal alone at the tip is fetched and held: the run completes
    with nothing written and no sleep. -/
theorem pass_held (J : Codec) (sha256 : Bytes → Bytes32) :
    (pass J sha256 none (PlatformLoop.start emptyPipeline)
      (passAtSeven sha256 rewardFields)).iterations = [⟨0, 0, none⟩] := by
  obtain ⟨fetched, hfetch, -, hreward⟩ := fetchBlock_seven J sha256 rewardFields
  have hheld : fetched.rewardStakingTx.isSome = true := by rw [hreward]; rfl
  have hfill : fillRange J sha256 false (fun _ => .none) 7
      ⟨Storage.fresh memory .P none, 1, []⟩ none
      [(7, (passAtSeven sha256 rewardFields).replies 7)]
        = (true, ⟨Storage.fresh memory .P none, 1, []⟩) := by
    simp only [fillRange, hfetch, settlePending, hheld, if_true]
  rw [pass_seven hfill]
  rfl

/-- Any other block alone at the tip is written. -/
theorem pass_written (J : Codec) (sha256 : Bytes → Bytes32) :
    (pass J sha256 none (PlatformLoop.start emptyPipeline)
      (passAtSeven sha256 [])).iterations = [⟨0, 7, none⟩] := by
  obtain ⟨⟨height, bytesJson, json, id, txIds, timestamp, kind, reward⟩, hfetch, hheight,
    hreward⟩ := fetchBlock_seven J sha256 []
  dsimp only at hheight hreward
  subst hheight
  have hfree : reward.isSome = false := by rw [hreward]; rfl
  have hfill : fillRange J sha256 false (fun _ => .none) 7
      ⟨Storage.fresh memory .P none, 1, []⟩ none
      [(7, (passAtSeven sha256 []).replies 7)]
        = emit J false ⟨Storage.fresh memory .P none, 1, []⟩ .none
          ⟨7, bytesJson, json, id, txIds, timestamp, kind, reward⟩ EMPTY_ARRAY 7 := by
    simp only [fillRange, hfetch, settlePending, hfree, Bool.false_eq_true, if_false]
    rfl
  rw [pass_seven hfill]
  rfl

/-- On both chains one iteration that fills a height, with progress. -/
theorem fill_loops_fill_a_height :
    (∃ i, Run.exec (step JsonText.codec (blocksOnly 5)) (Instance.start (blocksOnly 5)
        (Storage.fresh memory .C (some 5))) (fillRun "0x5" [5]) = some i ∧
      i.iterations = [⟨0, 5, none⟩] ∧
      ∀ it ∈ i.iterations, Iteration.ProgressOrSleep it) ∧
    (∃ l, Run.exec (platformStep JsonText.codec sampleSha256 none)
        (PlatformLoop.start emptyPipeline) [passAtSeven sampleSha256 []] = some l ∧
      l.iterations = [⟨0, 7, none⟩] ∧
      ∀ it ∈ l.iterations, Iteration.ProgressOrSleep it) := by
  obtain ⟨hC, hP⟩ := fill_loops_progress_or_sleep JsonText.codec sampleSha256
  constructor
  · refine ⟨_, rfl, rfl, ?_⟩
    refine hC (blocksOnly 5) (Storage.fresh memory .C (some 5)) (fillRun "0x5" [5]) _ rfl
      (bounded_of_none rfl) ?_ rfl
    · refine Run.meets_cons trivial rfl (Run.meets_cons trivial rfl (Run.meets_cons ?_ rfl
        (Run.meets_cons trivial rfl (Run.meets_cons trivial rfl trivial))))
      intro hw rawContiguous next stop target _ _ height hlo _ hhi
      have hfive : 5 ≤ height := hlo
      have hsmall : height < 5 := hhi
      omega
  · refine ⟨_, rfl, pass_written _ _, ?_⟩
    refine hP none emptyPipeline [passAtSeven sampleSha256 []] _ rfl ?_ rfl
    refine ⟨?_, fun _ _ => trivial⟩
    intro tip htip _
    rw [← Option.some.inj htip]
    exact ⟨by decide, fun _ => by decide, by decide⟩

/-- Height 3 arrives live, then a pass goes by a tip of 5. -/
def liveThenFill : List Action :=
  .ingest (.frame (.object [("method", .string "eth_subscription"), ("params", .object
      [("result", .object [("number", .string "0x3"),
        ("hash", .string (hashText (Vector.replicate 32 3)))])])])
    (some (.object [("hash", .string (hashText (Vector.replicate 32 3)))])) 0 .none)
  :: fillRun "0x5" [5]

/-- With a floor of 5 and the store created by a live block at height 3, the C-chain loop
    fills height 5 over and over: height 4 is missing, so the contiguous height stays at 3.
    On the P-chain a reward proposal alone at the tip is fetched again at once. -/
theorem fill_loops_spin :
    ¬ (∀ (J : Codec) (cfg : IngestCfg) (s : Storage) (actions : List Action) (i : Instance),
      s.anchorFloor = cfg.floor → Bounded s →
      Run.exec (step J cfg) (Instance.start cfg s) actions = some i →
      ∀ it ∈ i.iterations, Iteration.ProgressOrSleep it) ∧
    ¬ (∀ (J : Codec) (sha256 : Bytes → Bytes32) (floor : Option Nat) (pipeline : Pipeline)
      (passes : List Pass) (l : PlatformLoop), pipeline.storage.anchorFloor = floor →
      Run.exec (platformStep J sha256 floor) (PlatformLoop.start pipeline) passes = some l →
      ∀ it ∈ l.iterations, Iteration.ProgressOrSleep it) := by
  have hspin : ∀ k, ¬ Iteration.ProgressOrSleep ⟨k, k, none⟩ := by
    rintro k (h | h)
    · cases h
    · exact Nat.lt_irrefl k h
  constructor
  · intro hall
    have hiterations : (Run.exec (step JsonText.codec (blocksOnly 5))
        (Instance.start (blocksOnly 5) (Storage.fresh memory .C (some 5))) liveThenFill).map
          Instance.iterations = some [⟨3, 3, none⟩] := rfl
    obtain ⟨i, hrun, hi⟩ := Option.map_eq_some_iff.mp hiterations
    refine hspin 3 (hall JsonText.codec (blocksOnly 5) (Storage.fresh memory .C (some 5))
      liveThenFill i rfl (bounded_of_none rfl) hrun ⟨3, 3, none⟩ ?_)
    rw [hi]
    exact List.mem_singleton_self _
  · intro hall
    refine hspin 0 (hall JsonText.codec sampleSha256 none emptyPipeline
      [passAtSeven sampleSha256 rewardFields] _ rfl rfl ⟨0, 0, none⟩ ?_)
    rw [pass_held]
    exact List.mem_singleton_self _

end NeveFillLoop
