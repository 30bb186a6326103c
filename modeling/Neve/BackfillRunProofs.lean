import Neve.FillLoopProofs

/-! # Catching up on the C-chain — what the backfill loop's iterations add up to

    The backfill loop shares its store with the ingest task and measures in three reads
    between which anything may be written.  An iteration that ends without a sleep has
    filled one window of heights from the first missing one on, whatever the ingest task
    wrote meanwhile, whichever heights it found filled already and however many iterations
    before it gave up halfway.  So the iterations that ended without a sleep add up, and a
    loop that sleeps for having caught up has every height up to the tip it went by
    (`backfill_catches_up`). -/

namespace NeveBackfillRun

open JsonValue ByteText FirstGap NeveRecord NeveStorage NeveEthIngest NeveEthBackfill
open NeveFrontier NeveEthInstance NeveFillLoop Outcome

/-! ## Stores that begin at a floor -/

/-- Every height from `f` on and below `n` is stored. -/
def Filled (f n : Nat) (s : Storage) : Prop := ∀ k, f ≤ k → k < n → s.Has k

/-- A store that begins at `f`, or is going to. -/
structure Begins (f : Nat) (s : Storage) : Prop where
  anchorFloor : s.anchorFloor = some f
  minHeight : ∀ st, s.store = some st → st.minHeight = f
  bounded : Bounded s

section Stores

variable {f n m k : Nat} {s s' : Storage}

theorem Filled.anti (h : Filled f n s) (hle : m ≤ n) : Filled f m s :=
  fun k hlo hhi => h k hlo (Nat.lt_of_lt_of_le hhi hle)

theorem Filled.grows (h : Filled f n s) (hg : Grows s s') : Filled f n s' :=
  fun k hlo hhi => hg.has k (h k hlo hhi)

theorem Filled.succ (h : Filled f n s) (hhas : s.Has n) : Filled f (n + 1) s := by
  intro k hlo hhi
  rcases Nat.lt_or_eq_of_le (Nat.le_of_lt_succ hhi) with hlt | rfl
  · exact h k hlo hlt
  · exact hhas

/-- Nothing lies between a height below the floor and the floor. -/
theorem Filled.max_floor (h : Filled f n s) : Filled f (max n f) s :=
  fun k hlo hhi => h k hlo (by omega)

/-- The contiguous height of such a store, and the one above it that is missing. -/
theorem Begins.filled_contiguous (h : Begins f s) (hpos : 0 < f) :
    Filled f (s.maxContiguousHeight + 1) s ∧ ¬ s.Has (max (s.maxContiguousHeight + 1) f) := by
  cases hs : s.store with
  | none =>
      have hzero := Storage.maxContiguousHeight_of_none hs
      constructor
      · intro k hlo hhi
        omega
      · rintro ⟨st, hst, -⟩
        rw [hs] at hst
        cases hst
  | some st =>
      have hgap := st.isFirstGap_frontier
      have hmin := h.minHeight st hs
      have hle := hgap.le
      rw [Storage.maxContiguousHeight_of_store hs]
      constructor
      · intro k hlo hhi
        exact ⟨st, hs, hgap.filled k (by omega) hhi⟩
      · rw [Nat.max_eq_left (by omega)]
        rintro ⟨st', hst', hhole⟩
        rw [← Option.some.inj (hs.symm.trans hst')] at hhole
        exact hgap.gap hhole

/-- A write at or above the floor keeps the beginning. -/
theorem Begins.wrote (h : Begins f s) (hlt : k < 2 ^ 64) (hw : Wrote k s s')
    (hcreate : s.store = none → f ≤ k) : Begins f s' := by
  have hgrows := hw.grows
  refine ⟨hgrows.anchorFloor.trans h.anchorFloor, ?_, h.bounded.wrote hlt hw⟩
  intro st' hst'
  cases hs : s.store with
  | some st =>
      obtain ⟨st1, hst1, hmin⟩ := hgrows.minHeight st hs
      rw [Option.some.inj (hst'.symm.trans hst1), hmin]
      exact h.minHeight st hs
  | none =>
      rw [hw.created hs hst']
      simp only [Storage.anchor, h.anchorFloor, Option.filter_some, decide_eq_true_eq]
      rw [if_pos (hcreate hs), Option.getD_some]

end Stores

/-! ## The invariant -/

/-- The iterations that ended without a sleep. -/
def fills (iterations : List Iteration) : Nat := iterations.countP (·.sleep.isNone)

/-- What the phase of the loop adds: the run under way starts no further than the first
    missing height, and its end is a window further than what is filled. -/
def PhaseRising (f base goal : Nat) (i : Instance) : Prop :=
  match i.phase with
  | .top => True
  | .highWater hw => hw < 2 ^ 64
  | .contiguous hw rawContiguous =>
      hw < 2 ^ 64 ∧ Filled f (rawContiguous + 1) i.storage ∧
        min (goal + 1) (base + fills i.iterations * LOGS_WINDOW) ≤ max (rawContiguous + 1) f
  | .loading next stop _ =>
      f ≤ next ∧ next ≤ stop ∧ stop < 2 ^ 64 ∧ Filled f next i.storage ∧
        min (goal + 1) (base + (fills i.iterations + 1) * LOGS_WINDOW) ≤ stop + 1
  | .filling _ stop _ cursor fetched =>
      f ≤ cursor ∧ cursor ≤ stop ∧ stop < 2 ^ 64 ∧ Filled f cursor i.storage ∧
        min (goal + 1) (base + (fills i.iterations + 1) * LOGS_WINDOW) ≤ stop + 1 ∧
        FetchedOk i.storage fetched

/-- What holds wherever both tasks are. -/
structure Rising (f base goal : Nat) (i : Instance) : Prop where
  begins : Begins f i.storage
  task : ∀ height, i.task = .awaitingLogs height → height < 2 ^ 64
  tip : i.tip.height < 2 ^ 64
  filled : Filled f (min (goal + 1) (base + fills i.iterations * LOGS_WINDOW)) i.storage
  caught : (∃ it ∈ i.iterations, it.sleep = some .caughtUp) → Filled f (goal + 1) i.storage
  phase : PhaseRising f base goal i

/-- The side condition of a step: no live block below the floor comes first, and no pass goes
    by a tip below the goal. -/
def Aimed (cfg : IngestCfg) (f goal : Nat) (i : Instance) : Action → Prop
  | .ingest a => i.storage.store = none → ∀ height, writeHeight i a = some height →
    f ≤ height
  | .backfill (.readTip aged response) => ∀ hw rawContiguous,
      i.phase = .contiguous hw rawContiguous →
      goal ≤ max hw (readTip cfg i.tip hw rawContiguous aged response).height
  | .backfill _ => True

section Steps

variable {J : Codec} {cfg : IngestCfg} {f base goal : Nat} {i i' : Instance}

/-- The run that is measured: from the first missing height to the end of its window, or to
    the target. -/
theorem measure_window {hw rawContiguous tip next stop target : Nat} (hhw : hw < 2 ^ 64)
    (htip : tip < 2 ^ 64)
    (h : measure hw rawContiguous tip cfg.floor = .fill next stop target) :
    min (max hw tip + 1) (next + LOGS_WINDOW) ≤ stop + 1 := by
  simp only [NeveFrontier.measure] at h
  by_cases hcold : hw = 0 ∧ cfg.floor.isNone = true
  · rw [if_pos hcold] at h
    cases h
  rw [if_neg hcold] at h
  by_cases hcaught : max hw tip ≤ max rawContiguous (cfg.floor.getD 0 - 1)
  · rw [if_pos hcaught] at h
    cases h
  rw [if_neg hcaught] at h
  obtain ⟨rfl, rfl, rfl⟩ := Measure.fill.inj h
  simp only [saturatingAdd, u64Max, LOGS_WINDOW]
  omega

/-- A pass that measures itself caught up has nothing missing up to its tip. -/
theorem measure_caughtUp {hw rawContiguous tip : Nat}
    (h : measure hw rawContiguous tip cfg.floor = .caughtUp) :
    max hw tip ≤ max rawContiguous (cfg.floor.getD 0 - 1) := by
  simp only [NeveFrontier.measure] at h
  by_cases hcold : hw = 0 ∧ cfg.floor.isNone = true
  · rw [if_pos hcold] at h
    cases h
  rw [if_neg hcold] at h
  by_cases hcaught : max hw tip ≤ max rawContiguous (cfg.floor.getD 0 - 1)
  · exact hcaught
  · rw [if_neg hcaught] at h
    cases h

/-- An iteration that ends with a sleep, for being caught up only if it is. -/
theorem Rising.sleep {sleep : Sleep} (h : Rising f base goal i)
    (hcaught : sleep = .caughtUp → Filled f (goal + 1) i.storage) :
    Rising f base goal (i.endIteration (some sleep)) := by
  have hsame : fills (i.endIteration (some sleep)).iterations = fills i.iterations :=
    List.countP_cons_of_neg Bool.noConfusion
  refine ⟨h.begins, h.task, h.tip, ?_, ?_, trivial⟩
  · rw [hsame]
    exact h.filled
  · rintro ⟨it, hit, hsleep⟩
    rcases List.mem_cons.mp hit with rfl | hit
    · exact hcaught (Option.some.inj hsleep)
    · exact h.caught ⟨it, hit, hsleep⟩

/-- On to the next height of a run, or past its end to the next iteration: one more window
    is filled. -/
theorem Rising.fillFrom {next stop cursor : Nat} {fetched : List (Nat × Option Fetched)}
    (target : Nat) (h : Rising f base goal i) (hfloor : f ≤ cursor) (hstop : stop < 2 ^ 64)
    (hfilled : Filled f cursor i.storage)
    (hwindow : min (goal + 1) (base + (fills i.iterations + 1) * LOGS_WINDOW) ≤ stop + 1)
    (hfetched : FetchedOk i.storage fetched) :
    Rising f base goal (i.fillFrom next stop target cursor fetched) := by
  simp only [Instance.fillFrom]
  by_cases hend : stop < cursor
  · rw [if_pos hend]
    have hone : fills (i.endIteration none).iterations = fills i.iterations + 1 :=
      List.countP_cons_of_pos rfl
    refine ⟨h.begins, h.task, h.tip, ?_, ?_, trivial⟩
    · rw [hone]
      exact hfilled.anti (Nat.le_trans hwindow hend)
    · rintro ⟨it, hit, hsleep⟩
      rcases List.mem_cons.mp hit with rfl | hit
      · cases hsleep
      · exact h.caught ⟨it, hit, hsleep⟩
  · rw [if_neg hend]
    exact ⟨h.begins, h.task, h.tip, h.filled, h.caught, hfloor, Nat.le_of_not_lt hend, hstop,
      hfilled, hwindow, hfetched⟩

/-- **A step of the ingest task** takes nothing from what is filled. -/
theorem rising_ingest {a : IngestAction} (h : Rising f base goal i)
    (haimed : Aimed cfg f goal i (.ingest a)) (hstep : ingestStep J cfg i a = some i') :
    Rising f base goal i' := by
  have heff := ingestStep_effect hstep
  obtain ⟨hgrows, hbegins⟩ : Grows i.storage i'.storage ∧ Begins f i'.storage := by
    rcases heff.storage with hsame | ⟨height, hh, hw⟩
    · rw [hsame]
      exact ⟨Grows.refl i.storage, h.begins⟩
    · have hlt := writeHeight_lt h.task hh
      exact ⟨hw.grows, h.begins.wrote hlt hw fun hnone => haimed hnone height hh⟩
  refine ⟨hbegins, ?_, heff.tip ▸ h.tip, ?_, ?_, ?_⟩
  · intro k hk
    rcases heff.task k hk with htask | hh
    · exact h.task k htask
    · exact writeHeight_lt h.task hh
  · rw [heff.iterations]
    exact h.filled.grows hgrows
  · rw [heff.iterations]
    exact fun hcaught => (h.caught hcaught).grows hgrows
  · have hphase := h.phase
    simp only [PhaseRising, heff.phase, heff.iterations] at hphase ⊢
    split at hphase
    · trivial
    · exact hphase
    · exact ⟨hphase.1, hphase.2.1.grows hgrows, hphase.2.2⟩
    · obtain ⟨hfloor, hle, hstop, hfilled, hwindow⟩ := hphase
      exact ⟨hfloor, hle, hstop, hfilled.grows hgrows, hwindow⟩
    · obtain ⟨hfloor, hle, hstop, hfilled, hwindow, hfetched⟩ := hphase
      exact ⟨hfloor, hle, hstop, hfilled.grows hgrows, hwindow, hfetched.grows hgrows⟩

/-- The outcome of the height at the cursor: it is stored, or the iteration sleeps. -/
theorem rising_consume {next stop target cursor : Nat} {fetched : List (Nat × Option Fetched)}
    {outcome : Option Fetched} (fault : Fault) (h : Rising f base goal i)
    (hfloor : f ≤ cursor) (hin : cursor ≤ stop) (hstop : stop < 2 ^ 64)
    (hfilled : Filled f cursor i.storage)
    (hwindow : min (goal + 1) (base + (fills i.iterations + 1) * LOGS_WINDOW) ≤ stop + 1)
    (hfetched : FetchedOk i.storage fetched) (hmem : (cursor, outcome) ∈ fetched) :
    Rising f base goal (consume J cfg i next stop target cursor fetched fault outcome) := by
  have hnext : f ≤ cursor + 1 := Nat.le_succ_of_le hfloor
  cases outcome with
  | none => exact h.sleep fun hs => (nomatch hs)
  | some found =>
      rcases hfetched cursor found hmem with ⟨rfl, hhas⟩ | ⟨v, logs, rfl⟩
      · exact h.fillFrom target hnext hstop (hfilled.succ hhas) hwindow hfetched
      · have hw := persistBackfilled_wrote J i.storage fault cursor v
          (logsHalf J cfg i.logs cursor logs).1
        have hbegins := h.begins.wrote (Nat.lt_of_le_of_lt hin hstop) hw fun _ => hfloor
        have hgrows := hw.grows
        simp only [consume]
        split
        · rename_i e s heq
          rw [heq] at hbegins hgrows
          have hfailed : Rising f base goal { i with storage := s, phase := .top } :=
            ⟨hbegins, h.task, h.tip, h.filled.grows hgrows,
              fun hc => (h.caught hc).grows hgrows, trivial⟩
          exact hfailed.sleep fun hs => (nomatch hs)
        · rename_i s heq
          have hhas := persistBackfilled_ok heq
          rw [heq] at hbegins hgrows
          have hwritten : Rising f base goal
              { i with storage := s, behindTip := target - cursor, phase := .top } :=
            ⟨hbegins, h.task, h.tip, h.filled.grows hgrows,
              fun hc => (h.caught hc).grows hgrows, trivial⟩
          exact hwritten.fillFrom target hnext hstop ((hfilled.grows hgrows).succ hhas) hwindow
            (hfetched.grows hgrows)

/-- **A step of the backfill task**: what is filled grows by a window for each iteration that
    ends without a sleep. -/
theorem rising_backfill {a : BackfillAction} (hfloor : cfg.floor = some f) (hpos : 0 < f)
    (h : Rising f base goal i) (haimed : Aimed cfg f goal i (.backfill a))
    (hstep : backfillStep J cfg i a = some i') : Rising f base goal i' := by
  cases backfillStep_turn hstep with
  | cold htop _ hcold =>
      have hbefore : Rising f base goal { i with before := i.storage.maxContiguousHeight } :=
        ⟨h.begins, h.task, h.tip, h.filled, h.caught, h.phase⟩
      exact hbefore.sleep fun hs => by cases hs
  | highWater htop _ hwarm =>
      exact ⟨h.begins, h.task, h.tip, h.filled, h.caught, highWater_lt h.begins.bounded⟩
  | contiguous hw heq =>
      have hphase := h.phase
      simp only [PhaseRising, heq] at hphase
      obtain ⟨hfilled, hmissing⟩ := h.begins.filled_contiguous hpos
      refine ⟨h.begins, h.task, h.tip, h.filled, h.caught, hphase, hfilled, ?_⟩
      -- the first missing height is not below what is filled
      by_contra hlt
      exact hmissing (h.filled _ (Nat.le_max_right _ _) (Nat.lt_of_not_le hlt))
  | decided aged response hw rawContiguous tip heq hread =>
      have hphase := h.phase
      simp only [PhaseRising, heq] at hphase
      obtain ⟨hhw, hfilled, hreached⟩ := hphase
      have htip := readTip_lt h.tip cfg hw rawContiguous aged response
      have hgoal := haimed hw rawContiguous heq
      rw [hread] at htip hgoal
      cases hm : NeveFrontier.measure hw rawContiguous tip.height cfg.floor with
      | coldStart =>
          have hdecided : Rising f base goal { i with tip := tip } :=
            ⟨h.begins, h.task, htip, h.filled, h.caught, h.phase⟩
          exact hdecided.sleep fun hs => by cases hs
      | caughtUp =>
          have hdecided : Rising f base goal { i with tip := tip, behindTip := 0 } :=
            ⟨h.begins, h.task, htip, h.filled, h.caught, h.phase⟩
          have hle := measure_caughtUp hm
          rw [hfloor, Option.getD_some] at hle
          exact hdecided.sleep fun _ => hfilled.max_floor.anti (by omega)
      | fill next stop target =>
          obtain ⟨hnext, hle, hstop⟩ := measure_fill hhw htip hm
          have hend := measure_window hhw htip hm
          rw [hfloor, Option.getD_some] at hnext
          have hlo : f ≤ next := by omega
          have hnextFilled : Filled f next i.storage := hfilled.max_floor.anti (by omega)
          have hwindow : min (goal + 1) (base + (fills i.iterations + 1) * LOGS_WINDOW)
              ≤ stop + 1 := by
            rw [Nat.succ_mul]
            omega
          simp only [Instance.decide]
          split
          · exact ⟨h.begins, h.task, htip, h.filled, h.caught, hlo, hle, hstop, hnextFilled,
              hwindow⟩
          · have hdecided : Rising f base goal
                { i with tip := tip, behindTip := target - (next - 1) } :=
              ⟨h.begins, h.task, htip, h.filled, h.caught, h.phase⟩
            exact hdecided.fillFrom target hlo hstop hnextFilled hwindow
              fun _ _ hmem => by cases hmem
  | unanswered result next stop target heq hlogs => exact h.sleep fun hs => by cases hs
  | loaded result logs next stop target heq hlogs =>
      have hphase := h.phase
      simp only [PhaseRising, heq] at hphase
      obtain ⟨hlo, hle, hstop, hfilled, hwindow⟩ := hphase
      have hloaded : Rising f base goal { i with
          logs := LogWindow.load logs
          replies := .getLogs next stop logs :: i.replies } :=
        ⟨h.begins, h.task, h.tip, h.filled, h.caught, h.phase⟩
      exact hloaded.fillFrom target hlo hstop hfilled hwindow fun _ _ hmem => by cases hmem
  | fetched height block receipts next stop target cursor outcomes heq _ _ _ _ =>
      have hphase := h.phase
      simp only [PhaseRising, heq] at hphase
      obtain ⟨hlo, hin, hstop, hfilled, hwindow, hfetched⟩ := hphase
      refine ⟨h.begins, h.task, h.tip, h.filled, h.caught, hlo, hin, hstop, hfilled,
        hwindow, ?_⟩
      intro k found hmem
      rcases List.mem_cons.mp hmem with hhead | hmem
      · obtain ⟨rfl, hf⟩ := Prod.mk.inj hhead
        rcases fetchOne_cases hf.symm with hskip | ⟨v, logs, hblock, -, -⟩
        · exact Or.inl hskip
        · exact Or.inr ⟨v, logs, hblock⟩
      · exact hfetched k found hmem
  | consumed fault next stop target cursor outcomes outcome heq hlookup =>
      have hphase := h.phase
      simp only [PhaseRising, heq] at hphase
      obtain ⟨hlo, hin, hstop, hfilled, hwindow, hfetched⟩ := hphase
      exact rising_consume fault h hlo hin hstop hfilled hwindow hfetched
        (mem_of_lookup hlookup)

end Steps

/-- **The backfill catches up.**  From a store that begins at the configured floor, above
    zero, and is filled up to `base`: in every run of both tasks in which no block below the
    floor comes first and no pass goes by a tip below the goal, whatever fails in it, the
    heights up to the goal are all stored once the loop has slept for having caught up, or
    once it has ended enough iterations without a sleep. -/
theorem backfill_catches_up {J : Codec} {cfg : IngestCfg} {f base goal : Nat}
    (hfloor : cfg.floor = some f) (hpos : 0 < f) {s : Storage} (hbegins : Begins f s)
    (hbase : Filled f base s) {actions : List Action} {i : Instance}
    (haimed : Run.Meets (step J cfg) (Aimed cfg f goal) (Instance.start cfg s) actions)
    (hrun : Run.exec (step J cfg) (Instance.start cfg s) actions = some i)
    (hdone : (∃ it ∈ i.iterations, it.sleep = some .caughtUp) ∨
      goal < base + fills i.iterations * LOGS_WINDOW) :
    ∀ k, f ≤ k → k ≤ goal → i.storage.Has k := by
  have hinit : Rising f base goal (Instance.start cfg s) := by
    refine ⟨hbegins, ?_, Nat.two_pow_pos 64, hbase.anti ?_, ?_, trivial⟩
    · intro height htask
      simp only [Instance.start] at htask
      split at htask
      · cases htask
      · cases htask
    · show min (goal + 1) (base + 0 * LOGS_WINDOW) ≤ base
      omega
    · rintro ⟨it, hit, -⟩
      cases hit
  have hstep : ∀ j a j', Rising f base goal j → Aimed cfg f goal j a →
      step J cfg j a = some j' → Rising f base goal j' := by
    intro j a j' hj ha h
    cases a with
    | ingest a => exact rising_ingest hj ha h
    | backfill a => exact rising_backfill hfloor hpos hj ha h
  have hend := Run.exec_invariant (Aimed cfg f goal) hstep hinit haimed hrun
  intro k hlo hhi
  rcases hdone with hcaught | henough
  · exact hend.caught hcaught k hlo (Nat.lt_succ_of_le hhi)
  · exact hend.filled k hlo (by omega)

/-- A floor of 5 and a tip of 6: the two heights are filled in one iteration. -/
theorem backfill_catches_up_five_six :
    ∃ i, Run.exec (step JsonText.codec (blocksOnly 5)) (Instance.start (blocksOnly 5)
        (Storage.fresh memory .C (some 5))) (fillRun "0x6" [5, 6]) = some i ∧
      fills i.iterations = 1 ∧ ∀ k, 5 ≤ k → k ≤ 6 → i.storage.Has k := by
  have hbegins : Begins 5 (Storage.fresh memory .C (some 5)) :=
    ⟨rfl, fun _ hst => (nomatch hst), bounded_of_none rfl⟩
  have haimed : Run.Meets (step JsonText.codec (blocksOnly 5)) (Aimed (blocksOnly 5) 5 6)
      (Instance.start (blocksOnly 5) (Storage.fresh memory .C (some 5)))
      (fillRun "0x6" [5, 6]) := by
    refine Run.meets_cons trivial rfl (Run.meets_cons trivial rfl (Run.meets_cons ?_ rfl
      (Run.meets_cons trivial rfl (Run.meets_cons trivial rfl (Run.meets_cons trivial rfl
        (Run.meets_cons trivial rfl trivial))))))
    intro hw rawContiguous hphase
    have hmeasured : Phase.contiguous 0 0 = .contiguous hw rawContiguous := hphase
    obtain ⟨rfl, rfl⟩ := Phase.contiguous.inj hmeasured
    exact Nat.le_of_ble_eq_true rfl
  have hfills : (Run.exec (step JsonText.codec (blocksOnly 5)) (Instance.start (blocksOnly 5)
      (Storage.fresh memory .C (some 5))) (fillRun "0x6" [5, 6])).map
        (fun i => fills i.iterations) = some 1 := rfl
  obtain ⟨i, hrun, hi⟩ := Option.map_eq_some_iff.mp hfills
  have hbase : Filled 5 5 (Storage.fresh memory .C (some 5)) :=
    fun k hlo hhi => absurd hhi (Nat.not_lt.mpr hlo)
  have henough : 6 < 5 + fills i.iterations * LOGS_WINDOW := by
    rw [hi]
    decide
  exact ⟨i, hrun, hi,
    backfill_catches_up rfl (by decide) hbegins hbase haimed hrun (Or.inr henough)⟩

end NeveBackfillRun
