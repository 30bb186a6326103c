import Neve.RunProofs

/-! # Progress reports — stretches behind the tip

    Each chain's fill loop keeps a tracker: a stretch begins when the loop finds itself
    behind, its progress lines are throttled, and it is closed when the loop is caught up.
    A shared counter of stretches is swapped out by the summary task, and a shared gauge
    tells how far behind the loop is.  The loop, the heights it fills and the summary are
    interleaved in any order. -/

namespace NeveProgress

/-! ## The tracker -/

/-- The severities `behind_level` yields. -/
inductive Level where
  | DEBUG
  | INFO
  | WARN
  deriving DecidableEq

def behindLevel (behind : Nat) : Level :=
  if behind ≤ 2 then .DEBUG else if behind ≤ 20 then .INFO else .WARN

/-- A line of the log, with the instant it was written; a caught-up line has the blocks
    of the stretch and how long it took. -/
inductive Line where
  | starting (instant : Nat) (level : Level) (contiguous target behind : Nat)
  | backfill (instant : Nat) (target : Nat)
  | caughtUp (instant : Nat) (level : Level) (blocks elapsed : Nat)

/-- Instants are nanoseconds. -/
structure BackfillProgress where
  startHeight : Option Nat
  startTime : Option Nat
  lastLoggedAt : Option Nat
  period : Nat
  startBehind : Nat

namespace BackfillProgress

def new (period : Nat) : BackfillProgress := ⟨none, none, none, period, 0⟩

def reset (p : BackfillProgress) : BackfillProgress := new p.period

def begin (p : BackfillProgress) (now contiguous behind : Nat) : BackfillProgress :=
  { p with
    startHeight := some contiguous
    startTime := some now
    lastLoggedAt := some now
    startBehind := behind }

/-- Whether enough time has passed for another line. -/
def due (p : BackfillProgress) (now : Nat) : Bool :=
  p.lastLoggedAt.all fun t => decide (p.period ≤ now - t)

/-- One observation behind the tip: the tracker after it, the line it wrote if it did,
    and whether a stretch began. -/
def observe (p : BackfillProgress) (now contiguous target behind : Nat) :
    BackfillProgress × List Line × Bool :=
  if p.startHeight.isNone then
    (p.begin now contiguous behind,
      [.starting now (behindLevel behind) contiguous target behind], true)
  else if p.due now then
    ({ p with lastLoggedAt := some now }, [.backfill now target], false)
  else (p, [], false)

def caughtUp (p : BackfillProgress) (now contiguous : Nat) : BackfillProgress × List Line :=
  (p.reset,
    match p.startHeight, p.startTime with
    | some startH, some startT =>
        [.caughtUp now (behindLevel p.startBehind) (contiguous - startH) (now - startT)]
    | _, _ => [])

end BackfillProgress

/-! ## The loop, its heights and the summary -/

/-- What a loop measures before a run of heights.  The C-chain's looks from its frontier,
    the P-chain's from the first height it does not have. -/
inductive Measured where
  | eth (contiguous target : Nat)
  | platform (contiguous next tip : Nat)

namespace Measured

def contiguous : Measured → Nat
  | eth contiguous _ => contiguous
  | platform contiguous _ _ => contiguous

def target : Measured → Nat
  | eth _ target => target
  | platform _ _ tip => tip

/-- How far the loop is behind; `none` is caught up. -/
def behind : Measured → Option Nat
  | eth contiguous target => if target ≤ contiguous then none else some (target - contiguous)
  | platform _ next tip =>
      if tip < next then none else some (tip - next + if next ≤ tip then 1 else 0)

end Measured

/-- The gap the summary claims: the worse of the one inside the store and the one to the
    upstream's tip. -/
def behindOf (hw mc behindTip : Nat) : Nat :=
  if behindTip < hw - mc then hw - mc else behindTip

/-- Where a loop stands: between its measures, about to count the stretch that has begun,
    or inside a run of heights. -/
inductive Phase where
  | measuring
  | counting
  | filling
  deriving DecidableEq

/-- What the tasks share and what they have reported, oldest first; `taken` is what the
    summary has swapped out and not reported yet. -/
structure Reporter where
  progress : BackfillProgress
  phase : Phase
  backfillCount : Nat
  behindTip : Nat
  lines : List Line
  taken : Option Nat
  summaries : List (Nat × Nat)

inductive Action where
  | measure (now : Nat) (m : Measured)
  | count
  | height (now height tip : Nat)
  | fillEnds
  | swap
  | summary (hw mc : Nat)

def Reporter.start (period : Nat) : Reporter :=
  ⟨.new period, .measuring, 0, 0, [], none, []⟩

namespace Reporter

/-- The loop is caught up: the stretch is closed, if there is one. -/
def close (r : Reporter) (now contiguous : Nat) : Reporter :=
  { r with
    progress := (r.progress.caughtUp now contiguous).1
    behindTip := 0
    lines := r.lines ++ (r.progress.caughtUp now contiguous).2 }

/-- One observation behind the tip. -/
def see (r : Reporter) (now contiguous target behind : Nat) : Reporter :=
  { r with
    progress := (r.progress.observe now contiguous target behind).1
    behindTip := behind
    lines := r.lines ++ (r.progress.observe now contiguous target behind).2.1 }

/-- Whether it begins a stretch. -/
def begins (r : Reporter) (now contiguous target behind : Nat) : Bool :=
  (r.progress.observe now contiguous target behind).2.2

end Reporter

def step (r : Reporter) : Action → Option Reporter
  | .measure now m =>
      if r.phase = .measuring then
        match m.behind with
        | none => some (r.close now m.contiguous)
        | some behind =>
            some { r.see now m.contiguous m.target behind with
              phase := if r.begins now m.contiguous m.target behind then .counting else .filling }
      else none
  | .count =>
      if r.phase = .counting then
        some { r with backfillCount := r.backfillCount + 1, phase := .filling }
      else none
  | .height now height tip =>
      -- whether a stretch begins is not asked here
      if r.phase = .filling then some (r.see now height tip (tip - height)) else none
  | .fillEnds => if r.phase = .filling then some { r with phase := .measuring } else none
  | .swap =>
      match r.taken with
      | none => some { r with taken := some r.backfillCount, backfillCount := 0 }
      | some _ => none
  | .summary hw mc =>
      match r.taken with
      | none => none
      | some n =>
          some { r with
            taken := none
            summaries := r.summaries ++ [(n, behindOf hw mc r.behindTip)] }

/-! ## Stretches -/

/-- What the tracker is told at a step: how far behind the loop is, or that it is caught up. -/
inductive Observed where
  | behind (now contiguous target behind : Nat)
  | caughtUp (now contiguous : Nat)

def Measured.observed (now : Nat) (m : Measured) : Observed :=
  match m.behind with
  | none => .caughtUp now m.contiguous
  | some behind => .behind now m.contiguous m.target behind

def Action.observed : Action → Option Observed
  | .measure now m => some (m.observed now)
  | .height now h tip => some (.behind now h tip (tip - h))
  | _ => none

/-- One more observation: the stretches that are over and the one that is running. -/
def cutStep : List (List Observed) × List Observed → Observed →
    List (List Observed) × List Observed
  | (past, running), .behind now contiguous target behind =>
      (past, running ++ [.behind now contiguous target behind])
  | (past, []), .caughtUp _ _ => (past, [])
  | (past, o :: later), .caughtUp now contiguous =>
      (past ++ [(o :: later) ++ [.caughtUp now contiguous]], [])

/-- The observations of a run cut into stretches: each from the first time the loop is
    behind to the next time it is caught up. -/
def stretches (as : List Action) : List (List Observed) × List Observed :=
  (as.filterMap Action.observed).foldl cutStep ([], [])

/-- Instants that are a period apart, one after the other. -/
def Spaced (period : Nat) (instants : List Nat) : Prop :=
  instants.IsChain fun a b => period ≤ b - a

/-- The instant and the target of an observation behind the tip. -/
def Observed.progress : Observed → Option (Nat × Nat)
  | .behind now _ target _ => some (now, target)
  | .caughtUp _ _ => none

/-- The lines of a stretch that has begun: a starting line, then progress lines. -/
def stretchLines (since contiguous target behind : Nat) (rest : List (Nat × Nat)) : List Line :=
  .starting since (behindLevel behind) contiguous target behind ::
    rest.map fun l => .backfill l.1 l.2

/-- A stretch that has begun, with what was observed since: the starting line has the first
    observation, the progress lines are some of the others, the last of them at `last`, and
    each at least a period after the one before. -/
def Opened (period since contiguous behind last : Nat) (seen : List Observed)
    (lines : List Line) : Prop :=
  ∃ target later rest, seen = .behind since contiguous target behind :: later ∧
    lines = stretchLines since contiguous target behind rest ∧
    rest.Sublist (later.filterMap Observed.progress) ∧
    (since :: rest.map Prod.fst).getLast? = some last ∧
    Spaced period (since :: rest.map Prod.fst)

/-- A stretch that was closed: its last line has the blocks from the frontier it began at to
    the frontier measured at the close, and the time in between. -/
def Closed (period : Nat) (seen : List Observed) (lines : List Line) : Prop :=
  ∃ since contiguous behind last now reached before opened,
    Opened period since contiguous behind last before opened ∧
      seen = before ++ [.caughtUp now reached] ∧
      lines = opened ++ [.caughtUp now (behindLevel behind) (reached - contiguous) (now - since)]

/-- What a tracker knows of the stretch that is running, and of its lines. -/
inductive Tracks (period : Nat) : BackfillProgress → List Observed → List Line → Prop where
  | idle : Tracks period (.new period) [] []
  | running {since contiguous behind last : Nat} {seen : List Observed} {lines : List Line}
      (hopened : Opened period since contiguous behind last seen lines) :
      Tracks period ⟨some contiguous, some since, some last, period, behind⟩ seen lines

section Stretches

variable {period since contiguous behind last : Nat} {seen : List Observed} {lines : List Line}
  {p : BackfillProgress}

theorem Opened.ne_nil (h : Opened period since contiguous behind last seen lines) :
    seen ≠ [] := by
  obtain ⟨target, later, rest, rfl, -⟩ := h
  exact List.cons_ne_nil _ _

/-- An observation that writes no line. -/
theorem Opened.quiet (h : Opened period since contiguous behind last seen lines)
    (o : Observed) : Opened period since contiguous behind last (seen ++ [o]) lines := by
  obtain ⟨first, later, rest, rfl, hlines, hsub, hlast, hspaced⟩ := h
  refine ⟨first, later ++ [o], rest, rfl, hlines, ?_, hlast, hspaced⟩
  rw [List.filterMap_append]
  exact hsub.trans (List.sublist_append_left ..)

/-- A line that is due keeps the spacing. -/
theorem Opened.again (h : Opened period since contiguous behind last seen lines) {now : Nat}
    (hdue : period ≤ now - last) (frontier target gap : Nat) :
    Opened period since contiguous behind now (seen ++ [.behind now frontier target gap])
      (lines ++ [.backfill now target]) := by
  obtain ⟨first, later, rest, rfl, rfl, hsub, hlast, hspaced⟩ := h
  refine ⟨first, later ++ [.behind now frontier target gap], rest ++ [(now, target)], rfl,
    ?_, ?_, ?_, ?_⟩
  · simp only [stretchLines, List.map_append, List.cons_append]
    rfl
  · rw [List.filterMap_append]
    exact hsub.append (List.Sublist.refl _)
  · rw [List.map_append, ← List.cons_append]
    exact List.getLast?_concat ..
  · rw [List.map_append, ← List.cons_append]
    refine hspaced.append (List.isChain_singleton _) ?_
    intro a ha b hb
    rw [Option.some.inj (ha.symm.trans hlast), ← Option.some.inj hb]
    exact hdue

/-- An observation behind the tip begins a stretch exactly if none is running. -/
theorem Tracks.observe (h : Tracks period p seen lines) (now contiguous target behind : Nat) :
    Tracks period (p.observe now contiguous target behind).1
        (seen ++ [.behind now contiguous target behind])
        (lines ++ (p.observe now contiguous target behind).2.1) ∧
      ((p.observe now contiguous target behind).2.2 = true ↔ seen = []) := by
  cases h with
  | idle =>
      refine ⟨.running ⟨target, [], [], rfl, rfl, List.Sublist.refl _, rfl,
        List.isChain_singleton _⟩, ?_⟩
      exact ⟨fun _ => rfl, fun _ => rfl⟩
  | running hopened =>
      have hne := hopened.ne_nil
      rename_i since start behind0 last
      cases hdue : decide (period ≤ now - last) with
      | true =>
          have hobs : BackfillProgress.observe
              ⟨some start, some since, some last, period, behind0⟩ now contiguous target behind
              = (⟨some start, some since, some now, period, behind0⟩, [.backfill now target],
                false) := by
            simp only [BackfillProgress.observe, BackfillProgress.due, Option.all_some, hdue]
            rfl
          rw [hobs]
          exact ⟨.running (hopened.again (of_decide_eq_true hdue) contiguous target behind),
            fun h => Bool.noConfusion h, fun h => absurd h hne⟩
      | false =>
          have hobs : BackfillProgress.observe
              ⟨some start, some since, some last, period, behind0⟩ now contiguous target behind
              = (⟨some start, some since, some last, period, behind0⟩, [], false) := by
            simp only [BackfillProgress.observe, BackfillProgress.due, Option.all_some, hdue]
            rfl
          rw [hobs, List.append_nil]
          exact ⟨.running (hopened.quiet _), fun h => Bool.noConfusion h, fun h => absurd h hne⟩

/-- Catching up closes the stretch that is running. -/
theorem Tracks.caughtUp (h : Tracks period p seen lines) (now contiguous : Nat) :
    (p.caughtUp now contiguous).1 = .new period ∧
      (seen = [] ∧ lines ++ (p.caughtUp now contiguous).2 = [] ∨
        seen ≠ [] ∧ Closed period (seen ++ [.caughtUp now contiguous])
          (lines ++ (p.caughtUp now contiguous).2)) := by
  cases h with
  | idle => exact ⟨rfl, Or.inl ⟨rfl, rfl⟩⟩
  | running hopened =>
      exact ⟨rfl,
        Or.inr ⟨hopened.ne_nil, _, _, _, _, now, contiguous, _, _, hopened, rfl, rfl⟩⟩

end Stretches

/-! ## The ledger -/

/-- A stretch the loop has begun and not counted yet. -/
def Reporter.owed (r : Reporter) : Nat := if r.phase = .counting then 1 else 0

/-- The stretches that were counted, wherever the count is now. -/
def Reporter.counted (r : Reporter) : Nat :=
  (r.summaries.map Prod.fst).sum + r.taken.getD 0 + r.backfillCount

/-- **The ledger**, against the stretches of the run: the log is their lines one after
    another, all closed but for the one that is running, and each of them is counted once. -/
structure Ledger (period : Nat) (cut : List (List Observed) × List Observed) (r : Reporter) :
    Prop where
  log : ∃ (closed : List (List Line)) (running : List Line),
    r.lines = closed.flatten ++ running ∧ List.Forall₂ (Closed period) cut.1 closed ∧
      Tracks period r.progress cut.2 running
  counts : r.counted + r.owed = cut.1.length + if cut.2 = [] then 0 else 1
  phase : r.phase ≠ .measuring → cut.2 ≠ []

theorem ledger_start (period : Nat) : Ledger period (stretches []) (.start period) :=
  ⟨⟨[], [], rfl, .nil, .idle⟩, rfl, fun h => absurd rfl h⟩

theorem stretches_told (as : List Action) {a : Action} {o : Observed}
    (h : a.observed = some o) : stretches (as ++ [a]) = cutStep (stretches as) o := by
  simp only [stretches, List.filterMap_append, List.foldl_append, List.filterMap_cons_some h,
    List.filterMap_nil, List.foldl_cons, List.foldl_nil]

theorem stretches_untold (as : List Action) {a : Action} (h : a.observed = none) :
    stretches (as ++ [a]) = stretches as := by
  simp only [stretches, List.filterMap_append, List.filterMap_cons_none h, List.filterMap_nil,
    List.append_nil]

section Steps

variable {period : Nat} {cut : List (List Observed) × List Observed} {r r' : Reporter}

/-- One observation behind the tip adds to the stretch that is running, or begins one. -/
theorem Ledger.see (h : Ledger period cut r) (now contiguous target behind : Nat) :
    (∃ (closed : List (List Line)) (running : List Line),
      (r.see now contiguous target behind).lines = closed.flatten ++ running ∧
      List.Forall₂ (Closed period) (cutStep cut (.behind now contiguous target behind)).1
        closed ∧
      Tracks period (r.see now contiguous target behind).progress
        (cutStep cut (.behind now contiguous target behind)).2 running) ∧
    (cutStep cut (.behind now contiguous target behind)).2 ≠ [] ∧
    r.counted + r.owed + (if r.begins now contiguous target behind then 1 else 0)
      = (cutStep cut (.behind now contiguous target behind)).1.length + 1 ∧
    (r.phase ≠ .measuring → r.begins now contiguous target behind = false) := by
  obtain ⟨past, seen⟩ := cut
  obtain ⟨closed, running, hlines, hclosed, htracks⟩ := h.log
  obtain ⟨hnext, hbegan⟩ := htracks.observe now contiguous target behind
  refine ⟨⟨closed, _, ?_, hclosed, hnext⟩, ?_, ?_, ?_⟩
  · simp only [Reporter.see, hlines, List.append_assoc]
  · exact List.append_ne_nil_of_right_ne_nil _ (List.cons_ne_nil _ _)
  · rw [h.counts]
    by_cases hseen : seen = []
    · rw [if_pos hseen, show r.begins now contiguous target behind = true from hbegan.mpr hseen]
      rfl
    · have hnot : r.begins now contiguous target behind ≠ true := fun hb => hseen (hbegan.mp hb)
      rw [if_neg hseen, if_neg hnot]
      rfl
  · intro hmeasuring
    exact Bool.eq_false_of_not_eq_true fun hb => h.phase hmeasuring (hbegan.mp hb)

/-- Catching up ends the stretch that is running, if there is one. -/
theorem Ledger.close (h : Ledger period cut r) (hmeasuring : r.phase = .measuring)
    (now contiguous : Nat) :
    Ledger period (cutStep cut (.caughtUp now contiguous)) (r.close now contiguous) := by
  obtain ⟨past, seen⟩ := cut
  obtain ⟨closed, running, hlines, hclosed, htracks⟩ := h.log
  have hcounts := h.counts
  obtain ⟨hnew, hcases⟩ := htracks.caughtUp now contiguous
  have hidle : Tracks period (r.close now contiguous).progress [] [] := by
    rw [show (r.close now contiguous).progress = .new period from hnew]
    exact .idle
  have hlog : (r.close now contiguous).lines
      = closed.flatten ++ (running ++ (r.progress.caughtUp now contiguous).2) := by
    simp only [Reporter.close, hlines, List.append_assoc]
  rcases hcases with ⟨hseen, hnil⟩ | ⟨hseen, hclose⟩
  · have hseen' : seen = [] := hseen
    rw [hseen'] at hcounts ⊢
    refine ⟨⟨closed, [], ?_, hclosed, hidle⟩, hcounts, fun hne => absurd hmeasuring hne⟩
    rw [hlog, hnil]
  · obtain ⟨o, later, rfl⟩ : ∃ o later, seen = o :: later := List.exists_cons_of_ne_nil hseen
    refine ⟨⟨closed ++ [running ++ (r.progress.caughtUp now contiguous).2], [],
        ?_, ?_, hidle⟩,
      ?_, fun hne => absurd hmeasuring hne⟩
    · rw [hlog, List.flatten_append, List.flatten_singleton, List.append_nil]
    · exact List.rel_append hclosed (.cons hclose .nil)
    · simp only [cutStep, List.length_append, List.length_singleton]
      exact hcounts

/-- A step that tells the tracker nothing and leaves its lines. -/
theorem Ledger.apart (h : Ledger period cut r) (hlines : r'.lines = r.lines)
    (hprogress : r'.progress = r.progress) (hcounts : r'.counted + r'.owed = r.counted + r.owed)
    (hphase : r'.phase ≠ .measuring → r.phase ≠ .measuring) : Ledger period cut r' := by
  refine ⟨?_, hcounts.trans h.counts, fun hne => h.phase (hphase hne)⟩
  rw [hlines, hprogress]
  exact h.log

/-- **The step lemma.** -/
theorem Ledger.kept {before : List Action} {a : Action} (h : Ledger period (stretches before) r)
    (hstep : step r a = some r') : Ledger period (stretches (before ++ [a])) r' := by
  cases a with
  | measure now m =>
      have htold : (Action.measure now m).observed = some (m.observed now) := rfl
      rw [stretches_told before htold, Measured.observed]
      simp only [step] at hstep
      by_cases hmeasuring : r.phase = .measuring
      · rw [if_pos hmeasuring] at hstep
        have howed : r.owed = 0 := if_neg (by rw [hmeasuring]; decide)
        cases hbehind : m.behind with
        | none =>
            simp only [hbehind] at hstep
            rw [← Option.some.inj hstep]
            exact h.close hmeasuring now m.contiguous
        | some behind =>
            simp only [hbehind] at hstep
            rw [← Option.some.inj hstep]
            obtain ⟨hlog, hne, hcount, -⟩ := h.see now m.contiguous m.target behind
            refine ⟨hlog, ?_, fun _ => hne⟩
            rw [if_neg hne, ← hcount, howed]
            cases r.begins now m.contiguous m.target behind with
            | true => rfl
            | false => rfl
      · rw [if_neg hmeasuring] at hstep
        cases hstep
  | count =>
      rw [stretches_untold before rfl]
      simp only [step] at hstep
      by_cases hcounting : r.phase = .counting
      · rw [if_pos hcounting] at hstep
        rw [← Option.some.inj hstep]
        have howed : r.owed = 1 := if_pos hcounting
        refine h.apart rfl rfl ?_ fun _ => by rw [hcounting]; decide
        rw [howed]
        rfl
      · rw [if_neg hcounting] at hstep
        cases hstep
  | height now height tip =>
      have htold : (Action.height now height tip).observed
          = some (.behind now height tip (tip - height)) := rfl
      rw [stretches_told before htold]
      simp only [step] at hstep
      by_cases hfilling : r.phase = .filling
      · rw [if_pos hfilling] at hstep
        rw [← Option.some.inj hstep]
        obtain ⟨hlog, hne, hcount, hbegins⟩ := h.see now height tip (tip - height)
        refine ⟨hlog, ?_, fun _ => hne⟩
        rw [hbegins (by rw [hfilling]; decide)] at hcount
        rw [if_neg hne, ← hcount]
        rfl
      · rw [if_neg hfilling] at hstep
        cases hstep
  | fillEnds =>
      rw [stretches_untold before rfl]
      simp only [step] at hstep
      by_cases hfilling : r.phase = .filling
      · rw [if_pos hfilling] at hstep
        rw [← Option.some.inj hstep]
        have howed : r.owed = 0 := if_neg (by rw [hfilling]; decide)
        refine h.apart rfl rfl ?_ fun hne => absurd rfl hne
        rw [howed]
        rfl
      · rw [if_neg hfilling] at hstep
        cases hstep
  | swap =>
      rw [stretches_untold before rfl]
      simp only [step] at hstep
      cases htaken : r.taken with
      | some n =>
          simp only [htaken] at hstep
          cases hstep
      | none =>
          simp only [htaken] at hstep
          rw [← Option.some.inj hstep]
          refine h.apart rfl rfl ?_ id
          simp only [Reporter.counted, Reporter.owed, htaken, Option.getD_some, Option.getD_none]
          omega
  | summary hw mc =>
      rw [stretches_untold before rfl]
      simp only [step] at hstep
      cases htaken : r.taken with
      | none =>
          simp only [htaken] at hstep
          cases hstep
      | some n =>
          simp only [htaken] at hstep
          rw [← Option.some.inj hstep]
          refine h.apart rfl rfl ?_ id
          simp only [Reporter.counted, Reporter.owed, htaken, Option.getD_some, Option.getD_none,
            List.map_append, List.sum_append, List.map_singleton, List.sum_singleton]
          omega

end Steps

/-- **Stretches are accounted for.**  In every interleaving of a fill loop, the heights it
    fills and the summaries, the log is the lines of the run's stretches, each begun by a
    starting line with what the loop found, and with progress lines at least a period apart;
    all but the running one are closed, by a line with the blocks from the frontier it began
    at to the one measured then, and the time; and the counts the summaries have reported,
    with what is still on its way, add up to the number of stretches. -/
theorem stretches_accounted {period : Nat} {as : List Action} {r : Reporter}
    (hrun : Run.exec step (.start period) as = some r) : Ledger period (stretches as) r := by
  have hstart : Ledger period (stretches []) (.start period) := ledger_start period
  exact @Run.exec_history _ _ step (fun before r => Ledger period (stretches before) r)
    (fun _ _ _ _ h hstep => h.kept hstep) as [] _ r hstart hrun

/-- A stretch of two heights, and a summary meanwhile. -/
def twoHeights : List Action :=
  [.measure 0 (.eth 5 7), .swap, .count, .height 1 6 7, .height 90 7 7, .fillEnds,
    .measure 91 (.eth 7 7), .summary 7 7]

theorem stretches_accounted_two :
    ∃ r : Reporter, Run.exec step (.start 60) twoHeights = some r ∧
      (stretches twoHeights).1.map List.length = [4] ∧
      r.lines.getLast? = some (.caughtUp 91 .DEBUG 2 91) ∧
      Ledger 60 (stretches twoHeights) r := by
  obtain ⟨r, hrun, hlast⟩ : ∃ r, Run.exec step (.start 60) twoHeights = some r ∧
      r.lines.getLast? = some (.caughtUp 91 .DEBUG 2 91) := ⟨_, rfl, rfl⟩
  exact ⟨r, hrun, rfl, hlast, stretches_accounted hrun⟩

end NeveProgress
