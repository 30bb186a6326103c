import Neve.EthInstanceProofs
import Neve.RunProofs

/-! # When the backfill loop declares itself caught up

    The loop goes by a tip cached for `TIP_TTL`, and asks upstream again only
    when the cached value aged or when the frontier reached everything known.
    A run with a clock keeps what every pass read and decided; the age of the
    cache follows from the passes before (`lastFetch`), and the cached tip is
    the tip the pass before went by (`cachedTip`). -/

namespace NeveEthInstance

open JsonValue NeveStorage NeveEthIngest NeveEthBackfill NeveFrontier

/-- How long a fetched upstream tip stays usable, in nanoseconds. -/
def TIP_TTL : Nat := 10 * 1000000000

/-- One pass of the loop that went by a tip: when it looked at the cache, what
    it had read of the store, the upstream request it issued (when the attempt
    was recorded, and the reply), the tip it went by, and what it did. -/
structure TipPass where
  now : Nat
  hw : Nat
  rawContiguous : Nat
  request : Option (Nat × Option Value)
  tip : Nat
  caughtUp : Bool
  behindTip : Nat

/-- The cached tip after the given passes, the newest first. -/
def cachedTip : List TipPass → Nat
  | [] => 0
  | p :: _ => p.tip

/-- When the last tip request was recorded. -/
def lastFetch : List TipPass → Option Nat
  | [] => none
  | p :: earlier =>
      match p.request with
      | some (done, _) => some done
      | none => lastFetch earlier

/-- The test `elapsed() < TIP_TTL` fails at `now`. -/
def agedAt (now : Nat) : Option Nat → Bool
  | none => false
  | some fetched => decide (TIP_TTL ≤ now - fetched)

structure Timed where
  inst : Instance
  passes : List TipPass

/-- What a clocked run meets next: a pass that goes by the tip, at a time, or
    any other step of either task. -/
inductive TimedAction where
  | readTip (now done : Nat) (response : Option Value)
  | other (a : Action)

def Action.isReadTip : Action → Bool
  | .backfill (.readTip ..) => true
  | _ => false

section Clock

variable (J : Codec) (cfg : IngestCfg)

/-- Frontier for behind and next accounting: the contiguous height raised to
    one below the floor. -/
def effectiveFrontier (rawContiguous : Nat) : Nat := max rawContiguous (cfg.floor.getD 0 - 1)

/-- Whether a pass asks upstream for the tip. -/
def asksUpstream (tip : TipCache) (hw rawContiguous : Nat) (aged : Bool) : Bool :=
  if effectiveFrontier cfg rawContiguous < max hw tip.height then !(tip.fetched && !aged)
  else true

def Timed.start (storage : Storage) : Timed := ⟨Instance.start cfg storage, []⟩

def timedStep (t : Timed) : TimedAction → Option Timed
  | .readTip now done response =>
      match t.inst.phase with
      | .contiguous hw rawContiguous =>
          let aged := agedAt now (lastFetch t.passes)
          (step J cfg t.inst (.backfill (.readTip aged response))).map fun i =>
            let asked := asksUpstream cfg t.inst.tip hw rawContiguous aged
            let pass : TipPass := {
              now := now
              hw := hw
              rawContiguous := rawContiguous
              request := if asked then some (done, response) else none
              tip := i.tip.height
              caughtUp := NeveFrontier.measure hw rawContiguous i.tip.height cfg.floor == .caughtUp
              behindTip := i.behindTip }
            ⟨i, pass :: t.passes⟩
      | _ => none
  | .other a =>
      if a.isReadTip then none else (step J cfg t.inst a).map fun i => ⟨i, t.passes⟩

end Clock

/-! ## One pass -/

section Passes

variable {J : Codec} {cfg : IngestCfg}

/-- A pass that does not ask goes by the cached tip, a pass that asks by the
    reply. -/
theorem readTip_eq (tip : TipCache) (hw rawContiguous : Nat) (aged : Bool)
    (response : Option Value) :
    readTip cfg tip hw rawContiguous aged response
      = if asksUpstream cfg tip hw rawContiguous aged then tip.getUncached response
        else tip := by
  show (if effectiveFrontier cfg rawContiguous < max hw tip.height then tip.get aged response
    else tip.getUncached response) = _
  rw [asksUpstream]
  by_cases hbelow : effectiveFrontier cfg rawContiguous < max hw tip.height
  · rw [if_pos hbelow, if_pos hbelow, TipCache.get]
    cases tip.fetched && !aged <;> rfl
  · rw [if_neg hbelow, if_neg hbelow, if_pos rfl]

/-- Caught up means that the frontier reached everything the pass read. -/
theorem measure_caughtUp_iff {hw rawContiguous tip : Nat} :
    NeveFrontier.measure hw rawContiguous tip cfg.floor = .caughtUp ↔
      ¬(hw = 0 ∧ cfg.floor.isNone = true)
        ∧ max hw tip ≤ effectiveFrontier cfg rawContiguous := by
  simp only [NeveFrontier.measure, effectiveFrontier]
  by_cases hcold : hw = 0 ∧ cfg.floor.isNone = true
  · rw [if_pos hcold]
    constructor
    · intro h
      cases h
    · rintro ⟨hwarm, -⟩
      exact absurd hcold hwarm
  · rw [if_neg hcold]
    by_cases htarget : max hw tip ≤ max rawContiguous (cfg.floor.getD 0 - 1)
    · rw [if_pos htarget]
      exact ⟨fun _ => ⟨hcold, htarget⟩, fun _ => rfl⟩
    · rw [if_neg htarget]
      constructor
      · intro h
        cases h
      · rintro ⟨-, hreached⟩
        exact absurd hreached htarget

/-- Everything said about a pass, given the passes before it. -/
structure Confirmed (cfg : IngestCfg) (earlier : List TipPass) (p : TipPass) : Prop where
  /-- Caught-up is declared only on a tip just asked for, at or above what was read. -/
  caughtUp : p.caughtUp = true →
    p.request.isSome = true ∧ p.behindTip = 0
      ∧ p.hw ≤ effectiveFrontier cfg p.rawContiguous
      ∧ p.tip ≤ effectiveFrontier cfg p.rawContiguous
  /-- The tip changes only to a number an upstream reply carried. -/
  tip : p.tip
    = (p.request.bind fun r => upstreamBlockNumber r.2).getD (cachedTip earlier)
  /-- Below something known, a cache that has not aged is not read past. -/
  quiet : ∀ fetched, lastFetch earlier = some fetched → p.now - fetched < TIP_TTL →
    effectiveFrontier cfg p.rawContiguous < max p.hw (cachedTip earlier) → p.request = none

/-- Every pass of a list, the newest first, is confirmed by those before it. -/
def AllConfirmed (cfg : IngestCfg) : List TipPass → Prop
  | [] => True
  | p :: earlier => Confirmed cfg earlier p ∧ AllConfirmed cfg earlier

theorem AllConfirmed.at {later earlier : List TipPass} {p : TipPass}
    (h : AllConfirmed cfg (later ++ p :: earlier)) : Confirmed cfg earlier p := by
  induction later with
  | nil => exact h.1
  | cons q later ih => exact ih h.2

/-- The caught-up branches an instance took. -/
def Instance.caughtUps (i : Instance) : Nat :=
  i.iterations.countP fun it => it.sleep == some .caughtUp

/-- What a clocked run keeps. -/
structure Clocked (J : Codec) (cfg : IngestCfg) (t : Timed) : Prop where
  tip : t.inst.tip = ⟨cachedTip t.passes, (lastFetch t.passes).isSome⟩
  passes : AllConfirmed cfg t.passes
  caughtUps : t.inst.caughtUps = t.passes.countP TipPass.caughtUp

theorem Clocked.start (storage : Storage) : Clocked J cfg (Timed.start cfg storage) :=
  ⟨rfl, trivial, rfl⟩

theorem caughtUps_endIteration (i : Instance) (sleep : Option Sleep) :
    (i.endIteration sleep).caughtUps
      = i.caughtUps + if sleep = some .caughtUp then 1 else 0 := by
  show List.countP _ (_ :: i.iterations) = _
  rw [List.countP_cons]
  by_cases hsleep : sleep = some .caughtUp
  · rw [if_pos hsleep, hsleep]
    rfl
  · rw [if_neg hsleep, if_neg (fun h => hsleep (eq_of_beq h))]
    rfl

theorem caughtUps_fillFrom (i : Instance) (next stop target cursor : Nat)
    (fetched : List (Nat × Option Fetched)) :
    (i.fillFrom next stop target cursor fetched).caughtUps = i.caughtUps := by
  rw [Instance.fillFrom]
  by_cases hend : stop < cursor
  · rw [if_pos hend, caughtUps_endIteration]
    rfl
  · rw [if_neg hend]
    rfl

theorem tip_fillFrom (i : Instance) (next stop target cursor : Nat)
    (fetched : List (Nat × Option Fetched)) :
    (i.fillFrom next stop target cursor fetched).tip = i.tip := by
  rw [Instance.fillFrom]
  by_cases hend : stop < cursor
  · rw [if_pos hend]
    rfl
  · rw [if_neg hend]

/-- What consuming a height leaves alone. -/
theorem consume_tip (i : Instance) (next stop target cursor : Nat)
    (fetched : List (Nat × Option Fetched)) (fault : Fault) (outcome : Option Fetched) :
    (consume J cfg i next stop target cursor fetched fault outcome).tip = i.tip
      ∧ (consume J cfg i next stop target cursor fetched fault outcome).caughtUps
        = i.caughtUps := by
  cases outcome with
  | none => exact ⟨rfl, caughtUps_endIteration i (some .backoff)⟩
  | some f =>
      cases f with
      | Skip => exact ⟨tip_fillFrom .., caughtUps_fillFrom ..⟩
      | Block height block logs =>
          rw [consume]
          cases hwrite : persistBackfilled J i.storage fault height block
              (logsHalf J cfg i.logs height logs).1 with
          | mk result s =>
              cases result with
              | error e => exact ⟨rfl, caughtUps_endIteration _ (some .backoff)⟩
              | ok u => exact ⟨tip_fillFrom .., caughtUps_fillFrom ..⟩

/-- Only going by the tip changes the cache or declares caught-up. -/
theorem backfillStep_tip {i i' : Instance} {a : BackfillAction}
    (ha : (Action.backfill a).isReadTip = false)
    (h : backfillStep J cfg i a = some i') :
    i'.tip = i.tip ∧ i'.caughtUps = i.caughtUps := by
  cases backfillStep_turn h with
  | cold hphase _ hcold => exact ⟨rfl, caughtUps_endIteration _ (some .coldStart)⟩
  | highWater hphase _ hwarm => exact ⟨rfl, rfl⟩
  | contiguous hw hphase => exact ⟨rfl, rfl⟩
  | decided aged response hw rawContiguous tip hphase htip => cases ha
  | unanswered result next stop target hphase hlogs =>
      exact ⟨rfl, caughtUps_endIteration i (some .backoff)⟩
  | loaded result logs next stop target hphase hlogs =>
      exact ⟨tip_fillFrom .., caughtUps_fillFrom ..⟩
  | fetched height block receipts next stop target cursor outcomes hphase _ _ _ _ =>
      exact ⟨rfl, rfl⟩
  | consumed fault next stop target cursor outcomes outcome hphase hlookup =>
      -- stored, failed or skipped, the outcome leaves the tip alone
      exact consume_tip i next stop target cursor outcomes fault outcome

/-- Every other step of either task leaves the cache and the count alone. -/
theorem step_tip {i i' : Instance} {a : Action} (ha : a.isReadTip = false)
    (h : step J cfg i a = some i') : i'.tip = i.tip ∧ i'.caughtUps = i.caughtUps := by
  cases a with
  | ingest a =>
      have heff := ingestStep_effect h
      exact ⟨heff.tip, congrArg (List.countP _) heff.iterations⟩
  | backfill a => exact backfillStep_tip ha h

/-- Acting on a decision keeps the cache, and counts exactly when it is
    caught-up; then nothing is behind. -/
theorem decide_caughtUps (i : Instance) (m : Measure) :
    (i.decide cfg m).tip = i.tip
      ∧ (i.decide cfg m).caughtUps = i.caughtUps + (if m = .caughtUp then 1 else 0)
      ∧ (m = .caughtUp → (i.decide cfg m).behindTip = 0) := by
  cases m with
  | coldStart => exact ⟨rfl, caughtUps_endIteration i (some .coldStart), fun h => by cases h⟩
  | caughtUp => exact ⟨rfl, caughtUps_endIteration _ (some .caughtUp), fun _ => rfl⟩
  | fill next stop target =>
      refine ⟨?_, ?_, fun h => by cases h⟩
      · show (if cfg.windowed = true then _ else _ : Instance).tip = i.tip
        by_cases hw : cfg.windowed = true
        · rw [if_pos hw]
        · rw [if_neg hw, tip_fillFrom]
      · show (if cfg.windowed = true then _ else _ : Instance).caughtUps = i.caughtUps
        by_cases hw : cfg.windowed = true
        · rw [if_pos hw]
          rfl
        · rw [if_neg hw, caughtUps_fillFrom]
          rfl

/-- What a pass does with the tip it goes by. -/
theorem backfillStep_readTip {i i' : Instance} {hw rawContiguous : Nat} {aged : Bool}
    {response : Option Value} {tip : TipCache} (hphase : i.phase = .contiguous hw rawContiguous)
    (htip : NeveEthInstance.readTip cfg i.tip hw rawContiguous aged response = tip)
    (h : backfillStep J cfg i (.readTip aged response) = some i') :
    i'.tip = tip
      ∧ i'.caughtUps = i.caughtUps
        + (if NeveFrontier.measure hw rawContiguous tip.height cfg.floor = .caughtUp then 1 else 0)
      ∧ (NeveFrontier.measure hw rawContiguous tip.height cfg.floor = .caughtUp →
        i'.behindTip = 0) := by
  cases backfillStep_turn h with
  | decided _ _ hw' rawContiguous' tip' hphase' htip' =>
      obtain ⟨rfl, rfl⟩ := Phase.contiguous.inj (hphase.symm.trans hphase')
      obtain rfl := htip.symm.trans htip'
      exact decide_caughtUps _ _

/-- **Step lemma.**  A pass is confirmed by the passes before it. -/
theorem Clocked.readTip {t t' : Timed} {now done : Nat} {response : Option Value}
    (ht : Clocked J cfg t) (h : timedStep J cfg t (.readTip now done response) = some t') :
    Clocked J cfg t' := by
  cases hphase : t.inst.phase with
  | contiguous hw rawContiguous =>
      simp only [timedStep, hphase] at h
      obtain ⟨i, hi, rfl⟩ := Option.map_eq_some_iff.mp h
      generalize haged : agedAt now (lastFetch t.passes) = aged at hi ⊢
      generalize hasked : asksUpstream cfg t.inst.tip hw rawContiguous aged = asked
      have hread : NeveEthInstance.readTip cfg t.inst.tip hw rawContiguous aged response
          = if asked = true then t.inst.tip.getUncached response else t.inst.tip := by
        rw [readTip_eq, hasked]
      have hi : backfillStep J cfg t.inst (.readTip aged response) = some i := hi
      obtain ⟨htip, hcount, hbehind⟩ := backfillStep_readTip hphase hread hi
      generalize htaken : (if asked = true then t.inst.tip.getUncached response
        else t.inst.tip) = tip at htip hcount hbehind
      rw [asksUpstream, ht.tip] at hasked
      dsimp only at hasked
      refine ⟨?_, ⟨⟨?_, ?_, ?_⟩, ht.passes⟩, ?_⟩
      · -- the cache is what the pass left
        show i.tip = ⟨i.tip.height, _⟩
        rw [htip]
        cases asked with
        | true =>
            rw [if_pos rfl] at htaken
            rw [← htaken]
            rfl
        | false =>
            rw [if_neg Bool.false_ne_true] at htaken
            rw [← htaken, ht.tip]
            rfl
      · -- caught-up on an unread tip would put the frontier below what is known
        intro hcaught
        have hmeasure : NeveFrontier.measure hw rawContiguous i.tip.height cfg.floor
            = .caughtUp := eq_of_beq hcaught
        have hreached := (measure_caughtUp_iff.mp hmeasure).2
        rw [htip] at hmeasure hreached
        refine ⟨?_, hbehind hmeasure, ?_, ?_⟩
        · cases asked with
          | true => rfl
          | false =>
              rw [if_neg Bool.false_ne_true] at htaken
              rw [← htaken, ht.tip] at hreached
              dsimp only at hreached
              rw [if_neg (Nat.not_lt.mpr hreached)] at hasked
              cases hasked
        · exact (le_max_left ..).trans hreached
        · show i.tip.height ≤ _
          rw [htip]
          exact (le_max_right ..).trans hreached
      · show i.tip.height = _
        rw [htip]
        cases asked with
        | true =>
            rw [if_pos rfl] at htaken
            rw [← htaken, TipCache.getUncached, ht.tip]
            rfl
        | false =>
            rw [if_neg Bool.false_ne_true] at htaken
            rw [← htaken, ht.tip]
            rfl
      · intro fetched hfetched hyoung hbelow
        have hfresh : aged = false := by
          rw [← haged, hfetched]
          exact decide_eq_false (Nat.not_le.mpr hyoung)
        rw [hfetched, hfresh, if_pos hbelow] at hasked
        rw [← hasked]
        rfl
      · show i.caughtUps = List.countP _ (_ :: t.passes)
        rw [hcount, List.countP_cons, ← ht.caughtUps, htip]
        by_cases hm : NeveFrontier.measure hw rawContiguous tip.height cfg.floor = .caughtUp
        · rw [if_pos hm, if_pos (beq_iff_eq.mpr hm)]
        · rw [if_neg hm, if_neg (fun h => hm (eq_of_beq h))]
  | _ =>
      simp only [timedStep, hphase] at h
      cases h

theorem Clocked.step {t t' : Timed} {a : TimedAction} (ht : Clocked J cfg t)
    (h : timedStep J cfg t a = some t') : Clocked J cfg t' := by
  cases a with
  | readTip now done response => exact ht.readTip h
  | other a =>
      cases ha : a.isReadTip with
      | true =>
          rw [timedStep, if_pos ha] at h
          cases h
      | false =>
          rw [timedStep, if_neg (by rw [ha]; exact Bool.false_ne_true)] at h
          obtain ⟨i, hi, rfl⟩ := Option.map_eq_some_iff.mp h
          obtain ⟨htip, hcount⟩ := step_tip ha hi
          exact ⟨htip.trans ht.tip, ht.passes, hcount.trans ht.caughtUps⟩

/-- **Run lemma.**  What a clocked run keeps holds after every run. -/
theorem Clocked.run {storage : Storage} {actions : List TimedAction} {t : Timed}
    (h : Run.exec (timedStep J cfg) (Timed.start cfg storage) actions = some t) :
    Clocked J cfg t :=
  Run.exec_invariant (fun _ _ => True) (fun _ _ _ hs _ hstep => hs.step hstep)
    (Clocked.start storage) (Run.meets_true _ _) h

/-- A clocked run is a run of the instance. -/
theorem exec_of_timed {t t' : Timed} {actions : List TimedAction}
    (h : Run.exec (timedStep J cfg) t actions = some t') :
    ∃ as : List Action, Run.exec (NeveEthInstance.step J cfg) t.inst as = some t'.inst := by
  induction actions generalizing t with
  | nil =>
      obtain rfl := Option.some.inj h
      exact ⟨[], rfl⟩
  | cons a rest ih =>
      obtain ⟨t1, h1, h2⟩ := Run.exec_cons h
      obtain ⟨as, has⟩ := ih h2
      cases a with
      | readTip now done response =>
          cases hphase : t.inst.phase with
          | contiguous hw rawContiguous =>
              simp only [timedStep, hphase] at h1
              obtain ⟨i, hi, rfl⟩ := Option.map_eq_some_iff.mp h1
              exact ⟨_ :: as, Run.exec_step hi has⟩
          | _ =>
              simp only [timedStep, hphase] at h1
              cases h1
      | other a =>
          cases ha : a.isReadTip with
          | true =>
              rw [timedStep, if_pos ha] at h1
              cases h1
          | false =>
              rw [timedStep, if_neg (by rw [ha]; exact Bool.false_ne_true)] at h1
              obtain ⟨i, hi, rfl⟩ := Option.map_eq_some_iff.mp h1
              exact ⟨a :: as, Run.exec_step hi has⟩

/-- **Caught-up is never declared on a stale tip.**  In every clocked run the
    caught-up branches taken are those of the recorded passes, and each pass is
    confirmed by the passes before it: a pass that declares caught-up asked
    upstream for the tip and found neither the high-water mark nor the tip it
    went by above the frontier; the tip changes only to a number a reply
    carried; and while the cache has not aged and the frontier is below
    something known, no request is issued. -/
theorem caught_up_only_on_fresh_tip {storage : Storage} {actions : List TimedAction} {t : Timed}
    (hrun : Run.exec (timedStep J cfg) (Timed.start cfg storage) actions = some t) :
    t.inst.caughtUps = t.passes.countP TipPass.caughtUp
    ∧ t.inst.tip.height = cachedTip t.passes
    ∧ ∀ (later earlier : List TipPass) (p : TipPass), t.passes = later ++ p :: earlier →
      (p.caughtUp = true →
        p.request.isSome = true ∧ p.behindTip = 0
          ∧ p.hw ≤ effectiveFrontier cfg p.rawContiguous
          ∧ p.tip ≤ effectiveFrontier cfg p.rawContiguous)
      ∧ p.tip = (p.request.bind fun r => upstreamBlockNumber r.2).getD (cachedTip earlier)
      ∧ ∀ fetched, lastFetch earlier = some fetched → p.now - fetched < TIP_TTL →
        effectiveFrontier cfg p.rawContiguous < max p.hw (cachedTip earlier) →
        p.request = none := by
  have hclocked := Clocked.run hrun
  refine ⟨hclocked.caughtUps, ?_, ?_⟩
  · rw [hclocked.tip]
  · intro later earlier p hpasses
    have hall := hclocked.passes
    rw [hpasses] at hall
    have hp := hall.at
    exact ⟨hp.caughtUp, hp.tip, hp.quiet⟩

end Passes

/-- An empty mirror with floor 1. -/
def emptyMirror : IngestCfg := ⟨false, .GetLogs, false, some 1, 1, 8⟩

/-- A pass over an empty store. -/
def emptyPass (now : Nat) (response : Option Value) : List TimedAction :=
  [.other (.backfill .readHighWater), .other (.backfill .readContiguous),
    .readTip now (now + 1) response]

/-- A tip request that fails, one that is answered with the genesis, and one with height 5. -/
def threeReads : List TimedAction :=
  emptyPass 5 none ++ emptyPass (10 ^ 12) (some (.object [("result", .string "0x0")])) ++
    emptyPass (2 * 10 ^ 12) (some (.object [("result", .string "0x5")]))

/-- The first two find nothing above the floor and declare caught-up, each with its
    request made; the third begins to fill. -/
theorem caught_up_after_failed_read :
    ∃ t, Run.exec (timedStep JsonText.codec emptyMirror)
        (Timed.start emptyMirror (Storage.fresh memory .C (some 1))) threeReads = some t
      ∧ t.inst.caughtUps = 2 ∧ t.passes.countP TipPass.caughtUp = 2
      ∧ t.passes.length = 3 := by
  have hrun : (Run.exec (timedStep JsonText.codec emptyMirror)
      (Timed.start emptyMirror (Storage.fresh memory .C (some 1))) threeReads).map
        (fun t => (t.inst.caughtUps, t.passes.length)) = some (2, 3) := rfl
  obtain ⟨t, ht, hcount⟩ := Option.map_eq_some_iff.mp hrun
  obtain ⟨hups, hpasses⟩ := Prod.mk.inj hcount
  exact ⟨t, ht, hups, (caught_up_only_on_fresh_tip ht).1.symm.trans hups, hpasses⟩

end NeveEthInstance
