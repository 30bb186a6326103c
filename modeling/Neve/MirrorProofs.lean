import Neve.RecordConsistencyProofs
import Neve.FrontierProofs

/-! # The P-chain mirror — an upstream instance and a mirror session

    One neve fills its store from a node and announces what it stores at the
    tip; another mirrors it: it reads the upstream's contiguous tip, replays the
    range it lacks over `oldRecords`, then follows `newRecords`.  The two run
    concurrently, so every point where one can act between two effects of the
    other is a step of its own: writing a height and announcing it, reading the
    target and asking for the range, finishing the range and subscribing. -/

namespace NeveMirror

open JsonValue ByteText NeveRecord NeveStorage NevePlatformIngest NeveFrontier

/-! ## The upstream instance -/

/-- Where a fill run stands: waiting for the block at its cursor, about to write
    a block, or about to announce one it has written.  `resolver` is the block at
    the cursor when the one written is the proposal held before it. -/
inductive Stage where
  | fetching (pending : Option FetchedBlock)
  | storing (fetched : FetchedBlock) (rewards : Bytes) (resolver : Option FetchedBlock)
  | announcing (fetched : FetchedBlock) (rewards : Bytes) (resolver : Option FetchedBlock)

/-- A run of heights being filled. -/
structure FillRun where
  stop : Nat
  cursor : Nat
  stage : Stage

namespace FillRun

/-- On to the next height, or the end of the run: a proposal still held there is
    not written. -/
def advance (run : FillRun) (pending : Option FetchedBlock) : Option FillRun :=
  if run.cursor < run.stop then some ⟨run.stop, run.cursor + 1, .fetching pending⟩
  else none

/-- Hold a reward proposal; write anything else straight through. -/
def proceed (run : FillRun) (fetched : FetchedBlock) : Option FillRun :=
  if fetched.rewardStakingTx.isSome then run.advance (some fetched)
  else some { run with stage := .storing fetched EMPTY_ARRAY none }

/-- What follows a write: the block that resolved the proposal, or the next
    height. -/
def resume (run : FillRun) : Option FetchedBlock → Option FillRun
  | some fetched => run.proceed fetched
  | none => run.advance none

def announcing (run : FillRun) : Bool :=
  match run.stage with
  | .announcing .. => true
  | _ => false

/-- A block fetched at the cursor settles the proposal held before it first. -/
def handle (J : Codec) (run : FillRun) (pending : Option FetchedBlock)
    (fetched : FetchedBlock) (utxos : String → Option Value) : Option FillRun :=
  match pending with
  | none => run.proceed fetched
  | some proposal =>
      (resolveReward J proposal fetched.kind utxos).map fun rewards =>
        { run with stage := .storing proposal rewards (some fetched) }

end FillRun

/-- The state of the upstream's ingest loop. -/
structure Upstream where
  storage : Storage
  behindTip : Nat
  tip : Nat
  tipRead : Bool
  run : Option FillRun

/-- What the upstream does next: start a pass (has the poll interval elapsed, and
    the tip should it be polled), take one fetched height, write, announce. -/
inductive UpstreamAction where
  | pass (elapsed : Bool) (polled : Option UInt64)
  | fetch (reply : HeightReply)
  | store (fault : Fault)
  | announce

namespace Upstream

def start (storage : Storage) : Upstream := ⟨storage, 0, 0, false, none⟩

/-- Measure and decide, with the tip just read or still fresh. -/
def decide (floor : Option Nat) (u : Upstream) (tip : Nat) : Upstream :=
  let next := nextHeight u.storage.isEmpty u.storage.maxContiguousHeight floor tip
  if tip < next then { u with tip := tip, tipRead := true, behindTip := 0 }
  else
    { u with
      tip := tip
      tipRead := true
      behindTip := tip - next + 1
      run := some ⟨min tip (saturatingAdd next (FILL_CHUNK - 1)), next, .fetching none⟩ }

/-- Is a stored height still to be announced? -/
def announcing (u : Upstream) : Bool := u.run.any FillRun.announcing

end Upstream

section Step

variable (J : Codec) (sha256 : Bytes → Bytes32)

/-- One step of the upstream's ingest loop, with what it sends on the live
    fan-out; `listening` says whether anyone is subscribed. -/
def upstreamStep (floor : Option Nat) (listening : Bool) (u : Upstream) :
    UpstreamAction → Option (Upstream × Option LiveUpdate)
  | .pass elapsed polled =>
      match u.run with
      | some _ => none
      | none =>
          match if !u.tipRead || elapsed then polled.map UInt64.toNat else some u.tip with
          | none => some ({ u with tipRead := true }, none)
          | some tip => some (u.decide floor tip, none)
  | .fetch reply =>
      match u.run with
      | some ⟨stop, cursor, .fetching pending⟩ =>
          match fetchBlock J sha256 cursor reply with
          | none => some ({ u with run := none }, none)
          | some fetched =>
              let run : FillRun := ⟨stop, cursor, .fetching pending⟩
              some ({ u with run := run.handle J pending fetched reply.utxos }, none)
      | _ => none
  | .store fault =>
      match u.run with
      | some ⟨stop, cursor, .storing fetched rewards resolver⟩ =>
          match storeBlock u.storage fault fetched rewards with
          | (none, s') => some ({ u with storage := s', run := none }, none)
          | (some _, s') =>
              let run : FillRun := ⟨stop, cursor, .announcing fetched rewards resolver⟩
              some ({ u with
                storage := s'
                behindTip := u.tip - fetched.height
                run := if u.tip ≤ fetched.height then some run else run.resume resolver },
                none)
      | _ => none
  | .announce =>
      match u.run with
      | some ⟨stop, cursor, .announcing fetched rewards resolver⟩ =>
          let run : FillRun := ⟨stop, cursor, .announcing fetched rewards resolver⟩
          some ({ u with run := run.resume resolver },
            NevePlatformIngest.announce J listening fetched.json
              [fetched.json, fetched.bytesJson, rewards])
      | _ => none

end Step

/-- Everything a step of the loop can do, and what it sends. -/
inductive UpstreamTurn (J : Codec) (sha256 : Bytes → Bytes32) (floor : Option Nat)
    (listening : Bool) (u : Upstream) :
    UpstreamAction → Upstream → Option LiveUpdate → Prop
  | unpolled (elapsed : Bool) (polled : Option UInt64) (hrun : u.run = none) :
      UpstreamTurn J sha256 floor listening u (.pass elapsed polled)
        { u with tipRead := true, run := none } none
  | decided (elapsed : Bool) (polled : Option UInt64) (tip : Nat) (hrun : u.run = none)
      (htip : (if !u.tipRead || elapsed then polled.map UInt64.toNat else some u.tip)
        = some tip) :
      UpstreamTurn J sha256 floor listening u (.pass elapsed polled) (u.decide floor tip) none
  | failed (reply : HeightReply) (stop cursor : Nat) (pending : Option FetchedBlock)
      (hrun : u.run = some ⟨stop, cursor, .fetching pending⟩)
      (hfetch : fetchBlock J sha256 cursor reply = none) :
      UpstreamTurn J sha256 floor listening u (.fetch reply) { u with run := none } none
  | fetched (reply : HeightReply) (stop cursor : Nat) (pending : Option FetchedBlock)
      (fetched : FetchedBlock) (hrun : u.run = some ⟨stop, cursor, .fetching pending⟩)
      (hfetch : fetchBlock J sha256 cursor reply = some fetched) :
      UpstreamTurn J sha256 floor listening u (.fetch reply)
        { u with
          run := FillRun.handle J ⟨stop, cursor, .fetching pending⟩ pending fetched
            reply.utxos } none
  | unstored (fault : Fault) (stop cursor : Nat) (fetched : FetchedBlock) (rewards : Bytes)
      (resolver : Option FetchedBlock) (s' : Storage)
      (hrun : u.run = some ⟨stop, cursor, .storing fetched rewards resolver⟩)
      (hstore : storeBlock u.storage fault fetched rewards = (none, s')) :
      UpstreamTurn J sha256 floor listening u (.store fault)
        { u with storage := s', run := none } none
  | stored (fault : Fault) (stop cursor : Nat) (fetched : FetchedBlock) (rewards : Bytes)
      (resolver : Option FetchedBlock) (height : Nat) (s' : Storage)
      (hrun : u.run = some ⟨stop, cursor, .storing fetched rewards resolver⟩)
      (hstore : storeBlock u.storage fault fetched rewards = (some height, s')) :
      UpstreamTurn J sha256 floor listening u (.store fault)
        { u with
          storage := s'
          behindTip := u.tip - fetched.height
          run := if u.tip ≤ fetched.height
            then some ⟨stop, cursor, .announcing fetched rewards resolver⟩
            else FillRun.resume ⟨stop, cursor, .announcing fetched rewards resolver⟩
              resolver } none
  | announced (stop cursor : Nat) (fetched : FetchedBlock) (rewards : Bytes)
      (resolver : Option FetchedBlock)
      (hrun : u.run = some ⟨stop, cursor, .announcing fetched rewards resolver⟩) :
      UpstreamTurn J sha256 floor listening u .announce
        { u with
          run := FillRun.resume ⟨stop, cursor, .announcing fetched rewards resolver⟩
            resolver }
        (NevePlatformIngest.announce J listening fetched.json
          [fetched.json, fetched.bytesJson, rewards])

theorem upstreamStep_turn {J : Codec} {sha256 : Bytes → Bytes32} {floor : Option Nat}
    {listening : Bool} {u u' : Upstream} {a : UpstreamAction} {sent : Option LiveUpdate}
    (h : upstreamStep J sha256 floor listening u a = some (u', sent)) :
    UpstreamTurn J sha256 floor listening u a u' sent := by
  cases hrun : u.run with
  | none =>
      cases a with
      | pass elapsed polled =>
          simp only [upstreamStep, hrun] at h
          split at h
          · obtain ⟨rfl, rfl⟩ := Prod.mk.inj (Option.some.inj h)
            exact .unpolled elapsed polled hrun
          · rename_i tip htip
            obtain ⟨rfl, rfl⟩ := Prod.mk.inj (Option.some.inj h)
            exact .decided elapsed polled tip hrun htip
      | _ =>
          simp only [upstreamStep, hrun] at h
          cases h
  | some run =>
      obtain ⟨stop, cursor, stage⟩ := run
      -- the stage of the run is the one step that can be taken
      cases a with
      | pass elapsed polled =>
          simp only [upstreamStep, hrun] at h
          cases h
      | fetch reply =>
          cases stage with
          | fetching pending =>
              simp only [upstreamStep, hrun] at h
              cases hfetch : fetchBlock J sha256 cursor reply with
              | none =>
                  rw [hfetch] at h
                  obtain ⟨rfl, rfl⟩ := Prod.mk.inj (Option.some.inj h)
                  exact .failed reply stop cursor pending hrun hfetch
              | some fetched =>
                  rw [hfetch] at h
                  obtain ⟨rfl, rfl⟩ := Prod.mk.inj (Option.some.inj h)
                  exact .fetched reply stop cursor pending fetched hrun hfetch
          | _ =>
              simp only [upstreamStep, hrun] at h
              cases h
      | store fault =>
          cases stage with
          | storing fetched rewards resolver =>
              simp only [upstreamStep, hrun] at h
              cases hstore : storeBlock u.storage fault fetched rewards with
              | mk stored s' =>
                  rw [hstore] at h
                  cases stored with
                  | none =>
                      obtain ⟨rfl, rfl⟩ := Prod.mk.inj (Option.some.inj h)
                      exact .unstored fault stop cursor fetched rewards resolver s' hrun hstore
                  | some height =>
                      obtain ⟨rfl, rfl⟩ := Prod.mk.inj (Option.some.inj h)
                      exact .stored fault stop cursor fetched rewards resolver height s' hrun
                        hstore
          | _ =>
              simp only [upstreamStep, hrun] at h
              cases h
      | announce =>
          cases stage with
          | announcing fetched rewards resolver =>
              simp only [upstreamStep, hrun] at h
              obtain ⟨rfl, rfl⟩ := Prod.mk.inj (Option.some.inj h)
              exact .announced stop cursor fetched rewards resolver hrun
          | _ =>
              simp only [upstreamStep, hrun] at h
              cases h

/-! ## A run that nothing interrupts

    The stages are a finer view of `fillRange`: taken one after the other with
    no other step between, they write and announce what it does. -/

section Solo

variable (J : Codec) (sha256 : Bytes → Bytes32) (floor : Option Nat) (listening : Bool)

/-- The upstream alone, with everything it has sent. -/
def soloStep (st : Upstream × List LiveUpdate) (a : UpstreamAction) :
    Option (Upstream × List LiveUpdate) :=
  (upstreamStep J sha256 floor listening st.1 a).map fun (u, sent) =>
    (u, st.2 ++ sent.toList)

/-- An upstream loop in the middle of a run, as a state of `soloStep`. -/
def solo (tip : Nat) (p : Pipeline) (run : Option FillRun) : Upstream × List LiveUpdate :=
  (⟨p.storage, p.behindTip, tip, true, run⟩, p.live)

/-- Where the outcome of one height leaves the loop: cut short, or at the next
    height with what is held. -/
def afterHeight (tip stop cursor : Nat) :
    Bool × Pipeline × Option FetchedBlock → Upstream × List LiveUpdate
  | (false, p, _) => solo tip p none
  | (true, p, pending) => solo tip p (FillRun.advance ⟨stop, cursor, .fetching none⟩ pending)

theorem emit_stages (tip : Nat) (p : Pipeline) (fault : Fault) (stop cursor : Nat)
    (fetched : FetchedBlock) (rewards : Bytes) (resolver : Option FetchedBlock) :
    ∃ actions, Run.exec (soloStep J sha256 floor listening)
        (solo tip p (some ⟨stop, cursor, .storing fetched rewards resolver⟩)) actions
      = some (match emit J listening p fault fetched rewards tip with
        | (false, p') => solo tip p' none
        | (true, p') => solo tip p'
            (FillRun.resume ⟨stop, cursor, .announcing fetched rewards resolver⟩
              resolver)) := by
  cases hs : storeBlock p.storage fault fetched rewards with
  | mk stored s' =>
  cases stored with
  | none =>
      refine ⟨[.store fault], ?_⟩
      simp [Run.exec, soloStep, solo, upstreamStep, emit, hs]
  | some height =>
      by_cases htip : tip ≤ fetched.height
      · refine ⟨[.store fault, .announce], ?_⟩
        simp [Run.exec, soloStep, solo, upstreamStep, emit, hs, htip]
      · refine ⟨[.store fault], ?_⟩
        simp [Run.exec, soloStep, solo, upstreamStep, emit, hs, htip]

/-- What is left of a height once the proposal before it is settled. -/
theorem proceed_stages (tip : Nat) (p : Pipeline) (fault : Nat → Fault) (stop cursor : Nat)
    (stage : Stage) (fetched : FetchedBlock) :
    ∃ actions, Run.exec (soloStep J sha256 floor listening)
        (solo tip p (FillRun.proceed ⟨stop, cursor, stage⟩ fetched)) actions
      = some (if fetched.rewardStakingTx.isSome then
          solo tip p (FillRun.advance ⟨stop, cursor, stage⟩ (some fetched))
        else match emit J listening p (fault fetched.height) fetched EMPTY_ARRAY tip with
          | (false, p') => solo tip p' none
          | (true, p') => solo tip p' (FillRun.advance ⟨stop, cursor, stage⟩ none)) := by
  simp only [FillRun.proceed]
  by_cases hheld : fetched.rewardStakingTx.isSome = true
  · refine ⟨[], ?_⟩
    simp only [hheld, if_true, Run.exec_nil]
  · simp only [hheld, if_false, Bool.false_eq_true]
    exact emit_stages J sha256 floor listening tip p (fault fetched.height) stop cursor fetched
      EMPTY_ARRAY none

theorem soloStep_fetch_some (tip stop : Nat) (p : Pipeline) (pending : Option FetchedBlock)
    {cursor : Nat} {r : HeightReply} {fetched : FetchedBlock}
    (hf : fetchBlock J sha256 cursor r = some fetched) :
    soloStep J sha256 floor listening (solo tip p (some ⟨stop, cursor, .fetching pending⟩))
        (.fetch r)
      = some (solo tip p
        (FillRun.handle J ⟨stop, cursor, .fetching pending⟩ pending fetched r.utxos)) := by
  simp [soloStep, solo, upstreamStep, hf]

/-- One height of a run. -/
theorem fillStep_stages (tip : Nat) (p : Pipeline) (fault : Nat → Fault) (stop cursor : Nat)
    (pending : Option FetchedBlock) (r : HeightReply) :
    ∃ actions, Run.exec (soloStep J sha256 floor listening)
        (solo tip p (some ⟨stop, cursor, .fetching pending⟩)) actions
      = some (afterHeight tip stop cursor
        (fillStep J sha256 listening fault tip p pending cursor r)) := by
  -- after the proposal is settled, both sides hold the block or emit it
  have htail : ∀ p1 fetched, ∃ actions, Run.exec (soloStep J sha256 floor listening)
      (solo tip p1 (FillRun.proceed ⟨stop, cursor, .fetching pending⟩ fetched)) actions
        = some (afterHeight tip stop cursor
          (if fetched.rewardStakingTx.isSome then (true, p1, some fetched)
            else
              ((emit J listening p1 (fault fetched.height) fetched EMPTY_ARRAY tip).1,
                (emit J listening p1 (fault fetched.height) fetched EMPTY_ARRAY tip).2,
                none))) := by
    intro p1 fetched
    obtain ⟨actions, hrun⟩ := proceed_stages J sha256 floor listening tip p1 fault stop cursor
      (.fetching pending) fetched
    refine ⟨actions, hrun.trans (congrArg some ?_)⟩
    by_cases hheld : fetched.rewardStakingTx.isSome = true
    · simp only [hheld, if_true]
      rfl
    · simp only [hheld, if_false, Bool.false_eq_true]
      cases emit J listening p1 (fault fetched.height) fetched EMPTY_ARRAY tip with
      | mk ok p' => cases ok <;> rfl
  simp only [fillStep]
  cases hf : fetchBlock J sha256 cursor r with
  | none =>
      refine ⟨[.fetch r], Run.exec_step (?_ : _ = some (solo tip p none)) rfl⟩
      simp [soloStep, solo, upstreamStep, hf]
  | some fetched =>
  dsimp only
  have hstep := soloStep_fetch_some J sha256 floor listening tip stop p pending hf
  cases hp : pending with
  | none =>
      obtain ⟨actions, hrun⟩ := htail p fetched
      rw [hp] at hstep hrun
      exact ⟨.fetch r :: actions, Run.exec_step hstep hrun⟩
  | some proposal =>
      simp only [settlePending]
      rw [hp] at hstep
      cases hr : resolveReward J proposal fetched.kind r.utxos with
      | none =>
          simp only [FillRun.handle, hr, Option.map_none] at hstep
          exact ⟨[.fetch r], Run.exec_step hstep rfl⟩
      | some rewards =>
          simp only [FillRun.handle, hr, Option.map_some] at hstep
          obtain ⟨first, hfirst⟩ := emit_stages J sha256 floor listening tip p
            (fault proposal.height) stop cursor proposal rewards (some fetched)
          dsimp only
          cases he : emit J listening p (fault proposal.height) proposal rewards tip with
          | mk ok p1 =>
          rw [he] at hfirst
          cases ok with
          | false => exact ⟨.fetch r :: first, Run.exec_step hstep hfirst⟩
          | true =>
              obtain ⟨rest, hrest⟩ := htail p1 fetched
              rw [hp] at hrest
              exact ⟨.fetch r :: (first ++ rest),
                Run.exec_step hstep (Run.exec_trans hfirst hrest)⟩

/-- **The stages refine the range fill**: a run from `cursor` to `stop` that
    nothing interrupts ends with what `fillRange` leaves, and sends what it
    sends. -/
theorem fillRange_stages (tip : Nat) (fault : Nat → Fault) (replies : Nat → HeightReply)
    {stop cursor : Nat} (hle : cursor ≤ stop) (p : Pipeline)
    (pending : Option FetchedBlock) :
    ∃ actions, Run.exec (soloStep J sha256 floor listening)
        (solo tip p (some ⟨stop, cursor, .fetching pending⟩)) actions
      = some (solo tip (fillRange J sha256 listening fault tip p pending
          ((List.range' cursor (stop + 1 - cursor)).map fun k => (k, replies k))).2 none) := by
  obtain ⟨n, rfl⟩ := Nat.exists_eq_add_of_le hle
  induction n generalizing cursor p pending with
  | zero =>
      have hlen : cursor + 0 + 1 - cursor = 1 := by omega
      obtain ⟨actions, hrun⟩ := fillStep_stages J sha256 floor listening tip p fault
        (cursor + 0) cursor pending (replies cursor)
      refine ⟨actions, hrun.trans (congrArg some ?_)⟩
      simp only [hlen, List.range'_one, List.map_cons, List.map_nil, fillRange_cons]
      cases fillStep J sha256 listening fault tip p pending cursor (replies cursor) with
      | mk ok out =>
          cases ok with
          | false => rfl
          | true => simp [afterHeight, FillRun.advance, fillRange]
  | succ n ih =>
      have hlen : cursor + (n + 1) + 1 - cursor = (cursor + 1 + n + 1 - (cursor + 1)) + 1 := by
        omega
      have hstop : cursor + (n + 1) = cursor + 1 + n := by omega
      obtain ⟨first, hfirst⟩ := fillStep_stages J sha256 floor listening tip p fault
        (cursor + (n + 1)) cursor pending (replies cursor)
      rw [hlen, List.range'_succ, List.map_cons, fillRange_cons]
      cases hs : fillStep J sha256 listening fault tip p pending cursor (replies cursor) with
      | mk ok out =>
      obtain ⟨p1, pending1⟩ := out
      rw [hs] at hfirst
      cases ok with
      | false => exact ⟨first, hfirst⟩
      | true =>
          obtain ⟨rest, hrest⟩ := ih p1 pending1 (by omega)
          refine ⟨first ++ rest, Run.exec_trans hfirst ?_⟩
          simp only [afterHeight, FillRun.advance]
          rw [if_pos (by omega), hstop]
          exact hrest

end Solo

/-! ## The mirror -/

/-- Live updates a slow subscriber may fall behind by. -/
def LIVE_CHANNEL_CAP : Nat := 1024

/-- Where a mirror session stands.  `socket` is what the upstream has sent and
    the mirror has not read, `ring` what was announced and not yet sent. -/
inductive Session where
  | idle
  | requesting (start target : Nat)
  | streaming (target cursor : Nat) (socket : List Value)
  | bootstrapped (target : Nat)
  | following (socket : List Value) (ring : List LiveUpdate)

def Session.isFollowing : Session → Bool
  | .following .. => true
  | _ => false

/-- The mirror's state, with the heights of the live records it has stored. -/
structure Mirror where
  storage : Storage
  behindTip : Nat
  session : Session
  mirrored : List Nat

inductive MirrorAction where
  | bootstrap
  | request
  | replay
  | receive (fault : Fault)
  | subscribe
  | forward
  | disconnect

/-- `max_contiguous_height` as the upstream's health report has it: null on an
    empty store. -/
def upstreamContiguous (s : Storage) : Option Nat :=
  if s.isEmpty then none else some s.maxContiguousHeight

/-- The first height a mirror lacks: the floor on a cold start, otherwise one
    past what it holds contiguously. -/
def bootstrapStart (s : Storage) (floor : Option Nat) : Nat :=
  if s.isEmpty then floor.getD 0 else saturatingAdd s.maxContiguousHeight 1

/-- Does the upstream accept the range, being able to serve it gaplessly? -/
def acceptsRange (s : Storage) (start stop : Nat) : Bool :=
  !s.isEmpty && decide (s.minHeight ≤ start) && decide (start ≤ stop)
    && decide (stop ≤ s.maxContiguousHeight)

/-- An announced update reaches the ring of a live subscription; a full ring
    loses its oldest entry. -/
def Mirror.deliver (m : Mirror) (update : LiveUpdate) : Mirror :=
  match m.session with
  | .following socket ring =>
      let ring' := (ring ++ [update]).drop (ring.length + 1 - LIVE_CHANNEL_CAP)
      { m with session := .following socket ring' }
  | _ => m

section MirrorStep

variable (J : Codec) (sha256 : Bytes → Bytes32)

/-- One step of the mirror's session, or of the upstream serving it.

    A replayed range stops at its target, where the mirror stops reading; a
    session that fails or stalls goes back to `idle` and is retried. -/
def mirrorStep (floor : Option Nat) (upstream : Storage) (m : Mirror) :
    MirrorAction → Option Mirror
  | .bootstrap =>
      match m.session with
      | .idle =>
          match upstreamContiguous upstream with
          | none => some m
          | some target =>
              let start := bootstrapStart m.storage floor
              some { m with session :=
                if target < start then .bootstrapped target else .requesting start target }
      | _ => none
  | .request =>
      match m.session with
      | .requesting start target =>
          some { m with session :=
            if acceptsRange upstream start target then .streaming target start [] else .idle }
      | _ => none
  | .replay =>
      match m.session with
      | .streaming target cursor socket =>
          if target < cursor then none
          else ((upstream.getRecord cursor).bind J.fromSlice).map fun record =>
            { m with session := .streaming target (cursor + 1) (socket ++ [record]) }
      | _ => none
  | .receive fault =>
      match m.session with
      | .streaming target cursor (record :: socket) =>
          match persistRecord J sha256 m.storage (fun _ => fault) record with
          | (none, s') => some { m with storage := s', session := .idle }
          | (some height, s') =>
              some { m with
                storage := s'
                behindTip := target - height
                session := if target ≤ height then .bootstrapped target
                  else .streaming target cursor socket }
      | .following (record :: socket) ring =>
          match persistRecord J sha256 m.storage (fun _ => fault) record with
          | (none, s') => some { m with storage := s', session := .following socket ring }
          | (some height, s') =>
              some { m with
                storage := s'
                behindTip := 0
                session := .following socket ring
                mirrored := height :: m.mirrored }
      | _ => none
  | .subscribe =>
      match m.session with
      | .bootstrapped _ => some { m with session := .following [] [] }
      | _ => none
  | .forward =>
      match m.session with
      | .following socket (update :: ring) =>
          some { m with session := .following (socket ++ update.record.toList) ring }
      | _ => none
  | .disconnect => some { m with session := .idle }

end MirrorStep

/-! ## Both together -/

structure System where
  upstream : Upstream
  mirror : Mirror

inductive Action where
  | upstream (a : UpstreamAction)
  | mirror (a : MirrorAction)

/-- The floors both instances were configured with. -/
structure Floors where
  upstream : Option Nat
  mirror : Option Nat

def System.start (upstream mirror : Storage) : System :=
  ⟨Upstream.start upstream, mirror, 0, .idle, []⟩

/-- One step of the system: either side, at any time. -/
def step (J : Codec) (sha256 : Bytes → Bytes32) (floors : Floors) (sys : System) :
    Action → Option System
  | .upstream a =>
      (upstreamStep J sha256 floors.upstream sys.mirror.session.isFollowing sys.upstream a).map
        fun (u, sent) => ⟨u, sent.elim sys.mirror sys.mirror.deliver⟩
  | .mirror a =>
      (mirrorStep J sha256 floors.mirror sys.upstream.storage sys.mirror a).map
        fun m => { sys with mirror := m }

end NeveMirror
