import Neve.AdditiveControlProofs
import Neve.HandshakeProofs

/-! # Upstream fetches — attempts, sleeps and the pre-fetch delay

    Both chains' `fetch_rpc` make a few attempts: a throttle is waited out, a body
    without a usable result is asked for again after a back-off, anything else ends
    the call.  On the live `newHeads` path the C-chain's parks a delay before the
    first attempt and feeds the first decoded outcome back to the controller that
    sets it.  A call is run over the outcomes of its requests, a session over its
    heads. -/

namespace NeveFetchRpc

open JsonValue NeveHandshake AdditiveControl
open NeveRequestPacing (Dialect Point Reply Retried RPC_MAX_ATTEMPTS tooLong usable)

/-! ## The controller -/

/-- The pre-fetch delay and its cap, in nanoseconds; a cap of zero disables it. -/
structure AimdDelay where
  delay : Nat
  max : Nat
  deriving DecidableEq

namespace AimdDelay

/-- Increase step on a first-try miss. -/
def INC : Nat := 10 * 10 ^ 6

/-- Decrease step on a first-try hit. -/
def DEC : Nat := 1 * 10 ^ 6

def new (max : Nat) : AimdDelay := ⟨0, max⟩

def record (a : AimdDelay) (firstTryOk : Bool) : AimdDelay :=
  { a with delay := if firstTryOk then a.delay - DEC else min (a.delay + INC) a.max }

/-- The control law the controller follows. -/
def control (a : AimdDelay) : Control := ⟨INC, DEC, a.max⟩

theorem record_eq (a : AimdDelay) (ok : Bool) :
    a.record ok = ⟨a.control.record a.delay ok, a.max⟩ := rfl

end AimdDelay

/-! ## One call -/

/-- The outcome label of an upstream request. -/
inductive UpstreamOutcome where
  | Ok
  | Empty
  | TooManyRequests
  | ServiceUnavailable
  | Error
  deriving DecidableEq, Repr

/-- Only the throttle codes have labels of their own. -/
def UpstreamOutcome.ofStatus (status : Nat) : UpstreamOutcome :=
  if status = 429 then .TooManyRequests
  else if status = 503 then .ServiceUnavailable
  else .Error

/-- Where a call stands: before the outcome of an attempt, at its end, or parked for
    good by a long throttle. -/
inductive Stage where
  | asking (attempt : Nat)
  | returned (result : Option Value)
  | parked

/-- A call on its way: the outcome it fed back, the controller it was given, how long
    it slept each time, and the label of each request it made. -/
structure Fetch where
  stage : Stage
  recorded : Option Bool
  aimd : Option AimdDelay
  sleeps : List Nat
  outcomes : List UpstreamOutcome

/-- The delay that is parked before the first attempt. -/
def prefetch : Option AimdDelay → List Nat
  | none => []
  | some a => if a.delay = 0 then [] else [a.delay]

namespace Fetch

def begin (aimd : Option AimdDelay) : Fetch := ⟨.asking 0, none, aimd, prefetch aimd, []⟩

/-- On to the next attempt, or out of them. -/
def retry (f : Fetch) (attempt : Nat) : Fetch :=
  { f with stage := if attempt + 1 < RPC_MAX_ATTEMPTS then .asking (attempt + 1)
      else .returned none }

/-- Feed the first decoded outcome back, and no other. -/
def feedBack (f : Fetch) (firstTryOk : Bool) : Fetch :=
  match f.recorded with
  | some _ => f
  | none => { f with recorded := some firstTryOk, aimd := f.aimd.map (·.record firstTryOk) }

def count (f : Fetch) (outcome : UpstreamOutcome) : Fetch :=
  { f with outcomes := f.outcomes ++ [outcome] }

def slept (f : Fetch) (nanos : Nat) : Fetch := { f with sleeps := f.sleeps ++ [nanos] }

end Fetch

/-- The label of a decoded reply. -/
def decodedOutcome (status : Nat) (result : Option Value) : UpstreamOutcome :=
  if !isSuccess status then .Error else if result.isSome then .Ok else .Empty

/-- The back-off after an attempt; it doubles each time. -/
def backoff (backoffMs attempt : Nat) : Nat := backoffMs * 2 ^ min attempt 10 * 10 ^ 6

section Calls

variable {E : Type} (backoffMs maxWait : Nat)

/-- What a call does with the outcome of its request. -/
def Fetch.onOutcome (f : Fetch) (o : Outcome E) : Fetch :=
  match f.stage with
  | .asking attempt =>
      match o with
      | .failed _ => { f.count .Error with stage := .returned none }
      | .answered status retryAfter json =>
          if throttles status then
            if tooLong maxWait retryAfter then
              { f.count (.ofStatus status) with stage := .parked }
            else ((f.count (.ofStatus status)).slept (retryAfter.getD 5 * 10 ^ 9)).retry attempt
          else
            match json with
            | .error _ => { f.count .Error with stage := .returned none }
            | .ok body =>
                let outcome := decodedOutcome status (usable body)
                let f := (f.count outcome).feedBack (outcome = .Ok)
                match usable body with
                | some result => { f with stage := .returned (some result) }
                | none => (f.slept (backoff backoffMs attempt)).retry attempt
  | _ => f

def fetchRpc (aimd : Option AimdDelay) (outcomes : List (Outcome E)) : Fetch :=
  outcomes.foldl (Fetch.onOutcome backoffMs maxWait) (Fetch.begin aimd)

end Calls

/-- The C-chain's `fetch_rpc`: the block may not have propagated yet. -/
def ethFetchRpc {E : Type} (maxWait : Nat) (aimd : Option AimdDelay)
    (outcomes : List (Outcome E)) : Fetch := fetchRpc 25 maxWait aimd outcomes

/-- The P-chain's: it knows no pre-fetch delay. -/
def platformFetchRpc {E : Type} (maxWait : Nat) (outcomes : List (Outcome E)) : Fetch :=
  fetchRpc 50 maxWait none outcomes

/-! ## What an outcome does to a call -/

section Outcomes

variable {E : Type} {backoffMs maxWait : Nat}

/-- Everything an outcome can do to a call that is asking: it ends it, parks it, or
    sends it on to the next attempt after a sleep. -/
inductive Asked (maxWait backoffMs attempt : Nat) (f : Fetch) (o : Outcome E) (f' : Fetch) :
    Prop where
  | ended (result : Option Value) (hstage : f'.stage = .returned result)
      (hsleeps : f'.sleeps = f.sleeps)
      (hresult : ∀ v, result = some v ↔
        ∃ body, o.reply = .decoded body ∧ usable body = some v)
      (hagain : ¬ Retried maxWait o.reply)
  | parked (hstage : f'.stage = .parked) (hsleeps : f'.sleeps = f.sleeps)
      (hnone : ∀ body, o.reply ≠ .decoded body) (hagain : ¬ Retried maxWait o.reply)
  | again (nanos : Nat) (hstage : f'.stage = (f.retry attempt).stage)
      (hsleeps : f'.sleeps = f.sleeps ++ [nanos])
      (hnanos : nanos ≤ max maxWait (backoff backoffMs attempt))
      (hagain : Retried maxWait o.reply)

@[simp] theorem feedBack_sleeps (f : Fetch) (ok : Bool) : (f.feedBack ok).sleeps = f.sleeps := by
  simp only [Fetch.feedBack]
  split <;> rfl

@[simp] theorem feedBack_outcomes (f : Fetch) (ok : Bool) :
    (f.feedBack ok).outcomes = f.outcomes := by
  simp only [Fetch.feedBack]
  split <;> rfl

theorem onOutcome_asked {f : Fetch} {attempt : Nat} (hask : f.stage = .asking attempt)
    (o : Outcome E) :
    Asked maxWait backoffMs attempt f o (f.onOutcome backoffMs maxWait o) ∧
      (f.onOutcome backoffMs maxWait o).outcomes.length = f.outcomes.length + 1 := by
  simp only [Fetch.onOutcome, hask]
  cases o with
  | failed e =>
      refine ⟨.ended none rfl rfl ?_ ?_, List.length_append⟩
      · intro v
        constructor
        · intro h
          cases h
        · rintro ⟨body, hreply, -⟩
          cases hreply
      · intro h
        cases h
  | answered status retryAfter json =>
      dsimp only
      cases hthrottles : throttles status with
      | true =>
          have hreply : (Outcome.answered status retryAfter json).reply
              = .throttled retryAfter json.toOption := by
            simp only [Outcome.reply, hthrottles, if_true]
          cases hlong : tooLong maxWait retryAfter with
          | true =>
              refine ⟨.parked rfl rfl ?_ ?_, List.length_append⟩
              · intro body h
                rw [hreply] at h
                cases h
              · rw [hreply]
                intro h
                rw [show tooLong maxWait retryAfter = false from h] at hlong
                cases hlong
          | false =>
              refine ⟨.again _ rfl rfl ?_ (hreply ▸ hlong), List.length_append⟩
              have hle : retryAfter.getD 5 * 10 ^ 9 ≤ maxWait :=
                Nat.le_of_not_lt (of_decide_eq_false hlong)
              exact Nat.le_trans hle (Nat.le_max_left ..)
      | false =>
          cases json with
          | error e =>
              have hreply : (Outcome.answered status retryAfter (.error e)).reply
                  = .undecodable := by
                simp only [Outcome.reply, hthrottles]
                rfl
              refine ⟨.ended none rfl rfl ?_ ?_, List.length_append⟩
              · intro v
                constructor
                · intro h
                  cases h
                · rintro ⟨body, h, -⟩
                  rw [hreply] at h
                  cases h
              · rw [hreply]
                intro h
                cases h
          | ok body =>
              have hreply : (Outcome.answered (E := E) status retryAfter (.ok body)).reply
                  = .decoded body := by
                simp only [Outcome.reply, hthrottles]
                rfl
              dsimp only
              cases husable : usable body with
              | some result =>
                  refine ⟨.ended (some result) rfl (feedBack_sleeps ..) ?_ ?_, ?_⟩
                  · intro v
                    rw [hreply]
                    constructor
                    · intro h
                      exact ⟨body, rfl, husable.trans h⟩
                    · rintro ⟨body', hbody, h⟩
                      rw [← Reply.decoded.inj hbody] at h
                      exact husable.symm.trans h
                  · rw [hreply]
                    intro h
                    rw [show usable body = none from h] at husable
                    cases husable
                  · show ((f.count _).feedBack _).outcomes.length = _
                    rw [feedBack_outcomes]
                    exact List.length_append
              | none =>
                  refine ⟨.again _ rfl ?_ (Nat.le_max_right ..) (hreply ▸ husable), ?_⟩
                  · show ((f.count _).feedBack _).sleeps ++ _ = _
                    rw [feedBack_sleeps]
                    rfl
                  · show ((f.count _).feedBack _).outcomes.length = _
                    rw [feedBack_outcomes]
                    exact List.length_append

theorem over_of_returned {f : Fetch} {result : Option Value} (h : f.stage = .returned result) :
    ∀ k, f.stage ≠ .asking k := by
  intro k
  rw [h]
  exact Stage.noConfusion

theorem over_of_parked {f : Fetch} (h : f.stage = .parked) : ∀ k, f.stage ≠ .asking k := by
  intro k
  rw [h]
  exact Stage.noConfusion

/-- A call that has ended stays as it is. -/
theorem foldl_ended {f : Fetch} (h : ∀ k, f.stage ≠ .asking k) (outcomes : List (Outcome E)) :
    outcomes.foldl (Fetch.onOutcome backoffMs maxWait) f = f := by
  induction outcomes with
  | nil => rfl
  | cons o rest ih =>
      have hsame : f.onOutcome backoffMs maxWait o = f := by
        cases hstage : f.stage with
        | asking attempt => exact absurd hstage (h attempt)
        | returned result => simp only [Fetch.onOutcome, hstage]
        | parked => simp only [Fetch.onOutcome, hstage]
      rw [List.foldl_cons, hsame]
      exact ih

/-- Where a call stands for the pacing of requests. -/
def Stage.point (d : Dialect) : Stage → Point
  | .asking attempt => if d = .platform then .pacing attempt else .sending attempt
  | .returned result => .answered result
  | .parked => .parked

theorem retry_point (d : Dialect) (f : Fetch) (attempt : Nat) :
    (f.retry attempt).stage.point d = d.retry attempt := by
  simp only [Fetch.retry, Dialect.retry]
  by_cases hlt : attempt + 1 < RPC_MAX_ATTEMPTS
  · rw [if_pos hlt, if_pos hlt]
    rfl
  · rw [if_neg hlt, if_neg hlt]
    rfl

theorem onReply_throttled {d : Dialect} (hd : d ≠ .blockNumber) (attempt : Nat)
    (retryAfter : Option Nat) (body : Option Value) :
    d.onReply maxWait attempt (.throttled retryAfter body)
      = if tooLong maxWait retryAfter then .parked else d.retry attempt := by
  cases d with
  | blockNumber => exact absurd rfl hd
  | eth => rfl
  | platform => rfl

/-- A call goes where the pacing of requests takes it to go. -/
theorem onOutcome_point {d : Dialect} (hd : d ≠ .blockNumber) {f : Fetch} {attempt : Nat}
    (hask : f.stage = .asking attempt) (o : Outcome E) :
    (f.onOutcome backoffMs maxWait o).stage.point d = d.onReply maxWait attempt o.reply := by
  simp only [Fetch.onOutcome, hask, Outcome.reply]
  cases o with
  | failed e =>
      cases d with
      | blockNumber => exact absurd rfl hd
      | eth => rfl
      | platform => rfl
  | answered status retryAfter json =>
      dsimp only
      cases throttles status with
      | true =>
          rw [if_pos rfl, if_pos rfl, onReply_throttled hd]
          cases tooLong maxWait retryAfter with
          | true => rfl
          | false => exact retry_point d _ attempt
      | false =>
          rw [if_neg Bool.false_ne_true, if_neg Bool.false_ne_true]
          cases json with
          | error e =>
              cases d with
              | blockNumber => exact absurd rfl hd
              | eth => rfl
              | platform => rfl
          | ok body =>
              dsimp only
              cases husable : usable body with
              | some result =>
                  cases d with
                  | blockNumber => exact absurd rfl hd
                  | eth => simp only [Dialect.onReply, husable, Stage.point]
                  | platform => simp only [Dialect.onReply, husable, Stage.point]
              | none =>
                  rw [retry_point]
                  cases d with
                  | blockNumber => exact absurd rfl hd
                  | eth => simp only [Dialect.onReply, husable]
                  | platform => simp only [Dialect.onReply, husable]

end Outcomes

/-! ## The delay over a session -/

section Session

variable {E : Type} {backoffMs maxWait : Nat}

/-- What a reply tells of the block: nothing while it is not decoded. -/
def heard : Outcome E → Option Bool
  | .failed _ => none
  | .answered status _ json =>
      if throttles status then none
      else match json with
        | .error _ => none
        | .ok body => some (decide (decodedOutcome status (usable body) = .Ok))

/-- What the first decoded reply tells, where the call comes to one. -/
def firstTry (maxWait : Nat) : Nat → List (Outcome E) → Option Bool
  | 0, _ => none
  | _, [] => none
  | attempts + 1, o :: rest =>
      match heard o with
      | some ok => some ok
      | none =>
          match o.reply with
          | .throttled retryAfter _ =>
              if tooLong maxWait retryAfter then none else firstTry maxWait attempts rest
          | _ => none

/-- What a call fed back: the first thing it heard. -/
def Fetch.hearing (f : Fetch) : Option Bool → Fetch
  | some ok => f.feedBack ok
  | none => f

theorem feedBack_count (f : Fetch) (outcome : UpstreamOutcome) (ok : Bool) :
    (f.count outcome).feedBack ok = (f.feedBack ok).count outcome := by
  cases h : f.recorded with
  | none => simp only [Fetch.feedBack, Fetch.count, h]
  | some r => simp only [Fetch.feedBack, Fetch.count, h]

theorem onOutcome_hearing {f : Fetch} {attempt : Nat} (hask : f.stage = .asking attempt)
    (o : Outcome E) :
    (f.onOutcome backoffMs maxWait o).recorded = (f.hearing (heard o)).recorded ∧
      (f.onOutcome backoffMs maxWait o).aimd = (f.hearing (heard o)).aimd := by
  simp only [Fetch.onOutcome, hask, heard]
  cases o with
  | failed e => exact ⟨rfl, rfl⟩
  | answered status retryAfter json =>
      dsimp only
      cases throttles status with
      | true =>
          cases tooLong maxWait retryAfter with
          | true => exact ⟨rfl, rfl⟩
          | false => exact ⟨rfl, rfl⟩
      | false =>
          cases json with
          | error e => exact ⟨rfl, rfl⟩
          | ok body =>
              dsimp only
              cases usable body with
              | some result =>
                  rw [feedBack_count]
                  exact ⟨rfl, rfl⟩
              | none =>
                  rw [feedBack_count]
                  exact ⟨rfl, rfl⟩

theorem hearing_of_recorded {f : Fetch} {r : Bool} (h : f.recorded = some r)
    (told : Option Bool) : f.hearing told = f := by
  cases told with
  | none => rfl
  | some ok => simp only [Fetch.hearing, Fetch.feedBack, h]

/-- Only the first outcome is fed back. -/
theorem foldl_recorded (outcomes : List (Outcome E)) {f : Fetch} {r : Bool}
    (h : f.recorded = some r) :
    (outcomes.foldl (Fetch.onOutcome backoffMs maxWait) f).recorded = some r ∧
      (outcomes.foldl (Fetch.onOutcome backoffMs maxWait) f).aimd = f.aimd := by
  induction outcomes generalizing f with
  | nil => exact ⟨h, rfl⟩
  | cons o rest ih =>
      rw [List.foldl_cons]
      cases hstage : f.stage with
      | asking attempt =>
          obtain ⟨hrecorded, haimd⟩ :
              (f.onOutcome backoffMs maxWait o).recorded = (f.hearing (heard o)).recorded ∧
                (f.onOutcome backoffMs maxWait o).aimd = (f.hearing (heard o)).aimd :=
            onOutcome_hearing hstage o
          rw [hearing_of_recorded h] at hrecorded haimd
          rw [← haimd]
          exact ih (hrecorded.trans h)
      | returned result =>
          rw [show f.onOutcome backoffMs maxWait o = f by simp only [Fetch.onOutcome, hstage]]
          exact ih h
      | parked =>
          rw [show f.onOutcome backoffMs maxWait o = f by simp only [Fetch.onOutcome, hstage]]
          exact ih h

theorem heard_decoded {o : Outcome E} (h : heard o = none) (body : Value) :
    o.reply ≠ .decoded body := by
  intro hreply
  cases o with
  | failed e => cases hreply
  | answered status retryAfter json =>
      simp only [heard] at h
      simp only [Outcome.reply] at hreply
      cases hthrottles : throttles status with
      | true =>
          rw [hthrottles, if_pos rfl] at hreply
          cases hreply
      | false =>
          rw [hthrottles, if_neg Bool.false_ne_true] at h hreply
          cases json with
          | error e => cases hreply
          | ok body => cases h

theorem firstTry_again {o : Outcome E} (h : heard o = none) (hagain : Retried maxWait o.reply)
    (attempts : Nat) (rest : List (Outcome E)) :
    firstTry maxWait (attempts + 1) (o :: rest) = firstTry maxWait attempts rest := by
  simp only [firstTry, h]
  cases hreply : o.reply with
  | throttled retryAfter body =>
      rw [hreply] at hagain
      exact if_neg (fun hlong => absurd (hlong.symm.trans hagain) (by decide))
  | decoded body => exact absurd hreply (heard_decoded h body)
  | unsent =>
      rw [hreply] at hagain
      cases hagain
  | undecodable =>
      rw [hreply] at hagain
      cases hagain

theorem firstTry_ended {o : Outcome E} (h : heard o = none)
    (hagain : ¬ Retried maxWait o.reply) (attempts : Nat) (rest : List (Outcome E)) :
    firstTry maxWait (attempts + 1) (o :: rest) = none := by
  simp only [firstTry, h]
  cases hreply : o.reply with
  | throttled retryAfter body =>
      rw [hreply] at hagain
      exact if_pos (Bool.eq_true_of_not_eq_false hagain)
  | decoded body => rfl
  | unsent => rfl
  | undecodable => rfl

/-- The controller after what a call heard. -/
def fedBack (aimd : Option AimdDelay) : Option Bool → Option AimdDelay
  | some ok => aimd.map (·.record ok)
  | none => aimd

theorem hearing_aimd {f : Fetch} (h : f.recorded = none) (told : Option Bool) :
    (f.hearing told).aimd = fedBack f.aimd told := by
  cases told with
  | none => rfl
  | some ok => simp only [Fetch.hearing, Fetch.feedBack, fedBack, h]

/-- A call that has heard nothing feeds back the first it comes to hear. -/
theorem foldl_firstTry (outcomes : List (Outcome E)) {f : Fetch} {attempt : Nat}
    (hask : f.stage = .asking attempt) (hlt : attempt < RPC_MAX_ATTEMPTS)
    (hnone : f.recorded = none) :
    (outcomes.foldl (Fetch.onOutcome backoffMs maxWait) f).recorded
        = firstTry maxWait (RPC_MAX_ATTEMPTS - attempt) outcomes ∧
      (outcomes.foldl (Fetch.onOutcome backoffMs maxWait) f).aimd
        = fedBack f.aimd (firstTry maxWait (RPC_MAX_ATTEMPTS - attempt) outcomes) := by
  obtain ⟨left, hleft⟩ : ∃ left, RPC_MAX_ATTEMPTS - attempt = left + 1 :=
    ⟨RPC_MAX_ATTEMPTS - attempt - 1, by omega⟩
  rw [hleft]
  induction outcomes generalizing f attempt left with
  | nil => exact ⟨hnone, rfl⟩
  | cons o rest ih =>
      obtain ⟨hrecorded, haimd⟩ :
          (f.onOutcome backoffMs maxWait o).recorded = (f.hearing (heard o)).recorded ∧
            (f.onOutcome backoffMs maxWait o).aimd = (f.hearing (heard o)).aimd :=
        onOutcome_hearing hask o
      obtain ⟨hasked, -⟩ :
          Asked maxWait backoffMs attempt f o (f.onOutcome backoffMs maxWait o) ∧ _ :=
        onOutcome_asked hask o
      rw [List.foldl_cons]
      generalize f.onOutcome backoffMs maxWait o = f' at hrecorded haimd hasked ⊢
      cases hheard : heard o with
      | some ok =>
          have htry : firstTry maxWait (left + 1) (o :: rest) = some ok := by
            simp only [firstTry, hheard]
          rw [hheard] at hrecorded haimd
          have hsome : (f.hearing (some ok)).recorded = some ok := by
            simp only [Fetch.hearing, Fetch.feedBack, hnone]
          obtain ⟨hr, ha⟩ :
              (rest.foldl (Fetch.onOutcome backoffMs maxWait) f').recorded = some ok ∧
                (rest.foldl (Fetch.onOutcome backoffMs maxWait) f').aimd = f'.aimd :=
            foldl_recorded rest (hrecorded.trans hsome)
          rw [htry, ← hearing_aimd hnone, ← haimd]
          exact ⟨hr, ha⟩
      | none =>
          rw [hheard] at hrecorded haimd
          have hstill : f'.recorded = none := hrecorded.trans hnone
          have hsame : f'.aimd = f.aimd := haimd
          cases hasked with
          | ended result hstage _ _ hagain =>
              have hend := over_of_returned hstage
              rw [foldl_ended hend, firstTry_ended hheard hagain]
              exact ⟨hstill, hsame⟩
          | parked hstage _ _ hagain =>
              have hend := over_of_parked hstage
              rw [foldl_ended hend, firstTry_ended hheard hagain]
              exact ⟨hstill, hsame⟩
          | again nanos hstage _ _ hagain =>
              rw [firstTry_again hheard hagain, ← hsame]
              by_cases hnext : attempt + 1 < RPC_MAX_ATTEMPTS
              · obtain ⟨left', hleft'⟩ : ∃ left', left = left' + 1 :=
                  ⟨left - 1, by omega⟩
                rw [hleft']
                exact ih (hstage.trans (if_pos hnext)) hnext hstill left' (by omega)
              · -- it was the last attempt
                have hend := over_of_returned (hstage.trans (if_neg hnext))
                have hzero : left = 0 := by omega
                rw [foldl_ended hend, hzero]
                exact ⟨hstill, rfl⟩

/-- How upstream answers the requests for a head, by the delay before the first. -/
abbrev Head (E : Type) := Nat → List (Outcome E)

/-- The fetches of the heads of a session, one after another: the controller at the end,
    and what was fed back to it. -/
def liveFetches (maxWait : Nat) : AimdDelay → List (Head E) → AimdDelay × List Bool
  | a, [] => (a, [])
  | a, head :: rest =>
      let f := ethFetchRpc maxWait (some a) (head a.delay)
      let later := liveFetches maxWait (f.aimd.getD a) rest
      (later.1, f.recorded.toList ++ later.2)

/-- No head is missed after the lag. -/
def LandsWithin (maxWait lag : Nat) (head : Head E) : Prop :=
  ∀ d, lag ≤ d → firstTry maxWait RPC_MAX_ATTEMPTS (head d) ≠ some false

/-- No head is met before the lag. -/
def LandsAfter (maxWait lag : Nat) (head : Head E) : Prop :=
  ∀ d, d < lag → firstTry maxWait RPC_MAX_ATTEMPTS (head d) ≠ some true

/-- A fetch feeds its first decoded outcome back to the controller it was given. -/
theorem ethFetchRpc_fedBack (a : AimdDelay) (outcomes : List (Outcome E)) :
    (ethFetchRpc maxWait (some a) outcomes).recorded
        = firstTry maxWait RPC_MAX_ATTEMPTS outcomes ∧
      (ethFetchRpc maxWait (some a) outcomes).aimd
        = fedBack (some a) (firstTry maxWait RPC_MAX_ATTEMPTS outcomes) :=
  foldl_firstTry outcomes (f := Fetch.begin (some a)) rfl (by decide) rfl

theorem liveFetches_cons (a : AimdDelay) (head : Head E) (rest : List (Head E)) :
    liveFetches maxWait a (head :: rest)
      = match firstTry maxWait RPC_MAX_ATTEMPTS (head a.delay) with
        | none => liveFetches maxWait a rest
        | some ok => ((liveFetches maxWait (a.record ok) rest).1,
            ok :: (liveFetches maxWait (a.record ok) rest).2) := by
  obtain ⟨hrecorded, haimd⟩ :
      (ethFetchRpc maxWait (some a) (head a.delay)).recorded = _ ∧ _ = _ :=
    ethFetchRpc_fedBack a (head a.delay)
  simp only [liveFetches, hrecorded, haimd]
  cases firstTry maxWait RPC_MAX_ATTEMPTS (head a.delay) with
  | none => rfl
  | some ok => rfl

/-- **A session follows the control law.**  -/
theorem liveFetches_run (heads : List (Head E)) (a : AimdDelay) :
    (liveFetches maxWait a heads).1
      = ⟨a.control.run a.delay (liveFetches maxWait a heads).2, a.max⟩ := by
  induction heads generalizing a with
  | nil => rfl
  | cons head rest ih =>
      rw [liveFetches_cons]
      cases firstTry maxWait RPC_MAX_ATTEMPTS (head a.delay) with
      | none => exact ih a
      | some ok => exact ih (a.record ok)

theorem explained_of_lands {lag : Nat} {heads : List (Head E)} (a : AimdDelay)
    (h : ∀ head ∈ heads, LandsWithin maxWait lag head) :
    a.control.Explained lag a.delay (liveFetches maxWait a heads).2 := by
  induction heads generalizing a with
  | nil => trivial
  | cons head rest ih =>
      have hrest := fun a => ih a (fun later hmem => h later (List.mem_cons_of_mem _ hmem))
      rw [liveFetches_cons]
      cases htry : firstTry maxWait RPC_MAX_ATTEMPTS (head a.delay) with
      | none => exact hrest a
      | some ok =>
          refine ⟨?_, hrest (a.record ok)⟩
          intro hmiss
          by_contra hle
          exact h head List.mem_cons_self a.delay (Nat.le_of_not_lt hle) (hmiss ▸ htry)

theorem exact_of_lands {lag : Nat} {heads : List (Head E)} (a : AimdDelay)
    (h : ∀ head ∈ heads, LandsAfter maxWait lag head) :
    a.control.Exact lag a.delay (liveFetches maxWait a heads).2 := by
  induction heads generalizing a with
  | nil => trivial
  | cons head rest ih =>
      have hrest := fun a => ih a (fun later hmem => h later (List.mem_cons_of_mem _ hmem))
      rw [liveFetches_cons]
      cases htry : firstTry maxWait RPC_MAX_ATTEMPTS (head a.delay) with
      | none => exact hrest a
      | some ok =>
          refine ⟨?_, hrest (a.record ok)⟩
          intro hhit
          by_contra hlt
          exact h head List.mem_cons_self a.delay (Nat.lt_of_not_le hlt) (hhit ▸ htry)

/-- **The steady state.**  Where the heads land between an early lag, of a decrease at
    least, and a late one, and the cap leaves room above the late one, the delay goes up a
    step with each first try until it is within a decrease of the early lag, stays there,
    and is never more than a step above the late one; and one in `(INC + DEC) / DEC` of the
    first tries is a miss, up to a part that does not grow with the session. -/
theorem liveFetches_steady {early late cap : Nat} (heads : List (Head E))
    (hroom : late + AimdDelay.INC ≤ cap + 1) (hearly : AimdDelay.DEC ≤ early)
    (hwithin : ∀ head ∈ heads, LandsWithin maxWait late head)
    (hafter : ∀ head ∈ heads, LandsAfter maxWait early head) :
    min (AimdDelay.INC * (liveFetches maxWait (.new cap) heads).2.length)
        (early - AimdDelay.DEC) ≤ (liveFetches maxWait (.new cap) heads).1.delay ∧
      (liveFetches maxWait (.new cap) heads).1.delay ≤ late + AimdDelay.INC ∧
      (AimdDelay.INC + AimdDelay.DEC) * (liveFetches maxWait (.new cap) heads).2.count false
        ≤ AimdDelay.DEC * (liveFetches maxWait (.new cap) heads).2.length
          + (late + AimdDelay.INC) ∧
      AimdDelay.DEC * (liveFetches maxWait (.new cap) heads).2.length
        ≤ (AimdDelay.INC + AimdDelay.DEC)
          * (liveFetches maxWait (.new cap) heads).2.count false := by
  have hexplained := explained_of_lands (.new cap) hwithin
  have hexact := exact_of_lands (.new cap) hafter
  rw [liveFetches_run]
  refine ⟨?_, ?_, ?_, ?_⟩
  · have hstart : min (AimdDelay.INC * 0) (early - AimdDelay.DEC) ≤ (AimdDelay.new cap).delay :=
      Nat.le_trans (Nat.min_le_left ..) (Nat.zero_le _)
    have hband := Control.le_run_band hroom hexplained hexact hstart
    rwa [Nat.zero_add] at hband
  · exact Control.run_le_band (Nat.zero_le _) hexplained
  · exact Control.misses_le hroom (Nat.zero_le _) hexplained
  · exact Control.le_misses hroom hearly hexplained hexact

/-- A block that lands at the lag: its body has a result from then on. -/
def landing (lag : Nat) : Head Unit := fun d =>
  [.answered 200 none (.ok (.object [("result", if lag ≤ d then .bool true else .null)]))]

theorem firstTry_landing (maxWait lag d : Nat) :
    firstTry maxWait RPC_MAX_ATTEMPTS (landing lag d) = some (decide (lag ≤ d)) := by
  simp only [landing]
  by_cases hle : lag ≤ d
  · rw [if_pos hle, decide_eq_true hle]
    rfl
  · rw [if_neg hle, decide_eq_false hle]
    rfl

theorem landing_within (maxWait lag : Nat) : LandsWithin maxWait lag (landing lag) := by
  intro d hle
  rw [firstTry_landing, decide_eq_true hle]
  exact fun h => Bool.noConfusion (Option.some.inj h)

theorem landing_after (maxWait lag : Nat) : LandsAfter maxWait lag (landing lag) := by
  intro d hlt
  rw [firstTry_landing, decide_eq_false (Nat.not_le_of_lt hlt)]
  exact fun h => Bool.noConfusion (Option.some.inj h)

/-- Blocks that land after 15 ms, and a cap of 100 ms. -/
theorem liveFetches_steady_fifteen :
    (liveFetches (10 ^ 9) (.new (10 ^ 8)) (List.replicate 3 (landing (15 * 10 ^ 6)))).2
        = [false, false, true] ∧
      15 * 10 ^ 6 - AimdDelay.DEC
        ≤ (liveFetches (10 ^ 9) (.new (10 ^ 8))
          (List.replicate 3 (landing (15 * 10 ^ 6)))).1.delay ∧
      (liveFetches (10 ^ 9) (.new (10 ^ 8)) (List.replicate 3 (landing (15 * 10 ^ 6)))).1.delay
        ≤ 15 * 10 ^ 6 + AimdDelay.INC := by
  have hwithin : ∀ head ∈ List.replicate 3 (landing (15 * 10 ^ 6)),
      LandsWithin (10 ^ 9) (15 * 10 ^ 6) head := by
    intro head hmem
    rw [List.eq_of_mem_replicate hmem]
    exact landing_within _ _
  have hafter : ∀ head ∈ List.replicate 3 (landing (15 * 10 ^ 6)),
      LandsAfter (10 ^ 9) (15 * 10 ^ 6) head := by
    intro head hmem
    rw [List.eq_of_mem_replicate hmem]
    exact landing_after _ _
  have htries : (liveFetches (10 ^ 9) (.new (10 ^ 8))
      (List.replicate 3 (landing (15 * 10 ^ 6)))).2 = [false, false, true] := rfl
  have hroom : 15 * 10 ^ 6 + AimdDelay.INC ≤ 10 ^ 8 + 1 := by decide
  obtain ⟨hlow, hhigh, -⟩ := liveFetches_steady _ hroom (by decide) hwithin hafter
  refine ⟨htries, ?_, hhigh⟩
  rw [htries] at hlow
  exact Nat.le_trans (by decide) hlow

/-- **The pegged delay.**  Whatever upstream answers, the delay keeps to the cap.  A cap
    below the lag buys nothing: every first try that is decoded is a miss, and the delay
    climbs to the cap and stays there. -/
theorem liveFetches_pegged {early cap : Nat} (heads : List (Head E)) :
    (liveFetches maxWait (.new cap) heads).1.delay ≤ cap ∧
      (cap < early → (∀ head ∈ heads, LandsAfter maxWait early head) →
        (liveFetches maxWait (.new cap) heads).2.count true = 0 ∧
          (liveFetches maxWait (.new cap) heads).1.delay
            = min (AimdDelay.INC * (liveFetches maxWait (.new cap) heads).2.length) cap) := by
  rw [liveFetches_run]
  constructor
  · exact Control.run_le_cap (c := (AimdDelay.new cap).control) (Nat.zero_le _) _
  · intro hcap hafter
    obtain ⟨hcount, hrun⟩ := Control.run_pegged (c := (AimdDelay.new cap).control) hcap
      (Nat.zero_le _) (exact_of_lands (.new cap) hafter)
    exact ⟨hcount, hrun.trans (congrArg (min · cap) (Nat.zero_add _))⟩

/-- The same blocks under a cap of 10 ms. -/
theorem liveFetches_pegged_ten :
    (liveFetches (10 ^ 9) (.new (10 ^ 7)) (List.replicate 3 (landing (15 * 10 ^ 6)))).2.count true
      = 0 := by
  have hafter : ∀ head ∈ List.replicate 3 (landing (15 * 10 ^ 6)),
      LandsAfter (10 ^ 9) (15 * 10 ^ 6) head := by
    intro head hmem
    rw [List.eq_of_mem_replicate hmem]
    exact landing_after _ _
  exact ((liveFetches_pegged _).2 (by decide) hafter).1

end Session

end NeveFetchRpc
