import Neve.EthInstanceProofs
import Neve.MirrorProofs

/-! # Request pacing — a slot for every request

    Every upstream read of the C-chain's backfill and of the P-chain's ingest loop is a
    call that waits for a slot and sends requests, once more for each reply that is to be
    retried.  The calls of a loop overlap: each is a state machine of its own, started
    where the loop starts it, and the trace says in which order they were paced and sent.

    The P-chain's calls are paced once for every attempt, the C-chain's once for all of
    them: there a request has a slot of its own exactly as long as no call is sent again
    (`one_slot_per_request`). -/

namespace NeveRequestPacing

open JsonValue ByteText NeveRecord NeveStorage
open NeveEthBackfill (IngestCfg)
open NeveMirror (Upstream UpstreamAction upstreamStep Stage)

/-! ## Calls -/

/-- What is seen of a call: it got a slot, it sent a request. -/
inductive Event where
  | paced
  | sent
  deriving DecidableEq

/-- What becomes of a request: it cannot be sent, it is throttled (with the seconds of
    its `Retry-After`, and its body if that is JSON), it is answered by what is no JSON,
    or by a body. -/
inductive Reply where
  | unsent
  | throttled (retryAfter : Option Nat) (body : Option Value)
  | undecodable
  | decoded (body : Value)

/-- The three ways of asking upstream: `upstream_block_number`, and the two chains'
    `fetch_rpc`. -/
inductive Dialect where
  | blockNumber
  | eth
  | platform
  deriving DecidableEq

/-- Where a call stands: before the slot of its attempt, with the slot, waiting for the
    reply, parked for good by a long throttle, or at its end. -/
inductive Point where
  | pacing (attempt : Nat)
  | sending (attempt : Nat)
  | awaiting (attempt : Nat)
  | parked
  | answered (result : Option Value)

/-- Attempts a single call makes before giving up, on either chain. -/
def RPC_MAX_ATTEMPTS : Nat := 3

/-- The `result` of a body that has one. -/
def usable (body : Value) : Option Value := (body.get "result").filter (!·.isNull)

/-- The attempt after a reply that is retried: the P-chain takes a slot for it. -/
def Dialect.retry (d : Dialect) (attempt : Nat) : Point :=
  if attempt + 1 < RPC_MAX_ATTEMPTS then
    if d = .platform then .pacing (attempt + 1) else .sending (attempt + 1)
  else .answered none

/-- A throttle is waited out up to `max_wait` (in nanoseconds); a longer one parks the
    call. -/
def tooLong (maxWait : Nat) (retryAfter : Option Nat) : Bool :=
  decide (maxWait < retryAfter.getD 5 * 10 ^ 9)

/-- What a call does with a reply.  Reading the tip, it takes any body for what it is. -/
def Dialect.onReply (d : Dialect) (maxWait attempt : Nat) (r : Reply) : Point :=
  match d, r with
  | .blockNumber, .throttled _ body => .answered body
  | .blockNumber, .decoded body => .answered (some body)
  | .blockNumber, _ => .answered none
  | _, .unsent => .answered none
  | _, .undecodable => .answered none
  | _, .throttled retryAfter _ =>
      if tooLong maxWait retryAfter then .parked else d.retry attempt
  | _, .decoded body =>
      match usable body with
      | some result => .answered (some result)
      | none => d.retry attempt

structure Call (π : Type) where
  purpose : π
  dialect : Dialect
  point : Point

/-- The calls started so far, and what was seen of them, by position (oldest first). -/
structure Traffic (π : Type) where
  calls : List (Call π)
  trace : List (Nat × Event)

inductive CallAction where
  | pace
  | send
  | reply (r : Reply)

section Traffic

variable {π : Type}

def Traffic.none : Traffic π := ⟨[], []⟩

/-- Start calls; each waits for a slot first. -/
def Traffic.begin (t : Traffic π) (wanted : List (π × Dialect)) : Traffic π :=
  { t with calls := t.calls ++ wanted.map fun w => ⟨w.1, w.2, .pacing 0⟩ }

/-- Where a call goes from a point, and what is seen of it. -/
def Dialect.move (d : Dialect) (maxWait : Nat) :
    Point → CallAction → Option (Point × List Event)
  | .pacing k, .pace => some (.sending k, [.paced])
  | .sending k, .send => some (.awaiting k, [.sent])
  | .awaiting k, .reply r => some (d.onReply maxWait k r, [])
  | _, _ => Option.none

/-- One step of the `i`-th call. -/
def Traffic.step (maxWait : Nat) (t : Traffic π) (i : Nat) (a : CallAction) :
    Option (Traffic π) :=
  match t.calls[i]? with
  | Option.none => Option.none
  | some call =>
      (call.dialect.move maxWait call.point a).map fun moved =>
        ⟨t.calls.set i { call with point := moved.1 }, t.trace ++ moved.2.map fun e => (i, e)⟩

end Traffic

/-- **A slot for every request**: at no time has a call sent more requests than it had
    been given slots. -/
def OneSlotEach (trace : List (Nat × Event)) : Prop :=
  ∀ seen, seen <+: trace → ∀ i, seen.count (i, .sent) ≤ seen.count (i, .paced)

/-! ## The C-chain's backfill -/

/-- What the backfill asks for: the tip, the logs of a run, a block, its receipts. -/
inductive EthPurpose where
  | tip
  | logs
  | block (height : Nat)
  | receipts (height : Nat)

structure EthSystem where
  inst : NeveEthInstance.Instance
  traffic : Traffic EthPurpose

/-- The backfill starts the calls of a read (`fetch_one` those of a height); a call
    moves; the instance takes a step.  What the calls answer is left open, so the
    instance's replies may be any. -/
inductive EthAction where
  | readTip
  | loadRange
  | fetchOne (height : Nat)
  | call (i : Nat) (a : CallAction)
  | task (a : NeveEthInstance.Action)

section Eth

variable (J : Codec) (cfg : IngestCfg) (maxWait : Nat)

/-- The calls the backfill starts, where its loop stands at such a read. -/
def ethCalls (i : NeveEthInstance.Instance) : EthAction → Option (List (EthPurpose × Dialect))
  | .readTip =>
      match i.phase with
      | .contiguous _ _ => some [(.tip, .blockNumber)]
      | _ => none
  | .loadRange =>
      match i.phase with
      | .loading _ _ _ => some [(.logs, .eth)]
      | _ => none
  | .fetchOne height =>
      match i.phase with
      | .filling _ stop _ cursor _ =>
          if cursor ≤ height ∧ height ≤ stop ∧
            height < cursor + max 1 cfg.fetchConcurrency then
            match i.storage.getByHeight J height with
            | .ok (some _) => some []
            | _ =>
                some ((.block height, .eth) ::
                  if cfg.perHeightLogs then [(.receipts height, .eth)] else [])
          else none
      | _ => none
  | _ => none

def ethStep (sys : EthSystem) : EthAction → Option EthSystem
  | .call i a => (sys.traffic.step maxWait i a).map fun t => { sys with traffic := t }
  | .task a => (NeveEthInstance.step J cfg sys.inst a).map fun i => { sys with inst := i }
  | a => (ethCalls J cfg sys.inst a).map fun wanted =>
      { sys with traffic := sys.traffic.begin wanted }

end Eth

/-! ## The P-chain's ingest loop -/

inductive PlatformPurpose where
  | tip
  | hexnc (height : Nat)
  | json (height : Nat)
  | utxos (stakingTx : String)

structure PlatformSystem where
  upstream : Upstream
  traffic : Traffic PlatformPurpose

inductive PlatformAction where
  | fetchHeight
  | fetchBlock (height : Nat)
  | fetchRewardUtxos
  | call (i : Nat) (a : CallAction)
  | task (listening : Bool) (a : UpstreamAction)

section Platform

variable (J : Codec) (sha256 : Bytes → Bytes32) (floor : Option Nat)
  (fetchConcurrency maxWait : Nat)

/-- The calls the loop starts, where it stands at such a read. -/
def platformCalls (u : Upstream) : PlatformAction → Option (List (PlatformPurpose × Dialect))
  | .fetchHeight =>
      match u.run with
      | none => some [(.tip, .platform)]
      | some _ => none
  | .fetchBlock height =>
      match u.run with
      | some ⟨stop, cursor, .fetching _⟩ =>
          if cursor ≤ height ∧ height ≤ stop ∧ height < cursor + max 1 fetchConcurrency then
            some [(.hexnc height, .platform), (.json height, .platform)]
          else none
      | _ => none
  | .fetchRewardUtxos =>
      match u.run with
      | some ⟨_, _, .fetching (some proposal)⟩ =>
          proposal.rewardStakingTx.map fun tx => [(.utxos tx, .platform)]
      | _ => none
  | _ => none

def platformStep (sys : PlatformSystem) : PlatformAction → Option PlatformSystem
  | .call i a => (sys.traffic.step maxWait i a).map fun t => { sys with traffic := t }
  | .task listening a =>
      (upstreamStep J sha256 floor listening sys.upstream a).map fun out =>
        { sys with upstream := out.1 }
  | a => (platformCalls fetchConcurrency sys.upstream a).map fun wanted =>
      { sys with traffic := sys.traffic.begin wanted }

end Platform

/-! ## Slots and requests of one call -/

section Balance

variable {π : Type} {maxWait : Nat}

/-- The slots a call has been given and the requests it has sent, as far as the next step
    needs them: with the slot of its attempt it is one ahead. -/
def Fits (call : Call π) (paced sent : Nat) : Prop :=
  match call.point with
  | .pacing k => sent = paced ∧ (call.dialect = .platform ∨ k = 0)
  | .sending k => if call.dialect = .platform ∨ k = 0 then sent + 1 = paced else sent = paced
  | .awaiting _ => sent = paced
  | .parked => sent ≤ paced
  | .answered _ => sent ≤ paced

/-- The call is about to send again what it sent before, in no slot of its own. -/
def Resends (call : Call π) : CallAction → Prop
  | .send => ∃ k, call.point = .sending k ∧ call.dialect ≠ .platform ∧ k ≠ 0
  | _ => False

/-- Every call's slots cover its requests. -/
structure Balanced (t : Traffic π) : Prop where
  each : OneSlotEach t.trace
  fits : ∀ i call, t.calls[i]? = some call →
    Fits call (t.trace.count (i, .paced)) (t.trace.count (i, .sent))
  fresh : ∀ i, t.calls.length ≤ i → ∀ e, t.trace.count (i, e) = 0

theorem balanced_none : Balanced (Traffic.none : Traffic π) := by
  constructor
  · intro seen hseen i
    rw [List.prefix_nil.mp hseen]
    exact Nat.le_refl _
  · intro i call hcall
    cases hcall
  · intro i _ e
    rfl

theorem Balanced.begin {t : Traffic π} (h : Balanced t) (wanted : List (π × Dialect)) :
    Balanced (t.begin wanted) := by
  refine ⟨h.each, ?_, ?_⟩
  · intro i call hcall
    by_cases hi : i < t.calls.length
    · refine h.fits i call ?_
      rwa [Traffic.begin, List.getElem?_append_left hi] at hcall
    · rw [Traffic.begin, List.getElem?_append_right (Nat.le_of_not_lt hi),
        List.getElem?_map] at hcall
      obtain ⟨w, -, rfl⟩ := Option.map_eq_some_iff.mp hcall
      have hzero := h.fresh i (Nat.le_of_not_lt hi)
      exact ⟨(hzero .sent).trans (hzero .paced).symm, Or.inr rfl⟩
  · intro i hi e
    refine h.fresh i ?_ e
    rw [Traffic.begin, List.length_append] at hi
    omega

/-- The steps of a call. -/
inductive Moved (maxWait : Nat) (call : Call π) :
    CallAction → Point → List Event → Prop where
  | paced (k : Nat) (hp : call.point = .pacing k) :
      Moved maxWait call .pace (.sending k) [.paced]
  | sent (k : Nat) (hp : call.point = .sending k) :
      Moved maxWait call .send (.awaiting k) [.sent]
  | replied (k : Nat) (hp : call.point = .awaiting k) (r : Reply) :
      Moved maxWait call (.reply r) (call.dialect.onReply maxWait k r) []

theorem moved_of_move {call : Call π} {a : CallAction} {moved : Point × List Event}
    (h : call.dialect.move maxWait call.point a = some moved) :
    Moved maxWait call a moved.1 moved.2 := by
  cases hp : call.point with
  | pacing k =>
      rw [hp] at h
      cases a with
      | pace =>
          rw [← Option.some.inj h]
          exact Moved.paced k hp
      | send => cases h
      | reply r => cases h
  | sending k =>
      rw [hp] at h
      cases a with
      | send =>
          rw [← Option.some.inj h]
          exact Moved.sent k hp
      | pace => cases h
      | reply r => cases h
  | awaiting k =>
      rw [hp] at h
      cases a with
      | reply r =>
          rw [← Option.some.inj h]
          exact Moved.replied k hp r
      | pace => cases h
      | send => cases h
  | parked =>
      rw [hp] at h
      cases a <;> cases h
  | answered result =>
      rw [hp] at h
      cases a <;> cases h

/-- The reply is one for which `fetch_rpc` makes another attempt. -/
def Retried (maxWait : Nat) : Reply → Prop
  | .throttled retryAfter _ => tooLong maxWait retryAfter = false
  | .decoded body => usable body = none
  | _ => False

/-- A reply ends the call, or leads to another attempt. -/
theorem onReply_cases (d : Dialect) (maxWait k : Nat) (r : Reply) :
    (∃ result, d.onReply maxWait k r = .answered result) ∨ d.onReply maxWait k r = .parked ∨
      (d ≠ .blockNumber ∧ Retried maxWait r ∧ d.onReply maxWait k r = d.retry k) := by
  by_cases hd : d = .blockNumber
  · subst hd
    -- the tip poll takes whatever comes as its answer
    cases r with
    | _ => exact Or.inl ⟨_, rfl⟩
  cases r with
  | unsent =>
      refine Or.inl ⟨none, ?_⟩
      cases d with
      | blockNumber => rfl
      | eth => rfl
      | platform => rfl
  | undecodable =>
      refine Or.inl ⟨none, ?_⟩
      cases d with
      | blockNumber => rfl
      | eth => rfl
      | platform => rfl
  | throttled retryAfter body =>
      -- throttled: parked when the wait is too long, else tried again
      have heq : d.onReply maxWait k (.throttled retryAfter body)
          = if tooLong maxWait retryAfter then .parked else d.retry k := by
        cases d with
        | blockNumber => exact absurd rfl hd
        | eth => rfl
        | platform => rfl
      rw [heq]
      cases hlong : tooLong maxWait retryAfter with
      | true => exact Or.inr (Or.inl rfl)
      | false => exact Or.inr (Or.inr ⟨hd, hlong, rfl⟩)
  | decoded body =>
      -- a body with no result that can be used is tried again
      cases hu : usable body with
      | none =>
          refine Or.inr (Or.inr ⟨hd, hu, ?_⟩)
          cases d with
          | blockNumber => exact absurd rfl hd
          | eth => simp only [Dialect.onReply, hu]
          | platform => simp only [Dialect.onReply, hu]
      | some result =>
          refine Or.inl ⟨some result, ?_⟩
          cases d with
          | blockNumber => exact absurd rfl hd
          | eth => simp only [Dialect.onReply, hu]
          | platform => simp only [Dialect.onReply, hu]

/-- A reply leaves the call at its end, or before the slot (or, on the C-chain, the
    request) of another attempt. -/
theorem fits_onReply {call : Call π} {n : Nat} (k : Nat) (r : Reply) :
    Fits { call with point := call.dialect.onReply maxWait k r } n n := by
  rcases onReply_cases call.dialect maxWait k r with ⟨result, heq⟩ | heq | ⟨-, -, heq⟩
  · rw [heq]
    exact Nat.le_refl n
  · rw [heq]
    exact Nat.le_refl n
  · rw [heq, Dialect.retry]
    by_cases hk : k + 1 < RPC_MAX_ATTEMPTS
    · rw [if_pos hk]
      by_cases hd : call.dialect = .platform
      · rw [if_pos hd]
        exact ⟨rfl, Or.inl hd⟩
      · rw [if_neg hd]
        have hlater : ¬ (call.dialect = .platform ∨ k + 1 = 0) := by
          rintro (h | h)
          · exact hd h
          · omega
        simp only [Fits]
        rw [if_neg hlater]
        trivial
    · rw [if_neg hk]
      exact Nat.le_refl n

/-- What is seen of a call, counted. -/
theorem count_seen (trace : List (Nat × Event)) (i : Nat) (seen e : Event) :
    (trace ++ [(i, seen)]).count (i, e) = trace.count (i, e) + if seen = e then 1 else 0 := by
  rw [List.count_append, List.count_singleton]
  by_cases h : seen = e
  · rw [if_pos h, if_pos (by rw [h, beq_self_eq_true])]
  · rw [if_neg h, if_neg (by simpa using h)]

theorem count_append_other {trace : List (Nat × Event)} {i j : Nat} (es : List Event) (e : Event)
    (hij : j ≠ i) : (trace ++ es.map fun e => (i, e)).count (j, e) = trace.count (j, e) := by
  have hnone : (es.map fun e => (i, e)).count (j, e) = 0 := by
    rw [List.count_eq_zero]
    intro hmem
    obtain ⟨e', -, heq⟩ := List.mem_map.mp hmem
    exact hij (Prod.mk.inj heq).1.symm
  rw [List.count_append, hnone, Nat.add_zero]

/-- What is seen next is covered, if the counts are after it. -/
theorem OneSlotEach.append {trace : List (Nat × Event)} (h : OneSlotEach trace)
    {x : Nat × Event}
    (hx : ∀ i, (trace ++ [x]).count (i, .sent) ≤ (trace ++ [x]).count (i, .paced)) :
    OneSlotEach (trace ++ [x]) := by
  intro seen hseen
  rcases List.prefix_concat_iff.mp hseen with rfl | hold
  · exact hx
  · exact h seen hold

/-- What a call does to its own counts. -/
theorem Balanced.moved {t : Traffic π} {i : Nat} {call : Call π} {a : CallAction} {point : Point}
    {es : List Event} (h : Balanced t) (hmoved : Moved maxWait call a point es)
    (hfits : Fits call (t.trace.count (i, .paced)) (t.trace.count (i, .sent)))
    (hcond : ¬ Resends call a) :
    OneSlotEach (t.trace ++ es.map fun e => (i, e)) ∧
      Fits { call with point := point } ((t.trace ++ es.map fun e => (i, e)).count (i, .paced))
        ((t.trace ++ es.map fun e => (i, e)).count (i, .sent)) := by
  have hall := h.each t.trace List.prefix_rfl
  cases hmoved with
  | paced k hp =>
      simp only [Fits, hp] at hfits
      obtain ⟨heq, hfirst⟩ := hfits
      have hpaced : (t.trace ++ [(i, Event.paced)]).count (i, .paced)
          = t.trace.count (i, .paced) + 1 := count_seen ..
      have hsent : (t.trace ++ [(i, Event.paced)]).count (i, .sent)
          = t.trace.count (i, .sent) := count_seen ..
      refine ⟨h.each.append ?_, ?_⟩
      · intro j
        -- only this call's own counts move
        by_cases hj : j = i
        · subst hj
          rw [hpaced, hsent]
          exact (hall j).trans (Nat.le_succ _)
        · have hother : ∀ seen e, (t.trace ++ [(i, seen)]).count (j, e) = t.trace.count (j, e) :=
            fun seen e => count_append_other [seen] e hj
          rw [hother .paced .sent, hother .paced .paced]
          exact hall j
      · simp only [Fits, List.map_cons, List.map_nil, hpaced, hsent]
        rw [if_pos hfirst, heq]
  | sent k hp =>
      -- a send that does not repeat one has its own slot
      have hfirst : call.dialect = .platform ∨ k = 0 := by
        by_contra hnot
        rw [not_or] at hnot
        exact hcond ⟨k, hp, hnot.1, hnot.2⟩
      simp only [Fits, hp] at hfits
      rw [if_pos hfirst] at hfits
      have hpaced : (t.trace ++ [(i, Event.sent)]).count (i, .paced)
          = t.trace.count (i, .paced) := count_seen ..
      have hsent : (t.trace ++ [(i, Event.sent)]).count (i, .sent)
          = t.trace.count (i, .sent) + 1 := count_seen ..
      refine ⟨h.each.append ?_, ?_⟩
      · intro j
        by_cases hj : j = i
        · subst hj
          rw [hpaced, hsent]
          exact hfits.le
        · have hother : ∀ seen e, (t.trace ++ [(i, seen)]).count (j, e) = t.trace.count (j, e) :=
            fun seen e => count_append_other [seen] e hj
          rw [hother .sent .sent, hother .sent .paced]
          exact hall j
      · simp only [Fits, List.map_cons, List.map_nil, hpaced, hsent]
        exact hfits
  | replied k hp r =>
      simp only [Fits, hp] at hfits
      rw [List.map_nil, List.append_nil, hfits]
      -- a reply is no event of either kind
      exact ⟨h.each, fits_onReply k r⟩

/-- A step of the traffic is one of its calls'. -/
theorem traffic_step_spec {t t' : Traffic π} {i : Nat} {a : CallAction}
    (h : t.step maxWait i a = some t') :
    ∃ call point es, t.calls[i]? = some call ∧ Moved maxWait call a point es ∧
      t' = ⟨t.calls.set i { call with point := point }, t.trace ++ es.map fun e => (i, e)⟩ := by
  simp only [Traffic.step] at h
  cases hi : t.calls[i]? with
  | none =>
      rw [hi] at h
      cases h
  | some call =>
      rw [hi] at h
      obtain ⟨moved, hmove, rfl⟩ := Option.map_eq_some_iff.mp h
      exact ⟨call, moved.1, moved.2, rfl, moved_of_move hmove, rfl⟩

/-- What every call has, after a step of one of them. -/
theorem forall_set {P : Call π → Prop} {calls : List (Call π)} {i : Nat} {call : Call π}
    (h : ∀ call ∈ calls, P call) (hcall : P call) :
    ∀ other ∈ calls.set i call, P other := by
  intro other hother
  rcases List.mem_or_eq_of_mem_set hother with hold | rfl
  · exact h other hold
  · exact hcall

/-- **A step of one call.** The slots go on covering the requests, unless the call sends
    again what it sent before. -/
theorem Balanced.step {t t' : Traffic π} {i : Nat} {a : CallAction} (h : Balanced t)
    (hcond : ∀ call, t.calls[i]? = some call → ¬ Resends call a)
    (hstep : t.step maxWait i a = some t') : Balanced t' := by
  obtain ⟨call, point, es, hi, hmoved, rfl⟩ := traffic_step_spec hstep
  have hlt : i < t.calls.length := (List.getElem?_eq_some_iff.mp hi).1
  obtain ⟨heach, hfits⟩ := h.moved hmoved (h.fits i call hi) (hcond call hi)
  refine ⟨heach, ?_, ?_⟩
  · intro j other hj
    by_cases hij : j = i
    · subst hij
      rw [List.getElem?_set_self hlt] at hj
      rw [← Option.some.inj hj]
      exact hfits
    · rw [List.getElem?_set_ne (Ne.symm hij)] at hj
      dsimp only
      rw [count_append_other _ _ hij, count_append_other _ _ hij]
      exact h.fits j other hj
  · intro j hj e
    rw [List.length_set] at hj
    dsimp only
    rw [count_append_other _ e (by omega)]
    exact h.fresh j hj e

/-- A call can always send again where it stands before its request; in no slot of its
    own, it then has sent more than it was given slots. -/
theorem Balanced.resend {t : Traffic π} {i : Nat} {call : Call π} {a : CallAction}
    (h : Balanced t) (hi : t.calls[i]? = some call) (hresends : Resends call a) :
    ∃ t', t.step maxWait i a = some t' ∧ ¬ OneSlotEach t'.trace := by
  cases a with
  | send =>
      obtain ⟨k, hp, hd, hk⟩ := hresends
      have hfits := h.fits i call hi
      simp only [Fits, hp] at hfits
      rw [if_neg (not_or.mpr ⟨hd, hk⟩)] at hfits
      refine ⟨_, by simp only [Traffic.step, hi, hp, Dialect.move, Option.map_some]; rfl, ?_⟩
      intro heach
      have hcounts := heach _ List.prefix_rfl i
      simp only [List.map_cons, List.map_nil] at hcounts
      rw [count_seen, count_seen, hfits] at hcounts
      exact absurd hcounts (by simp)
  | pace => exact hresends.elim
  | reply r => exact hresends.elim

/-- The call is at its first attempt, or has ended. -/
def AtFirst (call : Call π) : Prop :=
  match call.point with
  | .pacing k => k = 0
  | .sending k => k = 0
  | _ => True

/-- A reply that is not to be retried ends the call. -/
theorem atFirst_onReply {call : Call π} {r : Reply} (k : Nat)
    (hfinal : call.dialect = .blockNumber ∨ ¬ Retried maxWait r) :
    AtFirst { call with point := call.dialect.onReply maxWait k r } := by
  rcases onReply_cases call.dialect maxWait k r with ⟨result, heq⟩ | heq | ⟨hd, hretried, -⟩
  · rw [heq]
    trivial
  · rw [heq]
    trivial
  · rcases hfinal with hnumber | hnot
    · exact absurd hnumber hd
    · exact absurd hretried hnot

end Balance

/-! ## Runs -/

/-- No call of the backfill sends again in the slot it used before. -/
def NoResend (sys : EthSystem) : EthAction → Prop
  | .call i a => ∀ call, sys.traffic.calls[i]? = some call → ¬ Resends call a
  | _ => True

/-- No reply to a `fetch_rpc` of the backfill is one to be retried. -/
def RepliesFinal (maxWait : Nat) (sys : EthSystem) : EthAction → Prop
  | .call i (.reply r) => ∀ call, sys.traffic.calls[i]? = some call →
      call.dialect = .blockNumber ∨ ¬ Retried maxWait r
  | _ => True

section Eth

variable {J : Codec} {cfg : IngestCfg} {maxWait : Nat} {sys sys' : EthSystem} {a : EthAction}

/-- What a step of the backfill does to its calls. -/
theorem ethStep_traffic (h : ethStep J cfg maxWait sys a = some sys') :
    sys'.traffic = sys.traffic ∨ (∃ wanted, sys'.traffic = sys.traffic.begin wanted) ∨
      ∃ i act, a = .call i act ∧ sys.traffic.step maxWait i act = some sys'.traffic := by
  have hbegin : ∀ read, (ethCalls J cfg sys.inst read).map (fun wanted =>
      ({ sys with traffic := sys.traffic.begin wanted } : EthSystem)) = some sys' →
      ∃ wanted, sys'.traffic = sys.traffic.begin wanted := by
    intro read hread
    obtain ⟨wanted, -, rfl⟩ := Option.map_eq_some_iff.mp hread
    exact ⟨wanted, rfl⟩
  cases a with
  | readTip => exact Or.inr (Or.inl (hbegin _ h))
  | loadRange => exact Or.inr (Or.inl (hbegin _ h))
  | fetchOne height => exact Or.inr (Or.inl (hbegin _ h))
  | call i act =>
      obtain ⟨t, ht, rfl⟩ := Option.map_eq_some_iff.mp h
      exact Or.inr (Or.inr ⟨i, act, rfl, ht⟩)
  | task act =>
      obtain ⟨inst, -, rfl⟩ := Option.map_eq_some_iff.mp h
      exact Or.inl rfl

theorem ethStep_balanced (h : Balanced sys.traffic) (hcond : NoResend sys a)
    (hstep : ethStep J cfg maxWait sys a = some sys') : Balanced sys'.traffic := by
  rcases ethStep_traffic hstep with heq | ⟨wanted, heq⟩ | ⟨i, act, rfl, hmove⟩
  · rw [heq]
    exact h
  · rw [heq]
    exact h.begin wanted
  · exact h.step hcond hmove

/-- Where no reply is retried, every call stays at its first attempt. -/
theorem ethStep_atFirst (h : ∀ call ∈ sys.traffic.calls, AtFirst call)
    (hcond : RepliesFinal maxWait sys a) (hstep : ethStep J cfg maxWait sys a = some sys') :
    ∀ call ∈ sys'.traffic.calls, AtFirst call := by
  rcases ethStep_traffic hstep with heq | ⟨wanted, heq⟩ | ⟨i, act, rfl, hmove⟩
  · rw [heq]
    exact h
  · rw [heq]
    intro call hcall
    rcases List.mem_append.mp hcall with hold | hnew
    · exact h call hold
    · obtain ⟨w, -, rfl⟩ := List.mem_map.mp hnew
      rfl
  · obtain ⟨call, point, es, hi, hmoved, heq⟩ := traffic_step_spec hmove
    have hcall := h call (List.mem_of_getElem? hi)
    rw [heq]
    refine forall_set h ?_
    cases hmoved with
    | paced k hp =>
        simp only [AtFirst, hp] at hcall
        exact hcall
    | sent k hp => trivial
    | replied k hp r => exact atFirst_onReply k (hcond call hi)

/-- A call at its first attempt does not send again. -/
theorem noResend_of_atFirst (h : ∀ call ∈ sys.traffic.calls, AtFirst call) :
    NoResend sys a := by
  cases a with
  | call i act =>
      intro call hi hresends
      have hcall := h call (List.mem_of_getElem? hi)
      cases act with
      | send =>
          obtain ⟨k, hp, -, hk⟩ := hresends
          simp only [AtFirst, hp] at hcall
          exact hk hcall
      | pace => exact hresends
      | reply r => exact hresends
  | readTip => trivial
  | loadRange => trivial
  | fetchOne height => trivial
  | task act => trivial

/-- **The backfill**: every request has a slot of its own exactly in the runs where no
    call sends again. -/
theorem eth_slots_iff (i : NeveEthInstance.Instance) (actions : List EthAction) :
    Run.Always (ethStep J cfg maxWait) (fun sys => OneSlotEach sys.traffic.trace) ⟨i, .none⟩
        actions ↔
      Run.Meets (ethStep J cfg maxWait) NoResend ⟨i, .none⟩ actions := by
  have hgood : ∀ sys : EthSystem, Balanced sys.traffic → OneSlotEach sys.traffic.trace :=
    fun _ h => h.each
  have hstep : ∀ (sys : EthSystem) a sys', Balanced sys.traffic → NoResend sys a →
      ethStep J cfg maxWait sys a = some sys' → Balanced sys'.traffic :=
    fun _ _ _ h hcond hs => ethStep_balanced h hcond hs
  have hbad : ∀ (sys : EthSystem) a, Balanced sys.traffic → ¬ NoResend sys a →
      ∃ sys', ethStep J cfg maxWait sys a = some sys' ∧ ¬ OneSlotEach sys'.traffic.trace := by
    intro sys a h hnot
    cases a with
    | call i act =>
        simp only [NoResend, not_forall, not_not] at hnot
        obtain ⟨call, hi, hresends⟩ := hnot
        obtain ⟨t', ht', hbad⟩ := @Balanced.resend _ maxWait _ _ _ _ h hi hresends
        exact ⟨{ sys with traffic := t' }, by simp only [ethStep, ht', Option.map_some], hbad⟩
    | readTip => exact absurd trivial hnot
    | loadRange => exact absurd trivial hnot
    | fetchOne height => exact absurd trivial hnot
    | task act => exact absurd trivial hnot
  exact Run.always_iff_meets hgood hstep hbad balanced_none

theorem noResend_of_repliesFinal (i : NeveEthInstance.Instance) {actions : List EthAction}
    (h : Run.Meets (ethStep J cfg maxWait) (RepliesFinal maxWait) ⟨i, .none⟩ actions) :
    Run.Meets (ethStep J cfg maxWait) NoResend ⟨i, .none⟩ actions := by
  have hcond : ∀ (sys : EthSystem) a, (∀ call ∈ sys.traffic.calls, AtFirst call) →
      RepliesFinal maxWait sys a → NoResend sys a := fun _ _ h _ => noResend_of_atFirst h
  have hstep : ∀ (sys : EthSystem) a sys', (∀ call ∈ sys.traffic.calls, AtFirst call) →
      RepliesFinal maxWait sys a → ethStep J cfg maxWait sys a = some sys' →
      ∀ call ∈ sys'.traffic.calls, AtFirst call :=
    fun _ _ _ h hc hs => ethStep_atFirst h hc hs
  refine Run.Meets.weaken hcond hstep ?_ h
  intro call hcall
  cases hcall

end Eth

section Platform

variable {J : Codec} {sha256 : Bytes → Bytes32} {floor : Option Nat}
  {fetchConcurrency maxWait : Nat} {sys sys' : PlatformSystem} {a : PlatformAction}

/-- Every call of the ingest loop paces itself. -/
structure PlatformOk (sys : PlatformSystem) : Prop where
  balanced : Balanced sys.traffic
  dialect : ∀ call ∈ sys.traffic.calls, call.dialect = .platform

theorem platformCalls_dialect {u : Upstream} {wanted : List (PlatformPurpose × Dialect)}
    (h : platformCalls fetchConcurrency u a = some wanted) : ∀ w ∈ wanted, w.2 = .platform := by
  intro w hw
  cases a with
  | fetchHeight =>
      simp only [platformCalls] at h
      cases hrun : u.run with
      | none =>
          rw [hrun] at h
          rw [← Option.some.inj h] at hw
          rw [List.mem_singleton.mp hw]
      | some run =>
          rw [hrun] at h
          cases h
  | fetchBlock height =>
      simp only [platformCalls] at h
      rcases hrun : u.run with _ | ⟨stop, cursor, stage⟩
      · rw [hrun] at h
        cases h
      rw [hrun] at h
      cases stage with
      | fetching pending =>
          dsimp only at h
          by_cases hwindow : cursor ≤ height ∧ height ≤ stop ∧
              height < cursor + max 1 fetchConcurrency
          · rw [if_pos hwindow] at h
            rw [← Option.some.inj h] at hw
            rcases List.mem_cons.mp hw with rfl | hw
            · rfl
            · rw [List.mem_singleton.mp hw]
          · rw [if_neg hwindow] at h
            cases h
      | storing fetched rewards resolver => cases h
      | announcing fetched rewards resolver => cases h
  | fetchRewardUtxos =>
      simp only [platformCalls] at h
      rcases hrun : u.run with _ | ⟨stop, cursor, stage⟩
      · rw [hrun] at h
        cases h
      rw [hrun] at h
      cases stage with
      | fetching pending =>
          cases pending with
          | none => cases h
          | some proposal =>
              obtain ⟨tx, -, rfl⟩ := Option.map_eq_some_iff.mp h
              rw [List.mem_singleton.mp hw]
      | storing fetched rewards resolver => cases h
      | announcing fetched rewards resolver => cases h
  | call i act => cases h
  | task listening act => cases h

theorem PlatformOk.begin {wanted : List (PlatformPurpose × Dialect)} (h : PlatformOk sys)
    (hwanted : ∀ w ∈ wanted, w.2 = .platform) :
    PlatformOk { sys with traffic := sys.traffic.begin wanted } := by
  refine ⟨h.balanced.begin wanted, ?_⟩
  intro call hcall
  rcases List.mem_append.mp hcall with hold | hnew
  · exact h.dialect call hold
  · obtain ⟨w, hw, rfl⟩ := List.mem_map.mp hnew
    exact hwanted w hw

theorem PlatformOk.step (h : PlatformOk sys)
    (hstep : platformStep J sha256 floor fetchConcurrency maxWait sys a = some sys') :
    PlatformOk sys' := by
  have hbegin : ∀ read, (platformCalls fetchConcurrency sys.upstream read).map (fun wanted =>
      ({ sys with traffic := sys.traffic.begin wanted } : PlatformSystem)) = some sys' →
      PlatformOk sys' := by
    intro read hread
    obtain ⟨wanted, hwanted, rfl⟩ := Option.map_eq_some_iff.mp hread
    exact h.begin (platformCalls_dialect hwanted)
  cases a with
  | fetchHeight => exact hbegin _ hstep
  | fetchBlock height => exact hbegin _ hstep
  | fetchRewardUtxos => exact hbegin _ hstep
  | call i act =>
      obtain ⟨t, ht, rfl⟩ := Option.map_eq_some_iff.mp hstep
      have hself : ∀ call, sys.traffic.calls[i]? = some call → ¬ Resends call act := by
        intro call hi hresends
        cases act with
        | send =>
            obtain ⟨k, -, hd, -⟩ := hresends
            exact hd (h.dialect call (List.mem_of_getElem? hi))
        | pace => exact hresends
        | reply r => exact hresends
      refine ⟨h.balanced.step hself ht, ?_⟩
      obtain ⟨call, point, es, hi, -, rfl⟩ := traffic_step_spec ht
      refine forall_set h.dialect ?_
      exact h.dialect call (List.mem_of_getElem? hi)
  | task listening act =>
      obtain ⟨out, -, rfl⟩ := Option.map_eq_some_iff.mp hstep
      exact ⟨h.balanced, h.dialect⟩

/-- **The ingest loop**: every request has a slot of its own. -/
theorem platform_slots (u : Upstream) {actions : List PlatformAction}
    (hrun : Run.exec (platformStep J sha256 floor fetchConcurrency maxWait) ⟨u, .none⟩ actions
      = some sys) : OneSlotEach sys.traffic.trace := by
  have hinit : PlatformOk ⟨u, .none⟩ := by
    refine ⟨balanced_none, ?_⟩
    intro call hcall
    cases hcall
  have hok : PlatformOk sys :=
    Run.exec_invariant_all (fun _ _ _ h hs => PlatformOk.step h hs) hinit hrun
  exact hok.balanced.each

end Platform

/-! ## Both loops -/

/-- **A slot for every request.** In every run of the P-chain's ingest loop, whatever
    upstream answers, each request has a slot of its own; in a run of the C-chain's
    backfill, exactly if no call sends again; and none does if no reply is to be retried. -/
theorem one_slot_per_request (J : Codec) (sha256 : Bytes → Bytes32) (cfg : IngestCfg)
    (floor : Option Nat) (fetchConcurrency maxWait : Nat) (i : NeveEthInstance.Instance)
    (u : Upstream) :
    (∀ actions sys,
      Run.exec (platformStep J sha256 floor fetchConcurrency maxWait) ⟨u, .none⟩ actions
        = some sys → OneSlotEach sys.traffic.trace) ∧
    (∀ actions,
      Run.Always (ethStep J cfg maxWait) (fun sys => OneSlotEach sys.traffic.trace) ⟨i, .none⟩
          actions ↔
        Run.Meets (ethStep J cfg maxWait) NoResend ⟨i, .none⟩ actions) ∧
    ∀ actions, Run.Meets (ethStep J cfg maxWait) (RepliesFinal maxWait) ⟨i, .none⟩ actions →
      Run.Meets (ethStep J cfg maxWait) NoResend ⟨i, .none⟩ actions := by
  refine ⟨?_, ?_, ?_⟩
  · intro actions sys hrun
    exact platform_slots u hrun
  · intro actions
    exact eth_slots_iff i actions
  · intro actions hfinal
    exact noResend_of_repliesFinal i hfinal

/-! ## One height -/

open NeveEthInstance (Instance)

/-- The backfill of a store with floor 7 reads the tip 7 and asks for its block. -/
def askSeven (block : List CallAction) : List EthAction :=
  [.task (.backfill .readHighWater), .task (.backfill .readContiguous), .readTip,
    .call 0 .pace, .call 0 .send, .call 0 (.reply (.decoded (.object [("result", .string "0x7")]))),
    .task (.backfill (.readTip true (some (.object [("result", .string "0x7")])))),
    .fetchOne 7] ++ block.map (.call 1)

/-- A block, and the answer to a request for one that is not there yet. -/
def aBlock : Reply := .decoded (.object [("result", .object [])])

def noBlock : Reply := .decoded (.object [("result", .null)])

/-- Blocks only, from floor 7, four at a time. -/
def sevenCfg : IngestCfg := ⟨false, .GetLogs, false, some 7, 4, 8⟩

def sevenInstance : Instance := Instance.start sevenCfg (Storage.fresh memory .C (some 7))

/-- The P-chain's loop asks for its tip, and again after an error. -/
def askTip : List PlatformAction :=
  [.fetchHeight, .call 0 .pace, .call 0 .send, .call 0 (.reply noBlock), .call 0 .pace,
    .call 0 .send]

/-- The P-chain's second request has a slot; the C-chain's block comes at the first. -/
theorem one_slot_per_request_seven :
    (∃ sys, Run.exec (platformStep JsonText.codec NevePlatformCodec.sampleSha256 none 4 0)
        ⟨.start (Storage.fresh memory .P none), .none⟩ askTip = some sys ∧
      sys.traffic.trace = [(0, .paced), (0, .sent), (0, .paced), (0, .sent)] ∧
      OneSlotEach sys.traffic.trace) ∧
    Run.Always (ethStep JsonText.codec sevenCfg 0) (fun sys => OneSlotEach sys.traffic.trace)
      ⟨sevenInstance, .none⟩ (askSeven [.pace, .send, .reply aBlock]) := by
  obtain ⟨hplatform, heth, hfinal⟩ := one_slot_per_request JsonText.codec
    NevePlatformCodec.sampleSha256 sevenCfg none 4 0 sevenInstance
    (.start (Storage.fresh memory .P none))
  constructor
  · exact ⟨_, rfl, rfl, hplatform askTip _ rfl⟩
  · refine (heth _).mpr (hfinal _ ?_)
    -- the tip may be anything, and the block is there
    refine Run.meets_cons trivial rfl (Run.meets_cons trivial rfl (Run.meets_cons trivial rfl
      (Run.meets_cons trivial rfl (Run.meets_cons trivial rfl (Run.meets_cons ?_ rfl
      (Run.meets_cons trivial rfl (Run.meets_cons trivial rfl (Run.meets_cons trivial rfl
      (Run.meets_cons trivial rfl (Run.meets_cons ?_ rfl trivial))))))))))
    · intro call hcall
      rw [← Option.some.inj hcall]
      exact Or.inl rfl
    · intro call _
      refine Or.inr ?_
      intro hretried
      cases hretried

/-- Its block not there yet, the C-chain's backfill asks again in the slot it had. -/
theorem eth_retry_without_slot :
    ∃ sys, Run.exec (ethStep JsonText.codec sevenCfg 0) ⟨sevenInstance, .none⟩
        (askSeven [.pace, .send, .reply noBlock, .send]) = some sys ∧
      sys.traffic.trace
        = [(0, .paced), (0, .sent), (1, .paced), (1, .sent), (1, .sent)] ∧
      ¬ OneSlotEach sys.traffic.trace := by
  refine ⟨_, rfl, rfl, ?_⟩
  intro heach
  exact absurd (heach _ List.prefix_rfl 1) (by decide)

end NeveRequestPacing
