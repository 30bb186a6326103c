import Neve.BroadcastRingProofs
import Neve.EthInstanceProofs
import Neve.JsonTextProofs
import Neve.MirrorProofs
import Neve.RunProofs
import Neve.StrTextProofs

/-! # Live subscriptions — every subscriber of one chain, over one ring

    A subscription request is parsed by its chain's dialect and either refused,
    answered from the live fan-out, or answered by a replay of storage.  The
    live ones share one broadcast ring: ingest announces at any time, never
    waiting for them, and every handler takes its turns in any order, blocked
    on its own client while the others go on. -/

namespace NeveSubscribe

open JsonValue ByteText StrText NeveRecord NevePlatformIngest BroadcastRing
open BroadcastRing.Channel

/-! ## Requests -/

/-- Which subscription a subscriber asked for. -/
inductive SubKind where
  | NewHeads
  | NewBlocks
  | NewRecords
  | OldBlocks
  | OldRecords
  deriving DecidableEq, Repr

namespace SubKind

/-- Parse a wire token; `none` for unsupported kinds. -/
def fromWire (s : String) : Option SubKind :=
  if s = "newHeads" then some .NewHeads
  else if s = "newBlocks" then some .NewBlocks
  else if s = "newRecords" then some .NewRecords
  else if s = "oldBlocks" then some .OldBlocks
  else if s = "oldRecords" then some .OldRecords
  else none

/-- The wire and metrics-label spelling. -/
def asStr : SubKind → String
  | .NewHeads => "newHeads"
  | .NewBlocks => "newBlocks"
  | .NewRecords => "newRecords"
  | .OldBlocks => "oldBlocks"
  | .OldRecords => "oldRecords"

/-- Does this kind stream the live tip, rather than replay storage? -/
def isLive : SubKind → Bool
  | .NewHeads | .NewBlocks | .NewRecords => true
  | _ => false

/-- Does this kind carry the whole stored record rather than the block? -/
def wantsRecord : SubKind → Bool
  | .NewRecords | .OldRecords => true
  | _ => false

/-- Does this kind deliver headers rather than whole blocks? -/
def stripsTransactions : SubKind → Bool
  | .NewHeads => true
  | _ => false

end SubKind

/-- What a subscriber asked for, once its dialect has read it. -/
structure SubRequest where
  kind : SubKind
  fromHeight : Option Nat
  toHeight : Option Nat
  deriving DecidableEq, Repr

def ETH_SUB_KINDS : List SubKind := [.NewHeads, .NewBlocks, .NewRecords, .OldBlocks, .OldRecords]

def PLATFORM_SUB_KINDS : List SubKind := [.NewBlocks, .NewRecords, .OldBlocks, .OldRecords]

/-- Does this chain's live path announce the complete record? -/
def publishesLiveRecords : Chain → Bool
  | .C => false
  | .P => true

/-- Refuse kinds this chain cannot back; the rest goes on to the live fan-out or
    to the replay of storage. -/
def serve (chain : Chain) (req : SubRequest) (allowed : List SubKind) :
    Except String SubRequest :=
  if req.kind ∉ allowed then
    .error s!"subscription kind {req.kind.asStr} is not available on the {chain.asStr} chain"
  else if req.kind = .NewRecords ∧ !publishesLiveRecords chain then
    .error (s!"the {chain.asStr} chain announces a block before its derived data is joined, so " ++
        "it has no complete record to push live; use oldRecords to replay stored records, or " ++
        "newBlocks for the live block")
  else .ok req

/-- Turn an optional read inside out. -/
def transpose {ε α : Type} : Option (Except ε α) → Except ε (Option α)
  | none => .ok none
  | some r => r.map some

/-- A hex quantity, with or without the marker. -/
def parseQuantity (q : String) : Except String Nat :=
  match u64FromRadix16 ((stripPrefix0x q.toList).getD q.toList) with
  | none => .error s!"invalid quantity: {q}"
  | some n => .ok n

/-- `eth_subscribe`: kind and range as positional texts. -/
def ethSubscribe (kind : String) (fromHex toHex : Option String) : Except String SubRequest :=
  match SubKind.fromWire kind with
  | none => .error s!"unsupported subscription kind: {kind}"
  | some subKind => do
      let fromHeight ← transpose (fromHex.map parseQuantity)
      let toHeight ← transpose (toHex.map parseQuantity)
      serve .C ⟨subKind, fromHeight, toHeight⟩ ETH_SUB_KINDS

/-- An avalanchego unsigned integer: a number, or a text that spells one. -/
inductive Uint64 where
  | Num (n : UInt64)
  | Str (s : String)

def Uint64.get : Uint64 → Except String Nat
  | .Num n => .ok n.toNat
  | .Str s =>
      match parseU64 s with
      | none => .error s!"expected an unsigned integer, got {s.quote}"
      | some n => .ok n

/-- `platform.subscribe`: kind and range as fields of an object. -/
def platformSubscribe (kind : String) (fromHeight toHeight : Option Uint64) :
    Except String SubRequest :=
  match SubKind.fromWire kind with
  | none => .error s!"unsupported subscription kind: {kind}"
  | some subKind => do
      let fromHeight ← transpose (fromHeight.map Uint64.get)
      let toHeight ← transpose (toHeight.map Uint64.get)
      serve .P ⟨subKind, fromHeight, toHeight⟩ PLATFORM_SUB_KINDS

/-- The kinds a chain serves. -/
def allowedKinds : Chain → List SubKind
  | .C => ETH_SUB_KINDS
  | .P => PLATFORM_SUB_KINDS

/-- A request that was let through is one its chain can back. -/
theorem serve_ok {chain : Chain} {req served : SubRequest} {allowed : List SubKind}
    (h : serve chain req allowed = .ok served) :
    served = req ∧ req.kind ∈ allowed ∧
      (req.kind = .NewRecords → publishesLiveRecords chain = true) := by
  simp only [serve] at h
  split at h
  · cases h
  · rename_i hmem
    split at h
    · cases h
    · rename_i hrec
      refine ⟨(Except.ok.inj h).symm, Decidable.not_not.mp hmem, ?_⟩
      intro hkind
      by_contra hno
      exact hrec ⟨hkind, by simpa using hno⟩

/-! ## Payloads -/

/-- An object without one of its fields. -/
def removeField (k : String) : Value → Value
  | .object fields => .object (fields.filter fun field => field.1 ≠ k)
  | v => v

/-- What one kind of subscriber gets of a live update. -/
def project (update : LiveUpdate) (kind : SubKind) : Option Value :=
  if kind.wantsRecord then update.record
  else if kind.stripsTransactions then some (removeField "transactions" update.block)
  else some update.block

/-- What the live path of a chain announces. -/
def Announces (chain : Chain) (update : LiveUpdate) : Prop :=
  publishesLiveRecords chain = true → update.record.isSome = true

/-- Everything a chain announces has a payload for every kind that chain serves. -/
theorem project_isSome {chain : Chain} {update : LiveUpdate} {kind : SubKind}
    (hannounced : Announces chain update) (hlive : kind.isLive = true)
    (hkind : kind = .NewRecords → publishesLiveRecords chain = true) :
    (project update kind).isSome = true := by
  cases kind with
  | NewHeads => rfl
  | NewBlocks => rfl
  | NewRecords => exact hannounced (hkind rfl)
  | OldBlocks => cases hlive
  | OldRecords => cases hlive

/-! ## One subscriber -/

/-- Where a live handler stands: before its client has accepted, before its next
    receive, blocked on sending one message, or returned. -/
inductive Stage where
  | accepting
  | waiting
  | sending (payload : Value)
  | ended

/-- A live handler with its receiver, what the receiver returned and what went
    out on the sink.  `joined` is the number of updates announced before it
    subscribed, `start` the position its receiver began at. -/
structure Subscriber where
  kind : SubKind
  joined : Nat
  start : Nat
  cursor : Nat
  stage : Stage
  received : List (Received LiveUpdate)
  delivered : List Value

/-- What a handler's turn does to the metrics of its kind. -/
inductive Metric where
  | none
  | opened
  | closed
  | lagged (n : Nat)
  | sentBytes (n : Nat)

/-- A handler's turn: its client accepts or goes away before that, it receives,
    a send completes or fails, or it notices that the client has closed. -/
inductive Turn where
  | accept (ok : Bool)
  | receive
  | sent (ok : Bool)
  | hangUp

section Handler

variable (J : Codec)

/-- One turn of a live handler.  The guard behind the open gauge lives from the
    accept to the return, whichever way the loop is left. -/
def Subscriber.turn (ring : Channel LiveUpdate) (s : Subscriber) :
    Turn → Option (Subscriber × Metric)
  | .accept ok =>
      match s.stage with
      | .accepting =>
          if ok then some ({ s with stage := .waiting }, .opened)
          else some ({ s with stage := .ended }, .none)
      | _ => none
  | .receive =>
      match s.stage with
      | .waiting =>
          (ring.recv s.cursor).map fun got =>
            let s' := { s with cursor := got.2, received := s.received ++ [got.1] }
            match got.1 with
            | .lagged n => (s', .lagged n)
            | .value update =>
                match project update s.kind with
                | none => (s', .none)
                | some payload => ({ s' with stage := .sending payload }, .none)
      | _ => none
  | .sent ok =>
      match s.stage with
      | .sending payload =>
          if ok then
            some ({ s with stage := .waiting, delivered := s.delivered ++ [payload] },
              .sentBytes (J.toVec payload).length)
          else some ({ s with stage := .ended }, .closed)
      | _ => none
  | .hangUp =>
      match s.stage with
      | .waiting => some ({ s with stage := .ended }, .closed)
      | _ => none

end Handler

/-! ## All of them, over one ring -/

/-- The subscription series of one kind: the open gauge and the two counters. -/
structure SubMetrics where
  subOpen : Int
  laggedTotal : Nat
  sentBytesTotal : Nat
  deriving DecidableEq

/-- Count what a turn reported. -/
def SubMetrics.count (c : SubMetrics) : Metric → SubMetrics
  | .none => c
  | .opened => { c with subOpen := c.subOpen + 1 }
  | .closed => { c with subOpen := c.subOpen - 1 }
  | .lagged n => { c with laggedTotal := c.laggedTotal + n }
  | .sentBytes n => { c with sentBytesTotal := c.sentBytesTotal + n }

/-- The live fan-out of one chain: the ring, everything ingest has announced,
    every handler there has been, and the metrics by kind. -/
structure Fanout where
  ring : Channel LiveUpdate
  announced : List LiveUpdate
  subscribers : List Subscriber
  metrics : SubKind → SubMetrics

def Fanout.new (broadcast : Broadcast LiveUpdate) : Fanout where
  ring := Channel.new broadcast NeveMirror.LIVE_CHANNEL_CAP
  announced := []
  subscribers := []
  metrics := fun _ => ⟨0, 0, 0⟩

def Subscriber.isAttached (s : Subscriber) : Bool :=
  match s.stage with
  | .ended => false
  | _ => true

/-- Is anybody listening?  A handler holds its receiver until it returns. -/
def Fanout.listening (f : Fanout) : Bool := f.subscribers.any Subscriber.isAttached

def Fanout.record (f : Fanout) (kind : SubKind) (metric : Metric) : Fanout :=
  { f with metrics := Function.update f.metrics kind ((f.metrics kind).count metric) }

inductive Action where
  | announce (update : LiveUpdate)
  | subscribe (req : SubRequest)
  | turn (i : Nat) (t : Turn)

/-- One step of the fan-out.  A subscriber's receiver is there before its client
    has accepted; with nobody listening an update is not even cloned. -/
def step (J : Codec) (chain : Chain) (f : Fanout) : Action → Option Fanout
  | .announce update =>
      some { f with
        ring := if f.listening then f.ring.send update else f.ring
        announced := f.announced ++ [update] }
  | .subscribe req =>
      match serve chain req (allowedKinds chain) with
      | .error _ => some f
      | .ok req =>
          if req.kind.isLive then
            some { f with subscribers := f.subscribers ++
              [⟨req.kind, f.announced.length, f.ring.tail, f.ring.tail, .accepting, [], []⟩] }
          else some f
  | .turn i t =>
      match f.subscribers[i]? with
      | none => none
      | some s =>
          (s.turn J f.ring t).map fun (s', metric) =>
            { f with subscribers := f.subscribers.set i s' }.record s.kind metric

/-- One subscriber to headers, one block announced, and its header sent. -/
def headOf (block : Value) : List Action :=
  [.subscribe ⟨.NewHeads, none, none⟩, .turn 0 (.accept true), .announce ⟨block, none⟩,
    .turn 0 .receive, .turn 0 (.sent true)]

/-! ## What a turn and a step can do -/

/-- Everything a handler's turn can do. -/
inductive Turned (J : Codec) (ring : Channel LiveUpdate) (s : Subscriber) :
    Turn → Subscriber → Metric → Prop where
  | accepted (h : s.stage = .accepting) :
      Turned J ring s (.accept true) { s with stage := .waiting } .opened
  | refused (h : s.stage = .accepting) :
      Turned J ring s (.accept false) { s with stage := .ended } .none
  | lagged {n next : Nat} (h : s.stage = .waiting)
      (hr : ring.recv s.cursor = some (.lagged n, next)) :
      Turned J ring s .receive
        { s with cursor := next, received := s.received ++ [.lagged n] } (.lagged n)
  | skipped {update : LiveUpdate} {next : Nat} (h : s.stage = .waiting)
      (hr : ring.recv s.cursor = some (.value update, next))
      (hp : project update s.kind = none) :
      Turned J ring s .receive
        { s with cursor := next, received := s.received ++ [.value update] } .none
  | taken {update : LiveUpdate} {next : Nat} {payload : Value} (h : s.stage = .waiting)
      (hr : ring.recv s.cursor = some (.value update, next))
      (hp : project update s.kind = some payload) :
      Turned J ring s .receive
        { s with
          cursor := next
          received := s.received ++ [.value update]
          stage := .sending payload } .none
  | delivered {payload : Value} (h : s.stage = .sending payload) :
      Turned J ring s (.sent true)
        { s with stage := .waiting, delivered := s.delivered ++ [payload] }
        (.sentBytes (J.toVec payload).length)
  | failed {payload : Value} (h : s.stage = .sending payload) :
      Turned J ring s (.sent false) { s with stage := .ended } .closed
  | left (h : s.stage = .waiting) :
      Turned J ring s .hangUp { s with stage := .ended } .closed

section Steps

variable {J : Codec} {chain : Chain}

theorem turn_turned {ring : Channel LiveUpdate} {s s' : Subscriber} {t : Turn} {m : Metric}
    (h : s.turn J ring t = some (s', m)) : Turned J ring s t s' m := by
  cases t with
  | accept ok =>
      simp only [Subscriber.turn] at h
      split at h
      · rename_i hstage
        cases ok with
        | true =>
            obtain ⟨rfl, rfl⟩ := Prod.mk.inj (Option.some.inj h)
            exact .accepted hstage
        | false =>
            obtain ⟨rfl, rfl⟩ := Prod.mk.inj (Option.some.inj h)
            exact .refused hstage
      · cases h
  | receive =>
      simp only [Subscriber.turn] at h
      split at h
      · rename_i hstage
        obtain ⟨⟨x, next⟩, hr, heq⟩ := Option.map_eq_some_iff.mp h
        cases x with
        | lagged n =>
            obtain ⟨rfl, rfl⟩ := Prod.mk.inj heq
            exact .lagged hstage hr
        | value update =>
            dsimp only at heq
            cases hp : project update s.kind with
            | none =>
                rw [hp] at heq
                obtain ⟨rfl, rfl⟩ := Prod.mk.inj heq
                exact .skipped hstage hr hp
            | some payload =>
                rw [hp] at heq
                obtain ⟨rfl, rfl⟩ := Prod.mk.inj heq
                exact .taken hstage hr hp
      · cases h
  | sent ok =>
      simp only [Subscriber.turn] at h
      split at h
      · rename_i payload hstage
        cases ok with
        | true =>
            obtain ⟨rfl, rfl⟩ := Prod.mk.inj (Option.some.inj h)
            exact .delivered hstage
        | false =>
            obtain ⟨rfl, rfl⟩ := Prod.mk.inj (Option.some.inj h)
            exact .failed hstage
      · cases h
  | hangUp =>
      simp only [Subscriber.turn] at h
      split at h
      · rename_i hstage
        obtain ⟨rfl, rfl⟩ := Prod.mk.inj (Option.some.inj h)
        exact .left hstage
      · cases h

/-- A handler that takes a turn still holds its receiver. -/
theorem Turned.attached {ring : Channel LiveUpdate} {s s' : Subscriber} {t : Turn} {m : Metric}
    (h : Turned J ring s t s' m) : s.isAttached = true := by
  cases h <;> simp only [Subscriber.isAttached, *]

/-- What a turn never changes. -/
theorem Turned.fixed {ring : Channel LiveUpdate} {s s' : Subscriber} {t : Turn} {m : Metric}
    (h : Turned J ring s t s' m) :
    s'.kind = s.kind ∧ s'.joined = s.joined ∧ s'.start = s.start := by
  cases h <;> exact ⟨rfl, rfl, rfl⟩

/-- A turn only adds to what was received and delivered. -/
theorem Turned.extends {ring : Channel LiveUpdate} {s s' : Subscriber} {t : Turn} {m : Metric}
    (h : Turned J ring s t s' m) :
    (∃ extra, s'.received = s.received ++ extra) ∧
      ∃ more, s'.delivered = s.delivered ++ more := by
  cases h with
  | lagged hst hr => exact ⟨⟨_, rfl⟩, [], (List.append_nil _).symm⟩
  | skipped hst hr hp => exact ⟨⟨_, rfl⟩, [], (List.append_nil _).symm⟩
  | taken hst hr hp => exact ⟨⟨_, rfl⟩, [], (List.append_nil _).symm⟩
  | delivered hst => exact ⟨⟨[], (List.append_nil _).symm⟩, _, rfl⟩
  | _ => exact ⟨⟨[], (List.append_nil _).symm⟩, [], (List.append_nil _).symm⟩

/-- A handler that has just subscribed. -/
def Fanout.newcomer (f : Fanout) (kind : SubKind) : Subscriber :=
  ⟨kind, f.announced.length, f.ring.tail, f.ring.tail, .accepting, [], []⟩

/-- Everything a step of the fan-out can do. -/
inductive Stepped (J : Codec) (chain : Chain) (f : Fanout) : Action → Fanout → Prop where
  | announced (update : LiveUpdate) :
      Stepped J chain f (.announce update)
        { f with
          ring := if f.listening then f.ring.send update else f.ring
          announced := f.announced ++ [update] }
  | aside (req : SubRequest) : Stepped J chain f (.subscribe req) f
  | joined (req : SubRequest) (hlive : req.kind.isLive = true)
      (hkind : req.kind = .NewRecords → publishesLiveRecords chain = true) :
      Stepped J chain f (.subscribe req)
        { f with subscribers := f.subscribers ++ [f.newcomer req.kind] }
  | turned {i : Nat} {t : Turn} {s s' : Subscriber} {m : Metric}
      (hs : f.subscribers[i]? = some s) (ht : Turned J f.ring s t s' m) :
      Stepped J chain f (.turn i t)
        ({ f with subscribers := f.subscribers.set i s' }.record s.kind m)

theorem step_stepped {f f' : Fanout} {a : Action} (h : step J chain f a = some f') :
    Stepped J chain f a f' := by
  cases a with
  | announce update =>
      rw [← Option.some.inj h]
      exact .announced update
  | subscribe req =>
      simp only [step] at h
      split at h
      · rw [← Option.some.inj h]
        exact .aside req
      · rename_i served hserved
        obtain ⟨rfl, -, hkind⟩ := serve_ok hserved
        split at h
        · rename_i hlive
          rw [← Option.some.inj h]
          exact .joined served hlive hkind
        · rw [← Option.some.inj h]
          exact .aside served
  | turn i t =>
      simp only [step] at h
      split at h
      · cases h
      · rename_i s hs
        obtain ⟨⟨s', m⟩, ht, heq⟩ := Option.map_eq_some_iff.mp h
        rw [← heq]
        exact .turned hs (turn_turned ht)

/-- What later is of a subscriber, whoever took the step. -/
structure Later (s s' : Subscriber) : Prop where
  kind : s'.kind = s.kind
  joined : s'.joined = s.joined
  start : s'.start = s.start
  received : ∃ extra, s'.received = s.received ++ extra
  delivered : ∃ more, s'.delivered = s.delivered ++ more

theorem Later.refl (s : Subscriber) : Later s s :=
  ⟨rfl, rfl, rfl, ⟨[], (List.append_nil _).symm⟩, [], (List.append_nil _).symm⟩

/-- A step keeps every subscriber in its place, and what was announced. -/
theorem Stepped.later {f f' : Fanout} {a : Action} (h : Stepped J chain f a f') :
    (∃ more, f'.announced = f.announced ++ more) ∧
      ∀ (i : Nat) (s : Subscriber), f.subscribers[i]? = some s →
        ∃ s', f'.subscribers[i]? = some s' ∧ Later s s' := by
  cases h with
  | announced update => exact ⟨⟨[update], rfl⟩, fun i s hs => ⟨s, hs, .refl s⟩⟩
  | aside req => exact ⟨⟨[], (List.append_nil _).symm⟩, fun i s hs => ⟨s, hs, .refl s⟩⟩
  | joined req hlive hkind =>
      refine ⟨⟨[], (List.append_nil _).symm⟩, ?_⟩
      intro i s hs
      refine ⟨s, ?_, .refl s⟩
      have hlt := (List.getElem?_eq_some_iff.mp hs).1
      show (f.subscribers ++ [f.newcomer req.kind])[i]? = some s
      rw [List.getElem?_append_left hlt]
      exact hs
  | @turned j t s s' m hs ht =>
      refine ⟨⟨[], (List.append_nil _).symm⟩, ?_⟩
      intro i x hx
      have hlt := (List.getElem?_eq_some_iff.mp hx).1
      by_cases hij : j = i
      · rw [hij] at hs
        have heq : s = x := Option.some.inj (hs.symm.trans hx)
        obtain ⟨hkind, hjoined, hstart⟩ := ht.fixed
        obtain ⟨hreceived, hdelivered⟩ := ht.extends
        rw [heq] at hkind hjoined hstart hreceived hdelivered
        refine ⟨s', ?_, hkind, hjoined, hstart, hreceived, hdelivered⟩
        show (f.subscribers.set j s')[i]? = some s'
        rw [hij, List.getElem?_set_self hlt]
      · refine ⟨x, ?_, .refl x⟩
        show (f.subscribers.set j s')[i]? = some x
        rw [List.getElem?_set_ne hij]
        exact hx

end Steps

/-! ## What every subscriber has seen -/

/-- The messages that what was received amounts to, for one kind. -/
def payloads (kind : SubKind) (received : List (Received LiveUpdate)) : List Value :=
  (values received).filterMap (project · kind)

/-- How much of what it has received a handler has still to send; one that gave
    up may have failed at its last message. -/
def Stage.Owes : Stage → List Value → Prop
  | .sending payload, owed => owed = [payload]
  | .ended, owed => owed.length ≤ 1
  | _, owed => owed = []

/-- What a subscriber has received is the announcements since it joined, up to
    where it stands; what it has been sent is that, but for what is owed. -/
structure Streams (announced : List LiveUpdate) (s : Subscriber) : Prop where
  joined_le : s.joined ≤ announced.length
  start_le : s.start ≤ s.cursor
  follows : Follows (announced.drop s.joined) 0 s.received (s.cursor - s.start)
  owes : ∃ owed, payloads s.kind s.received = s.delivered ++ owed ∧ s.stage.Owes owed

/-- While it is attached, the ring's history since it started is what was
    announced since it joined. -/
structure Attached (history announced : List LiveUpdate) (s : Subscriber) : Prop where
  start_le : s.start ≤ history.length
  same : history.drop s.start = announced.drop s.joined

/-- The fan-out's invariant: the ring keeps a history, and every subscriber's
    stream is taken from it. -/
structure FanoutOk (chain : Chain) (f : Fanout) (history : List LiveUpdate) : Prop where
  cap : f.ring.cap = NeveMirror.LIVE_CHANNEL_CAP
  keeps : Keeps f.ring history
  streams : ∀ s ∈ f.subscribers, Streams f.announced s
  attached : ∀ s ∈ f.subscribers, s.isAttached = true → Attached history f.announced s
  kinds : ∀ s ∈ f.subscribers, s.kind.isLive = true ∧
    (s.kind = .NewRecords → publishesLiveRecords chain = true)

section Invariant

variable {J : Codec} {chain : Chain} {broadcast : Broadcast LiveUpdate}
  {history announced : List LiveUpdate}

theorem payloads_append (kind : SubKind) (xs ys : List (Received LiveUpdate)) :
    payloads kind (xs ++ ys) = payloads kind xs ++ payloads kind ys := by
  simp only [payloads, values_append, List.filterMap_append]

theorem drop_announce {announced : List LiveUpdate} {joined : Nat}
    (h : joined ≤ announced.length) (update : LiveUpdate) :
    (announced ++ [update]).drop joined = announced.drop joined ++ [update] :=
  List.drop_append_of_le_length h

theorem Streams.announce {s : Subscriber} (h : Streams announced s) (update : LiveUpdate) :
    Streams (announced ++ [update]) s := by
  refine ⟨?_, h.start_le, ?_, h.owes⟩
  · rw [List.length_append]
    exact Nat.le_trans h.joined_le (Nat.le_add_right ..)
  · rw [drop_announce h.joined_le]
    exact h.follows.mono [update]

/-- How far the ring is ahead of an attached subscriber's start. -/
theorem Attached.length {s : Subscriber} (h : Attached history announced s) :
    history.length - s.start = announced.length - s.joined := by
  have hlen := congrArg List.length h.same
  rwa [List.length_drop, List.length_drop] at hlen

/-- Where an attached subscriber stands is inside the ring's history. -/
theorem Attached.cursor_le {s : Subscriber} (h : Attached history announced s)
    (hs : Streams announced s) : s.cursor ≤ history.length := by
  have hle := (hs.follows.le (Nat.zero_le _)).2
  rw [List.length_drop, ← h.length] at hle
  have := h.start_le
  have := hs.start_le
  omega

/-- A receive goes one step further along the announcements. -/
theorem Streams.recv {ring : Channel LiveUpdate} {s : Subscriber} (hk : Keeps ring history)
    (h : Streams announced s) (ha : Attached history announced s) {x : Received LiveUpdate}
    {next : Nat} (hr : ring.recv s.cursor = some (x, next)) :
    s.start ≤ next ∧
      Follows (announced.drop s.joined) 0 (s.received ++ [x]) (next - s.start) := by
  have hle := h.start_le
  cases x with
  | value update =>
      obtain ⟨hv, rfl⟩ := recv_value hk hr
      refine ⟨by omega, h.follows.append ?_⟩
      rw [Nat.sub_add_comm hle]
      refine .value ?_ (.nil _)
      rw [← ha.same, List.getElem?_drop, Nat.add_sub_cancel' hle]
      exact hv
  | lagged n =>
      obtain ⟨hn, hpos, hnext⟩ := recv_lagged hk hr
      refine ⟨by omega, h.follows.append ?_⟩
      rw [show next - s.start = s.cursor - s.start + n by omega]
      refine .lagged hn ?_ (.nil _)
      rw [← ha.same, List.length_drop]
      omega

theorem Streams.turned {ring : Channel LiveUpdate} {s s' : Subscriber} {t : Turn} {m : Metric}
    (hk : Keeps ring history) (h : Streams announced s) (ha : Attached history announced s)
    (ht : Turned J ring s t s' m) : Streams announced s' := by
  obtain ⟨owed, howed, hstage⟩ := h.owes
  cases ht with
  | accepted hst =>
      rw [hst] at hstage
      exact ⟨h.joined_le, h.start_le, h.follows, owed, howed, hstage⟩
  | refused hst =>
      rw [hst] at hstage
      refine ⟨h.joined_le, h.start_le, h.follows, owed, howed, ?_⟩
      rw [show owed = [] from hstage]
      exact Nat.zero_le _
  | lagged hst hr =>
      obtain ⟨hstart, hfollows⟩ := h.recv hk ha hr
      refine ⟨h.joined_le, hstart, hfollows, owed, ?_, hstage⟩
      rw [payloads_append]
      exact (List.append_nil _).trans howed
  | @skipped update next hst hr hp =>
      obtain ⟨hstart, hfollows⟩ := h.recv hk ha hr
      refine ⟨h.joined_le, hstart, hfollows, owed, ?_, hstage⟩
      have hnone : payloads s.kind [.value update] = [] := by
        simp only [payloads, values, List.filterMap_cons, hp, List.filterMap_nil]
      rw [payloads_append, hnone, List.append_nil]
      exact howed
  | @taken update next payload hst hr hp =>
      obtain ⟨hstart, hfollows⟩ := h.recv hk ha hr
      rw [hst] at hstage
      refine ⟨h.joined_le, hstart, hfollows, [payload], ?_, rfl⟩
      have hone : payloads s.kind [.value update] = [payload] := by
        simp only [payloads, values, List.filterMap_cons, hp, List.filterMap_nil]
      rw [payloads_append, hone, howed, show owed = [] from hstage, List.append_nil]
  | @delivered payload hst =>
      rw [hst] at hstage
      refine ⟨h.joined_le, h.start_le, h.follows, [], ?_, rfl⟩
      rw [howed, show owed = [payload] from hstage, List.append_nil]
  | @failed payload hst =>
      rw [hst] at hstage
      refine ⟨h.joined_le, h.start_le, h.follows, owed, howed, ?_⟩
      rw [show owed = [payload] from hstage]
      exact Nat.le_refl _
  | left hst =>
      rw [hst] at hstage
      refine ⟨h.joined_le, h.start_le, h.follows, owed, howed, ?_⟩
      rw [show owed = [] from hstage]
      exact Nat.zero_le _

theorem fanoutOk_new : FanoutOk chain (Fanout.new broadcast) [] where
  cap := cap_new broadcast 10
  keeps := keeps_new ..
  streams := fun s hs => by cases hs
  attached := fun s hs => by cases hs
  kinds := fun s hs => by cases hs

/-- A handler that has just subscribed has received nothing. -/
theorem streams_newcomer {f : Fanout} (kind : SubKind) :
    Streams f.announced (f.newcomer kind) where
  joined_le := Nat.le_refl _
  start_le := Nat.le_refl _
  follows := by
    show Follows _ 0 [] (f.ring.tail - f.ring.tail)
    rw [Nat.sub_self]
    exact .nil 0
  owes := ⟨[], rfl, rfl⟩

/-- **Step lemma.** -/
theorem FanoutOk.step {f f' : Fanout} {a : Action} (h : FanoutOk chain f history)
    (hstep : Stepped J chain f a f') : ∃ history', FanoutOk chain f' history' := by
  cases hstep with
  | announced update =>
      by_cases hlisten : f.listening = true
      · refine ⟨history ++ [update], ?_⟩
        rw [if_pos hlisten]
        refine ⟨(send_cap ..).trans h.cap, h.keeps.send ?_ update,
          fun s hs => (h.streams s hs).announce update, ?_, h.kinds⟩
        · rw [h.cap]
          decide
        · intro s hs hatt
          have ha := h.attached s hs hatt
          refine ⟨?_, ?_⟩
          · rw [List.length_append]
            exact Nat.le_trans ha.start_le (Nat.le_add_right ..)
          · rw [drop_announce (h.streams s hs).joined_le, ← ha.same]
            exact List.drop_append_of_le_length ha.start_le
      · refine ⟨history, ?_⟩
        rw [if_neg hlisten]
        refine ⟨h.cap, h.keeps, fun s hs => (h.streams s hs).announce update, ?_, h.kinds⟩
        intro s hs hatt
        -- nobody is attached, or it would be listening
        exact absurd (List.any_eq_true.mpr ⟨s, hs, hatt⟩) hlisten
  | aside req => exact ⟨history, h⟩
  | joined req hlive hkind =>
      refine ⟨history, h.cap, h.keeps, ?_, ?_, ?_⟩
      · intro s hs
        rcases List.mem_append.mp hs with hold | hnew
        · exact h.streams s hold
        · rw [List.mem_singleton.mp hnew]
          exact streams_newcomer req.kind
      · intro s hs hatt
        rcases List.mem_append.mp hs with hold | hnew
        · exact h.attached s hold hatt
        · rw [List.mem_singleton.mp hnew]
          have htail : f.ring.tail = history.length := h.keeps.tail
          refine ⟨Nat.le_of_eq htail, ?_⟩
          show history.drop f.ring.tail = f.announced.drop f.announced.length
          rw [htail, List.drop_length, List.drop_length]
      · intro s hs
        rcases List.mem_append.mp hs with hold | hnew
        · exact h.kinds s hold
        · rw [List.mem_singleton.mp hnew]
          exact ⟨hlive, hkind⟩
  | @turned i t s s' m hs ht =>
      have hmem : s ∈ f.subscribers := List.mem_of_getElem? hs
      have ha := h.attached s hmem ht.attached
      obtain ⟨hkind, hjoined, hstart⟩ := ht.fixed
      refine ⟨history, ?_⟩
      refine ⟨?_, ?_, ?_, ?_, ?_⟩
      · exact h.cap
      · exact h.keeps
      · intro x hx
        rcases List.mem_or_eq_of_mem_set hx with hold | rfl
        · exact h.streams x hold
        · exact (h.streams s hmem).turned h.keeps ha ht
      · intro x hx hatt
        rcases List.mem_or_eq_of_mem_set hx with hold | rfl
        · exact h.attached x hold hatt
        · exact ⟨hstart ▸ ha.start_le, by rw [hstart, hjoined]; exact ha.same⟩
      · intro x hx
        rcases List.mem_or_eq_of_mem_set hx with hold | rfl
        · exact h.kinds x hold
        · rw [hkind]
          exact h.kinds s hmem

/-- **Run lemma.** -/
theorem fanoutOk_run {as : List Action} {f : Fanout}
    (hrun : Run.exec (step J chain) (Fanout.new broadcast) as = some f) :
    ∃ history, FanoutOk chain f history := by
  refine @Run.exec_invariant_all _ _ (step J chain)
    (fun f => ∃ history, FanoutOk chain f history) ?_ as _ f ⟨[], fanoutOk_new⟩ hrun
  rintro f a f' ⟨history, h⟩ hstep
  exact h.step (step_stepped hstep)

end Invariant

/-! ## Streams are exact -/

/-- The announcements of a run are such as the chain's live path makes. -/
def Lawful (chain : Chain) : Action → Prop
  | .announce update => Announces chain update
  | _ => True

/-- The stream of one subscriber, against what was announced since it joined:
    in order, none twice, every one of them either turned into one message of
    its kind or counted as lost. -/
structure LiveStream (announced : List LiveUpdate) (s : Subscriber) : Prop where
  within : s.cursor - s.start ≤ announced.length - s.joined
  in_order : (values s.received).Sublist
    ((announced.drop s.joined).take (s.cursor - s.start))
  accounted : (values s.received).length + lost s.received = s.cursor - s.start
  gapless : lost s.received = 0 →
    values s.received = (announced.drop s.joined).take (s.cursor - s.start)
  messages : ∃ owed, (values s.received).map (project · s.kind)
    = (s.delivered ++ owed).map some ∧ s.stage.Owes owed

section Streams

variable {J : Codec} {chain : Chain} {broadcast : Broadcast LiveUpdate}

theorem announced_lawful {as : List Action} {f : Fanout}
    (hlawful : ∀ a ∈ as, Lawful chain a)
    (hrun : Run.exec (step J chain) (Fanout.new broadcast) as = some f) :
    ∀ update ∈ f.announced, Announces chain update := by
  refine @Run.exec_invariant _ _ (step J chain)
    (fun f => ∀ update ∈ f.announced, Announces chain update) (fun _ a => Lawful chain a) ?_
    as _ f (fun update hu => by cases hu) (Run.meets_of_forall hlawful _) hrun
  intro f a f' hinv hlaw hstep
  cases step_stepped hstep with
  | announced update =>
      intro u hu
      rcases List.mem_append.mp hu with hold | hnew
      · exact hinv u hold
      · rw [List.mem_singleton.mp hnew]
        exact hlaw
  | aside req => exact hinv
  | joined req hlive hkind => exact hinv
  | turned hs ht => exact hinv

/-- Where every value has a payload, what they amount to is one message each. -/
theorem payloads_all {kind : SubKind} {received : List (Received LiveUpdate)}
    (h : ∀ update ∈ values received, (project update kind).isSome = true) :
    (values received).map (project · kind) = (payloads kind received).map some := by
  simp only [payloads]
  generalize values received = updates at h
  induction updates with
  | nil => rfl
  | cons update rest ih =>
      obtain ⟨payload, hp⟩ := Option.isSome_iff_exists.mp (h update (List.mem_cons_self ..))
      rw [List.map_cons, List.filterMap_cons, hp, List.map_cons,
        ih fun u hu => h u (List.mem_cons_of_mem _ hu)]

/-- In every run of the fan-out, whatever the order in which updates are
    announced, subscribers come and go and their handlers take turns, every
    subscriber's stream is exact. -/
theorem live_stream_exact {as : List Action} {f : Fanout}
    (hlawful : ∀ a ∈ as, Lawful chain a)
    (hrun : Run.exec (step J chain) (Fanout.new broadcast) as = some f) :
    ∀ s ∈ f.subscribers, LiveStream f.announced s := by
  intro s hs
  obtain ⟨history, hok⟩ := fanoutOk_run hrun
  have hstream := hok.streams s hs
  have hwithin := (hstream.follows.le (Nat.zero_le _)).2
  have hsub := hstream.follows.sublist
  have hacc := hstream.follows.accounts
  rw [Nat.sub_zero, List.drop_zero] at hsub
  refine ⟨?_, hsub, by omega, ?_, ?_⟩
  · rwa [List.length_drop] at hwithin
  · intro hlost
    have heq := hstream.follows.values_eq hlost hwithin
    rwa [Nat.sub_zero, List.drop_zero] at heq
  · obtain ⟨owed, howed, hstage⟩ := hstream.owes
    obtain ⟨hlive, hkind⟩ := hok.kinds s hs
    refine ⟨owed, ?_, hstage⟩
    rw [← howed]
    refine payloads_all fun update hu => project_isSome ?_ hlive hkind
    have hmem : update ∈ f.announced.drop s.joined := List.mem_of_mem_take (hsub.subset hu)
    exact announced_lawful hlawful hrun update (List.mem_of_mem_drop hmem)

/-- What the C-chain announces carries no record, which asks nothing. -/
theorem lawful_C (a : Action) : Lawful .C a := by
  cases a with
  | announce update =>
      intro h
      cases h
  | _ => trivial

/-- What the P-chain announces of a verified block carries its whole record. -/
theorem lawful_P {sha256 : Bytes → Bytes32} {bytesValue jsonValue rewards : Value}
    {expectHeight : Option Nat} {fetched : FetchedBlock} {listening : Bool}
    {update : LiveUpdate}
    (hverified : verify J sha256 bytesValue jsonValue expectHeight = .ok fetched)
    (h : NevePlatformIngest.announce J listening fetched.json
      [fetched.json, fetched.bytesJson, J.toVec rewards] = some update) :
    Lawful .P (.announce update) := by
  obtain ⟨b, -, -, hfetched⟩ := verify_ok hverified
  rw [hfetched] at h
  simp only [NevePlatformIngest.announce] at h
  split at h
  · cases h
  · obtain ⟨block, -, rfl⟩ := Option.map_eq_some_iff.mp h
    intro _
    have hread := J.fromSlice_arrayText [jsonValue, bytesValue, rewards]
    exact Option.isSome_iff_exists.mpr ⟨_, hread⟩

theorem live_stream_exact_head :
    ∃ f, Run.exec (step JsonText.codec .C) (Fanout.new rings) (headOf (.object [])) = some f ∧
      f.subscribers.length = 1 ∧ ∀ s ∈ f.subscribers, LiveStream f.announced s := by
  obtain ⟨f, hrun, hlen⟩ : ∃ f, Run.exec (step JsonText.codec .C) (Fanout.new rings)
      (headOf (.object [])) = some f ∧ f.subscribers.length = 1 := ⟨_, rfl, rfl⟩
  exact ⟨f, hrun, hlen, live_stream_exact (fun a _ => lawful_C a) hrun⟩

end Streams

/-! ## Who lags -/

/-- How many announcements an attached subscriber has yet to receive. -/
def unread (f : Fanout) (s : Subscriber) : Nat :=
  f.announced.length - s.joined - (s.cursor - s.start)

/-- Subscriber `i` is not a whole ring behind when an update is announced, whatever becomes
    of the others. -/
def KeepsUp (i : Nat) (f : Fanout) : Action → Prop
  | .announce _ =>
      ∀ s, f.subscribers[i]? = some s → s.isAttached = true →
        unread f s < NeveMirror.LIVE_CHANNEL_CAP
  | _ => True

section Lag

variable {J : Codec} {chain : Chain} {broadcast : Broadcast LiveUpdate}
  {history : List LiveUpdate}

theorem FanoutOk.unread_eq {f : Fanout} (h : FanoutOk chain f history) {s : Subscriber}
    (hs : s ∈ f.subscribers) (hatt : s.isAttached = true) :
    s.cursor + unread f s = history.length := by
  have ha := h.attached s hs hatt
  have hstream := h.streams s hs
  have hlen := ha.length
  have hcursor := ha.cursor_le hstream
  have := hstream.start_le
  simp only [unread]
  omega

/-- What a waiting handler's next receive gives, in every reachable state: nothing
    when it has caught up, the next announcement within the capacity, and past
    that exactly the excess counted as lost. -/
theorem receive_spec {as : List Action} {f : Fanout}
    (hrun : Run.exec (step J chain) (Fanout.new broadcast) as = some f) {s : Subscriber}
    (hs : s ∈ f.subscribers) (hwaiting : s.stage = .waiting) :
    f.ring.recv s.cursor =
      if NeveMirror.LIVE_CHANNEL_CAP < unread f s then
        some (.lagged (unread f s - NeveMirror.LIVE_CHANNEL_CAP),
          s.cursor + (unread f s - NeveMirror.LIVE_CHANNEL_CAP))
      else (f.announced[s.joined + (s.cursor - s.start)]?).map
        fun update => (.value update, s.cursor + 1) := by
  obtain ⟨history, hok⟩ := fanoutOk_run hrun
  have hatt : s.isAttached = true := by
    simp only [Subscriber.isAttached, hwaiting]
  have ha := hok.attached s hs hatt
  have hstart := (hok.streams s hs).start_le
  have hunread := hok.unread_eq hs hatt
  by_cases hlag : NeveMirror.LIVE_CHANNEL_CAP < unread f s
  · have hlost : history.length - NeveMirror.LIVE_CHANNEL_CAP - s.cursor
        = unread f s - NeveMirror.LIVE_CHANNEL_CAP := by omega
    have hnext : history.length - NeveMirror.LIVE_CHANNEL_CAP
        = s.cursor + (unread f s - NeveMirror.LIVE_CHANNEL_CAP) := by omega
    rw [if_pos hlag, hok.keeps.recv_late (by rw [hok.cap]; omega), hok.cap, hlost, hnext]
  · have hsame : history[s.cursor]? = f.announced[s.joined + (s.cursor - s.start)]? := by
      rw [← List.getElem?_drop, ← ha.same, List.getElem?_drop, Nat.add_sub_cancel' hstart]
    rw [if_neg hlag, hok.keeps.recv_kept (by rw [hok.cap]; omega), hsame]

/-- Subscriber `i` has lost nothing and is no further behind than the ring is long. -/
def InReach (i : Nat) (f : Fanout) : Prop :=
  ∀ s, f.subscribers[i]? = some s → lost s.received = 0 ∧
    (s.isAttached = true → unread f s ≤ NeveMirror.LIVE_CHANNEL_CAP)

/-- A turn of the subscriber itself: it receives a value, being within the capacity. -/
theorem Turned.inReach {f : Fanout} {s s' : Subscriber} {t : Turn} {m : Metric}
    (h : FanoutOk chain f history) (hmem : s ∈ f.subscribers) (ht : Turned J f.ring s t s' m)
    (hlost : lost s.received = 0) (hbound : unread f s ≤ NeveMirror.LIVE_CHANNEL_CAP) :
    lost s'.received = 0 ∧
      (s'.isAttached = true → unread f s' ≤ NeveMirror.LIVE_CHANNEL_CAP) := by
  have hunread := h.unread_eq hmem ht.attached
  cases ht with
  | lagged hst hr =>
      obtain ⟨v, hv⟩ := recv_within h.keeps (by rw [h.cap]; omega) hr
      cases hv
  | skipped hst hr hp =>
      obtain ⟨-, rfl⟩ := recv_value h.keeps hr
      refine ⟨(lost_append ..).trans hlost, fun hatt => ?_⟩
      show f.announced.length - s.joined - (s.cursor + 1 - s.start) ≤ _
      simp only [unread] at hbound
      omega
  | taken hst hr hp =>
      obtain ⟨-, rfl⟩ := recv_value h.keeps hr
      refine ⟨(lost_append ..).trans hlost, fun hatt => ?_⟩
      show f.announced.length - s.joined - (s.cursor + 1 - s.start) ≤ _
      simp only [unread] at hbound
      omega
  | _ => exact ⟨hlost, fun _ => hbound⟩

theorem inReach_step {i : Nat} {f f' : Fanout} {a : Action} (h : FanoutOk chain f history)
    (hreach : InReach i f) (hup : KeepsUp i f a) (hstep : Stepped J chain f a f') :
    InReach i f' := by
  cases hstep with
  | announced update =>
      intro s hs
      refine ⟨(hreach s hs).1, ?_⟩
      intro hatt
      have hlt : unread f s < _ := hup s hs hatt
      simp only [unread, List.length_append, List.length_singleton] at hlt ⊢
      omega
  | aside req => exact hreach
  | joined req hlive hkind =>
      intro s (hs : (f.subscribers ++ [f.newcomer req.kind])[i]? = some s)
      rw [List.getElem?_append] at hs
      by_cases hi : i < f.subscribers.length
      · rw [if_pos hi] at hs
        exact hreach s hs
      · rw [if_neg hi] at hs
        rw [List.mem_singleton.mp (List.mem_of_getElem? hs)]
        refine ⟨rfl, ?_⟩
        intro _
        simp only [unread, Fanout.newcomer]
        omega
  | @turned j t s s' m hs ht =>
      intro x (hx : (f.subscribers.set j s')[i]? = some x)
      by_cases hij : j = i
      · rw [hij] at hs hx
        rw [List.getElem?_set_self (List.getElem?_eq_some_iff.mp hs).1] at hx
        rw [← Option.some.inj hx]
        obtain ⟨hlost, hwithin⟩ := hreach s hs
        have hnext : lost s'.received = 0 ∧
            (s'.isAttached = true → unread f s' ≤ NeveMirror.LIVE_CHANNEL_CAP) :=
          ht.inReach h (List.mem_of_getElem? hs) hlost (hwithin ht.attached)
        exact hnext
      · -- somebody else's turn
        rw [List.getElem?_set_ne hij] at hx
        exact hreach x hx

/-- A subscriber that is never a whole ring behind when an update is announced loses none,
    however far the others fall behind: what it has sent while it waits is one message for
    each announcement since it joined, up to where it stands. -/
theorem keepsUp_gapless {as : List Action} {f : Fanout} {i : Nat}
    (hlawful : ∀ a ∈ as, Lawful chain a)
    (hup : Run.Meets (step J chain) (KeepsUp i) (Fanout.new broadcast) as)
    (hrun : Run.exec (step J chain) (Fanout.new broadcast) as = some f) {s : Subscriber}
    (hs : f.subscribers[i]? = some s) (hwaiting : s.stage = .waiting) :
    s.delivered.map some
      = ((f.announced.drop s.joined).take (s.cursor - s.start)).map (project · s.kind) := by
  have hreach : (∃ history, FanoutOk chain f history) ∧ InReach i f := by
    refine @Run.exec_invariant _ _ (step J chain)
      (fun f => (∃ history, FanoutOk chain f history) ∧ InReach i f) (KeepsUp i) ?_
      as _ f ⟨⟨[], fanoutOk_new⟩, fun s hs => by cases hs⟩ hup hrun
    rintro f a f' ⟨⟨history, hok⟩, hreach⟩ hcond hstep
    exact ⟨hok.step (step_stepped hstep), inReach_step hok hreach hcond (step_stepped hstep)⟩
  have hstream := live_stream_exact hlawful hrun s (List.mem_of_getElem? hs)
  obtain ⟨owed, hmessages, howes⟩ := hstream.messages
  rw [hwaiting] at howes
  rw [show owed = [] from howes, List.append_nil] at hmessages
  rw [← hmessages, hstream.gapless (hreach.2 s hs).1]

/-- A second subscriber that accepts and never receives; the first gets both blocks. -/
def besideIdle (first second : Value) : List Action :=
  [.subscribe ⟨.NewHeads, none, none⟩, .turn 0 (.accept true),
    .subscribe ⟨.NewBlocks, none, none⟩, .turn 1 (.accept true),
    .announce ⟨first, none⟩, .turn 0 .receive, .turn 0 (.sent true),
    .announce ⟨second, none⟩, .turn 0 .receive, .turn 0 (.sent true)]

/-- The first subscriber is at most one block behind. -/
theorem besideIdle_keepsUp (first second : Value) :
    ∃ f s, Run.Through (step JsonText.codec .C) (KeepsUp 0) (Fanout.new rings)
        (besideIdle first second) f ∧ f.subscribers[0]? = some s ∧ s.stage = .waiting ∧
      s.delivered = [removeField "transactions" first, removeField "transactions" second] := by
  refine ⟨_, _, .cons _ trivial rfl (.cons _ trivial rfl (.cons _ trivial rfl (.cons _ trivial rfl
    (.cons _ ?_ rfl (.cons _ trivial rfl (.cons _ trivial rfl (.cons _ ?_ rfl
    (.cons _ trivial rfl (.cons _ trivial rfl (.nil _)))))))))), rfl, rfl, rfl⟩
  · intro s hs _
    rw [← Option.some.inj hs]
    show 0 < NeveMirror.LIVE_CHANNEL_CAP
    decide
  · intro s hs _
    rw [← Option.some.inj hs]
    show 0 < NeveMirror.LIVE_CHANNEL_CAP
    decide

theorem keepsUp_gapless_head :
    ∃ f s, Run.exec (step JsonText.codec .C) (Fanout.new rings)
        (besideIdle (.object []) .null) = some f ∧
      f.subscribers[0]? = some s ∧ s.delivered = [.object [], .null] ∧
      s.delivered.map some
        = ((f.announced.drop s.joined).take (s.cursor - s.start)).map (project · s.kind) := by
  obtain ⟨f, s, hthrough, hs, hwaiting, hsent⟩ := besideIdle_keepsUp (.object []) .null
  exact ⟨f, s, hthrough.exec, hs, hsent,
    keepsUp_gapless (fun a _ => lawful_C a) hthrough.meets hthrough.exec hs hwaiting⟩

end Lag

/-! ## The subscription metrics -/

/-- Does the handler hold the guard behind the open gauge? -/
def Subscriber.isOpen (s : Subscriber) : Bool :=
  match s.stage with
  | .waiting | .sending _ => true
  | _ => false

/-- The serialized size of everything a subscriber was sent. -/
def Subscriber.sentBytes (J : Codec) (s : Subscriber) : Nat :=
  (s.delivered.map fun payload => (J.toVec payload).length).sum

/-- The series of one kind read what its subscribers amount to. -/
structure Counted (J : Codec) (f : Fanout) (kind : SubKind) : Prop where
  subOpen : (f.metrics kind).subOpen
    = (f.subscribers.filter fun s => s.kind = kind ∧ s.isOpen = true).length
  laggedTotal : (f.metrics kind).laggedTotal
    = ((f.subscribers.filter fun s => s.kind = kind).map fun s => lost s.received).sum
  sentBytesTotal : (f.metrics kind).sentBytesTotal
    = ((f.subscribers.filter fun s => s.kind = kind).map (Subscriber.sentBytes J)).sum

/-- What a metric adds to each of the three series. -/
def Metric.opens : Metric → Int
  | .opened => 1
  | .closed => -1
  | _ => 0

def Metric.lags : Metric → Nat
  | .lagged n => n
  | _ => 0

def Metric.bytes : Metric → Nat
  | .sentBytes n => n
  | _ => 0

section Metrics

variable {J : Codec} {chain : Chain} {broadcast : Broadcast LiveUpdate}

theorem count_eq (c : SubMetrics) (m : Metric) :
    c.count m = ⟨c.subOpen + m.opens, c.laggedTotal + m.lags, c.sentBytesTotal + m.bytes⟩ := by
  cases m <;>
    simp only [SubMetrics.count, Metric.opens, Metric.lags, Metric.bytes, Int.add_zero,
      Nat.add_zero, Int.sub_eq_add_neg]

/-- A turn changes what its subscriber amounts to by what it reports. -/
theorem Turned.amounts {ring : Channel LiveUpdate} {s s' : Subscriber} {t : Turn} {m : Metric}
    (h : Turned J ring s t s' m) :
    (s'.isOpen.toNat : Int) = s.isOpen.toNat + m.opens ∧
    lost s'.received = lost s.received + m.lags ∧
    s'.sentBytes J = s.sentBytes J + m.bytes := by
  cases h with
  | lagged hst hr => exact ⟨rfl, lost_append .., rfl⟩
  | skipped hst hr hp => exact ⟨rfl, lost_append .., rfl⟩
  | taken hst hr hp =>
      refine ⟨?_, lost_append .., rfl⟩
      simp only [Subscriber.isOpen, hst]
      rfl
  | delivered hst =>
      refine ⟨?_, rfl, ?_⟩
      · simp only [Subscriber.isOpen, hst]
        rfl
      · simp only [Subscriber.sentBytes, List.map_append, List.sum_append]
        rfl
  | _ hst =>
      refine ⟨?_, rfl, rfl⟩
      simp only [Subscriber.isOpen, hst]
      rfl

/-- Replacing one subscriber changes a sum over its kind by what it changes. -/
theorem sum_set {M : Type} [AddCommMonoid M] (w : Subscriber → M) (kind : SubKind)
    {subs : List Subscriber} {i : Nat} {s s' : Subscriber} {d : M} (hs : subs[i]? = some s)
    (hkind : s'.kind = s.kind) (hd : w s' = w s + d) :
    (((subs.set i s').filter fun x => x.kind = kind).map w).sum
      = ((subs.filter fun x => x.kind = kind).map w).sum + if kind = s.kind then d else 0 := by
  induction subs generalizing i with
  | nil => cases hs
  | cons x rest ih =>
      cases i with
      | zero =>
          have hx : x = s := Option.some.inj hs
          rw [hx, List.set_cons_zero]
          by_cases hk : s.kind = kind
          · rw [List.filter_cons_of_pos (by simpa [hkind] using hk),
              List.filter_cons_of_pos (by simpa using hk), if_pos hk.symm, List.map_cons,
              List.map_cons, List.sum_cons, List.sum_cons, hd, add_assoc, add_assoc, add_comm d]
          · rw [List.filter_cons_of_neg (by simpa [hkind] using hk),
              List.filter_cons_of_neg (by simpa using hk), if_neg fun h => hk h.symm, add_zero]
      | succ i =>
          rw [List.set_cons_succ]
          by_cases hk : x.kind = kind
          · rw [List.filter_cons_of_pos (by simpa using hk),
              List.filter_cons_of_pos (by simpa using hk), List.map_cons, List.map_cons,
              List.sum_cons, List.sum_cons, ih hs, add_assoc]
          · rw [List.filter_cons_of_neg (by simpa using hk),
              List.filter_cons_of_neg (by simpa using hk), ih hs]

/-- The open handlers of a kind, counted one by one. -/
theorem openCount_eq (kind : SubKind) (subs : List Subscriber) :
    ((subs.filter fun s => s.kind = kind ∧ s.isOpen = true).length : Int)
      = ((subs.filter fun s => s.kind = kind).map fun s => (s.isOpen.toNat : Int)).sum := by
  induction subs with
  | nil => rfl
  | cons x rest ih =>
      simp only [Bool.decide_and, Bool.decide_eq_true] at ih ⊢
      by_cases hk : x.kind = kind
      · cases ho : x.isOpen with
        | true => simp [hk, ho, ih, add_comm]
        | false => simp [hk, ho, ih]
      · simp [hk, ih]

/-- A handler that has just subscribed counts for nothing. -/
theorem counted_newcomer {f : Fanout} (kind k : SubKind) (h : Counted J f k) :
    Counted J { f with subscribers := f.subscribers ++ [f.newcomer kind] } k := by
  have hopen : (f.newcomer kind).isOpen = false := rfl
  refine ⟨?_, ?_, ?_⟩
  · show (f.metrics k).subOpen = _
    rw [h.subOpen, List.filter_append, List.filter_cons_of_neg (by simp [hopen]),
      List.filter_nil, List.append_nil]
  · show (f.metrics k).laggedTotal = _
    rw [h.laggedTotal, List.filter_append, List.map_append, List.sum_append]
    by_cases hk : (f.newcomer kind).kind = k
    · rw [List.filter_cons_of_pos (by simpa using hk)]
      rfl
    · rw [List.filter_cons_of_neg (by simpa using hk)]
      rfl
  · show (f.metrics k).sentBytesTotal = _
    rw [h.sentBytesTotal, List.filter_append, List.map_append, List.sum_append]
    by_cases hk : (f.newcomer kind).kind = k
    · rw [List.filter_cons_of_pos (by simpa using hk)]
      rfl
    · rw [List.filter_cons_of_neg (by simpa using hk)]
      rfl

theorem counted_step {f f' : Fanout} {a : Action} (h : ∀ kind, Counted J f kind)
    (hstep : Stepped J chain f a f') : ∀ kind, Counted J f' kind := by
  intro k
  cases hstep with
  | announced update => exact ⟨(h k).subOpen, (h k).laggedTotal, (h k).sentBytesTotal⟩
  | aside req => exact h k
  | joined req hlive hkind => exact counted_newcomer req.kind k (h k)
  | @turned i t s s' m hs ht =>
      obtain ⟨hopen, hlost, hbytes⟩ := ht.amounts
      have hkind := ht.fixed.1
      have hmetrics : ({ f with subscribers := f.subscribers.set i s' }.record s.kind m).metrics k
          = if k = s.kind then (f.metrics s.kind).count m else f.metrics k :=
        Function.update_apply ..
      refine ⟨?_, ?_, ?_⟩
      · rw [hmetrics, openCount_eq]
        show _ = (((f.subscribers.set i s').filter _).map _).sum
        rw [sum_set (fun s => (s.isOpen.toNat : Int)) k hs hkind hopen, ← openCount_eq,
          ← (h k).subOpen]
        split
        · rename_i hk
          rw [count_eq, hk]
        · exact (Int.add_zero _).symm
      · rw [hmetrics]
        show _ = (((f.subscribers.set i s').filter _).map _).sum
        rw [sum_set (fun s => lost s.received) k hs hkind hlost, ← (h k).laggedTotal]
        split
        · rename_i hk
          rw [count_eq, hk]
        · rfl
      · rw [hmetrics]
        show _ = (((f.subscribers.set i s').filter _).map _).sum
        rw [sum_set (Subscriber.sentBytes J) k hs hkind hbytes, ← (h k).sentBytesTotal]
        split
        · rename_i hk
          rw [count_eq, hk]
        · rfl

/-- In every run, whichever way each handler is left, the open gauge of a kind is
    the number of its handlers that hold their guard, and the two counters are
    what its subscribers lost and the bytes they were sent. -/
theorem sub_metrics_balanced {as : List Action} {f : Fanout}
    (hrun : Run.exec (step J chain) (Fanout.new broadcast) as = some f) (kind : SubKind) :
    Counted J f kind := by
  have hall : ∀ kind, Counted J f kind := by
    refine @Run.exec_invariant_all _ _ (step J chain) (fun f => ∀ kind, Counted J f kind)
      ?_ as _ f ?_ hrun
    · intro f a f' h hstep
      exact counted_step h (step_stepped hstep)
    · intro kind
      exact ⟨rfl, rfl, rfl⟩
  exact hall kind

theorem sub_metrics_balanced_head :
    ∃ f, Run.exec (step JsonText.codec .C) (Fanout.new rings) (headOf (.object [])) = some f ∧
      f.metrics .NewHeads = ⟨1, 0, 2⟩ ∧ Counted JsonText.codec f .NewHeads := by
  obtain ⟨f, hrun, hread⟩ : ∃ f, Run.exec (step JsonText.codec .C) (Fanout.new rings)
      (headOf (.object [])) = some f ∧ f.metrics .NewHeads = ⟨1, 0, 2⟩ := ⟨_, rfl, rfl⟩
  exact ⟨f, hrun, hread, sub_metrics_balanced hrun .NewHeads⟩

end Metrics

end NeveSubscribe
