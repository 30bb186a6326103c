import Neve.EthBackfillProofs
import Neve.FrontierProofs
import Neve.JoinBufferProofs

/-! # A C-chain instance — bootstrap, live ingest and backfill over one store

    Two tasks share the store.  The ingest task streams history from a neve
    upstream when it mirrors one, then follows the tip, writing each block
    either at once or through the join buffer once its logs are there.  The
    backfill task measures, decides, and fills a bounded run of heights with
    several fetches in flight, then measures again.

    A run is any order of the steps of both tasks; an upstream reply, the
    outcome of a write and the age of the cached tip are part of the step.
    Besides the state of the program an instance keeps what the theorems speak
    about: the logs replies received and the iterations of the backfill loop
    that ended. -/

namespace NeveEthInstance

open JsonValue ByteText NeveRecord NeveStorage NeveEthIngest NeveEthBackfill
open NeveJoinBuffer NeveFrontier

/-! ## State -/

/-- Which of its sleeps a loop took. -/
inductive Sleep where
  | coldStart
  | poll
  | caughtUp
  | backoff
  deriving DecidableEq, Repr

/-- An iteration of a fill loop that ended: the store's contiguous height when it
    began and when it ended, and the sleep it contained. -/
structure Iteration where
  before : Nat
  after : Nat
  sleep : Option Sleep
  deriving DecidableEq, Repr

/-- Where the backfill task is in its loop. -/
inductive Phase where
  | top
  | highWater (hw : Nat)
  | contiguous (hw rawContiguous : Nat)
  | loading (next stop target : Nat)
  | filling (next stop target cursor : Nat) (fetched : List (Nat × Option Fetched))

/-- Where the ingest task is. -/
inductive Task where
  | bootstrap
  | streaming (target : Nat)
  | live
  | awaitingLogs (height : Nat)

/-- A logs reply received from upstream: what was asked and the `result`. -/
inductive LogsReply where
  | getLogs (fromBlock toBlock : Nat) (result : Value)
  | receipts (height : Nat) (result : Value)

structure Instance where
  storage : Storage
  pending : PendingMap
  task : Task
  phase : Phase
  tip : TipCache
  logs : LogWindow
  behindTip : Nat
  before : Nat
  iterations : List Iteration
  replies : List LogsReply

def Instance.start (cfg : IngestCfg) (storage : Storage) : Instance where
  storage := storage
  pending := ∅
  task := if cfg.subscribeBlocks then .bootstrap else .live
  phase := .top
  tip := TipCache.new
  logs := LogWindow.empty
  behindTip := 0
  before := 0
  iterations := []
  replies := []

/-! ## Frames of the websocket -/

/-- An event of the websocket session. -/
inductive WsEvent where
  | Subscribed
  | NewHead (height : Nat) (hash : String)
  | NewBlock (height : Nat) (hash : String) (block : Value)

/-- Identify a frame as an ack, a header, a whole block, or none of our business. -/
def classifyFrame (v : Value) : Option WsEvent :=
  if (v.get "result").isSome ∧ (v.get "id").isSome ∧ (v.get "method").isNone then
    some .Subscribed
  else if (v.get "method").bind Value.asStr ≠ some "eth_subscription" then none
  else do
    let head ← (v.get "params").bind (·.get "result")
    let height ← (head.get "number").bind quantity
    let hash ← (head.get "hash").bind Value.asStr
    some (if (head.get "transactions").isSome then .NewBlock height hash head
      else .NewHead height hash)

/-- The height an event names. -/
def WsEvent.height : WsEvent → Option Nat
  | .Subscribed => none
  | .NewHead height _ => some height
  | .NewBlock height _ _ => some height

/-- The block a live frame leads to: the one it carries, or the body fetched for
    its header. -/
def liveBlock (v : Value) (body : Option Value) : Option (Nat × String × Value) :=
  match classifyFrame v with
  | some (.NewBlock height hash block) => some (height, hash, block)
  | some (.NewHead height hash) => (fetchRpc body).map fun block => (height, hash, block)
  | _ => none

/-! ## Steps of the ingest task -/

/-- What the ingest task meets next.  A bootstrap frame of `none` is a stream
    that ended or went idle. -/
inductive IngestAction where
  | target (health : Option UInt64)
  | oldBlock (frame : Option Value) (fault : Fault)
  | frame (frame : Value) (body : Option Value) (now : Nat) (fault : Fault)
  | logs (result : Option Value) (now : Nat) (fault : Fault)

section Steps

variable (J : Codec) (cfg : IngestCfg)

/-- One frame of the `oldBlocks` stream: write the block with an empty logs half
    and stop at the target. -/
def bootstrapFrame (i : Instance) (target : Nat) (v : Value) (fault : Fault) : Instance :=
  match classifyFrame v with
  | some (.NewBlock height _ block) =>
      match persistBackfilled J i.storage fault height block EMPTY_ARRAY with
      | (.error _, s) => { i with storage := s, task := .live }
      | (.ok (), s) =>
          { i with
            storage := s
            task := if target ≤ height then .live else .streaming target }
  | _ => i

/-- A live block with log ingestion on: buffer it, and unless the buffer deferred
    it or the write failed go on to fetch its logs. -/
def bufferBlock (i : Instance) (height : Nat) (now : Nat) (fault : Fault)
    (p : PreparedBlock) : Instance :=
  let out := onBlock cfg.joinBufferCap i.pending now height p.hash p.txHashes p.bytes
  match apply i.storage fault height out.1 with
  | (.error _, s) => { i with storage := s, pending := out.2 }
  | (.ok .Deferred, s) => { i with storage := s, pending := out.2 }
  | (.ok _, s) => { i with storage := s, pending := out.2, task := .awaitingLogs height }

/-- The reply to the logs request of one height. -/
def LogsReply.ofHeight (source : LogsSource) (height : Nat) (result : Value) : LogsReply :=
  match source with
  | .Receipts => .receipts height result
  | .GetLogs => .getLogs height height result

/-- The logs of a live block arrived. -/
def bufferLogs (i : Instance) (height : Nat) (now : Nat) (fault : Fault)
    (logs : Value) : Instance :=
  let out := onLogs cfg.joinBufferCap i.pending now height (J.toVec logs)
  { i with
    storage := (apply i.storage fault height out.1).2
    pending := out.2
    task := .live }

def ingestStep (i : Instance) : IngestAction → Option Instance
  | .target health =>
      match i.task with
      | .bootstrap =>
          match health with
          | none => some { i with task := .live }
          | some target =>
              if target.toNat < bootstrapFrom i.storage.maxContiguousHeight cfg.floor then
                some { i with task := .live }
              else some { i with task := .streaming target.toNat }
      | _ => none
  | .oldBlock frame fault =>
      match i.task with
      | .streaming target =>
          match frame with
          | none => some { i with task := .live }
          | some v => some (bootstrapFrame J i target v fault)
      | _ => none
  | .frame v body now fault =>
      match i.task with
      | .live =>
          match liveBlock v body with
          | none => some i
          | some (height, hash, block) =>
              if cfg.ingestLogs then
                match prepareBlock J hash block with
                | none => some i
                | some p => some (bufferBlock cfg i height now fault p)
              else
                some { i with storage := (persistBlock J i.storage fault height hash block).2 }
      | _ => none
  | .logs result now fault =>
      match i.task with
      | .awaitingLogs height =>
          match fetchLogsForHeight cfg.logsSource result with
          | none => some { i with task := .live }
          | some logs =>
              let reply := (result.map (LogsReply.ofHeight cfg.logsSource height)).toList
              some (bufferLogs J cfg { i with replies := reply ++ i.replies }
                height now fault logs)
      | _ => none

/-! ## Steps of the backfill task -/

/-- What the backfill task meets next. -/
inductive BackfillAction where
  | readHighWater
  | readContiguous
  | readTip (aged : Bool) (response : Option Value)
  | loadRange (result : Option Value)
  | fetch (height : Nat) (block receipts : Option Value)
  | nextFetched (fault : Fault)

/-- Mirror mode: the loop waits until the bootstrap is over. -/
def Instance.bootstrapping (i : Instance) : Bool :=
  match i.task with
  | .bootstrap => true
  | .streaming _ => true
  | _ => false

/-- Back to the top of the loop, after a sleep or without one. -/
def Instance.endIteration (i : Instance) (sleep : Option Sleep) : Instance :=
  { i with
    phase := .top
    iterations := ⟨i.before, i.storage.maxContiguousHeight, sleep⟩ :: i.iterations }

/-- Go on with the run at `cursor`; past its end the run is complete. -/
def Instance.fillFrom (i : Instance) (next stop target cursor : Nat)
    (fetched : List (Nat × Option Fetched)) : Instance :=
  if stop < cursor then i.endIteration none
  else { i with phase := .filling next stop target cursor fetched }

/-- Act on the decision of one pass. -/
def Instance.decide (i : Instance) : Measure → Instance
  | .coldStart => i.endIteration (some .coldStart)
  | .caughtUp => { i with behindTip := 0 }.endIteration (some .caughtUp)
  | .fill next stop target =>
      let i := { i with behindTip := target - (next - 1) }
      if cfg.windowed then { i with phase := .loading next stop target }
      else i.fillFrom next stop target next []

/-- Consume the outcome of the height at the cursor. -/
def consume (i : Instance) (next stop target cursor : Nat)
    (fetched : List (Nat × Option Fetched)) (fault : Fault) : Option Fetched → Instance
  | none => i.endIteration (some .backoff)
  | some .Skip => i.fillFrom next stop target (cursor + 1) fetched
  | some (.Block height block logs) =>
      match persistBackfilled J i.storage fault height block
          (logsHalf J cfg i.logs height logs).1 with
      | (.error _, s) => { i with storage := s }.endIteration (some .backoff)
      | (.ok (), s) =>
          { i with storage := s, behindTip := target - height }.fillFrom
            next stop target (cursor + 1) fetched

/-- The receipts reply of a fetch, when it asks for one: the slot is not filled
    yet, and logs come with each height. -/
def receiptsReply (s : Storage) (height : Nat) (receipts : Option Value) : List LogsReply :=
  match s.getByHeight J height with
  | .ok (some _) => []
  | _ =>
      if cfg.perHeightLogs then ((fetchRpc receipts).map (LogsReply.receipts height)).toList
      else []

/-- The tip a pass goes by: the cached one while there is work below it anyway,
    a fresh one before caught-up is declared. -/
def readTip (tip : TipCache) (hw rawContiguous : Nat) (aged : Bool)
    (response : Option Value) : TipCache :=
  let contiguous := max rawContiguous (cfg.floor.getD 0 - 1)
  let known := max hw tip.height
  if contiguous < known then tip.get aged response else tip.getUncached response

def backfillStep (i : Instance) : BackfillAction → Option Instance
  | .readHighWater =>
      match i.phase with
      | .top =>
          if i.bootstrapping then none
          else
            let hw := i.storage.highWater
            let i := { i with before := i.storage.maxContiguousHeight }
            if hw = 0 ∧ cfg.floor.isNone then some (i.endIteration (some .coldStart))
            else some { i with phase := .highWater hw }
      | _ => none
  | .readContiguous =>
      match i.phase with
      | .highWater hw =>
          some { i with phase := .contiguous hw i.storage.maxContiguousHeight }
      | _ => none
  | .readTip aged response =>
      match i.phase with
      | .contiguous hw rawContiguous =>
          let tip := readTip cfg i.tip hw rawContiguous aged response
          some ({ i with tip := tip }.decide cfg
            (measure hw rawContiguous tip.height cfg.floor))
      | _ => none
  | .loadRange result =>
      match i.phase with
      | .loading next stop target =>
          match fetchRpc result with
          | none => some (i.endIteration (some .backoff))
          | some logs =>
              some ({ i with
                logs := LogWindow.load logs
                replies := .getLogs next stop logs :: i.replies }.fillFrom
                  next stop target next [])
      | _ => none
  | .fetch height block receipts =>
      match i.phase with
      | .filling next stop target cursor fetched =>
          -- `buffered` keeps this many heights from the cursor on in flight
          if cursor ≤ height ∧ height ≤ stop ∧
              height < cursor + max 1 cfg.fetchConcurrency ∧
              fetched.lookup height = none then
            some { i with
              phase := .filling next stop target cursor
                ((height, fetchOne J cfg i.storage height block receipts) :: fetched)
              replies := receiptsReply J cfg i.storage height receipts ++ i.replies }
          else none
      | _ => none
  | .nextFetched fault =>
      match i.phase with
      | .filling next stop target cursor fetched =>
          (fetched.lookup cursor).map
            (consume J cfg i next stop target cursor fetched fault)
      | _ => none

/-- A step of either task. -/
inductive Action where
  | ingest (a : IngestAction)
  | backfill (a : BackfillAction)

def step (i : Instance) : Action → Option Instance
  | .ingest a => ingestStep J cfg i a
  | .backfill a => backfillStep J cfg i a

end Steps

/-! ## Every way a step can go -/

/-- Everything a step of the ingest task can do. -/
inductive IngestTurn (J : Codec) (cfg : IngestCfg) (i : Instance) :
    IngestAction → Instance → Prop
  | untold (htask : i.task = .bootstrap) :
      IngestTurn J cfg i (.target none) { i with task := .live }
  | reached (target : UInt64) (htask : i.task = .bootstrap)
      (hreached : target.toNat < bootstrapFrom i.storage.maxContiguousHeight cfg.floor) :
      IngestTurn J cfg i (.target (some target)) { i with task := .live }
  | behind (target : UInt64) (htask : i.task = .bootstrap)
      (hbehind : ¬ target.toNat < bootstrapFrom i.storage.maxContiguousHeight cfg.floor) :
      IngestTurn J cfg i (.target (some target)) { i with task := .streaming target.toNat }
  | ended (target : Nat) (fault : Fault) (htask : i.task = .streaming target) :
      IngestTurn J cfg i (.oldBlock none fault) { i with task := .live }
  | streamed (target : Nat) (v : Value) (fault : Fault) (htask : i.task = .streaming target) :
      IngestTurn J cfg i (.oldBlock (some v) fault) (bootstrapFrame J i target v fault)
  | ignored (v : Value) (body : Option Value) (now : Nat) (fault : Fault)
      (htask : i.task = .live) (hlive : liveBlock v body = none) :
      IngestTurn J cfg i (.frame v body now fault) i
  | unprepared (v : Value) (body : Option Value) (now : Nat) (fault : Fault) (height : Nat)
      (hash : String) (block : Value) (htask : i.task = .live)
      (hlive : liveBlock v body = some (height, hash, block)) (hlogs : cfg.ingestLogs = true)
      (hprepared : prepareBlock J hash block = none) :
      IngestTurn J cfg i (.frame v body now fault) i
  | buffered (v : Value) (body : Option Value) (now : Nat) (fault : Fault) (height : Nat)
      (hash : String) (block : Value) (p : PreparedBlock) (htask : i.task = .live)
      (hlive : liveBlock v body = some (height, hash, block)) (hlogs : cfg.ingestLogs = true)
      (hprepared : prepareBlock J hash block = some p) :
      IngestTurn J cfg i (.frame v body now fault) (bufferBlock cfg i height now fault p)
  | persisted (v : Value) (body : Option Value) (now : Nat) (fault : Fault) (height : Nat)
      (hash : String) (block : Value) (htask : i.task = .live)
      (hlive : liveBlock v body = some (height, hash, block)) (hlogs : ¬ cfg.ingestLogs = true) :
      IngestTurn J cfg i (.frame v body now fault) { i with
        storage := (persistBlock J i.storage fault height hash block).2
        task := .live }
  | unanswered (result : Option Value) (now : Nat) (fault : Fault) (height : Nat)
      (htask : i.task = .awaitingLogs height)
      (hlogs : fetchLogsForHeight cfg.logsSource result = none) :
      IngestTurn J cfg i (.logs result now fault) { i with task := .live }
  | joined (result : Option Value) (now : Nat) (fault : Fault) (height : Nat) (logs : Value)
      (htask : i.task = .awaitingLogs height)
      (hlogs : fetchLogsForHeight cfg.logsSource result = some logs) :
      IngestTurn J cfg i (.logs result now fault)
        (bufferLogs J cfg { i with
          replies := (result.map (LogsReply.ofHeight cfg.logsSource height)).toList
            ++ i.replies } height now fault logs)

/-- Everything a step of the backfill task can do. -/
inductive BackfillTurn (J : Codec) (cfg : IngestCfg) (i : Instance) :
    BackfillAction → Instance → Prop
  | cold (hphase : i.phase = .top) (hboot : ¬ i.bootstrapping = true)
      (hcold : i.storage.highWater = 0 ∧ cfg.floor.isNone = true) :
      BackfillTurn J cfg i .readHighWater
        ({ i with before := i.storage.maxContiguousHeight }.endIteration (some .coldStart))
  | highWater (hphase : i.phase = .top) (hboot : ¬ i.bootstrapping = true)
      (hwarm : ¬ (i.storage.highWater = 0 ∧ cfg.floor.isNone = true)) :
      BackfillTurn J cfg i .readHighWater { i with
        before := i.storage.maxContiguousHeight
        phase := .highWater i.storage.highWater }
  | contiguous (hw : Nat) (hphase : i.phase = .highWater hw) :
      BackfillTurn J cfg i .readContiguous
        { i with phase := .contiguous hw i.storage.maxContiguousHeight }
  | decided (aged : Bool) (response : Option Value) (hw rawContiguous : Nat) (tip : TipCache)
      (hphase : i.phase = .contiguous hw rawContiguous)
      (htip : readTip cfg i.tip hw rawContiguous aged response = tip) :
      BackfillTurn J cfg i (.readTip aged response)
        ({ i with tip := tip }.decide cfg (measure hw rawContiguous tip.height cfg.floor))
  | unanswered (result : Option Value) (next stop target : Nat)
      (hphase : i.phase = .loading next stop target) (hlogs : fetchRpc result = none) :
      BackfillTurn J cfg i (.loadRange result) (i.endIteration (some .backoff))
  | loaded (result : Option Value) (logs : Value) (next stop target : Nat)
      (hphase : i.phase = .loading next stop target) (hlogs : fetchRpc result = some logs) :
      BackfillTurn J cfg i (.loadRange result)
        ({ i with
          logs := LogWindow.load logs
          replies := .getLogs next stop logs :: i.replies }.fillFrom next stop target next [])
  | fetched (height : Nat) (block receipts : Option Value) (next stop target cursor : Nat)
      (outcomes : List (Nat × Option Fetched))
      (hphase : i.phase = .filling next stop target cursor outcomes)
      (hcursor : cursor ≤ height) (hstop : height ≤ stop)
      (hahead : height < cursor + max 1 cfg.fetchConcurrency)
      (hnew : outcomes.lookup height = none) :
      BackfillTurn J cfg i (.fetch height block receipts) { i with
        phase := .filling next stop target cursor
          ((height, fetchOne J cfg i.storage height block receipts) :: outcomes)
        replies := receiptsReply J cfg i.storage height receipts ++ i.replies }
  | consumed (fault : Fault) (next stop target cursor : Nat)
      (outcomes : List (Nat × Option Fetched)) (outcome : Option Fetched)
      (hphase : i.phase = .filling next stop target cursor outcomes)
      (hlookup : outcomes.lookup cursor = some outcome) :
      BackfillTurn J cfg i (.nextFetched fault)
        (consume J cfg i next stop target cursor outcomes fault outcome)

section Turns

variable {J : Codec} {cfg : IngestCfg} {i i' : Instance}

theorem ingestStep_turn {a : IngestAction} (h : ingestStep J cfg i a = some i') :
    IngestTurn J cfg i a i' := by
  cases a with
  | target health =>
      cases htask : i.task with
      | bootstrap =>
          simp only [ingestStep, htask] at h
          cases health with
          | none =>
              obtain rfl := Option.some.inj h
              exact .untold htask
          | some target =>
              dsimp only at h
              by_cases hreached : target.toNat
                  < bootstrapFrom i.storage.maxContiguousHeight cfg.floor
              · rw [if_pos hreached] at h
                obtain rfl := Option.some.inj h
                exact .reached target htask hreached
              · rw [if_neg hreached] at h
                obtain rfl := Option.some.inj h
                exact .behind target htask hreached
      | _ =>
          simp only [ingestStep, htask] at h
          cases h
  | oldBlock frame fault =>
      cases htask : i.task with
      | streaming target =>
          simp only [ingestStep, htask] at h
          cases frame with
          | none =>
              obtain rfl := Option.some.inj h
              exact .ended target fault htask
          | some v =>
              obtain rfl := Option.some.inj h
              exact .streamed target v fault htask
      | _ =>
          simp only [ingestStep, htask] at h
          cases h
  | frame v body now fault =>
      cases htask : i.task with
      | live =>
          simp only [ingestStep, htask] at h
          cases hlive : liveBlock v body with
          | none =>
              rw [hlive] at h
              obtain rfl := Option.some.inj h
              exact .ignored v body now fault htask hlive
          | some found =>
              obtain ⟨height, hash, block⟩ := found
              rw [hlive] at h
              dsimp only at h
              by_cases hlogs : cfg.ingestLogs = true
              · rw [if_pos hlogs] at h
                cases hp : prepareBlock J hash block with
                | none =>
                    rw [hp] at h
                    obtain rfl := Option.some.inj h
                    exact .unprepared v body now fault height hash block htask hlive hlogs hp
                | some p =>
                    rw [hp] at h
                    obtain rfl := Option.some.inj h
                    exact .buffered v body now fault height hash block p htask hlive hlogs hp
              · rw [if_neg hlogs] at h
                obtain rfl := Option.some.inj h
                exact .persisted v body now fault height hash block htask hlive hlogs
      | _ =>
          simp only [ingestStep, htask] at h
          cases h
  | logs result now fault =>
      cases htask : i.task with
      | awaitingLogs height =>
          simp only [ingestStep, htask] at h
          cases hlogs : fetchLogsForHeight cfg.logsSource result with
          | none =>
              rw [hlogs] at h
              obtain rfl := Option.some.inj h
              exact .unanswered result now fault height htask hlogs
          | some logs =>
              rw [hlogs] at h
              obtain rfl := Option.some.inj h
              exact .joined result now fault height logs htask hlogs
      | _ =>
          simp only [ingestStep, htask] at h
          cases h

theorem backfillStep_turn {a : BackfillAction} (h : backfillStep J cfg i a = some i') :
    BackfillTurn J cfg i a i' := by
  cases a with
  | readHighWater =>
      cases hphase : i.phase with
      | top =>
          simp only [backfillStep, hphase] at h
          by_cases hboot : i.bootstrapping = true
          · rw [if_pos hboot] at h
            cases h
          rw [if_neg hboot] at h
          by_cases hcold : i.storage.highWater = 0 ∧ cfg.floor.isNone = true
          · rw [if_pos hcold] at h
            obtain rfl := Option.some.inj h
            exact .cold hphase hboot hcold
          · rw [if_neg hcold] at h
            obtain rfl := Option.some.inj h
            exact .highWater hphase hboot hcold
      | _ =>
          simp only [backfillStep, hphase] at h
          cases h
  | readContiguous =>
      cases hphase : i.phase with
      | highWater hw =>
          simp only [backfillStep, hphase] at h
          obtain rfl := Option.some.inj h
          exact .contiguous hw hphase
      | _ =>
          simp only [backfillStep, hphase] at h
          cases h
  | readTip aged response =>
      cases hphase : i.phase with
      | contiguous hw rawContiguous =>
          simp only [backfillStep, hphase] at h
          obtain rfl := Option.some.inj h
          exact .decided aged response hw rawContiguous _ hphase rfl
      | _ =>
          simp only [backfillStep, hphase] at h
          cases h
  | loadRange result =>
      cases hphase : i.phase with
      | loading next stop target =>
          simp only [backfillStep, hphase] at h
          cases hlogs : fetchRpc result with
          | none =>
              rw [hlogs] at h
              obtain rfl := Option.some.inj h
              exact .unanswered result next stop target hphase hlogs
          | some logs =>
              rw [hlogs] at h
              obtain rfl := Option.some.inj h
              exact .loaded result logs next stop target hphase hlogs
      | _ =>
          simp only [backfillStep, hphase] at h
          cases h
  | fetch height block receipts =>
      cases hphase : i.phase with
      | filling next stop target cursor outcomes =>
          simp only [backfillStep, hphase] at h
          by_cases hready : cursor ≤ height ∧ height ≤ stop
              ∧ height < cursor + max 1 cfg.fetchConcurrency ∧ outcomes.lookup height = none
          · rw [if_pos hready] at h
            obtain rfl := Option.some.inj h
            obtain ⟨hcursor, hstop, hahead, hnew⟩ := hready
            exact .fetched height block receipts next stop target cursor outcomes hphase hcursor
              hstop hahead hnew
          · rw [if_neg hready] at h
            cases h
      | _ =>
          simp only [backfillStep, hphase] at h
          cases h
  | nextFetched fault =>
      cases hphase : i.phase with
      | filling next stop target cursor outcomes =>
          simp only [backfillStep, hphase] at h
          obtain ⟨outcome, hlookup, rfl⟩ := Option.map_eq_some_iff.mp h
          exact .consumed fault next stop target cursor outcomes outcome hphase hlookup
      | _ =>
          simp only [backfillStep, hphase] at h
          cases h

end Turns

/-! ## What a step of the ingest task touches -/

/-- The height a step of the ingest task may write. -/
def writeHeight (i : Instance) : IngestAction → Option Nat
  | .target _ => none
  | .oldBlock frame _ => (frame.bind classifyFrame).bind WsEvent.height
  | .frame v _ _ _ => (classifyFrame v).bind WsEvent.height
  | .logs .. =>
      match i.task with
      | .awaitingLogs height => some height
      | _ => none

section Effects

variable {J : Codec} {cfg : IngestCfg} {i i' : Instance}

theorem classifyFrame_height_lt {v : Value} {height : Nat}
    (h : (classifyFrame v).bind WsEvent.height = some height) : height < 2 ^ 64 := by
  obtain ⟨event, hevent, hheight⟩ := Option.bind_eq_some_iff.mp h
  simp only [classifyFrame] at hevent
  split at hevent
  · rw [← Option.some.inj hevent] at hheight
    cases hheight
  split at hevent
  · cases hevent
  obtain ⟨head, -, hevent⟩ := Option.bind_eq_some_iff.mp hevent
  obtain ⟨number, hnumber, hevent⟩ := Option.bind_eq_some_iff.mp hevent
  obtain ⟨hash, -, hevent⟩ := Option.bind_eq_some_iff.mp hevent
  obtain ⟨quant, -, hquant⟩ := Option.bind_eq_some_iff.mp hnumber
  rw [← Option.some.inj hevent] at hheight
  have heq : number = height := by
    split at hheight <;> exact Option.some.inj hheight
  rw [← heq]
  exact quantity_lt hquant

/-- A height that the ingest task writes has 64 bits. -/
theorem writeHeight_lt {a : IngestAction} {height : Nat}
    (htask : ∀ k, i.task = .awaitingLogs k → k < 2 ^ 64) (h : writeHeight i a = some height) :
    height < 2 ^ 64 := by
  cases a with
  | target health => cases h
  | oldBlock frame fault =>
      cases frame with
      | none => cases h
      | some v => exact classifyFrame_height_lt h
  | frame v body now fault => exact classifyFrame_height_lt h
  | logs result now fault =>
      simp only [writeHeight] at h
      split at h
      · rename_i k hk
        rw [← Option.some.inj h]
        exact htask k hk
      · cases h

theorem liveBlock_height {v : Value} {body : Option Value} {height : Nat} {hash : String}
    {block : Value} (h : liveBlock v body = some (height, hash, block)) :
    (classifyFrame v).bind WsEvent.height = some height := by
  simp only [liveBlock] at h
  split at h
  · rename_i hc
    rw [hc]
    simp only [Option.some.injEq, Prod.mk.injEq] at h
    rw [← h.1]
    rfl
  · rename_i hc
    rw [hc]
    obtain ⟨b, -, hb⟩ := Option.map_eq_some_iff.mp h
    simp only [Prod.mk.injEq] at hb
    rw [← hb.1]
    rfl
  · cases h

theorem apply_wrote (s : Storage) (fault : Fault) (height : Nat) (act : WriteAct) :
    Wrote height s (apply s fault height act).2 := by
  cases act with
  | write hash txHashes blockBytes logs first since =>
      refine Or.inr ⟨fault, hash, txHashes, [blockBytes, logs], ?_⟩
      simp only [apply]
      split
      · rename_i heq
        rw [heq]
      · rename_i heq
        rw [heq]
  | buffered => exact Or.inl rfl
  | deferred => exact Or.inl rfl

/-- What a step of the ingest task leaves alone, and what it may write. -/
structure IngestEffect (i : Instance) (a : IngestAction) (i' : Instance) : Prop where
  phase : i'.phase = i.phase
  before : i'.before = i.before
  iterations : i'.iterations = i.iterations
  tip : i'.tip = i.tip
  logs : i'.logs = i.logs
  storage : i'.storage = i.storage ∨
    ∃ height, writeHeight i a = some height ∧ Wrote height i.storage i'.storage
  task : ∀ height, i'.task = .awaitingLogs height →
    i.task = .awaitingLogs height ∨ writeHeight i a = some height

theorem bootstrapFrame_effect (i : Instance) (target : Nat) (v : Value) (fault : Fault) :
    IngestEffect i (.oldBlock (some v) fault) (bootstrapFrame J i target v fault) := by
  simp only [bootstrapFrame]
  split
  · rename_i height hash block hc
    have hheight : writeHeight i (.oldBlock (some v) fault) = some height := by
      simp [writeHeight, hc, WsEvent.height]
    have hwrote := persistBackfilled_wrote J i.storage fault height block EMPTY_ARRAY
    split
    · rename_i e s heq
      rw [heq] at hwrote
      exact ⟨rfl, rfl, rfl, rfl, rfl, Or.inr ⟨height, hheight, hwrote⟩,
        fun _ h => nomatch h⟩
    · rename_i s heq
      rw [heq] at hwrote
      refine ⟨rfl, rfl, rfl, rfl, rfl, Or.inr ⟨height, hheight, hwrote⟩, ?_⟩
      intro k hk
      dsimp only at hk
      split at hk <;> cases hk
  · exact ⟨rfl, rfl, rfl, rfl, rfl, Or.inl rfl, fun _ h => Or.inl h⟩

theorem bufferBlock_effect {v : Value} {body : Option Value} {now height : Nat}
    {fault : Fault} (p : PreparedBlock)
    (hheight : (classifyFrame v).bind WsEvent.height = some height) :
    IngestEffect i (.frame v body now fault) (bufferBlock cfg i height now fault p) := by
  have hwrote := apply_wrote i.storage fault height
    (onBlock cfg.joinBufferCap i.pending now height p.hash p.txHashes p.bytes).1
  simp only [bufferBlock]
  split
  · rename_i heq
    rw [heq] at hwrote
    exact ⟨rfl, rfl, rfl, rfl, rfl, Or.inr ⟨height, hheight, hwrote⟩, fun _ h => Or.inl h⟩
  · rename_i heq
    rw [heq] at hwrote
    exact ⟨rfl, rfl, rfl, rfl, rfl, Or.inr ⟨height, hheight, hwrote⟩, fun _ h => Or.inl h⟩
  · rename_i heq
    rw [heq] at hwrote
    refine ⟨rfl, rfl, rfl, rfl, rfl, Or.inr ⟨height, hheight, hwrote⟩, ?_⟩
    intro k hk
    rw [← Task.awaitingLogs.inj hk]
    exact Or.inr hheight

/-- **The spec of a step of the ingest task**, as far as the backfill loop can
    tell: at most one put, at the height the step names. -/
theorem ingestStep_effect {a : IngestAction} (h : ingestStep J cfg i a = some i') :
    IngestEffect i a i' := by
  cases ingestStep_turn h with
  | untold htask => exact ⟨rfl, rfl, rfl, rfl, rfl, Or.inl rfl, fun _ h => nomatch h⟩
  | reached target htask _ => exact ⟨rfl, rfl, rfl, rfl, rfl, Or.inl rfl, fun _ h => nomatch h⟩
  | behind target htask _ => exact ⟨rfl, rfl, rfl, rfl, rfl, Or.inl rfl, fun _ h => nomatch h⟩
  | ended target fault htask => exact ⟨rfl, rfl, rfl, rfl, rfl, Or.inl rfl,
    fun _ h => nomatch h⟩
  | streamed target v fault htask => exact bootstrapFrame_effect i target v fault
  | ignored v body now fault htask hlive =>
      exact ⟨rfl, rfl, rfl, rfl, rfl, Or.inl rfl, fun _ h => Or.inl h⟩
  | unprepared v body now fault height hash block htask hlive hlogs hp =>
      exact ⟨rfl, rfl, rfl, rfl, rfl, Or.inl rfl, fun _ h => Or.inl h⟩
  | buffered v body now fault height hash block p htask hlive hlogs hp =>
      exact bufferBlock_effect p (liveBlock_height hlive)
  | persisted v body now fault height hash block htask hlive hlogs =>
      exact ⟨rfl, rfl, rfl, rfl, rfl,
        Or.inr ⟨height, liveBlock_height hlive,
          persistBlock_wrote J i.storage fault height hash block⟩,
        fun _ h => nomatch h⟩
  | unanswered result now fault height htask hlogs =>
      exact ⟨rfl, rfl, rfl, rfl, rfl, Or.inl rfl, fun _ h => nomatch h⟩
  | joined result now fault height logs htask hlogs =>
      have hheight : writeHeight i (.logs result now fault) = some height := by
        simp [writeHeight, htask]
      exact ⟨rfl, rfl, rfl, rfl, rfl,
        Or.inr ⟨height, hheight, apply_wrote i.storage fault height _⟩, fun _ h => nomatch h⟩

end Effects

end NeveEthInstance
