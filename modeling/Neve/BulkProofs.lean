import Neve.RangeReplayProofs

/-! # Bulk export — `GET /blocks`

    A request names a range in its query string; the handler reads the minimum
    height and the contiguous tip, at two moments, decides, and streams one block
    per line: two frames a height, the block and the newline it owes.  A client
    that always asks for the height after the last line it got pages through the
    store while the store grows. -/

namespace NeveBulk

open JsonValue ByteText FirstGap NeveRecord NeveStorage NeveStorageMap NeveFrontier
open NeveRangeReplay (LawfulStore LawfulPut Deliverable Close has_of_le_maxContiguous
  firstHole_pos saturatingAdd_one)

/-! ## The query string -/

/-- A block height as decimal or `0x`-prefixed hex. -/
def parseHeight (s : List Char) : Except String Nat :=
  match s with
  | '0' :: 'x' :: hex =>
      match u64FromRadix16 hex with
      | none => .error s!"invalid hex height: {String.ofList s}"
      | some h => .ok h
  | '0' :: 'X' :: hex =>
      match u64FromRadix16 hex with
      | none => .error s!"invalid hex height: {String.ofList s}"
      | some h => .ok h
  | _ =>
      match parseDecimal (2 ^ 64) s with
      | none => .error s!"invalid height: {String.ofList s}"
      | some h => .ok h

/-- A chain by its short name, in either case. -/
def parseChain (s : List Char) : Except String Chain :=
  if s.map Char.toLower = Chain.C.asStr.toList then .ok .C
  else if s.map Char.toLower = Chain.P.asStr.toList then .ok .P
  else .error s!"unknown chain: {String.ofList s}"

/-- A parsed query; what is absent has its default. -/
structure Range where
  fromHeight : Nat
  toHeight : Option Nat
  chain : Option Chain
  deriving DecidableEq

/-- What the pairs read so far have set. -/
structure RangeParts where
  fromHeight : Option Nat
  toHeight : Option Nat
  chain : Option Chain

/-- The text before and after the first `=`. -/
def splitOnce (pair : List Char) : Option (List Char × List Char) :=
  match pair.span (· ≠ '=') with
  | (key, _ :: value) => some (key, value)
  | (_, []) => none

/-- One `key=value` pair; a later one of the same key wins, other keys are
    ignored. -/
def parsePair (parts : RangeParts) (pair : List Char) : Except String RangeParts :=
  match splitOnce pair with
  | none => .ok parts
  | some (key, value) =>
      if key = "from".toList then
        (parseHeight value).map fun h => { parts with fromHeight := some h }
      else if key = "to".toList then
        (parseHeight value).map fun h => { parts with toHeight := some h }
      else if key = "chain".toList then
        (parseChain value).map fun c => { parts with chain := some c }
      else .ok parts

def parseRange (query : List Char) : Except String Range := do
  let parts ← (query.splitOn '&').foldlM parsePair ⟨none, none, none⟩
  match parts.fromHeight with
  | none => .error "missing 'from' query parameter"
  | some f => .ok ⟨f, parts.toHeight, parts.chain⟩

/-! ## The handler -/

/-- The chains running here, and the largest range one request may ask for. -/
structure Service where
  chains : List Chain
  maxBlocks : Nat

/-- The chain an unqualified request means: the C-chain when it is running, else
    the first one. -/
def Service.defaultChain (svc : Service) : Option Chain :=
  (svc.chains.find? (· = .C)).or svc.chains.head?

/-- The running chain a request selects. -/
def Service.get (svc : Service) (chain : Option Chain) : Option Chain := do
  let want ← chain.or svc.defaultChain
  svc.chains.find? (· = want)

inductive Phase where
  | readMin
  | readContiguous
  | block
  | newline
  | refused (status : Nat) (message : String)
  | ended (cause : Close)

/-- The handler's locals, and the frames it has yielded. -/
structure Handler where
  phase : Phase
  chain : Chain
  range : Range
  min : Nat
  contiguous : Nat
  height : Nat
  stop : Nat
  frames : List Bytes

def BAD_REQUEST : Nat := 400
def RANGE_NOT_SATISFIABLE : Nat := 416
def OK : Nat := 200

/-- A handler that answers with an error, and no block data. -/
def refusing (status : Nat) (message : String) : Handler :=
  ⟨.refused status message, .C, ⟨0, none, none⟩, 0, 0, 0, 0, []⟩

/-- A request that has just arrived. -/
def Handler.start (svc : Service) (query : List Char) : Handler :=
  match parseRange query with
  | .error message => refusing BAD_REQUEST message
  | .ok range =>
      match svc.get range.chain with
      | none =>
          let name := (range.chain.map Chain.asStr).getD "<none>"
          refusing BAD_REQUEST s!"chain {name} is not being mirrored by this instance"
      | some chain => ⟨.readMin, chain, range, 0, 0, 0, 0, []⟩

/-- The last height asked for: the requested end, or a full window from the start,
    clamped to the contiguous tip. -/
def windowEnd (maxBlocks : Nat) (range : Range) (contiguous : Nat) :
    Except (Nat × String) Nat :=
  match range.toHeight with
  | some t =>
      if t < range.fromHeight then
        .error (BAD_REQUEST, s!"'to' ({t}) is before 'from' ({range.fromHeight})")
      else if contiguous < t then
        .error (RANGE_NOT_SATISFIABLE, s!"'to' {t} past the contiguous tip {contiguous}")
      else .ok t
  | none => .ok (min (saturatingAdd range.fromHeight (maxBlocks - 1)) contiguous)

/-- The last height to serve, or the error to answer with. -/
def decideWindow (maxBlocks : Nat) (range : Range) (lowest contiguous : Nat) :
    Except (Nat × String) Nat :=
  if range.fromHeight < lowest ∨ contiguous < range.fromHeight then
    .error (RANGE_NOT_SATISFIABLE,
      s!"'from' {range.fromHeight} outside available [{lowest}..={contiguous}]")
  else match windowEnd maxBlocks range contiguous with
    | .error e => .error e
    | .ok stop =>
        let count := saturatingAdd (stop - range.fromHeight) 1
        if maxBlocks < count then
          .error (BAD_REQUEST, s!"requested {count} blocks; max {maxBlocks} per request")
        else .ok stop

/-- The line end every block owes. -/
def newlineByte : UInt8 := 10

section Handler

variable (J : Codec)

/-- The handler's next read or frame, on the store as it is at that moment. -/
def handlerStep (maxBlocks : Nat) (s : Storage) (hd : Handler) : Handler :=
  match hd.phase with
  | .readMin => { hd with phase := .readContiguous, min := s.minHeight }
  | .readContiguous =>
      let contiguous := s.maxContiguousHeight
      match decideWindow maxBlocks hd.range hd.min contiguous with
      | .error (status, message) =>
          { hd with phase := .refused status message, contiguous := contiguous }
      | .ok stop =>
          { hd with
            phase := .block
            contiguous := contiguous
            height := hd.range.fromHeight
            stop := stop }
  | .block =>
      if hd.stop < hd.height then { hd with phase := .ended .caughtUp }
      else match s.getByHeight J hd.height with
        | .error _ => { hd with phase := .ended .unreadable }
        | .ok none => { hd with phase := .ended .missing }
        | .ok (some bytes) => { hd with phase := .newline, frames := hd.frames ++ [bytes] }
  | .newline =>
      { hd with
        phase := .block
        height := saturatingAdd hd.height 1
        frames := hd.frames ++ [[newlineByte]] }
  | .refused _ _ => hd
  | .ended _ => hd

end Handler

namespace Handler

/-- The status of a response whose handler has decided. -/
def status (hd : Handler) : Nat :=
  match hd.phase with
  | .refused status _ => status
  | _ => OK

/-- The block data a response carries. -/
def body (hd : Handler) : Bytes := hd.frames.flatten

end Handler

def Phase.decided : Phase → Bool
  | .readMin => false
  | .readContiguous => false
  | _ => true

def Phase.accepted : Phase → Bool
  | .block => true
  | .newline => true
  | .ended _ => true
  | _ => false

theorem Phase.decided_of_accepted {p : Phase} (h : p.accepted = true) : p.decided = true := by
  cases p with
  | readMin => cases h
  | readContiguous => cases h
  | _ => rfl

def Phase.finished : Phase → Bool
  | .refused _ _ => true
  | .ended _ => true
  | _ => false

/-! ## Interleavings -/

structure System where
  storage : Chain → Storage
  handler : Handler

/-- The handler's next turn, or some other task's put on one of the chains. -/
inductive Action where
  | handler
  | put (chain : Chain) (p : Put)

def System.start (svc : Service) (storage : Chain → Storage) (query : List Char) : System :=
  ⟨storage, Handler.start svc query⟩

def step (J : Codec) (svc : Service) (sys : System) : Action → Option System
  | .handler =>
      some { sys with
        handler := handlerStep J svc.maxBlocks (sys.storage sys.handler.chain) sys.handler }
  | .put chain p =>
      some { sys with
        storage := Function.update sys.storage chain
          ((sys.storage chain).put p.fault p.height p.hash p.txHashes p.elements).2 }

def ActionOk (lawful : Put → Prop) : Action → Prop
  | .handler => True
  | .put _ p => lawful p

def Action.isHandler : Action → Bool
  | .handler => true
  | .put _ _ => false

/-! ## What the window decision does -/

/-- What a window that is served looks like. -/
structure Window (maxBlocks : Nat) (range : Range) (lowest contiguous stop : Nat) : Prop where
  lowest_le : lowest ≤ range.fromHeight
  le_stop : range.fromHeight ≤ stop
  stop_le : stop ≤ contiguous
  count_le : stop - range.fromHeight + 1 ≤ maxBlocks
  stop_eq : stop = range.toHeight.getD (min (range.fromHeight + maxBlocks - 1) contiguous)

theorem windowEnd_eq_ok {maxBlocks : Nat} {range : Range} {contiguous stop : Nat}
    (h : windowEnd maxBlocks range contiguous = .ok stop) :
    stop ≤ contiguous ∧
    (∀ t, range.toHeight = some t → stop = t ∧ range.fromHeight ≤ t) ∧
      (range.toHeight = none →
        stop = min (saturatingAdd range.fromHeight (maxBlocks - 1)) contiguous) := by
  simp only [windowEnd] at h
  cases ht : range.toHeight with
  | none =>
      rw [ht] at h
      have hstop := Except.ok.inj h
      refine ⟨by omega, fun t hs => (by cases hs), fun _ => hstop.symm⟩
  | some t =>
      rw [ht] at h
      dsimp only at h
      by_cases hlt : t < range.fromHeight
      · rw [if_pos hlt] at h
        cases h
      rw [if_neg hlt] at h
      by_cases hgt : contiguous < t
      · rw [if_pos hgt] at h
        cases h
      rw [if_neg hgt] at h
      have hstop := Except.ok.inj h
      refine ⟨by omega, ?_, fun hs => (by cases hs)⟩
      intro t' hs
      have := Option.some.inj hs
      omega

/-- **What a served window is.** The arithmetic saturates nowhere, heights being
    below the last one there is. -/
theorem window_of_decideWindow {maxBlocks : Nat} {range : Range}
    {lowest contiguous stop : Nat} (hbound : contiguous < u64Max)
    (h : decideWindow maxBlocks range lowest contiguous = .ok stop) :
    Window maxBlocks range lowest contiguous stop := by
  simp only [decideWindow] at h
  by_cases hout : range.fromHeight < lowest ∨ contiguous < range.fromHeight
  · rw [if_pos hout] at h
    cases h
  rw [if_neg hout] at h
  cases hend : windowEnd maxBlocks range contiguous with
  | error e => rw [hend] at h; cases h
  | ok stop' =>
      rw [hend] at h
      dsimp only at h
      by_cases hcount : maxBlocks < saturatingAdd (stop' - range.fromHeight) 1
      · rw [if_pos hcount] at h
        cases h
      rw [if_neg hcount] at h
      obtain rfl := Except.ok.inj h
      obtain ⟨hle, hsome, hnone⟩ := windowEnd_eq_ok hend
      have hcount' : stop' - range.fromHeight + 1 ≤ maxBlocks := by
        rw [saturatingAdd_one (by omega)] at hcount
        omega
      cases ht : range.toHeight with
      | some t =>
          obtain ⟨rfl, hft⟩ := hsome t ht
          exact ⟨by omega, hft, hle, hcount', by rw [ht]; rfl⟩
      | none =>
          have hstop := hnone ht
          simp only [saturatingAdd] at hstop
          refine ⟨by omega, by omega, hle, hcount', ?_⟩
          rw [ht, Option.getD_none]
          omega

/-- And every such window is served. -/
theorem decideWindow_of_window {maxBlocks : Nat} {range : Range}
    {lowest contiguous stop : Nat} (hbound : contiguous < u64Max)
    (h : Window maxBlocks range lowest contiguous stop) :
    decideWindow maxBlocks range lowest contiguous = .ok stop := by
  obtain ⟨hlo, hle, htip, hcount, hstop⟩ := h
  have hend : windowEnd maxBlocks range contiguous = .ok stop := by
    simp only [windowEnd]
    cases ht : range.toHeight with
    | some t =>
        rw [ht, Option.getD_some] at hstop
        dsimp only
        rw [if_neg (by omega), if_neg (by omega), hstop]
    | none =>
        rw [ht, Option.getD_none] at hstop
        dsimp only
        refine congrArg Except.ok ?_
        simp only [saturatingAdd]
        omega
  have hfits : ¬ maxBlocks < saturatingAdd (stop - range.fromHeight) 1 := by
    rw [saturatingAdd_one (by omega)]
    omega
  simp only [decideWindow]
  rw [if_neg (by omega), hend]
  dsimp only
  rw [if_neg hfits]

/-- Every refusal is one of the two. -/
theorem status_of_decideWindow {maxBlocks : Nat} {range : Range} {lowest contiguous : Nat}
    {status : Nat} {message : String}
    (h : decideWindow maxBlocks range lowest contiguous = .error (status, message)) :
    status = BAD_REQUEST ∨ status = RANGE_NOT_SATISFIABLE := by
  simp only [decideWindow] at h
  by_cases hout : range.fromHeight < lowest ∨ contiguous < range.fromHeight
  · rw [if_pos hout] at h
    exact Or.inr (Prod.mk.inj (Except.error.inj h)).1.symm
  rw [if_neg hout] at h
  cases hend : windowEnd maxBlocks range contiguous with
  | ok stop =>
      rw [hend] at h
      dsimp only at h
      by_cases hcount : maxBlocks < saturatingAdd (stop - range.fromHeight) 1
      · rw [if_pos hcount] at h
        exact Or.inl (Prod.mk.inj (Except.error.inj h)).1.symm
      · rw [if_neg hcount] at h
        cases h
  | error e =>
      rw [hend] at h
      obtain rfl := Except.error.inj h
      simp only [windowEnd] at hend
      cases ht : range.toHeight with
      | none => rw [ht] at hend; cases hend
      | some t =>
          rw [ht] at hend
          dsimp only at hend
          by_cases hlt : t < range.fromHeight
          · rw [if_pos hlt] at hend
            exact Or.inl (Prod.mk.inj (Except.error.inj hend)).1.symm
          rw [if_neg hlt] at hend
          by_cases hgt : contiguous < t
          · rw [if_pos hgt] at hend
            exact Or.inr (Prod.mk.inj (Except.error.inj hend)).1.symm
          · rw [if_neg hgt] at hend
            cases hend

/-! ## One turn -/

/-- Everything one turn of the handler can do. -/
inductive Turn (J : Codec) (maxBlocks : Nat) (s : Storage) (hd : Handler) :
    Handler → Prop where
  | min : hd.phase = .readMin →
      Turn J maxBlocks s hd { hd with phase := .readContiguous, min := s.minHeight }
  | refuse (status : Nat) (message : String) : hd.phase = .readContiguous →
      decideWindow maxBlocks hd.range hd.min s.maxContiguousHeight = .error (status, message) →
      Turn J maxBlocks s hd { hd with
        phase := .refused status message
        contiguous := s.maxContiguousHeight }
  | accept (stop : Nat) : hd.phase = .readContiguous →
      decideWindow maxBlocks hd.range hd.min s.maxContiguousHeight = .ok stop →
      Turn J maxBlocks s hd { hd with
        phase := .block
        contiguous := s.maxContiguousHeight
        height := hd.range.fromHeight
        stop := stop }
  | caughtUp : hd.phase = .block → hd.stop < hd.height →
      Turn J maxBlocks s hd { hd with phase := .ended .caughtUp }
  | unreadable (reason : String) : hd.phase = .block → hd.height ≤ hd.stop →
      s.getByHeight J hd.height = .error reason →
      Turn J maxBlocks s hd { hd with phase := .ended .unreadable }
  | missing : hd.phase = .block → hd.height ≤ hd.stop →
      s.getByHeight J hd.height = .ok none →
      Turn J maxBlocks s hd { hd with phase := .ended .missing }
  | block (bytes : Bytes) : hd.phase = .block → hd.height ≤ hd.stop →
      s.getByHeight J hd.height = .ok (some bytes) →
      Turn J maxBlocks s hd { hd with phase := .newline, frames := hd.frames ++ [bytes] }
  | newline : hd.phase = .newline →
      Turn J maxBlocks s hd { hd with
        phase := .block
        height := saturatingAdd hd.height 1
        frames := hd.frames ++ [[newlineByte]] }
  | refused (status : Nat) (message : String) : hd.phase = .refused status message →
      Turn J maxBlocks s hd hd
  | ended (cause : Close) : hd.phase = .ended cause → Turn J maxBlocks s hd hd

/-- **The spec of a turn.** -/
theorem handlerStep_turn (J : Codec) (maxBlocks : Nat) (s : Storage) (hd : Handler) :
    Turn J maxBlocks s hd (handlerStep J maxBlocks s hd) := by
  simp only [handlerStep]
  cases hp : hd.phase with
  | readMin => exact .min hp
  | readContiguous =>
      dsimp only
      cases hd' : decideWindow maxBlocks hd.range hd.min s.maxContiguousHeight with
      | error e => exact .refuse e.1 e.2 hp hd'
      | ok stop => exact .accept stop hp hd'
  | block =>
      dsimp only
      by_cases hlt : hd.stop < hd.height
      · rw [if_pos hlt]
        exact .caughtUp hp hlt
      · rw [if_neg hlt]
        cases hr : s.getByHeight J hd.height with
        | error e => exact .unreadable e hp (Nat.le_of_not_lt hlt) hr
        | ok found =>
            cases found with
            | none => exact .missing hp (Nat.le_of_not_lt hlt) hr
            | some bytes => exact .block bytes hp (Nat.le_of_not_lt hlt) hr
  | newline => exact .newline hp
  | refused status message => exact .refused status message hp
  | ended cause => exact .ended cause hp

/-! ## Frames and lines -/

/-- The frames of whole lines: each block and the newline after it. -/
def framesOf (lines : List Bytes) : List Bytes :=
  lines.flatMap fun line => [line, [newlineByte]]

theorem framesOf_append (lines : List Bytes) (line : Bytes) :
    framesOf (lines ++ [line]) = framesOf lines ++ [line] ++ [[newlineByte]] := by
  simp only [framesOf, List.flatMap_append, List.flatMap_cons, List.flatMap_nil,
    List.append_nil, List.append_assoc, List.cons_append, List.nil_append]

theorem framesOf_length (lines : List Bytes) : (framesOf lines).length = 2 * lines.length := by
  induction lines with
  | nil => rfl
  | cons line rest ih =>
      show (framesOf rest).length + 1 + 1 = 2 * (rest.length + 1)
      omega

/-- Line `j` is frame `2 j`. -/
theorem getElem_framesOf (lines : List Bytes) (j : Nat) :
    (framesOf lines)[2 * j]? = lines[j]? := by
  induction lines generalizing j with
  | nil => rfl
  | cons line rest ih =>
      cases j with
      | zero => rfl
      | succ j =>
          show (line :: [newlineByte] :: framesOf rest)[2 * j + 1 + 1]? = _
          rw [List.getElem?_cons_succ, List.getElem?_cons_succ, ih, List.getElem?_cons_succ]

/-- The text of lines, each ended. -/
def textOf (lines : List Bytes) : Bytes := lines.flatMap (· ++ [newlineByte])

theorem flatten_framesOf (lines : List Bytes) : (framesOf lines).flatten = textOf lines := by
  induction lines with
  | nil => rfl
  | cons line rest ih =>
      show line ++ ([newlineByte] ++ (framesOf rest).flatten)
        = line ++ [newlineByte] ++ textOf rest
      rw [ih, List.append_assoc]

/-! ## The serving invariant -/

/-- What the stores a handler meets must guarantee for it to go through. -/
structure Discipline (J : Codec) (maxBlocks : Nat) (range : Range) (lawful : Put → Prop)
    (Valid : Handler → Storage → Prop) (Servable : Nat → Storage → Prop) : Prop where
  valid_put : ∀ hd s p, Valid hd s → lawful p →
    Valid hd (s.put p.fault p.height p.hash p.txHashes p.elements).2
  valid_min : ∀ hd s, Valid hd s → hd.phase = .readMin →
    Valid { hd with phase := .readContiguous, min := s.minHeight } s
  accept : ∀ hd s stop, Valid hd s → hd.phase = .readContiguous →
    decideWindow maxBlocks range hd.min s.maxContiguousHeight = .ok stop →
    s.maxContiguousHeight < u64Max ∧ Servable stop s
  servable_put : ∀ stop s p, Servable stop s → lawful p →
    Servable stop (s.put p.fault p.height p.hash p.txHashes p.elements).2
  servable_read : ∀ stop s h, Servable stop s → range.fromHeight ≤ h → h ≤ stop →
    Deliverable J .oldBlocks s h

/-- The invariant of an export that never meets a height it cannot deliver. -/
def Serving (range : Range) (Valid : Handler → Storage → Prop)
    (Servable : Nat → Storage → Prop) (hd : Handler) (s : Storage) : Prop :=
  match hd.phase with
  | .readMin => Valid hd s ∧ hd.frames = []
  | .readContiguous => Valid hd s ∧ hd.frames = []
  | .block => Servable hd.stop s ∧ ∃ lines, hd.frames = framesOf lines ∧
      hd.height = range.fromHeight + lines.length ∧ hd.height ≤ hd.stop + 1
  | .newline => Servable hd.stop s ∧ ∃ lines line, hd.frames = framesOf lines ++ [line] ∧
      hd.height = range.fromHeight + lines.length ∧ hd.height ≤ hd.stop ∧ hd.height < u64Max
  | .refused _ _ => hd.frames = []
  | .ended cause => cause = .caughtUp ∧ ∃ lines, hd.frames = framesOf lines ∧
      range.fromHeight + lines.length = hd.stop + 1

/-- What the handler decided on, once it has: the floor and the tip it read. -/
def Decided (maxBlocks floor : Nat) (hd : Handler) : Prop :=
  match hd.phase with
  | .readMin => True
  | .readContiguous => hd.min = floor
  | .refused status message =>
      decideWindow maxBlocks hd.range floor hd.contiguous = .error (status, message)
  | _ => decideWindow maxBlocks hd.range floor hd.contiguous = .ok hd.stop

section Serve

variable {J : Codec} {maxBlocks : Nat} {range : Range} {lawful : Put → Prop}
  {Valid : Handler → Storage → Prop} {Servable : Nat → Storage → Prop}

theorem Decided.handler {floor : Nat} {hd : Handler} {s : Storage}
    (hfloor : s.minHeight = floor) (h : Decided maxBlocks floor hd) :
    Decided maxBlocks floor (handlerStep J maxBlocks s hd) := by
  have hturn := handlerStep_turn J maxBlocks s hd
  generalize handlerStep J maxBlocks s hd = hd' at hturn
  cases hturn with
  | min _ => exact hfloor
  | refuse status message hp hdec =>
      simp only [Decided, hp] at h
      rw [h] at hdec
      exact hdec
  | accept stop hp hdec =>
      simp only [Decided, hp] at h
      rw [h] at hdec
      exact hdec
  | caughtUp hp _ => simp only [Decided, hp] at h; exact h
  | unreadable _ hp _ _ => simp only [Decided, hp] at h; exact h
  | missing hp _ _ => simp only [Decided, hp] at h; exact h
  | block _ hp _ _ => simp only [Decided, hp] at h; exact h
  | newline hp => simp only [Decided, hp] at h; exact h
  | refused _ _ _ => exact h
  | ended _ _ => exact h

theorem Decided.accepted {floor : Nat} {hd : Handler} (h : Decided maxBlocks floor hd)
    (hacc : hd.phase.accepted = true) :
    decideWindow maxBlocks hd.range floor hd.contiguous = .ok hd.stop := by
  simp only [Decided] at h
  cases hp : hd.phase with
  | readMin => rw [hp] at hacc; cases hacc
  | readContiguous => rw [hp] at hacc; cases hacc
  | refused status message => rw [hp] at hacc; cases hacc
  | _ => rw [hp] at h; exact h

/-- A read at the next height of a servable range finds the record. -/
theorem Serving.reads (D : Discipline J maxBlocks range lawful Valid Servable) {hd : Handler}
    {s : Storage} (hp : hd.phase = .block) (h : Serving range Valid Servable hd s)
    (hle : hd.height ≤ hd.stop) : ∃ msg, s.getByHeight J hd.height = .ok (some msg) := by
  simp only [Serving, hp] at h
  obtain ⟨hs, lines, -, hheight, -⟩ := h
  obtain ⟨-, msg, hread, -⟩ := D.servable_read hd.stop s hd.height hs (by omega) hle
  exact ⟨msg, hread⟩

/-- The handler's own step. -/
theorem Serving.handler (D : Discipline J maxBlocks range lawful Valid Servable)
    {hd : Handler} {s : Storage} (hrange : hd.range = range)
    (h : Serving range Valid Servable hd s) :
    Serving range Valid Servable (handlerStep J maxBlocks s hd) s := by
  have hturn := handlerStep_turn J maxBlocks s hd
  generalize handlerStep J maxBlocks s hd = hd' at hturn
  cases hturn with
  | min hp =>
      simp only [Serving, hp] at h
      exact ⟨D.valid_min hd s h.1 hp, h.2⟩
  | refuse status message hp _ =>
      simp only [Serving, hp] at h
      exact h.2
  | accept stop hp hwin =>
      simp only [Serving, hp] at h
      rw [hrange] at hwin
      -- accepted: an empty body, and a window at or above the first height
      obtain ⟨hbound, hs⟩ := D.accept hd s stop h.1 hp hwin
      have hw := window_of_decideWindow hbound hwin
      refine ⟨hs, [], h.2, by rw [hrange]; rfl, ?_⟩
      show hd.range.fromHeight ≤ stop + 1
      rw [hrange]
      have := hw.le_stop
      omega
  | caughtUp hp hlt =>
      simp only [Serving, hp] at h
      obtain ⟨-, lines, hframes, hheight, hle⟩ := h
      exact ⟨rfl, lines, hframes, by dsimp only; omega⟩
  | unreadable reason hp hle hread =>
      obtain ⟨msg, hread'⟩ := h.reads D hp hle
      rw [hread] at hread'
      cases hread'
  | missing hp hle hread =>
      obtain ⟨msg, hread'⟩ := h.reads D hp hle
      rw [hread] at hread'
      cases hread'
  | block bytes hp hle _ =>
      simp only [Serving, hp] at h
      -- the line is sent, its newline is not: the cursor waits
      obtain ⟨hs, lines, hframes, hheight, -⟩ := h
      obtain ⟨hlt, -⟩ := D.servable_read hd.stop s hd.height hs (by omega) hle
      exact ⟨hs, lines, bytes, by rw [hframes], hheight, hle, hlt⟩
  | newline hp =>
      simp only [Serving, hp] at h
      obtain ⟨hs, lines, line, hframes, hheight, hle, hlt⟩ := h
      -- the newline closes the line and moves the cursor
      refine ⟨hs, lines ++ [line], ?_, ?_, ?_⟩
      · rw [hframes, framesOf_append]
      · show saturatingAdd hd.height 1 = _
        rw [saturatingAdd_one hlt, List.length_append, List.length_singleton]
        omega
      · show saturatingAdd hd.height 1 ≤ hd.stop + 1
        rw [saturatingAdd_one hlt]
        omega
  | refused _ _ _ => exact h
  | ended _ _ => exact h

/-- A lawful put beside the handler. -/
theorem Serving.put (D : Discipline J maxBlocks range lawful Valid Servable) {hd : Handler}
    {s : Storage} {p : Put} (h : Serving range Valid Servable hd s) (hp : lawful p) :
    Serving range Valid Servable hd
      (s.put p.fault p.height p.hash p.txHashes p.elements).2 := by
  simp only [Serving] at h ⊢
  cases hphase : hd.phase with
  | readMin =>
      rw [hphase] at h
      exact ⟨D.valid_put hd s p h.1 hp, h.2⟩
  | readContiguous =>
      rw [hphase] at h
      exact ⟨D.valid_put hd s p h.1 hp, h.2⟩
  | block =>
      rw [hphase] at h
      exact ⟨D.servable_put hd.stop s p h.1 hp, h.2⟩
  | newline =>
      rw [hphase] at h
      exact ⟨D.servable_put hd.stop s p h.1 hp, h.2⟩
  | refused status message =>
      rw [hphase] at h
      exact h
  | ended cause =>
      rw [hphase] at h
      exact h

/-- A turn changes neither the range nor the chain. -/
theorem handlerStep_request (s : Storage) (hd : Handler) :
    (handlerStep J maxBlocks s hd).range = hd.range ∧
      (handlerStep J maxBlocks s hd).chain = hd.chain := by
  have hturn := handlerStep_turn J maxBlocks s hd
  generalize handlerStep J maxBlocks s hd = hd' at hturn
  cases hturn <;> exact ⟨rfl, rfl⟩

/-- A request on its chain: the invariant over whole runs. -/
structure Request (chain : Chain) (range : Range) (Valid : Handler → Storage → Prop)
    (Servable : Nat → Storage → Prop) (sys : System) : Prop where
  chain_eq : sys.handler.chain = chain
  range_eq : sys.handler.range = range
  serving : Serving range Valid Servable sys.handler (sys.storage chain)

/-- **The run lemma.** -/
theorem Request.run {svc : Service} {chain : Chain}
    (D : Discipline J svc.maxBlocks range lawful Valid Servable) {as : List Action}
    {sys sys' : System} (h : Request chain range Valid Servable sys)
    (hlawful : ∀ a ∈ as, ActionOk lawful a) (hrun : Run.exec (step J svc) sys as = some sys') :
    Request chain range Valid Servable sys' := by
  have hstep : ∀ sys1 a sys2, Request chain range Valid Servable sys1 → ActionOk lawful a →
      step J svc sys1 a = some sys2 → Request chain range Valid Servable sys2 := by
    rintro sys1 a sys2 ⟨hchain, hrange, hserve⟩ hok heq
    cases a with
    | handler =>
        obtain ⟨hr, hc⟩ := @handlerStep_request J svc.maxBlocks
          (sys1.storage sys1.handler.chain) sys1.handler
        rw [← Option.some.inj heq]
        refine ⟨hc.trans hchain, hr.trans hrange, ?_⟩
        dsimp only
        rw [hchain]
        exact hserve.handler D hrange
    | put c p =>
        rw [← Option.some.inj heq]
        refine ⟨hchain, hrange, ?_⟩
        dsimp only
        by_cases hc : chain = c
        · subst hc
          rw [Function.update_self]
          exact hserve.put D hok
        · rw [Function.update_of_ne hc]
          exact hserve
  exact Run.exec_invariant (fun _ a => ActionOk lawful a) hstep h
    (Run.meets_of_forall hlawful sys) hrun

end Serve

/-! ## Stores beside the handler -/

section Stores

variable {J : Codec} {R : RawReader J} {svc : Service}

/-- Whatever a put preserves on a chain's store, a run does. -/
theorem storage_run {P : Storage → Prop} (lawful : Put → Prop)
    (hput : ∀ s p, P s → lawful p → P (s.put p.fault p.height p.hash p.txHashes p.elements).2)
    {chain : Chain} {as : List Action} {sys sys' : System} (h : P (sys.storage chain))
    (hlawful : ∀ a ∈ as, ActionOk lawful a) (hrun : Run.exec (step J svc) sys as = some sys') :
    P (sys'.storage chain) := by
  have hstep : ∀ (sys1 : System) (a : Action) (sys2 : System), P (sys1.storage chain) →
      ActionOk lawful a → step J svc sys1 a = some sys2 → P (sys2.storage chain) := by
    intro sys1 a sys2 h1 hok heq
    cases a with
    | handler =>
        rw [← Option.some.inj heq]
        exact h1
    | put c p =>
        rw [← Option.some.inj heq]
        dsimp only
        by_cases hc : chain = c
        · subst hc
          rw [Function.update_self]
          exact hput _ p h1 hok
        · rw [Function.update_of_ne hc]
          exact h1
  exact Run.exec_invariant (fun _ a => ActionOk lawful a) hstep h
    (Run.meets_of_forall hlawful sys) hrun

theorem storage_grows (J : Codec) (svc : Service) {as : List Action} {sys sys' : System}
    (chain : Chain) (hrun : Run.exec (step J svc) sys as = some sys') :
    Grows (sys.storage chain) (sys'.storage chain) := by
  refine storage_run (fun _ => True) ?_ (Grows.refl _) ?_ hrun
  · intro s p h _
    exact h.trans (put_grows s _ _ _ _ _)
  · intro a _
    cases a with
    | handler => exact trivial
    | put c p => exact trivial

end Stores

/-! ## Moments -/

section Moments

variable {J : Codec} {svc : Service}

/-- A turn adds at most one frame: the block stored at the cursor, or a newline. -/
theorem handlerStep_frames (maxBlocks : Nat) (s : Storage) (hd : Handler) :
    (handlerStep J maxBlocks s hd).frames = hd.frames ∨
      (hd.phase = .block ∧ ∃ bytes, s.getByHeight J hd.height = .ok (some bytes) ∧
        (handlerStep J maxBlocks s hd).frames = hd.frames ++ [bytes]) ∨
      (hd.phase = .newline ∧
        (handlerStep J maxBlocks s hd).frames = hd.frames ++ [[newlineByte]]) := by
  have hturn := handlerStep_turn J maxBlocks s hd
  generalize handlerStep J maxBlocks s hd = hd' at hturn
  cases hturn with
  | block bytes hp _ hread => exact Or.inr (Or.inl ⟨hp, bytes, hread, rfl⟩)
  | newline hp => exact Or.inr (Or.inr ⟨hp, rfl⟩)
  | _ => exact Or.inl rfl

/-- Every frame was yielded at some moment, when those before it had been. -/
theorem frame_moment {as : List Action} {sys sys' : System}
    (hrun : Run.exec (step J svc) sys as = some sys') (hnone : sys.handler.frames = [])
    {i : Nat} {frame : Bytes} (hi : sys'.handler.frames[i]? = some frame) :
    ∃ before after mid, as = before ++ Action.handler :: after ∧
      Run.exec (step J svc) sys before = some mid ∧ mid.handler.frames.length = i ∧
      (mid.handler.phase = .newline ∨ (mid.handler.phase = .block ∧
        (mid.storage mid.handler.chain).getByHeight J mid.handler.height
          = .ok (some frame))) := by
  have hstep : ∀ (s1 : System) (a : Action) (s2 : System), step J svc s1 a = some s2 →
      s2.handler.frames = s1.handler.frames ∨
        ∃ b, s2.handler.frames = s1.handler.frames ++ [b] ∧ a = .handler ∧
          (s1.handler.phase = .newline ∨ (s1.handler.phase = .block ∧
            (s1.storage s1.handler.chain).getByHeight J s1.handler.height
              = .ok (some b))) := by
    intro s1 a s2 heq
    cases a with
    | put c p =>
        rw [← Option.some.inj heq]
        exact Or.inl rfl
    | handler =>
        rw [← Option.some.inj heq]
        rcases handlerStep_frames svc.maxBlocks (s1.storage s1.handler.chain) s1.handler with
          hsame | ⟨hphase, bytes, hread, hnew⟩ | ⟨hphase, hnew⟩
        · exact Or.inl hsame
        · exact Or.inr ⟨bytes, hnew, rfl, Or.inr ⟨hphase, hread⟩⟩
        · exact Or.inr ⟨[newlineByte], hnew, rfl, Or.inl hphase⟩
  obtain ⟨before, a, after, mid, rfl, hmid, hlen, rfl, hread⟩ :=
    Run.exec_appended hstep hrun hnone hi
  exact ⟨before, after, mid, rfl, hmid, hlen, hread⟩

/-- The tip a handler has read, if it has. -/
def Handler.tipRead (hd : Handler) : List Nat :=
  match hd.phase with
  | .readMin => []
  | .readContiguous => []
  | _ => [hd.contiguous]

/-- A turn keeps the tip it knows, or reads it. -/
theorem handlerStep_tipRead (maxBlocks : Nat) (s : Storage) (hd : Handler) :
    ∀ b ∈ (handlerStep J maxBlocks s hd).tipRead,
      b ∈ hd.tipRead ∨ s.maxContiguousHeight = b := by
  intro b hb
  have hturn := handlerStep_turn J maxBlocks s hd
  generalize handlerStep J maxBlocks s hd = hd' at hb hturn
  cases hturn with
  | min _ => cases hb
  | refuse _ _ _ _ => exact Or.inr (List.mem_singleton.mp hb).symm
  | accept _ _ _ => exact Or.inr (List.mem_singleton.mp hb).symm
  | caughtUp hp _ => exact Or.inl (by simp only [Handler.tipRead, hp]; exact hb)
  | unreadable _ hp _ _ => exact Or.inl (by simp only [Handler.tipRead, hp]; exact hb)
  | missing hp _ _ => exact Or.inl (by simp only [Handler.tipRead, hp]; exact hb)
  | block _ hp _ _ => exact Or.inl (by simp only [Handler.tipRead, hp]; exact hb)
  | newline hp => exact Or.inl (by simp only [Handler.tipRead, hp]; exact hb)
  | refused _ _ _ => exact Or.inl hb
  | ended _ _ => exact Or.inl hb

/-- The tip a decision was made on was the store's at some moment. -/
theorem tip_moment {as : List Action} {sys sys' : System}
    (hrun : Run.exec (step J svc) sys as = some sys') (hnone : sys.handler.tipRead = [])
    {tip : Nat} (htip : tip ∈ sys'.handler.tipRead) :
    ∃ before after mid, as = before ++ Action.handler :: after ∧
      Run.exec (step J svc) sys before = some mid ∧
      (mid.storage mid.handler.chain).maxContiguousHeight = tip := by
  have hstep : ∀ (s1 : System) (a : Action) (s2 : System), step J svc s1 a = some s2 →
      ∀ b ∈ s2.handler.tipRead, b ∈ s1.handler.tipRead ∨
        (a = .handler ∧ (s1.storage s1.handler.chain).maxContiguousHeight = b) := by
    intro s1 a s2 heq b hb
    cases a with
    | put c p =>
        rw [← Option.some.inj heq] at hb
        exact Or.inl hb
    | handler =>
        rw [← Option.some.inj heq] at hb
        rcases handlerStep_tipRead svc.maxBlocks _ s1.handler b hb with hold | hnew
        · exact Or.inl hold
        · exact Or.inr ⟨rfl, hnew⟩
  rcases Run.exec_moment hstep hrun htip with hold | ⟨before, a, after, mid, rfl, hmid, hfresh⟩
  · rw [hnone] at hold
    cases hold
  · obtain ⟨rfl, htip⟩ := hfresh
    exact ⟨before, after, mid, rfl, hmid, htip⟩

end Moments

/-! ## Progress -/

section Progress

variable {J : Codec} {svc : Service}

/-- How many turns a handler that has not finished has taken, at least. -/
def Handler.turns (hd : Handler) : Nat :=
  match hd.phase with
  | .readMin => 0
  | .readContiguous => 1
  | .block => 2 + hd.frames.length
  | .newline => 2 + hd.frames.length
  | .refused _ _ => 0
  | .ended _ => 0

/-- A handler that has finished stays as it is. -/
theorem handlerStep_finished {maxBlocks : Nat} {hd : Handler} (s : Storage)
    (h : hd.phase.finished = true) : handlerStep J maxBlocks s hd = hd := by
  simp only [handlerStep]
  cases hp : hd.phase with
  | refused status message => rfl
  | ended cause => rfl
  | _ =>
      rw [hp] at h
      cases h

/-- A turn counts, unless it is the last one. -/
theorem turns_handlerStep (maxBlocks : Nat) (s : Storage) (hd : Handler) :
    (handlerStep J maxBlocks s hd).phase.finished = true ∨
      hd.turns + 1 ≤ (handlerStep J maxBlocks s hd).turns := by
  have hturn := handlerStep_turn J maxBlocks s hd
  generalize handlerStep J maxBlocks s hd = hd' at hturn
  simp only [Handler.turns]
  cases hturn with
  | min hp => exact Or.inr (by rw [hp])
  | accept _ hp _ => exact Or.inr (by rw [hp]; dsimp only; omega)
  | block bytes hp _ _ =>
      refine Or.inr ?_
      rw [hp]
      dsimp only
      rw [List.length_append, List.length_singleton]
      omega
  | newline hp =>
      refine Or.inr ?_
      rw [hp]
      dsimp only
      rw [List.length_append, List.length_singleton]
      omega
  | refused _ _ hp => exact Or.inl (by rw [hp]; rfl)
  | ended _ hp => exact Or.inl (by rw [hp]; rfl)
  | _ => exact Or.inl rfl

/-- In a run the handler finishes, or it takes every turn it is given. -/
theorem turns_run {as : List Action} {sys sys' : System}
    (hrun : Run.exec (step J svc) sys as = some sys') :
    sys'.handler.phase.finished = true ∨ as.countP Action.isHandler ≤ sys'.handler.turns := by
  have hdone : ∀ (s1 : System) (a : Action) (s2 : System),
      s1.handler.phase.finished = true → step J svc s1 a = some s2 →
      s2.handler.phase.finished = true := by
    intro s1 a s2 hfin heq
    cases a with
    | put c p =>
        rw [← Option.some.inj heq]
        exact hfin
    | handler =>
        rw [← Option.some.inj heq]
        dsimp only
        rw [handlerStep_finished _ hfin]
        exact hfin
  have hstep : ∀ (s1 : System) (a : Action) (s2 : System), step J svc s1 a = some s2 →
      s2.handler.phase.finished = true ∨
        s1.handler.turns + (if a.isHandler then 1 else 0) ≤ s2.handler.turns := by
    intro s1 a s2 heq
    cases a with
    | put c p =>
        rw [← Option.some.inj heq]
        exact Or.inr (Nat.le_refl _)
    | handler =>
        rw [← Option.some.inj heq]
        exact turns_handlerStep svc.maxBlocks _ s1.handler
  have hend := Run.exec_progress hdone hstep (n := 0) (Or.inr (Nat.zero_le _)) hrun
  rw [Nat.zero_add] at hend
  exact hend

/-- Every action is always possible. -/
theorem exec_total (J : Codec) (svc : Service) (sys : System) (as : List Action) :
    ∃ sys', Run.exec (step J svc) sys as = some sys' := by
  refine Run.exec_total ?_ sys as
  intro s a
  cases a with
  | handler => exact ⟨_, rfl⟩
  | put c p => exact ⟨_, rfl⟩

/-- A finished handler is not touched by the rest of a run. -/
theorem handler_of_finished {as : List Action} {sys sys' : System}
    (hfin : sys.handler.phase.finished = true)
    (hrun : Run.exec (step J svc) sys as = some sys') : sys'.handler = sys.handler := by
  have hstep : ∀ sys1 a sys2, sys1.handler = sys.handler →
      step J svc sys1 a = some sys2 → sys2.handler = sys.handler := by
    intro sys1 a sys2 h1 heq
    cases a with
    | put c p =>
        rw [← Option.some.inj heq]
        exact h1
    | handler =>
        rw [← Option.some.inj heq]
        show handlerStep J svc.maxBlocks _ sys1.handler = sys.handler
        rw [h1, handlerStep_finished _ hfin]
  exact Run.exec_invariant_all hstep rfl hrun

end Progress

/-! ## Exports over a store with its floor -/

/-- The heights a window asks for are stored. -/
def Stored {J : Codec} (R : RawReader J) (range : Range) (stop : Nat) (s : Storage) : Prop :=
  LawfulStore R s ∧ ∀ k, range.fromHeight ≤ k → k ≤ stop → s.Has k

/-- The store has a floor and its block, and the handler read that floor. -/
def FloorStored {J : Codec} (R : RawReader J) (hd : Handler) (s : Storage) : Prop :=
  LawfulStore R s ∧ ∃ st, s.store = some st ∧ st.Has st.minHeight ∧
    (hd.phase = .readContiguous → hd.min = st.minHeight)

/-- The height's block was the store's at some moment of the run. -/
def ReadAt (J : Codec) (svc : Service) (sys : System) (as : List Action) (chain : Chain)
    (height : Nat) (line : Bytes) : Prop :=
  ∃ before after mid, as = before ++ Action.handler :: after ∧
    Run.exec (step J svc) sys before = some mid ∧
    (mid.storage chain).getByHeight J height = .ok (some line)

/-- The tip was the store's at some moment of the run. -/
def TipAt (J : Codec) (svc : Service) (sys : System) (as : List Action) (chain : Chain)
    (tip : Nat) : Prop :=
  ∃ before after mid, as = before ++ Action.handler :: after ∧
    Run.exec (step J svc) sys before = some mid ∧
    (mid.storage chain).maxContiguousHeight = tip

section Export

variable {J : Codec} {R : RawReader J} {svc : Service} {storage : Chain → Storage}
  {query : List Char} {range : Range} {chain : Chain}

/-- An export goes through wherever acceptance implies that its heights are
    stored. -/
theorem discipline_of_stored {Valid : Handler → Storage → Prop} {maxBlocks : Nat}
    (valid_put : ∀ hd s p, Valid hd s → LawfulPut R p →
      Valid hd (s.put p.fault p.height p.hash p.txHashes p.elements).2)
    (valid_min : ∀ hd s, Valid hd s → hd.phase = .readMin →
      Valid { hd with phase := .readContiguous, min := s.minHeight } s)
    (accept : ∀ hd s stop, Valid hd s → hd.phase = .readContiguous →
      decideWindow maxBlocks range hd.min s.maxContiguousHeight = .ok stop →
      s.maxContiguousHeight < u64Max ∧ Stored R range stop s) :
    Discipline J maxBlocks range (LawfulPut R) Valid (Stored R range) where
  valid_put := valid_put
  valid_min := valid_min
  accept := accept
  servable_put _ s _ h hp :=
    ⟨h.1.put hp, fun k hlo hhi => (put_grows s _ _ _ _ _).has k (h.2 k hlo hhi)⟩
  servable_read _ _ k h hlo hhi := h.1.deliverable_block (h.2 k hlo hhi)

/-- The tip of a store that has its floor block is a stored height. -/
theorem maxContiguous_lt {s : Storage} {st : Store} (h : LawfulStore R s)
    (hst : s.store = some st) (hhas : st.Has st.minHeight) :
    st.minHeight ≤ s.maxContiguousHeight ∧ s.maxContiguousHeight < u64Max := by
  have hgap := st.isFirstGap_firstHole
  have hlt : st.minHeight < st.firstHole := by
    refine Nat.lt_of_le_of_ne hgap.le ?_
    intro heq
    exact hgap.gap (heq ▸ hhas)
  have hsucc := Store.maxContiguousHeight_succ (Nat.lt_of_le_of_lt (Nat.zero_le _) hlt)
  rw [show s.maxContiguousHeight = st.maxContiguousHeight by
    simp only [Storage.maxContiguousHeight, hst, Option.map_some, Option.getD_some]]
  exact ⟨by omega, h.bounded _ ⟨st, hst, hgap.filled _ (by omega) (by omega)⟩⟩

theorem discipline_floorStored {maxBlocks : Nat} :
    Discipline J maxBlocks range (LawfulPut R) (FloorStored R) (Stored R range) := by
  refine discipline_of_stored ?_ ?_ ?_
  · rintro hd s p ⟨hl, st, hst, hhas, hmin⟩ hp
    have hg := put_grows s p.fault p.height p.hash p.txHashes p.elements
    obtain ⟨st', hst', hmin'⟩ := hg.minHeight st hst
    obtain ⟨st'', hst'', hhas''⟩ := hg.has _ ⟨st, hst, hhas⟩
    rw [hst', Option.some.injEq] at hst''
    refine ⟨hl.put hp, st', hst', ?_, ?_⟩
    · rw [hmin', hst'']
      exact hhas''
    · rw [hmin']
      exact hmin
  · rintro hd s ⟨hl, st, hst, hhas, -⟩ -
    refine ⟨hl, st, hst, hhas, ?_⟩
    intro _
    simp only [Storage.minHeight, hst, Option.map_some, Option.getD_some]
  · rintro hd s stop ⟨hl, st, hst, hhas, hmin⟩ hphase hwin
    obtain ⟨-, hbound⟩ := maxContiguous_lt hl hst hhas
    have hw := window_of_decideWindow hbound hwin
    have hlowest := hw.lowest_le
    rw [hmin hphase] at hlowest
    refine ⟨hbound, hl, ?_⟩
    intro k hlo hhi
    exact has_of_le_maxContiguous hst (by omega) (Nat.le_trans hhi hw.stop_le)
      (Or.inr (firstHole_pos hhas))

/-- A query that names a range and a running chain. -/
structure Names (svc : Service) (query : List Char) (range : Range) (chain : Chain) :
    Prop where
  parsed : parseRange query = .ok range
  selected : svc.get range.chain = some chain

theorem Names.start (h : Names svc query range chain) :
    Handler.start svc query = ⟨.readMin, chain, range, 0, 0, 0, 0, []⟩ := by
  simp only [Handler.start, h.parsed, h.selected]

/-- Any other query is refused at once. -/
theorem start_of_not_names (h : ∀ range chain, ¬ Names svc query range chain) :
    ∃ message, Handler.start svc query = refusing BAD_REQUEST message := by
  simp only [Handler.start]
  cases hparse : parseRange query with
  | error message => exact ⟨message, rfl⟩
  | ok range =>
      dsimp only
      cases hget : svc.get range.chain with
      | none => exact ⟨_, rfl⟩
      | some chain => exact absurd ⟨hparse, hget⟩ (h range chain)

/-- The store the query selects, as the ingest tasks leave it, with its floor. -/
structure Ready (R : RawReader J) (s : Storage) : Prop where
  lawful : LawfulStore R s
  floor : s.Has s.minHeight

theorem Ready.store {s : Storage} (h : Ready R s) :
    ∃ st, s.store = some st ∧ st.Has st.minHeight ∧ s.minHeight = st.minHeight := by
  obtain ⟨st, hst, hhas⟩ := h.floor
  have hmin : s.minHeight = st.minHeight := by
    simp only [Storage.minHeight, hst, Option.map_some, Option.getD_some]
  exact ⟨st, hst, hmin ▸ hhas, hmin⟩

theorem Ready.isEmpty {s : Storage} (h : Ready R s) : s.isEmpty = false := by
  obtain ⟨st, hst, -, -⟩ := h.store
  simp only [Storage.isEmpty, hst, Option.isNone_some]

theorem Ready.put {s : Storage} {p : Put} (h : Ready R s) (hp : LawfulPut R p) :
    Ready R (s.put p.fault p.height p.hash p.txHashes p.elements).2 := by
  have hg := put_grows s p.fault p.height p.hash p.txHashes p.elements
  refine ⟨h.lawful.put hp, ?_⟩
  rw [hg.minHeight_eq h.isEmpty]
  exact hg.has _ h.floor

section Running

variable {as : List Action} {sys : System}
  (hnames : Names svc query range chain) (hready : Ready R (storage chain))
  (hputs : ∀ a ∈ as, ActionOk (LawfulPut R) a)
  (hrun : Run.exec (step J svc) (System.start svc storage query) as = some sys)

include hnames hready hputs hrun

theorem request_run : Request chain range (FloorStored R) (Stored R range) sys := by
  refine Request.run discipline_floorStored ?_ hputs hrun
  obtain ⟨st, hst, hhas, -⟩ := hready.store
  simp only [System.start, hnames.start]
  refine ⟨rfl, rfl, ⟨hready.lawful, st, hst, hhas, ?_⟩, rfl⟩
  intro h
  cases h

omit hputs in
theorem decided_run : Decided svc.maxBlocks (storage chain).minHeight sys.handler := by
  have hstep : ∀ (s1 : System) (a : Action) (s2 : System),
      (Grows (storage chain) (s1.storage chain) ∧ s1.handler.chain = chain ∧
        Decided svc.maxBlocks (storage chain).minHeight s1.handler) →
      step J svc s1 a = some s2 →
      Grows (storage chain) (s2.storage chain) ∧ s2.handler.chain = chain ∧
        Decided svc.maxBlocks (storage chain).minHeight s2.handler := by
    rintro s1 a s2 ⟨hg, hc, hd⟩ heq
    have hgrow := storage_grows J svc chain (Run.exec_step heq (Run.exec_nil s2))
    refine ⟨hg.trans hgrow, ?_⟩
    cases a with
    | put c p =>
        rw [← Option.some.inj heq]
        exact ⟨hc, hd⟩
    | handler =>
        rw [← Option.some.inj heq]
        refine ⟨(handlerStep_request _ _).2.trans hc, hd.handler ?_⟩
        rw [hc]
        exact hg.minHeight_eq hready.isEmpty
  refine (Run.exec_invariant_all hstep ⟨Grows.refl _, ?_, ?_⟩ hrun).2.2
  · simp only [System.start, hnames.start]
  · simp only [System.start, hnames.start, Decided]

/-- Line `j` is the block of height `from + j`, read at its own moment. -/
theorem line_moment {j : Nat} {line : Bytes} (hj : sys.handler.frames[2 * j]? = some line) :
    ReadAt J svc (System.start svc storage query) as chain (range.fromHeight + j) line := by
  have hnone : (System.start svc storage query).handler.frames = [] := by
    simp only [System.start, hnames.start]
  obtain ⟨before, after, mid, rfl, hmid, hlen, hread⟩ := frame_moment hrun hnone hj
  obtain ⟨hchain, -, hserve⟩ := request_run hnames hready
    (fun a ha => hputs a (List.mem_append_left _ ha)) hmid
  refine ⟨before, after, mid, rfl, hmid, ?_⟩
  simp only [Serving] at hserve
  -- whole lines are an even number of frames, so this one is a block
  rcases hread with hphase | ⟨hphase, hread⟩
  · rw [hphase] at hserve
    obtain ⟨-, lines, line', hframes, -, -, -⟩ := hserve
    rw [hframes, List.length_append, framesOf_length, List.length_singleton] at hlen
    omega
  · rw [hphase] at hserve
    obtain ⟨-, lines, hframes, hheight, -⟩ := hserve
    rw [hframes, framesOf_length] at hlen
    have hj : lines.length = j := by omega
    rw [hheight, hj, hchain] at hread
    exact hread

/-- The tip the decision was made on. -/
theorem decided_tip (hdec : sys.handler.phase.decided = true) :
    TipAt J svc (System.start svc storage query) as chain sys.handler.contiguous := by
  have hnone : (System.start svc storage query).handler.tipRead = [] := by
    simp only [System.start, hnames.start, Handler.tipRead]
  have hmem : sys.handler.contiguous ∈ sys.handler.tipRead := by
    simp only [Handler.tipRead]
    cases hphase : sys.handler.phase with
    | readMin => rw [hphase] at hdec; cases hdec
    | readContiguous => rw [hphase] at hdec; cases hdec
    | _ => exact List.mem_singleton_self _
  obtain ⟨before, after, mid, rfl, hmid, htip⟩ := tip_moment hrun hnone hmem
  have hreq := request_run hnames hready
    (fun a ha => hputs a (List.mem_append_left _ ha)) hmid
  rw [hreq.chain_eq] at htip
  exact ⟨before, after, mid, rfl, hmid, htip⟩

/-- A finished response: it refuses, or it has all its lines. -/
theorem serving_finished (hfin : sys.handler.phase.finished = true) :
    (∃ status message, sys.handler.phase = .refused status message ∧
      sys.handler.frames = []) ∨
    (sys.handler.phase = .ended .caughtUp ∧ ∃ lines, sys.handler.frames = framesOf lines ∧
      range.fromHeight + lines.length = sys.handler.stop + 1) := by
  have hserve := (request_run hnames hready hputs hrun).serving
  simp only [Serving] at hserve
  cases hphase : sys.handler.phase with
  | refused status message =>
      rw [hphase] at hserve
      exact Or.inl ⟨status, message, rfl, hserve⟩
  | ended cause =>
      rw [hphase] at hserve
      obtain ⟨rfl, lines, hframes, hlen⟩ := hserve
      exact Or.inr ⟨rfl, lines, hframes, hlen⟩
  | _ =>
      rw [hphase] at hfin
      cases hfin

/-- The window of a response that was accepted. -/
theorem window_of_accepted (hacc : sys.handler.phase.accepted = true) :
    Window svc.maxBlocks range (storage chain).minHeight sys.handler.contiguous
      sys.handler.stop := by
  have hreq := request_run hnames hready hputs hrun
  have hdec := (decided_run hnames hready hrun).accepted hacc
  rw [hreq.range_eq] at hdec
  -- the tip that was read is a tip of the store at some moment, so a stored height
  obtain ⟨before, after, mid, rfl, hmid, htip⟩ :=
    decided_tip hnames hready hputs hrun (Phase.decided_of_accepted hacc)
  have hmidReady : Ready R (mid.storage chain) :=
    storage_run (LawfulPut R) (fun s p h hp => h.put hp) hready
      (fun a ha => hputs a (List.mem_append_left _ ha)) hmid
  obtain ⟨st, hst, hhas, -⟩ := hmidReady.store
  obtain ⟨-, hbound⟩ := maxContiguous_lt hmidReady.lawful hst hhas
  rw [htip] at hbound
  exact window_of_decideWindow hbound hdec

end Running

end Export

end NeveBulk
