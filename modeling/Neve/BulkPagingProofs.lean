import Neve.BulkProofs
import Neve.JsonTextProofs

/-! # Paging through `GET /blocks`

    What one response promises, and what a client gets that always asks for the
    height after the last line it received. -/

namespace NeveBulk

open JsonValue ByteText FirstGap NeveRecord NeveStorage NeveStorageMap NeveFrontier
open NeveRangeReplay (LawfulStore LawfulPut Close lawfulStore_fresh)

/-! ## Lines of a body -/

/-- The lines of a text that ends every line. -/
def linesOf (body : Bytes) : List Bytes := (body.splitOn newlineByte).dropLast

/-- Lines that hold no newline come back. -/
theorem linesOf_textOf {lines : List Bytes} (h : ∀ line ∈ lines, newlineByte ∉ line) :
    linesOf (textOf lines) = lines := by
  induction lines with
  | nil => rfl
  | cons line rest ih =>
      have htext : textOf (line :: rest) = line ++ newlineByte :: textOf rest := by
        show line ++ [newlineByte] ++ textOf rest = _
        rw [List.append_assoc, List.singleton_append]
      have hrest := ih fun l hl => h l (List.mem_cons_of_mem _ hl)
      simp only [linesOf] at hrest ⊢
      rw [htext, List.splitOn_append_cons_self_of_not_mem (h line (List.mem_cons_self ..)),
        List.dropLast_cons_of_ne_nil (List.splitOn_ne_nil _ _), hrest]

/-! ## The query of the next page -/

/-- Ask for everything from a height on. -/
def queryFrom (height : Nat) : List Char := "from=".toList ++ JsonText.natText height

theorem decDigit_hexChar : ∀ d < 10, decDigit (hexChar d) = some d := by decide

theorem decNumber_hexChar {ds : List Nat} (h : ∀ d ∈ ds, d < 10) (acc : Nat) :
    decNumber (ds.map hexChar) acc = some (acc * 10 ^ ds.length + ofBigEndian 10 ds) := by
  induction ds generalizing acc with
  | nil =>
      rw [List.length_nil, pow_zero, Nat.mul_one]
      rfl
  | cons d rest ih =>
      have hd := decDigit_hexChar d (h d (List.mem_cons_self ..))
      have hrest := ih (fun x hx => h x (List.mem_cons_of_mem _ hx)) (10 * acc + d)
      have hsum : ofBigEndian 10 (d :: rest) = ofBigEndian 10 rest + 10 ^ rest.length * d := by
        simp only [ofBigEndian]
        rw [List.reverse_cons, Nat.ofDigits_append, Nat.ofDigits_singleton,
          List.length_reverse]
      show (decDigit (hexChar d)).bind (fun d => decNumber (rest.map hexChar) (10 * acc + d)) = _
      rw [hd, Option.bind_some, hrest, hsum, List.length_cons, pow_succ]
      ring_nf

/-- Only decimal digits. -/
theorem mem_natText {n : Nat} {c : Char} (h : c ∈ JsonText.natText n) :
    ∃ d < 10, c = hexChar d := by
  obtain ⟨d, hd, rfl⟩ := List.mem_map.mp h
  exact ⟨d, JsonText.natDigits_lt n d hd, rfl⟩

theorem hexChar_plain :
    ∀ d < 10, hexChar d ≠ '+' ∧ hexChar d ≠ 'x' ∧ hexChar d ≠ 'X' ∧
    hexChar d ≠ '&' ∧ hexChar d ≠ '=' := by decide

theorem natText_plain {n : Nat} {c : Char} (h : c ∈ JsonText.natText n) :
    c ≠ '+' ∧ c ≠ 'x' ∧ c ≠ 'X' ∧ c ≠ '&' ∧ c ≠ '=' := by
  obtain ⟨d, hd, rfl⟩ := mem_natText h
  exact hexChar_plain d hd

theorem dropPlus_of_not_mem {cs : List Char} (h : '+' ∉ cs) : dropPlus cs = cs := by
  fun_cases dropPlus cs with
  | case1 rest => exact absurd (List.mem_cons_self ..) h
  | case2 => rfl

theorem parseDecimal_natText {bound n : Nat} (h : n < bound) :
    parseDecimal bound (JsonText.natText n) = some n := by
  have hplus : '+' ∉ JsonText.natText n := fun hmem => (natText_plain hmem).1 rfl
  have hne : JsonText.natText n ≠ [] := by
    intro hnil
    exact JsonText.natDigits_ne_nil n (List.map_eq_nil_iff.mp hnil)
  simp only [parseDecimal, dropPlus_of_not_mem hplus]
  rw [if_neg hne, JsonText.natText, decNumber_hexChar (JsonText.natDigits_lt n),
    JsonText.ofBigEndian_natDigits, Nat.zero_mul, Nat.zero_add, Option.bind_some, if_pos h]

theorem parseHeight_natText {n : Nat} (h : n < 2 ^ 64) :
    parseHeight (JsonText.natText n) = .ok n := by
  have hx : 'x' ∉ JsonText.natText n := fun hmem => (natText_plain hmem).2.1 rfl
  have hX : 'X' ∉ JsonText.natText n := fun hmem => (natText_plain hmem).2.2.1 rfl
  have hdec := parseDecimal_natText h
  generalize JsonText.natText n = cs at hx hX hdec
  fun_cases parseHeight cs with
  | case1 => exact absurd (by simp) hx
  | case2 => exact absurd (by simp) hx
  | case3 => exact absurd (by simp) hX
  | case4 => exact absurd (by simp) hX
  | case5 => rw [hdec]
  | case6 => rw [hdec]

theorem span_append {cs rest : List Char} {p : Char → Bool} {c : Char}
    (h : ∀ x ∈ cs, p x = true) (hc : p c = false) :
    (cs ++ c :: rest).span p = (cs, c :: rest) := by
  rw [List.span_eq_takeWhile_dropWhile, List.takeWhile_append_of_pos h,
    List.dropWhile_append_of_pos h, List.takeWhile_cons_of_neg (by simp [hc]),
    List.dropWhile_cons_of_neg (by simp [hc]), List.append_nil]

/-- **The next page's query asks for what it says.** -/
theorem parseRange_queryFrom {n : Nat} (h : n < 2 ^ 64) :
    parseRange (queryFrom n) = .ok ⟨n, none, none⟩ := by
  have hsplit : (queryFrom n).splitOn '&' = [queryFrom n] := by
    refine List.splitOn_eq_singleton ?_
    intro hmem
    rcases List.mem_append.mp hmem with hkey | hval
    · exact absurd hkey (by decide)
    · exact (natText_plain hval).2.2.2.1 rfl
  have honce : splitOnce (queryFrom n) = some ("from".toList, JsonText.natText n) := by
    have hspan : (queryFrom n).span (· ≠ '=')
        = ("from".toList, '=' :: JsonText.natText n) := by
      have hkey : ∀ x ∈ "from".toList, decide (x ≠ '=') = true := by
        intro x hx
        refine decide_eq_true ?_
        rintro rfl
        exact absurd hx (by decide)
      exact span_append hkey (by decide)
    simp only [splitOnce, hspan]
  have hpair : parsePair ⟨none, none, none⟩ (queryFrom n) = .ok ⟨some n, none, none⟩ := by
    simp only [parsePair, honce, parseHeight_natText h]
    rfl
  simp only [parseRange, hsplit, List.foldlM_cons, List.foldlM_nil, hpair]
  rfl

/-! ## One response -/

/-- What one response promises. -/
structure Response (J : Codec) (svc : Service) (storage : Chain → Storage)
    (query : List Char) (as : List Action) (sys : System) : Prop where
  /-- A refusal carries no block data. -/
  refusal : ∀ status message, sys.handler.phase = .refused status message →
    (status = BAD_REQUEST ∨ status = RANGE_NOT_SATISFIABLE) ∧ sys.handler.body = []
  /-- A whole body is the blocks of the window, one a line, ascending, each as it
      was stored when it was read; the window ends at the requested height or at
      the tip read at some moment. -/
  whole : ∀ cause, sys.handler.phase = .ended cause → ∃ range chain tip stop,
    Names svc query range chain ∧
    TipAt J svc (System.start svc storage query) as chain tip ∧
    Window svc.maxBlocks range (storage chain).minHeight tip stop ∧
    sys.handler.body = textOf (linesOf sys.handler.body) ∧
    range.fromHeight + (linesOf sys.handler.body).length = stop + 1 ∧
    ∀ j line, (linesOf sys.handler.body)[j]? = some line →
      ReadAt J svc (System.start svc storage query) as chain (range.fromHeight + j) line
  /-- And the response does end. -/
  finishes : 2 * svc.maxBlocks + 3 ≤ as.countP Action.isHandler →
    sys.handler.phase.finished = true

section Responses

variable {J : Codec} {R : RawReader J} {svc : Service} {storage : Chain → Storage}
  {query : List Char} {range : Range} {chain : Chain} {as : List Action} {sys : System}

/-- Blocks are compact: none holds a newline. -/
def Compact (R : RawReader J) : Prop := ∀ e, R.IsValue e → newlineByte ∉ e

/-- A line that was read is a value. -/
theorem ReadAt.isValue {sys : System} {height : Nat} {line : Bytes}
    (h : ReadAt J svc sys as chain height line) (hready : Ready R (sys.storage chain))
    (hputs : ∀ a ∈ as, ActionOk (LawfulPut R) a) : R.IsValue line := by
  obtain ⟨before, after, mid, rfl, hmid, hread⟩ := h
  have hmidReady : Ready R (mid.storage chain) :=
    storage_run (LawfulPut R) (fun s p h hp => h.put hp) hready
      (fun a ha => hputs a (List.mem_append_left _ ha)) hmid
  exact hmidReady.lawful.isValue_block hread

/-- The lines of a whole body. -/
theorem linesOf_body (hcompact : Compact R) (hnames : Names svc query range chain)
    (hready : Ready R (storage chain)) (hputs : ∀ a ∈ as, ActionOk (LawfulPut R) a)
    (hrun : Run.exec (step J svc) (System.start svc storage query) as = some sys)
    {lines : List Bytes} (hframes : sys.handler.frames = framesOf lines) :
    linesOf sys.handler.body = lines ∧ ∀ j line, lines[j]? = some line →
      ReadAt J svc (System.start svc storage query) as chain (range.fromHeight + j) line := by
  have hread : ∀ j line, lines[j]? = some line →
      ReadAt J svc (System.start svc storage query) as chain (range.fromHeight + j) line := by
    intro j line hj
    refine line_moment hnames hready hputs hrun ?_
    rw [hframes, getElem_framesOf, hj]
  refine ⟨?_, hread⟩
  simp only [Handler.body]
  rw [hframes, flatten_framesOf]
  refine linesOf_textOf ?_
  intro line hline
  obtain ⟨j, hj⟩ := List.mem_iff_getElem?.mp hline
  exact hcompact line ((hread j line hj).isValue hready hputs)

/-- A handler that has taken all its turns has finished. -/
theorem finished_of_turns (hnames : Names svc query range chain)
    (hready : Ready R (storage chain)) (hputs : ∀ a ∈ as, ActionOk (LawfulPut R) a)
    (hrun : Run.exec (step J svc) (System.start svc storage query) as = some sys)
    (hturns : 2 * svc.maxBlocks + 3 ≤ as.countP Action.isHandler) :
    sys.handler.phase.finished = true := by
  rcases turns_run hrun with hfin | hle
  · exact hfin
  have hserve := (request_run hnames hready hputs hrun).serving
  simp only [Serving] at hserve
  simp only [Handler.turns] at hle
  cases hphase : sys.handler.phase with
  | readMin => rw [hphase] at hle; dsimp only at hle; omega
  | readContiguous => rw [hphase] at hle; dsimp only at hle; omega
  | block =>
      rw [hphase] at hle hserve
      obtain ⟨-, lines, hframes, hheight, hstop⟩ := hserve
      have hw := window_of_accepted hnames hready hputs hrun (by rw [hphase]; rfl)
      have hcount := hw.count_le
      have hle' := hw.le_stop
      dsimp only at hle
      rw [hframes, framesOf_length] at hle
      omega
  | newline =>
      rw [hphase] at hle hserve
      obtain ⟨-, lines, line, hframes, hheight, hstop, -⟩ := hserve
      have hw := window_of_accepted hnames hready hputs hrun (by rw [hphase]; rfl)
      have hcount := hw.count_le
      dsimp only at hle
      rw [hframes, List.length_append, framesOf_length, List.length_singleton] at hle
      omega
  | refused status message => rfl
  | ended cause => rfl

/-- **One response.** -/
theorem response (hcompact : Compact R)
    (hready : ∀ range chain, Names svc query range chain → Ready R (storage chain))
    (hputs : ∀ a ∈ as, ActionOk (LawfulPut R) a)
    (hrun : Run.exec (step J svc) (System.start svc storage query) as = some sys) :
    Response J svc storage query as sys := by
  by_cases hany : ∃ range chain, Names svc query range chain
  · obtain ⟨range, chain, hnames⟩ := hany
    have hr := hready range chain hnames
    refine ⟨?_, ?_, finished_of_turns hnames hr hputs hrun⟩
    · intro status message hphase
      have hdec := decided_run hnames hr hrun
      have hserve := (request_run hnames hr hputs hrun).serving
      simp only [Decided, hphase] at hdec
      simp only [Serving, hphase] at hserve
      refine ⟨status_of_decideWindow hdec, ?_⟩
      simp only [Handler.body]
      rw [hserve]
      rfl
    · intro cause hphase
      rcases serving_finished hnames hr hputs hrun (by rw [hphase]; rfl) with
        ⟨status, message, href, -⟩ | ⟨-, lines, hframes, hlen⟩
      · rw [hphase] at href
        cases href
      obtain ⟨hlines, hread⟩ := linesOf_body hcompact hnames hr hputs hrun hframes
      refine ⟨range, chain, sys.handler.contiguous, sys.handler.stop, hnames,
        decided_tip hnames hr hputs hrun (by rw [hphase]; rfl),
        window_of_accepted hnames hr hputs hrun (by rw [hphase]; rfl), ?_, ?_, ?_⟩
      · rw [hlines]
        simp only [Handler.body]
        rw [hframes, flatten_framesOf]
      · rw [hlines]
        exact hlen
      · rw [hlines]
        exact hread
  · -- the query is refused before anything is read
    have hnone : ∀ range chain, ¬ Names svc query range chain :=
      fun range chain h => hany ⟨range, chain, h⟩
    obtain ⟨message, hstart⟩ := start_of_not_names hnone
    have hfin : (System.start svc storage query).handler.phase.finished = true := by
      simp only [System.start, hstart, refusing, Phase.finished]
    have hsame : sys.handler = refusing BAD_REQUEST message :=
      (handler_of_finished hfin hrun).trans hstart
    refine ⟨?_, ?_, ?_⟩
    · intro status message' hphase
      rw [hsame] at hphase
      obtain ⟨rfl, -⟩ := Phase.refused.inj hphase
      refine ⟨Or.inl rfl, ?_⟩
      rw [hsame]
      rfl
    · intro cause hphase
      rw [hsame] at hphase
      cases hphase
    · intro _
      rw [hsame]
      rfl

end Responses

/-! ## Paging -/

/-- A client that pages from `start` on: the stores as they are, and the lines it
    has received. -/
structure Pager where
  storage : Chain → Storage
  start : Nat
  received : List Bytes

/-- The height after the last one received. -/
def Pager.next (pg : Pager) : Nat := pg.start + pg.received.length

/-- The system of the client's next request. -/
def Pager.request (svc : Service) (pg : Pager) : System :=
  System.start svc pg.storage (queryFrom pg.next)

/-- One page: a request for everything from the next height on, run in any
    interleaving with puts until the response is whole. -/
def pageStep (J : Codec) (svc : Service) (pg : Pager) (as : List Action) : Option Pager :=
  (Run.exec (step J svc) (pg.request svc) as).bind fun sys =>
    if sys.handler.phase.finished then
      some { pg with
        storage := sys.storage
        received := pg.received ++ linesOf sys.handler.body }
    else none

/-- What a paging client may count on. -/
structure Paged (J : Codec) (R : RawReader J) (svc : Service) (chain : Chain)
    (pg0 : Pager) (pages : List (List Action)) (pg : Pager) : Prop where
  /-- Line `j` of all the bodies together is the block of height `start + j`, as
      stored when it was read. -/
  consecutive : ∀ j line, pg.received[j]? = some line → ∃ before page after mid,
    pages = before ++ page :: after ∧ Run.exec (pageStep J svc) pg0 before = some mid ∧
    ReadAt J svc (mid.request svc) page chain (pg0.start + j) line
  /-- The next request is refused as out of range exactly if every height up to the
      tip it read has been received; else it brings the heights that follow. -/
  next_page : ∀ page sys, (∀ a ∈ page, ActionOk (LawfulPut R) a) →
    Run.exec (step J svc) (pg.request svc) page = some sys →
    sys.handler.phase.finished = true → ∃ tip, TipAt J svc (pg.request svc) page chain tip ∧
      (sys.handler.status = RANGE_NOT_SATISFIABLE ↔ tip < pg.next) ∧
      (sys.handler.status = RANGE_NOT_SATISFIABLE ∨ sys.handler.status = OK) ∧
      (linesOf sys.handler.body).length = min svc.maxBlocks (tip + 1 - pg.next)

section Pages

variable {J : Codec} {R : RawReader J} {svc : Service} {chain : Chain}

/-- What holds of a client before every page: it has the lines of heights that
    are in the gapless window. -/
structure Paging (R : RawReader J) (chain : Chain) (floor start : Nat) (pg : Pager) :
    Prop where
  ready : Ready R (pg.storage chain)
  floor_eq : (pg.storage chain).minHeight = floor
  start_eq : pg.start = start
  floor_le : floor ≤ start
  next_le : pg.next ≤ (pg.storage chain).maxContiguousHeight + 1

theorem Ready.tip_lt {s : Storage} (h : Ready R s) : s.maxContiguousHeight < u64Max := by
  obtain ⟨st, hst, hhas, -⟩ := h.store
  exact (maxContiguous_lt h.lawful hst hhas).2

/-- A tip that was read is not above the tip at the end, nor below the one at the
    start. -/
theorem TipAt.bounds {sys sys' : System} {as : List Action} {tip : Nat}
    (h : TipAt J svc sys as chain tip) (hrun : Run.exec (step J svc) sys as = some sys') :
    (sys.storage chain).maxContiguousHeight ≤ tip ∧
      tip ≤ (sys'.storage chain).maxContiguousHeight := by
  obtain ⟨before, after, mid, rfl, hmid, rfl⟩ := h
  rw [Run.exec_append, hmid] at hrun
  exact ⟨(storage_grows J svc chain hmid).maxContiguousHeight_le,
    (storage_grows J svc chain hrun).maxContiguousHeight_le⟩

/-- The next request names its range. -/
theorem Paging.names {floor start : Nat} {pg : Pager} (h : Paging R chain floor start pg)
    (hdefault : svc.get none = some chain) :
    Names svc (queryFrom pg.next) ⟨pg.next, none, none⟩ chain := by
  refine ⟨parseRange_queryFrom ?_, hdefault⟩
  have hle := h.next_le
  have hlt := h.ready.tip_lt
  simp only [u64Max] at hlt
  omega

/-- With nothing but a start asked for, and room for a block, the window is
    refused only as out of range. -/
theorem decideWindow_from {maxBlocks next lowest contiguous : Nat} (hmax : 1 ≤ maxBlocks)
    (hlo : lowest ≤ next) (hbound : contiguous < u64Max) :
    (contiguous < next ∧ ∃ message,
      decideWindow maxBlocks ⟨next, none, none⟩ lowest contiguous
        = .error (RANGE_NOT_SATISFIABLE, message)) ∨
    (next ≤ contiguous ∧ decideWindow maxBlocks ⟨next, none, none⟩ lowest contiguous
      = .ok (min (next + maxBlocks - 1) contiguous)) := by
  by_cases hout : contiguous < next
  · simp only [decideWindow]
    rw [if_pos (Or.inr hout)]
    exact Or.inl ⟨hout, _, rfl⟩
  · refine Or.inr ⟨Nat.le_of_not_lt hout, decideWindow_of_window hbound ?_⟩
    exact ⟨hlo, by dsimp only; omega, by omega, by dsimp only; omega, rfl⟩

/-- **One page.** -/
theorem Paging.page {floor start : Nat} {pg : Pager} (h : Paging R chain floor start pg)
    (hcompact : Compact R) (hdefault : svc.get none = some chain) (hmax : 1 ≤ svc.maxBlocks)
    {page : List Action} {sys : System} (hputs : ∀ a ∈ page, ActionOk (LawfulPut R) a)
    (hrun : Run.exec (step J svc) (pg.request svc) page = some sys)
    (hfin : sys.handler.phase.finished = true) :
    (∃ tip, TipAt J svc (pg.request svc) page chain tip ∧
      (sys.handler.status = RANGE_NOT_SATISFIABLE ↔ tip < pg.next) ∧
      (sys.handler.status = RANGE_NOT_SATISFIABLE ∨ sys.handler.status = OK) ∧
      (linesOf sys.handler.body).length = min svc.maxBlocks (tip + 1 - pg.next)) ∧
    ∀ j line, (linesOf sys.handler.body)[j]? = some line →
      ReadAt J svc (pg.request svc) page chain (pg.next + j) line := by
  have hnames := h.names hdefault
  -- the page answered, so the tip it went by was read on the way
  have htip : TipAt J svc (pg.request svc) page chain sys.handler.contiguous := by
    refine decided_tip hnames h.ready hputs hrun ?_
    cases hphase : sys.handler.phase with
    | readMin => rw [hphase] at hfin; cases hfin
    | readContiguous => rw [hphase] at hfin; cases hfin
    | _ => rfl
  have hgrow := storage_grows J svc chain hrun
  have hend : Ready R (sys.storage chain) :=
    storage_run (LawfulPut R) (fun s p h hp => h.put hp) h.ready hputs hrun
  have hbound : sys.handler.contiguous < u64Max :=
    Nat.lt_of_le_of_lt (htip.bounds hrun).2 hend.tip_lt
  have hlo : (pg.storage chain).minHeight ≤ pg.next := by
    have := h.floor_le
    rw [h.floor_eq, Pager.next, h.start_eq]
    omega
  have hdec := decided_run hnames h.ready hrun
  have hrange := (request_run hnames h.ready hputs hrun).range_eq
  simp only [Decided] at hdec
  rw [hrange] at hdec
  -- a finished page was refused, or streamed its window
  rcases serving_finished hnames h.ready hputs hrun hfin with
    ⟨status, message, hphase, hframes⟩ | ⟨hphase, lines, hframes, hlen⟩
  · rw [hphase] at hdec
    have hbody : linesOf sys.handler.body = [] := by
      simp only [Handler.body]
      rw [hframes]
      rfl
    rw [hbody]
    refine ⟨⟨sys.handler.contiguous, htip, ?_⟩, fun j line hj => (by cases hj)⟩
    -- the window is refused only above the tip
    rcases decideWindow_from hmax hlo hbound with ⟨hlt, message', heq⟩ | ⟨-, heq⟩
    · rw [heq] at hdec
      have hstatus : sys.handler.status = RANGE_NOT_SATISFIABLE := by
        simp only [Handler.status, hphase]
        exact (Prod.mk.inj (Except.error.inj hdec)).1.symm
      refine ⟨⟨fun _ => hlt, fun _ => hstatus⟩, Or.inl hstatus, ?_⟩
      rw [List.length_nil]
      omega
    · rw [heq] at hdec
      cases hdec
  · rw [hphase] at hdec
    obtain ⟨hlines, hread⟩ := linesOf_body hcompact hnames h.ready hputs hrun hframes
    rw [hlines]
    refine ⟨⟨sys.handler.contiguous, htip, ?_⟩, hread⟩
    have hstatus : sys.handler.status = OK := by simp only [Handler.status, hphase]
    rcases decideWindow_from hmax hlo hbound with ⟨-, message', heq⟩ | ⟨hle, heq⟩
    · rw [heq] at hdec
      cases hdec
    · rw [heq, Except.ok.injEq] at hdec
      have hne : OK ≠ RANGE_NOT_SATISFIABLE := by decide
      -- an accepted window starts at or below the tip, and each line is one height
      refine ⟨⟨fun h' => absurd (hstatus.symm.trans h') hne, fun hlt => ?_⟩,
        Or.inr hstatus, ?_⟩
      · omega
      · dsimp only at hlen
        omega

/-- The step lemma: the client stays in the window. -/
theorem Paging.step {floor start : Nat} {pg pg' : Pager} (h : Paging R chain floor start pg)
    (hcompact : Compact R) (hdefault : svc.get none = some chain) (hmax : 1 ≤ svc.maxBlocks)
    {page : List Action} (hputs : ∀ a ∈ page, ActionOk (LawfulPut R) a)
    (hstep : pageStep J svc pg page = some pg') :
    Paging R chain floor start pg' ∧ ∃ lines, pg'.received = pg.received ++ lines ∧
      ∀ j line, lines[j]? = some line →
        ReadAt J svc (pg.request svc) page chain (pg.next + j) line := by
  obtain ⟨sys, hrun, hsys⟩ := Option.bind_eq_some_iff.mp hstep
  by_cases hfin : sys.handler.phase.finished = true
  · rw [if_pos hfin] at hsys
    obtain ⟨⟨tip, htip, -, -, hlen⟩, hread⟩ :=
      h.page hcompact hdefault hmax hputs hrun hfin
    have hgrow := storage_grows J svc chain hrun
    have hend : Ready R (sys.storage chain) :=
      storage_run (LawfulPut R) (fun s p h hp => h.put hp) h.ready hputs hrun
    rw [← Option.some.inj hsys]
    refine ⟨⟨hend, ?_, h.start_eq, h.floor_le, ?_⟩, _, rfl, hread⟩
    · exact (hgrow.minHeight_eq h.ready.isEmpty).trans h.floor_eq
    · have hnext := h.next_le
      have htip' := (htip.bounds hrun).2
      have hmono := hgrow.maxContiguousHeight_le
      simp only [Pager.next, List.length_append] at hnext hlen ⊢
      have hsame : ((pg.request svc).storage chain).maxContiguousHeight
          = (pg.storage chain).maxContiguousHeight := rfl
      omega
  · rw [if_neg hfin] at hsys
    cases hsys

/-- The run lemma: the client stays in the window, and every line it did not have
    was read in some page at the height it stands for. -/
theorem Paging.run {floor start : Nat} {pg pg' : Pager} (h : Paging R chain floor start pg)
    (hcompact : Compact R) (hdefault : svc.get none = some chain) (hmax : 1 ≤ svc.maxBlocks)
    {pages : List (List Action)}
    (hputs : ∀ page ∈ pages, ∀ a ∈ page, ActionOk (LawfulPut R) a)
    (hrun : Run.exec (pageStep J svc) pg pages = some pg') :
    Paging R chain floor start pg' ∧ ∀ j line, pg'.received[j]? = some line →
      pg.received[j]? = some line ∨ ∃ before page after mid, pages = before ++ page :: after ∧
        Run.exec (pageStep J svc) pg before = some mid ∧
        ReadAt J svc (mid.request svc) page chain (start + j) line := by
  induction pages generalizing pg with
  | nil =>
      rw [← Option.some.inj hrun]
      exact ⟨h, fun j line hj => Or.inl hj⟩
  | cons page rest ih =>
      obtain ⟨pg1, hstep, hrest⟩ := Run.exec_cons hrun
      obtain ⟨h1, lines, happend, hread⟩ :=
        h.step hcompact hdefault hmax (hputs page (List.mem_cons_self ..)) hstep
      obtain ⟨hend, hlater⟩ :=
        ih h1 (fun p hp => hputs p (List.mem_cons_of_mem _ hp)) hrest
      refine ⟨hend, ?_⟩
      intro j line hj
      rcases hlater j line hj with hold | ⟨before, page', after, mid, rfl, hmid, hat⟩
      · rw [happend] at hold
        by_cases hlt : j < pg.received.length
        · rw [List.getElem?_append_left hlt] at hold
          exact Or.inl hold
        · -- the line is one of this page
          rw [List.getElem?_append_right (Nat.le_of_not_lt hlt)] at hold
          have hheight : pg.next + (j - pg.received.length) = start + j := by
            rw [Pager.next, h.start_eq]
            omega
          have hat := hread _ line hold
          rw [hheight] at hat
          exact Or.inr ⟨[], page, rest, pg, rfl, rfl, hat⟩
      · exact Or.inr ⟨page :: before, page', after, mid, rfl, Run.exec_step hstep hmid, hat⟩

/-- **Bulk export serves what it promises, and paging covers the range.** -/
theorem blocks_response_and_paging (R : RawReader J) (hcompact : Compact R) {svc : Service}
    (hmax : 1 ≤ svc.maxBlocks) (storage : Chain → Storage) :
    (∀ query as sys,
      (∀ range chain, Names svc query range chain → Ready R (storage chain)) →
      (∀ a ∈ as, ActionOk (LawfulPut R) a) →
      Run.exec (step J svc) (System.start svc storage query) as = some sys →
      Response J svc storage query as sys) ∧
    (∀ chain start pages pg, svc.get none = some chain → Ready R (storage chain) →
      (storage chain).minHeight ≤ start → start ≤ (storage chain).maxContiguousHeight →
      (∀ page ∈ pages, ∀ a ∈ page, ActionOk (LawfulPut R) a) →
      Run.exec (pageStep J svc) ⟨storage, start, []⟩ pages = some pg →
      Paged J R svc chain ⟨storage, start, []⟩ pages pg) := by
  refine ⟨fun query as sys => response hcompact, ?_⟩
  intro chain start pages pg hdefault hready hlo hhi hputs hrun
  have hinit : Paging R chain (storage chain).minHeight start ⟨storage, start, []⟩ :=
    ⟨hready, rfl, rfl, hlo, Nat.le_succ_of_le hhi⟩
  obtain ⟨hend, hlines⟩ := hinit.run hcompact hdefault hmax hputs hrun
  refine ⟨?_, ?_⟩
  · intro j line hj
    rcases hlines j line hj with hold | hread
    · cases hold
    · exact hread
  · intro page sys hpage hsys hfin
    exact (hend.page hcompact hdefault hmax hpage hsys hfin).1

end Pages

/-! ## A client of a store with one block -/

theorem newline_not_mem_joinComma {es : List Bytes} (h : ∀ e ∈ es, newlineByte ∉ e) :
    newlineByte ∉ joinComma es := by
  induction es using joinComma.induct with
  | case1 => exact List.not_mem_nil
  | case2 e => exact h e (List.mem_singleton_self _)
  | case3 e e' rest ih =>
      rw [joinComma, List.mem_append, List.mem_cons]
      rintro (hmem | heq | hmem)
      · exact h e (List.mem_cons_self ..) hmem
      · exact absurd heq (by decide)
      · exact ih (fun x hx => h x (List.mem_cons_of_mem _ hx)) hmem

theorem newline_not_mem_arrayText {es : List Bytes} (h : ∀ e ∈ es, newlineByte ∉ e) :
    newlineByte ∉ arrayText es := by
  rw [arrayText, List.mem_cons, List.mem_append, List.mem_singleton]
  rintro (heq | hmem | heq)
  · exact absurd heq (by decide)
  · exact newline_not_mem_joinComma h hmem
  · exact absurd heq (by decide)

/-- Printed values without a newline. -/
def compactReader : RawReader JsonText.spacedCodec where
  IsValue e := JsonText.IsPrinted e ∧ newlineByte ∉ e
  rawValue_spaced he hbefore hafter :=
    JsonText.spacedReader.rawValue_spaced he.1 hbefore hafter
  rawArray_join hes := JsonText.spacedReader.rawArray_join fun e he => (hes e he).1
  isValue_join hes :=
    ⟨JsonText.spacedReader.isValue_join fun e he => (hes e he).1,
      newline_not_mem_arrayText fun e he => (hes e he).2⟩

theorem compact_compactReader : Compact compactReader := fun _ h => h.2

theorem lawfulPut_compact {height : Nat} (h : height < u64Max) :
    LawfulPut compactReader (NeveRangeReplay.samplePut height) := by
  refine ⟨?_, h⟩
  intro e he
  rcases List.mem_cons.mp he with rfl | he
  · exact ⟨isPrinted_object, by decide⟩
  · rw [List.mem_singleton.mp he]
    exact ⟨isPrinted_empty_array, by decide⟩

/-- A store of the heights 5 and 6. -/
def twoBlocks : Storage :=
  (NeveRangeReplay.sampleStore.put .none 6 (Vector.replicate 32 1) [] [[123, 125], EMPTY_ARRAY]).2

theorem ready_twoBlocks : Ready compactReader twoBlocks where
  lawful := ((lawfulStore_fresh memory .C none).put (p := NeveRangeReplay.samplePut 5)
    (lawfulPut_compact (by decide))).put (p := NeveRangeReplay.samplePut 6)
      (lawfulPut_compact (by decide))
  floor := ⟨_, rfl, by decide⟩

/-- The C-chain alone, two blocks a request. -/
def sampleService : Service := ⟨[.C], 2⟩

/-- Nothing is written while the request is answered. -/
def samplePage : List Action := List.replicate 7 .handler

theorem ActionOk.replicate_handler {lawful : Put → Prop} (n : Nat) :
    ∀ a ∈ List.replicate n Action.handler, ActionOk lawful a := by
  intro a ha
  rw [(List.mem_replicate.mp ha).2]
  exact trivial

/-- The first page has both blocks there are. -/
theorem blocks_response_and_paging_sample :
    ∃ pg, Run.exec (pageStep JsonText.spacedCodec sampleService)
        ⟨fun _ => twoBlocks, 5, []⟩ [samplePage] = some pg ∧
      pg.received.length = 2 ∧
      Paged JsonText.spacedCodec compactReader sampleService .C
        ⟨fun _ => twoBlocks, 5, []⟩ [samplePage] pg := by
  obtain ⟨hresponse, hpaging⟩ := blocks_response_and_paging compactReader
    compact_compactReader (show 1 ≤ sampleService.maxBlocks by decide)
    (fun _ => twoBlocks)
  have hdefault : sampleService.get none = some .C := by decide
  have hlo : twoBlocks.minHeight ≤ 5 := by decide
  have hhi : 5 ≤ twoBlocks.maxContiguousHeight := by decide
  obtain ⟨sys, hrun⟩ := exec_total JsonText.spacedCodec sampleService
    (System.start sampleService (fun _ => twoBlocks) (queryFrom 5)) samplePage
  have hfin : sys.handler.phase.finished = true :=
    (hresponse _ _ _ (fun _ _ _ => ready_twoBlocks) (ActionOk.replicate_handler 7) hrun).finishes
      (by decide)
  -- before anything is received, the next request is the first page
  have hfirst := hpaging .C 5 [] _ hdefault ready_twoBlocks hlo hhi
    (fun page hpage => (by cases hpage)) (Run.exec_nil _)
  obtain ⟨tip, hat, -, -, hlen⟩ :=
    hfirst.next_page samplePage sys (ActionOk.replicate_handler 7) hrun hfin
  have hge : 6 ≤ tip :=
    (show 6 ≤ twoBlocks.maxContiguousHeight by decide).trans (hat.bounds hrun).1
  have hpage : Run.exec (pageStep JsonText.spacedCodec sampleService)
      ⟨fun _ => twoBlocks, 5, []⟩ [samplePage]
      = some ⟨sys.storage, 5, linesOf sys.handler.body⟩ := by
    refine Run.exec_step ?_ (Run.exec_nil _)
    refine Option.bind_eq_some_iff.mpr ⟨sys, hrun, ?_⟩
    rw [if_pos hfin]
    rfl
  refine ⟨_, hpage, ?_, hpaging .C 5 [samplePage] _ hdefault ready_twoBlocks hlo hhi ?_ hpage⟩
  · rw [hlen]
    show min 2 (tip + 1 - 5) = 2
    omega
  · intro page hmem
    rw [List.mem_singleton.mp hmem]
    exact ActionOk.replicate_handler 7

end NeveBulk
