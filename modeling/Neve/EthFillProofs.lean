import Neve.LogsSourcesProofs
import Neve.LogsProvenanceProofs
import Neve.RunProofs

/-! # The C-chain's range fill — an exact prefix with the right logs

    A range fill keeps several fetches in flight and consumes their outcomes in
    height order, while the ingest task writes to the same store.  A call is
    followed from the moment it is made, whatever the instance then holds: its
    own window reply, the receipts it received, the heights it consumed and
    the blocks it handed to the store stand beside the instance.

    However the steps interleave, the consumed heights are a gapless prefix of
    the range and every logs element written is that height's part of the
    call's own reply (`fill_range_exact`). -/

namespace NeveEthInstance

open JsonValue NeveRecord NeveStorage NeveEthIngest NeveEthBackfill NeveFrontier
open Outcome

/-! ## A call and what it does -/

/-- A block handed to the store: the height, the block and the logs element,
    what the store held there before and after, and whether it went through. -/
structure FillWrite where
  height : Nat
  block : Value
  logs : Bytes
  before : Option Bytes
  after : Option Bytes
  ok : Bool

structure FillCall where
  inst : Instance
  window : Option Value
  receipts : List LogsReply
  consumed : List Nat
  failing : Option Nat
  writes : List FillWrite

/-- The value a call returned, once it is back at the top of the loop. -/
def Instance.returned (i : Instance) : Option Bool :=
  match i.phase with
  | .top => i.iterations.head?.map fun it => it.sleep.isNone
  | _ => none

def Action.isBackfill : Action → Bool
  | .backfill _ => true
  | .ingest _ => false

section Fill

variable (J : Codec) (cfg : IngestCfg)

/-- Fill the heights from `a` to `b`: the window first when there is one. -/
def Instance.fillRange (i : Instance) (a b tip : Nat) : Instance :=
  if cfg.windowed then { i with phase := .loading a b tip } else i.fillFrom a b tip a []

def FillCall.start (i : Instance) (a b tip : Nat) : FillCall where
  inst := i.fillRange cfg a b tip
  window := none
  receipts := []
  consumed := []
  failing := none
  writes := []

/-- The block the outcome at the cursor hands to the store, if any. -/
def fillWrite (i i' : Instance) (outcome : Option (Option Fetched)) : List FillWrite :=
  match outcome with
  | some (some (.Block height block logs)) =>
      [⟨height, block, (logsHalf J cfg i.logs height logs).1, i.storage.rawAt height,
        i'.storage.rawAt height, i'.returned != some false⟩]
  | _ => []

/-- The call after the outcome at the cursor was consumed. -/
def FillCall.next (c : FillCall) (i' : Instance) (cursor : Nat)
    (fetched : List (Nat × Option Fetched)) : FillCall :=
  { c with
    inst := i'
    consumed := if i'.returned = some false then c.consumed else cursor :: c.consumed
    failing := if i'.returned = some false then some cursor else c.failing
    writes := fillWrite J cfg c.inst i' (fetched.lookup cursor) ++ c.writes }

/-- The call after a step of the instance. -/
def FillCall.after (c : FillCall) (i' : Instance) : Action → FillCall
  | .backfill (.loadRange result) => { c with inst := i', window := fetchRpc result }
  | .backfill (.fetch height _ receipts) =>
      { c with
        inst := i'
        receipts := receiptsReply J cfg c.inst.storage height receipts ++ c.receipts }
  | .backfill (.nextFetched _) =>
      match c.inst.phase with
      | .filling _ _ _ cursor fetched => c.next J cfg i' cursor fetched
      | _ => { c with inst := i' }
  | _ => { c with inst := i' }

/-- A step of either task while the call runs; once it returned only the ingest
    task goes on. -/
def fillStep (c : FillCall) (a : Action) : Option FillCall :=
  if a.isBackfill ∧ c.inst.returned.isSome then none
  else (step J cfg c.inst a).map fun i' => c.after J cfg i' a

end Fill

/-! ## What a call keeps -/

section Calls

variable {J : Codec} {cfg : IngestCfg} {a b : Nat}

/-- The logs element of a height came from this call: its part of the window
    reply, in reply order, or its own receipts. -/
def OwnLogs (J : Codec) (cfg : IngestCfg) (window : Option Value) (receipts : List LogsReply)
    (height : Nat) (bytes : Bytes) : Prop :=
  (cfg.ingestLogs = false → bytes = EMPTY_ARRAY)
  ∧ (cfg.windowed = true → ∃ reply, window = some reply
    ∧ bytes = J.toVec (.array (logsNaming height (reply.asArray.getD []))))
  ∧ (cfg.perHeightLogs = true → ∃ reply, .receipts height reply ∈ receipts
    ∧ bytes = J.toVec (logsFromReceipts reply))

structure FillWrite.Sound (J : Codec) (cfg : IngestCfg) (window : Option Value)
    (receipts : List LogsReply) (a b : Nat) (w : FillWrite) : Prop where
  ge : a ≤ w.height
  le : w.height ≤ b
  kept : w.after = w.before ∨ w.after = some (encode [J.toVec w.block, w.logs])
  stored : w.ok = true → w.after = some (encode [J.toVec w.block, w.logs])
  logs : OwnLogs J cfg window receipts w.height w.logs

/-- The outcomes waiting to be consumed: skips of stored heights, and blocks of
    their own height, with logs of their own receipts where logs come that way. -/
def Waiting (cfg : IngestCfg) (s : Storage) (receipts : List LogsReply)
    (fetched : List (Nat × Option Fetched)) : Prop :=
  ∀ height f, (height, some f) ∈ fetched →
    (f = .Skip ∧ s.Has height) ∨ ∃ v logs, f = .Block height v logs ∧
      if cfg.perHeightLogs then
        ∃ reply, .receipts height reply ∈ receipts ∧ logs = some (logsFromReceipts reply)
      else logs = none

/-- Where the call is, and what it consumed by then. -/
def PhaseFill (cfg : IngestCfg) (a b : Nat) (c : FillCall) : Prop :=
  match c.inst.phase with
  | .loading next stop _ =>
      next = a ∧ stop = b ∧ cfg.windowed = true ∧ c.window = none ∧ c.consumed = []
        ∧ c.writes = [] ∧ c.failing = none
  | .filling next stop _ cursor fetched =>
      next = a ∧ stop = b ∧ cursor = a + c.consumed.length ∧ cursor ≤ b
        ∧ Waiting cfg c.inst.storage c.receipts fetched
        ∧ (∀ w ∈ c.writes, w.height < cursor)
        ∧ (cfg.windowed = true → ∃ reply, c.window = some reply
          ∧ c.inst.logs = LogWindow.load reply)
  | .top =>
      (c.inst.returned = some true ∧ b < a + c.consumed.length)
      ∨ (c.inst.returned = some false ∧
        ((cfg.windowed = true ∧ c.window = none ∧ c.failing = none ∧ c.writes = [])
        ∨ (c.failing = some (a + c.consumed.length) ∧ a + c.consumed.length ≤ b)))
  | _ => False

structure Filled (J : Codec) (cfg : IngestCfg) (a b : Nat) (c : FillCall) : Prop where
  consumed : ∀ last, c.consumed.head? = some last → last + 1 = a + c.consumed.length
  present : ∀ k, a ≤ k → k < a + c.consumed.length → c.inst.storage.Has k
  writes : c.writes.Pairwise fun later earlier => earlier.height < later.height
  sound : ∀ w ∈ c.writes, w.Sound J cfg c.window c.receipts a b
  phase : PhaseFill cfg a b c

theorem returned_top {i : Instance} {value : Bool} (h : i.returned = some value) :
    i.phase = .top := by
  rw [Instance.returned] at h
  cases hp : i.phase with
  | top => rfl
  | _ =>
      rw [hp] at h
      cases h

theorem fillFrom_returned (i : Instance) (next stop target cursor : Nat)
    (fetched : List (Nat × Option Fetched)) :
    (i.fillFrom next stop target cursor fetched).returned
      = if stop < cursor then some true else none := by
  rw [Instance.fillFrom]
  by_cases hend : stop < cursor
  · rw [if_pos hend, if_pos hend]
    rfl
  · rw [if_neg hend, if_neg hend]
    rfl

theorem fillFrom_storage (i : Instance) (next stop target cursor : Nat)
    (fetched : List (Nat × Option Fetched)) :
    (i.fillFrom next stop target cursor fetched).storage = i.storage := by
  rw [Instance.fillFrom]
  by_cases hend : stop < cursor
  · rw [if_pos hend]
    rfl
  · rw [if_neg hend]

theorem OwnLogs.mono {window : Option Value} {receipts receipts' : List LogsReply}
    {height : Nat} {bytes : Bytes} (h : OwnLogs J cfg window receipts height bytes)
    (hsub : ∀ r ∈ receipts, r ∈ receipts') : OwnLogs J cfg window receipts' height bytes := by
  refine ⟨h.1, h.2.1, ?_⟩
  intro hper
  obtain ⟨reply, hmem, hbytes⟩ := h.2.2 hper
  exact ⟨reply, hsub _ hmem, hbytes⟩

theorem FillWrite.Sound.mono {window : Option Value} {receipts receipts' : List LogsReply}
    {w : FillWrite} (h : w.Sound J cfg window receipts a b)
    (hsub : ∀ r ∈ receipts, r ∈ receipts') : w.Sound J cfg window receipts' a b :=
  ⟨h.ge, h.le, h.kept, h.stored, h.logs.mono hsub⟩

theorem Waiting.mono {s s' : Storage} {receipts receipts' : List LogsReply}
    {fetched : List (Nat × Option Fetched)} (h : Waiting cfg s receipts fetched)
    (hhas : ∀ k, s.Has k → s'.Has k) (hsub : ∀ r ∈ receipts, r ∈ receipts') :
    Waiting cfg s' receipts' fetched := by
  intro height f hmem
  rcases h height f hmem with ⟨hskip, hheld⟩ | ⟨v, logs, hblock, hlogs⟩
  · exact Or.inl ⟨hskip, hhas height hheld⟩
  · refine Or.inr ⟨v, logs, hblock, ?_⟩
    by_cases hper : cfg.perHeightLogs = true
    · rw [if_pos hper] at hlogs ⊢
      obtain ⟨reply, hreply, heq⟩ := hlogs
      exact ⟨reply, hsub _ hreply, heq⟩
    · rw [if_neg hper] at hlogs ⊢
      exact hlogs

/-- The bucket of a height in a freshly loaded window. -/
theorem bucket_load_reply (reply : Value) (height : Nat) :
    (LogWindow.load reply).bucket height = logsNaming height (reply.asArray.getD []) := by
  cases reply with
  | array items => exact bucket_load items height
  | _ => rfl

/-- The logs half a block is written with is the call's own. -/
theorem ownLogs_logsHalf {window : Option Value} {receipts : List LogsReply} {w : LogWindow}
    {height : Nat} {logs : Option Value}
    (hlogs : if cfg.perHeightLogs then
        ∃ reply, .receipts height reply ∈ receipts ∧ logs = some (logsFromReceipts reply)
      else logs = none)
    (hwindow : cfg.windowed = true → ∃ reply, window = some reply ∧
      w = LogWindow.load reply) :
    OwnLogs J cfg window receipts height (logsHalf J cfg w height logs).1 := by
  refine ⟨?_, ?_, ?_⟩
  · intro hoff
    simp only [logsHalf, hoff]
  · intro hw
    obtain ⟨reply, hreply, rfl⟩ := hwindow hw
    obtain ⟨hon, hsource⟩ := Bool.and_eq_true_iff.mp hw
    have hsource : cfg.logsSource = .GetLogs := of_decide_eq_true hsource
    have hper : ¬cfg.perHeightLogs = true := by
      rw [IngestCfg.perHeightLogs, hsource]
      simp
    rw [if_neg hper] at hlogs
    refine ⟨reply, hreply, ?_⟩
    rw [hlogs]
    simp only [logsHalf, hon]
    rw [serialized_eq, bucket_load_reply]
  · intro hper
    rw [if_pos hper] at hlogs
    obtain ⟨reply, hreply, rfl⟩ := hlogs
    obtain ⟨hon, -⟩ := Bool.and_eq_true_iff.mp hper
    refine ⟨reply, hreply, ?_⟩
    simp only [logsHalf, hon]
    rfl

/-! ## Steps -/

/-- Going on at the cursor, or past the end of the range. -/
theorem phaseFill_fillFrom {c : FillCall} {i : Instance} {target cursor : Nat}
    {fetched : List (Nat × Option Fetched)}
    (hinst : c.inst = i.fillFrom a b target cursor fetched)
    (hcursor : cursor = a + c.consumed.length)
    (hwaiting : Waiting cfg i.storage c.receipts fetched)
    (hbelow : ∀ w ∈ c.writes, w.height < cursor)
    (hwindow : cfg.windowed = true → ∃ reply, c.window = some reply
      ∧ i.logs = LogWindow.load reply) : PhaseFill cfg a b c := by
  have hreturned := fillFrom_returned i a b target cursor fetched
  rw [← hinst] at hreturned
  by_cases hend : b < cursor
  · rw [if_pos hend] at hreturned
    have hphase : c.inst.phase = .top := by
      rw [hinst, Instance.fillFrom, if_pos hend]
      rfl
    rw [PhaseFill, hphase]
    exact Or.inl ⟨hreturned, by omega⟩
  · have hfilling : c.inst = { i with phase := .filling a b target cursor fetched } := by
      rw [hinst, Instance.fillFrom, if_neg hend]
    have hphase : c.inst.phase = .filling a b target cursor fetched := by rw [hfilling]
    rw [PhaseFill, hphase, hfilling]
    exact ⟨rfl, rfl, hcursor, Nat.le_of_not_lt hend, hwaiting, hbelow, hwindow⟩

theorem waiting_nil (s : Storage) (receipts : List LogsReply) : Waiting cfg s receipts [] := by
  intro height f hmem
  cases hmem

theorem Filled.start (i : Instance) (tip : Nat) :
    Filled J cfg a b (FillCall.start cfg i a b tip) := by
  refine ⟨(fun last h => by cases h), fun k hlo hhi => absurd hhi (Nat.not_lt.mpr hlo),
    List.Pairwise.nil, (fun w hw => by cases hw), ?_⟩
  by_cases hw : cfg.windowed = true
  · have hphase : (FillCall.start cfg i a b tip).inst.phase = .loading a b tip := by
      rw [FillCall.start, Instance.fillRange, if_pos hw]
    rw [PhaseFill, hphase]
    exact ⟨rfl, rfl, hw, rfl, rfl, rfl, rfl⟩
  · have hinst : (FillCall.start cfg i a b tip).inst = i.fillFrom a b tip a [] := by
      show i.fillRange cfg a b tip = _
      rw [Instance.fillRange, if_neg hw]
    exact phaseFill_fillFrom hinst rfl (waiting_nil _ _) (fun w hw => by cases hw)
      (fun hwindow => absurd hwindow hw)

/-- A step of the ingest task adds to the store and leaves the call alone. -/
theorem Filled.ingest {c : FillCall} {i' : Instance} {x : IngestAction}
    (h : Filled J cfg a b c) (hstep : ingestStep J cfg c.inst x = some i') :
    Filled J cfg a b { c with inst := i' } := by
  have heff := ingestStep_effect hstep
  have hhas : ∀ k, c.inst.storage.Has k → i'.storage.Has k := by
    rcases heff.storage with hsame | ⟨height, -, hwrote⟩
    · rw [hsame]
      exact fun k hk => hk
    · exact hwrote.grows.has
  have hreturned : i'.returned = c.inst.returned := by
    rw [Instance.returned, Instance.returned, heff.phase, heff.iterations]
  refine ⟨h.consumed, fun k hlo hhi => hhas k (h.present k hlo hhi), h.writes, h.sound, ?_⟩
  have hphase := h.phase
  simp only [PhaseFill, heff.phase, heff.logs, hreturned] at hphase ⊢
  cases hp : c.inst.phase with
  | filling next stop target cursor fetched =>
      rw [hp] at hphase
      obtain ⟨hnext, hstop, hcursor, hle, hwaiting, hbelow, hwindow⟩ := hphase
      exact ⟨hnext, hstop, hcursor, hle, hwaiting.mono hhas fun r hr => hr, hbelow, hwindow⟩
  | _ =>
      rw [hp] at hphase
      exact hphase

/-- The window reply, or its failure. -/
theorem Filled.loadRange {c : FillCall} {i' : Instance} {result : Option Value}
    (h : Filled J cfg a b c)
    (hstep : backfillStep J cfg c.inst (.loadRange result) = some i') :
    Filled J cfg a b { c with inst := i', window := fetchRpc result } := by
  have hphase := h.phase
  have hnone : c.writes = [] → ∀ w : FillWrite, w ∉ c.writes := by
    intro hwrites w hw
    rw [hwrites] at hw
    cases hw
  cases backfillStep_turn hstep with
  | unanswered _ next stop target hp hlogs =>
      simp only [PhaseFill, hp] at hphase
      obtain ⟨rfl, rfl, hwindowed, -, hconsumed, hwrites, hfailing⟩ := hphase
      exact ⟨h.consumed, h.present, h.writes, fun w hw => absurd hw (hnone hwrites w),
        Or.inr ⟨rfl, Or.inl ⟨hwindowed, hlogs, hfailing, hwrites⟩⟩⟩
  | loaded _ logs next stop target hp hlogs =>
      simp only [PhaseFill, hp] at hphase
      obtain ⟨rfl, rfl, hwindowed, -, hconsumed, hwrites, hfailing⟩ := hphase
      refine ⟨h.consumed, ?_, h.writes, fun w hw => absurd hw (hnone hwrites w), ?_⟩
      · intro k hlo hhi
        rw [fillFrom_storage]
        exact h.present k hlo hhi
      · refine phaseFill_fillFrom rfl ?_ (waiting_nil _ _)
          (fun w hw => absurd hw (hnone hwrites w)) (fun _ => ⟨logs, hlogs, rfl⟩)
        show next = next + c.consumed.length
        rw [hconsumed]
        rfl

/-- An outcome of the fetch stage. -/
theorem Filled.fetch {c : FillCall} {i' : Instance} {height : Nat}
    {block receipts : Option Value} (h : Filled J cfg a b c)
    (hstep : backfillStep J cfg c.inst (.fetch height block receipts) = some i') :
    Filled J cfg a b { c with
      inst := i'
      receipts := receiptsReply J cfg c.inst.storage height receipts ++ c.receipts } := by
  have hphase := h.phase
  cases backfillStep_turn hstep with
  | fetched _ _ _ next stop target cursor outcomes hp _ _ _ _ =>
      simp only [PhaseFill, hp] at hphase
      obtain ⟨hnext, hstop, hcursor, hle, hwaiting, hbelow, hwindow⟩ := hphase
      have hsub : ∀ r ∈ c.receipts,
          r ∈ receiptsReply J cfg c.inst.storage height receipts ++ c.receipts :=
        fun r hr => List.mem_append_right _ hr
      refine ⟨h.consumed, h.present, h.writes, fun w hw => (h.sound w hw).mono hsub, ?_⟩
      refine ⟨hnext, hstop, hcursor, hle, ?_, hbelow, hwindow⟩
      intro k f hmem
      -- the new outcome, or one that waited before
      rcases List.mem_cons.mp hmem with hhead | hmem
      · obtain ⟨rfl, hf⟩ := Prod.mk.inj hhead
        rcases fetchOne_cases hf.symm with hskip | ⟨v, logs, rfl, -, hlogs⟩
        · exact Or.inl hskip
        -- its logs came with the receipts just fetched, or come with the window
        · refine Or.inr ⟨v, logs, rfl, ?_⟩
          by_cases hper : cfg.perHeightLogs = true
          · rw [if_pos hper] at hlogs ⊢
            obtain ⟨r, hr, heq⟩ := hlogs
            have hmem := NeveLogsProvenance.mem_receiptsReply hf.symm hper hr
            exact ⟨r, List.mem_append_left _ hmem, heq⟩
          · rw [if_neg hper] at hlogs ⊢
            exact hlogs
      · exact hwaiting.mono (fun _ hk => hk) hsub k f hmem

/-- What a put of a block leaves at its height. -/
theorem persistBackfilled_rawAt (s : Storage) (fault : Fault) (height : Nat) (block : Value)
    (logs : Bytes) :
    let out := persistBackfilled J s fault height block logs
    (out.2.rawAt height = s.rawAt height
      ∨ out.2.rawAt height = some (encode [J.toVec block, logs]))
    ∧ (out.1 = .ok () → out.2.rawAt height = some (encode [J.toVec block, logs])) := by
  intro out
  have hout : out = persistBackfilled J s fault height block logs := rfl
  rw [persistBackfilled] at hout
  cases hhash : (block.get "hash").bind Value.asStr with
  | none =>
      rw [hhash] at hout
      rw [hout]
      exact ⟨Or.inl rfl, fun h => by cases h⟩
  | some bodyHash =>
      rw [hhash] at hout
      dsimp only at hout
      cases hdecode : decodeHash bodyHash with
      | error e =>
          rw [hdecode] at hout
          rw [hout]
          exact ⟨Or.inl rfl, fun h => by cases h⟩
      | ok hash =>
          rw [hdecode] at hout
          dsimp only at hout
          have heff := s.put_effect fault height hash (extractTxHashes block)
            [J.toVec block, logs]
          rw [← hout] at heff
          clear hout
          obtain ⟨result, s'⟩ := out
          dsimp only at heff ⊢
          -- refused, written without its index, or done
          cases heff with
          | refused e s1 _ hr => exact ⟨Or.inl (hr height), fun h => by cases h⟩
          | unindexed e s1 _ _ _ hr =>
              refine ⟨Or.inr ?_, fun h => by cases h⟩
              rw [hr height, if_pos rfl]
          | done s1 _ _ hr =>
              have hstored : (s1.putIndex height hash (extractTxHashes block)).rawAt height
                  = some (encode [J.toVec block, logs]) := by
                rw [Storage.rawAt_putIndex, hr height, if_pos rfl]
              exact ⟨Or.inr hstored, fun _ => hstored⟩

/-- The block handed over at the cursor, if one is, comes after all before. -/
theorem Filled.handOver {c : FillCall} {cursor : Nat} {ws : List FillWrite}
    (h : Filled J cfg a b c) (hbelow : ∀ w ∈ c.writes, w.height < cursor)
    (hws : ws = [] ∨ ∃ w, ws = [w] ∧ w.height = cursor
      ∧ w.Sound J cfg c.window c.receipts a b) :
    ((ws ++ c.writes).Pairwise fun later earlier => earlier.height < later.height)
      ∧ (∀ w ∈ ws ++ c.writes, w.Sound J cfg c.window c.receipts a b)
      ∧ ∀ w ∈ ws ++ c.writes, w.height < cursor + 1 := by
  rcases hws with rfl | ⟨w, rfl, hheight, hsound⟩
  · exact ⟨h.writes, h.sound, fun w hw => Nat.lt_succ_of_lt (hbelow w hw)⟩
  · refine ⟨List.pairwise_cons.mpr ⟨?_, h.writes⟩, ?_, ?_⟩
    · intro earlier hearlier
      rw [hheight]
      exact hbelow earlier hearlier
    · intro x hx
      rcases List.mem_cons.mp hx with rfl | hx
      · exact hsound
      · exact h.sound x hx
    · intro x hx
      rcases List.mem_cons.mp hx with rfl | hx
      · omega
      · exact Nat.lt_succ_of_lt (hbelow x hx)

/-- The run goes on past the cursor, where the height is stored by now. -/
theorem Filled.advance {c : FillCall} {i i' : Instance} {target cursor : Nat}
    {fetched : List (Nat × Option Fetched)} (h : Filled J cfg a b c)
    (hcursor : cursor = a + c.consumed.length)
    (hwaiting : Waiting cfg c.inst.storage c.receipts fetched)
    (hbelow : ∀ w ∈ c.writes, w.height < cursor)
    (hwindow : cfg.windowed = true → ∃ reply, c.window = some reply
      ∧ c.inst.logs = LogWindow.load reply)
    (hi' : i' = i.fillFrom a b target (cursor + 1) fetched) (hlogs : i.logs = c.inst.logs)
    (hgrows : ∀ k, c.inst.storage.Has k → i.storage.Has k) (hhas : i.storage.Has cursor)
    (hws : fillWrite J cfg c.inst i' (fetched.lookup cursor) = []
      ∨ ∃ w, fillWrite J cfg c.inst i' (fetched.lookup cursor) = [w] ∧ w.height = cursor
        ∧ w.Sound J cfg c.window c.receipts a b) :
    Filled J cfg a b (c.next J cfg i' cursor fetched) := by
  obtain ⟨hpairwise, hsound, hbelow'⟩ := h.handOver hbelow hws
  -- the run goes on, or comes to its end with every height stored
  have hreturned : i'.returned ≠ some false := by
    rw [hi', fillFrom_returned]
    by_cases hend : b < cursor + 1
    · rw [if_pos hend]
      exact fun heq => by cases heq
    · rw [if_neg hend]
      exact fun heq => by cases heq
  have hconsumed : (c.next J cfg i' cursor fetched).consumed = cursor :: c.consumed := by
    rw [FillCall.next, if_neg hreturned]
  refine ⟨?_, ?_, hpairwise, hsound, ?_⟩
  · intro last hlast
    rw [hconsumed] at hlast ⊢
    obtain rfl := Option.some.inj hlast
    rw [List.length_cons]
    omega
  · intro k hlo hhi
    rw [hconsumed, List.length_cons] at hhi
    show i'.storage.Has k
    rw [hi', fillFrom_storage]
    -- below the cursor by what held before, at it by the height just stored
    by_cases hk : k < a + c.consumed.length
    · exact hgrows k (h.present k hlo hk)
    · rw [show k = cursor by omega]
      exact hhas
  · refine phaseFill_fillFrom hi' ?_ (hwaiting.mono hgrows fun r hr => hr) hbelow'
      (fun hw => hlogs ▸ hwindow hw)
    rw [hconsumed, List.length_cons]
    omega

/-- The run stops at the cursor. -/
theorem Filled.stop {c : FillCall} {i i' : Instance} {cursor : Nat}
    {fetched : List (Nat × Option Fetched)} (h : Filled J cfg a b c)
    (hcursor : cursor = a + c.consumed.length) (hle : cursor ≤ b)
    (hbelow : ∀ w ∈ c.writes, w.height < cursor) (hi' : i' = i.endIteration (some .backoff))
    (hgrows : ∀ k, c.inst.storage.Has k → i.storage.Has k)
    (hws : fillWrite J cfg c.inst i' (fetched.lookup cursor) = []
      ∨ ∃ w, fillWrite J cfg c.inst i' (fetched.lookup cursor) = [w] ∧ w.height = cursor
        ∧ w.Sound J cfg c.window c.receipts a b) :
    Filled J cfg a b (c.next J cfg i' cursor fetched) := by
  obtain ⟨hpairwise, hsound, -⟩ := h.handOver hbelow hws
  have hreturned : i'.returned = some false := by
    rw [hi']
    rfl
  have hphase : i'.phase = .top := by
    rw [hi']
    rfl
  have hconsumed : (c.next J cfg i' cursor fetched).consumed = c.consumed := by
    rw [FillCall.next, if_pos hreturned]
  have hfailing : (c.next J cfg i' cursor fetched).failing = some cursor := if_pos hreturned
  refine ⟨?_, ?_, hpairwise, hsound, ?_⟩
  · rw [hconsumed]
    exact h.consumed
  · intro k hlo hhi
    rw [hconsumed] at hhi
    show i'.storage.Has k
    rw [hi']
    exact hgrows k (h.present k hlo hhi)
  · have hinst : (c.next J cfg i' cursor fetched).inst = i' := rfl
    rw [PhaseFill, hinst, hphase]
    refine Or.inr ⟨hreturned, Or.inr ?_⟩
    rw [hfailing, hconsumed, ← hcursor]
    exact ⟨rfl, hle⟩

/-- The outcome at the cursor is consumed. -/
theorem Filled.nextFetched {c : FillCall} {i' : Instance} {fault : Fault}
    {next stop target cursor : Nat} {fetched : List (Nat × Option Fetched)}
    (h : Filled J cfg a b c)
    (hp : c.inst.phase = .filling next stop target cursor fetched)
    (hstep : backfillStep J cfg c.inst (.nextFetched fault) = some i') :
    Filled J cfg a b (c.next J cfg i' cursor fetched) := by
  have hphase := h.phase
  simp only [PhaseFill, hp] at hphase
  obtain ⟨rfl, rfl, hcursor, hle, hwaiting, hbelow, hwindow⟩ := hphase
  obtain ⟨outcome, hlookup, hi'⟩ : ∃ outcome, fetched.lookup cursor = some outcome ∧
      consume J cfg c.inst next stop target cursor fetched fault outcome = i' := by
    cases backfillStep_turn hstep with
    | consumed _ _ _ _ _ _ outcome hp' hlookup =>
        obtain ⟨rfl, rfl, rfl, rfl, rfl⟩ := Phase.filling.inj (hp.symm.trans hp')
        exact ⟨outcome, hlookup, rfl⟩
  have hge : next ≤ cursor := by omega
  have hmem : (cursor, outcome) ∈ fetched := mem_of_lookup hlookup
  -- a fetch that failed ends the fill below the cursor
  cases outcome with
  | none =>
      refine h.stop hcursor hle hbelow hi'.symm (fun _ hk => hk) (Or.inl ?_)
      rw [hlookup]
      rfl
  | some f =>
      -- a height that was already stored is skipped, another is persisted
      rcases hwaiting cursor f hmem with ⟨rfl, hhas⟩ | ⟨v, logs, rfl, hlogs⟩
      · refine h.advance hcursor hwaiting hbelow hwindow hi'.symm rfl (fun _ hk => hk) hhas
          (Or.inl ?_)
        rw [hlookup]
        rfl
      · have hown : OwnLogs J cfg c.window c.receipts cursor
            (logsHalf J cfg c.inst.logs cursor logs).1 := ownLogs_logsHalf hlogs hwindow
        obtain ⟨hkept, hstored⟩ :=
          persistBackfilled_rawAt (J := J) c.inst.storage fault cursor v
          (logsHalf J cfg c.inst.logs cursor logs).1
        have hgrows := (persistBackfilled_wrote J c.inst.storage fault cursor v
          (logsHalf J cfg c.inst.logs cursor logs).1).grows.has
        rw [consume] at hi'
        cases hwrite : persistBackfilled J c.inst.storage fault cursor v
            (logsHalf J cfg c.inst.logs cursor logs).1 with
        | mk result s =>
            rw [hwrite] at hi' hkept hstored hgrows
            dsimp only at hkept hstored hgrows
            cases result with
            | error e =>
                -- the write failed: the fill stops with the store as it was at the cursor
                refine h.stop hcursor hle hbelow hi'.symm hgrows (Or.inr ?_)
                rw [hlookup]
                refine ⟨_, rfl, rfl, hge, hle, ?_, ?_, hown⟩
                · rw [← hi']
                  exact hkept
                · intro hok
                  rw [← hi'] at hok
                  cases hok
            | ok u =>
                -- the write went through: the cursor moves past a height that is stored
                have hhas : s.Has cursor := Storage.has_iff_rawAt.mpr ⟨_, hstored rfl⟩
                refine h.advance hcursor hwaiting hbelow hwindow hi'.symm rfl hgrows hhas
                  (Or.inr ?_)
                have hraw : i'.storage.rawAt cursor = s.rawAt cursor := by
                  rw [← hi']
                  exact congrArg (Storage.rawAt · cursor) (fillFrom_storage ..)
                rw [hlookup]
                refine ⟨_, rfl, rfl, hge, hle, ?_, ?_, hown⟩
                · exact hraw ▸ hkept
                · exact fun _ => hraw.trans (hstored rfl)

/-- **Step lemma.**  Whatever step either task takes, the call keeps what it
    keeps. -/
theorem Filled.step {c c' : FillCall} {x : Action} (h : Filled J cfg a b c)
    (hstep : fillStep J cfg c x = some c') : Filled J cfg a b c' := by
  rw [fillStep] at hstep
  by_cases hdone : x.isBackfill = true ∧ c.inst.returned.isSome = true
  · rw [if_pos hdone] at hstep
    cases hstep
  rw [if_neg hdone] at hstep
  obtain ⟨i', hi', rfl⟩ := Option.map_eq_some_iff.mp hstep
  cases x with
  | ingest x => exact h.ingest hi'
  | backfill x =>
      have hphase := h.phase
      -- a call that has returned takes no step of its own
      have htop : c.inst.phase ≠ .top := by
        intro hp
        rw [PhaseFill, hp] at hphase
        refine hdone ⟨rfl, ?_⟩
        rcases hphase with ⟨hret, -⟩ | ⟨hret, -⟩ <;>
        · rw [hret]
          rfl
      have hi' : backfillStep J cfg c.inst x = some i' := hi'
      cases backfillStep_turn hi' with
      | cold hp _ _ => exact absurd hp htop
      | highWater hp _ _ => exact absurd hp htop
      -- the loop's own measuring is not part of a call
      | contiguous hw hp =>
          rw [PhaseFill, hp] at hphase
          exact hphase.elim
      | decided aged response hw raw tip hp _ =>
          rw [PhaseFill, hp] at hphase
          exact hphase.elim
      | unanswered result next stop target hp hlogs => exact h.loadRange hi'
      | loaded result logs next stop target hp hlogs => exact h.loadRange hi'
      | fetched height block receipts next stop target cursor outcomes hp _ _ _ _ =>
          exact h.fetch hi'
      | consumed fault next stop target cursor outcomes outcome hp hlookup =>
          have hnext := h.nextFetched hp hi'
          generalize consume J cfg c.inst next stop target cursor outcomes fault outcome = i'
            at hnext ⊢
          have hafter : c.after J cfg i' (.backfill (.nextFetched fault))
              = c.next J cfg i' cursor outcomes := by
            simp only [FillCall.after, hp]
          rw [hafter]
          exact hnext

/-- **Run lemma.** -/
theorem Filled.run {i : Instance} {tip : Nat} {actions : List Action} {c : FillCall}
    (hrun : Run.exec (fillStep J cfg) (FillCall.start cfg i a b tip) actions = some c) :
    Filled J cfg a b c :=
  Run.exec_invariant (fun _ _ => True) (fun _ _ _ hs _ hstep => hs.step hstep)
    (Filled.start i tip) (Run.meets_true _ _) hrun

/-- **A C-chain fill is an exact prefix with the right logs.**  From any
    instance, over any range, however fetches, failures, writes and live writes
    interleave: the heights handed to the store increase and lie in the range;
    every height up to the last one consumed is stored; a call that returns
    true has stored its whole range, one that returns false everything before
    the failing height, or it failed at its window and wrote nothing.  What it
    stores at a height is the block with the logs element handed over, and with
    log ingestion on that element is the height's part of this call's window
    reply, in reply order, or its own receipts' logs. -/
theorem fill_range_exact {i : Instance} {tip : Nat} {actions : List Action} {c : FillCall}
    (hrun : Run.exec (fillStep J cfg) (FillCall.start cfg i a b tip) actions = some c) :
    (c.writes.Pairwise fun later earlier => earlier.height < later.height)
    ∧ (∀ w ∈ c.writes, a ≤ w.height ∧ w.height ≤ b)
    ∧ (∀ last, c.consumed.head? = some last → ∀ k, a ≤ k → k ≤ last →
      c.inst.storage.Has k)
    ∧ (c.inst.returned = some true → ∀ k, a ≤ k → k ≤ b → c.inst.storage.Has k)
    ∧ (c.inst.returned = some false →
      (c.failing = none ∧ cfg.windowed = true ∧ c.window = none ∧ c.writes = [])
      ∨ ∃ failing, c.failing = some failing ∧ a ≤ failing ∧ failing ≤ b
        ∧ ∀ k, a ≤ k → k < failing → c.inst.storage.Has k)
    ∧ ∀ w ∈ c.writes,
      (w.ok = true → w.after = some (encode [J.toVec w.block, w.logs]))
      ∧ (w.after = w.before ∨ w.after = some (encode [J.toVec w.block, w.logs]))
      ∧ (cfg.ingestLogs = true →
        (cfg.logsSource = .GetLogs → ∃ reply, c.window = some reply
          ∧ w.logs = J.toVec (.array (logsNaming w.height (reply.asArray.getD []))))
        ∧ (cfg.logsSource = .Receipts → ∃ reply, .receipts w.height reply ∈ c.receipts
          ∧ w.logs = J.toVec (logsFromReceipts reply))) := by
  have hfilled := Filled.run hrun
  have hphase := hfilled.phase
  refine ⟨hfilled.writes, fun w hw => ⟨(hfilled.sound w hw).ge, (hfilled.sound w hw).le⟩,
    ?_, ?_, ?_, ?_⟩
  · intro last hlast k hlo hhi
    have hnext := hfilled.consumed last hlast
    exact hfilled.present k hlo (by omega)
  -- the fill returned true: its cursor is past the last height
  · intro hret k hlo hhi
    have htop : c.inst.phase = .top := returned_top hret
    rw [PhaseFill, htop] at hphase
    rcases hphase with ⟨-, hend⟩ | ⟨hfalse, -⟩
    · exact hfilled.present k hlo (by omega)
    · rw [hret] at hfalse
      cases hfalse
  · intro hret
    have htop : c.inst.phase = .top := returned_top hret
    rw [PhaseFill, htop] at hphase
    -- the fill returned false: no window of logs, or a height that failed
    rcases hphase with ⟨htrue, -⟩ | ⟨-, ⟨hwindowed, hwindow, hfailing, hwrites⟩ |
      ⟨hfailing, hle⟩⟩
    · rw [hret] at htrue
      cases htrue
    · exact Or.inl ⟨hfailing, hwindowed, hwindow, hwrites⟩
    · exact Or.inr ⟨_, hfailing, Nat.le_add_right _ _, hle, hfilled.present⟩
  · intro w hw
    have hsound := hfilled.sound w hw
    refine ⟨hsound.stored, hsound.kept, fun hon => ⟨?_, ?_⟩⟩
    · intro hsource
      refine hsound.logs.2.1 ?_
      rw [IngestCfg.windowed, hon, hsource]
      rfl
    · intro hsource
      refine hsound.logs.2.2 ?_
      rw [IngestCfg.perHeightLogs, hon, hsource]
      rfl

end Calls

/-- The reply to a window over 5 and 6: one log at 6. -/
def windowReply : Value :=
  .array [.object [("blockNumber", .string "0x6")], .object [("blockNumber", .string "0x7")]]

def blockReply : Option Value :=
  some (.object [("hash", .string (hashText (Vector.replicate 32 0)))])

/-- Both heights fetched, the later one first, then consumed in order. -/
def fillTwo : List Action :=
  [.backfill (.loadRange (some windowReply)), .backfill (.fetch 6 blockReply none),
    .backfill (.fetch 5 blockReply none), .backfill (.nextFetched .none),
    .backfill (.nextFetched .none)]

def windowedFill : IngestCfg := ⟨true, .GetLogs, false, some 5, 2, 8⟩

/-- The call returns true and both heights are stored. -/
theorem fill_range_exact_five_six :
    ∃ c, Run.exec (fillStep JsonText.codec windowedFill)
        (FillCall.start windowedFill
          (Instance.start windowedFill (Storage.fresh memory .C (some 5))) 5 6 6) fillTwo = some c
      ∧ c.inst.returned = some true ∧ c.writes.map FillWrite.height = [6, 5]
      ∧ ∀ k, 5 ≤ k → k ≤ 6 → c.inst.storage.Has k := by
  have hrun : (Run.exec (fillStep JsonText.codec windowedFill)
      (FillCall.start windowedFill (Instance.start windowedFill (Storage.fresh memory .C (some 5)))
        5 6 6) fillTwo).map (fun c => (c.inst.returned, c.writes.map FillWrite.height))
      = some (some true, [6, 5]) := by
    rfl
  obtain ⟨c, hc, hout⟩ := Option.map_eq_some_iff.mp hrun
  obtain ⟨hret, hwrites⟩ := Prod.mk.inj hout
  exact ⟨c, hc, hret, hwrites, (fill_range_exact hc).2.2.2.1 hret⟩

end NeveEthInstance
