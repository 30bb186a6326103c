import Neve.BulkProofs
import Neve.GetLogsProofs
import Neve.SaturatingScanProofs

/-! # Range loops — how far they read

    `eth_getLogs` reads its range in chunks, a replay with an end and `GET /blocks` read
    it height by height.  Every cursor advances by a saturating sum, and the end of a
    range is compared with `≤`: a range that ends at the last height there is has no
    cursor past its end.

    The stores are those the writers leave at the loops' turns, so the reads of one
    request may see different ones. -/

namespace NeveRangeLoops

open JsonValue ByteText FirstGap NeveRecord NeveStorage NeveFrontier SaturatingScan

/-- Every height of a store is a 64-bit number. -/
def HeightsFit (s : Storage) : Prop :=
  ∀ st, s.store = some st → st.minHeight ≤ u64Max ∧ ∀ k, st.Has k → k ≤ u64Max

theorem HeightsFit.maxContiguous_le {s : Storage} (h : HeightsFit s) :
    s.maxContiguousHeight ≤ u64Max := by
  simp only [Storage.maxContiguousHeight]
  cases hst : s.store with
  | none => exact Nat.zero_le _
  | some st =>
      obtain ⟨hmin, hhas⟩ := h st hst
      have hgap := st.isFirstGap_frontier
      simp only [Option.map_some, Option.getD_some]
      by_cases hlt : st.minHeight - 1 < st.maxContiguousHeight
      · exact hhas _ (hgap.filled _ (by omega) (Nat.lt_succ_self _))
      · omega

/-! ## `eth_getLogs` -/

section GetLogs

variable (J : Codec)

/-- The heights `read_element_range` reads the records of: up to the first that does not
    give the element. -/
def heightsRead (st : Store) (idx : Nat) : List Nat → List Nat
  | [] => []
  | height :: rest =>
      height :: match st.readBlock height with
        | .error _ => []
        | .ok none => []
        | .ok (some record) =>
            match element J record idx with
            | .ok (some _) => heightsRead st idx rest
            | _ => []

/-- The heights a chunk reads. -/
def chunkReads (s : Storage) (fromHeight toHeight idx : Nat) : List Nat :=
  match s.store with
  | none => []
  | some st => heightsRead J st idx (List.range' fromHeight (toHeight + 1 - fromHeight))

/-- The chunk loop of `eth_getLogs`, with the heights it reads: chunk `turn` reads the
    store as it is then. -/
def scanLogsTraced (stores : Nat → Storage) (filter : NeveEthRpc.LogFilter) (toHeight : Nat) :
    Nat → Nat → Nat → List Value → Option (List Nat × Except String (Option Value))
  | 0, _, _, _ => none
  | fuel + 1, turn, chunkStart, out =>
      if chunkStart ≤ toHeight then
        let s := stores turn
        let last := NeveEthRpc.chunkEnd chunkStart toHeight
        match s.readElementRange J chunkStart last C_LOGS with
        | .error e => some (chunkReads J s chunkStart last C_LOGS, .error s!"storage error: {e}")
        | .ok none => some (chunkReads J s chunkStart last C_LOGS, .ok none)
        | .ok (some perHeight) =>
            match NeveEthRpc.collectLogs J filter perHeight out with
            | .error e => some (chunkReads J s chunkStart last C_LOGS, .error e)
            | .ok out =>
                (scanLogsTraced stores filter toHeight fuel (turn + 1) (saturatingAdd last 1)
                  out).map fun r => (chunkReads J s chunkStart last C_LOGS ++ r.1, r.2)
      else some ([], .ok (some (.array out)))

/-- On one store it is the loop. -/
theorem scanLogsTraced_snd (s : Storage) (filter : NeveEthRpc.LogFilter) (toHeight fuel turn
    chunkStart : Nat) (out : List Value) :
    (scanLogsTraced J (fun _ => s) filter toHeight fuel turn chunkStart out).map Prod.snd
      = NeveEthRpc.scanLogs J s filter toHeight fuel chunkStart out := by
  induction fuel generalizing turn chunkStart out with
  | zero => rfl
  | succ fuel ih =>
      rw [scanLogsTraced, NeveEthRpc.scanLogs]
      by_cases hle : chunkStart ≤ toHeight
      · rw [if_pos hle, if_pos hle]
        dsimp only
        cases s.readElementRange J chunkStart (NeveEthRpc.chunkEnd chunkStart toHeight) C_LOGS with
        | error e => rfl
        | ok found =>
            cases found with
            | none => rfl
            | some perHeight =>
                dsimp only
                cases NeveEthRpc.collectLogs J filter perHeight out with
                | error e => rfl
                | ok out' =>
                    dsimp only
                    rw [Option.map_map, ← ih (turn + 1)]
                    rfl
      · rw [if_neg hle, if_neg hle]
        rfl

/-- The height has logs that parse. -/
def LogsReadable (st : Store) (height : Nat) : Prop :=
  ∃ record bytes v, st.readBlock height = .ok (some record) ∧
    element J record C_LOGS = .ok (some bytes) ∧ J.fromSlice bytes = some v

/-- Every height from `lo` up to `hi` has. -/
def ChunkReadable (s : Storage) (lo hi : Nat) : Prop :=
  ∃ st, s.store = some st ∧ ∀ height, lo ≤ height → height < hi →
    LogsReadable J st height

end GetLogs

section Chunk

variable {J : Codec} {st : Store}

theorem heightsRead_prefix (idx : Nat) (heights : List Nat) :
    heightsRead J st idx heights <+: heights := by
  induction heights with
  | nil => exact List.prefix_rfl
  | cons height rest ih =>
      rw [heightsRead]
      refine List.prefix_cons_inj height |>.mpr ?_
      split
      · exact List.nil_prefix
      · exact List.nil_prefix
      · split
        · exact ih
        · exact List.nil_prefix

/-- A chunk that can be read is read in full, and its logs are collected. -/
theorem readElements_good (filter : NeveEthRpc.LogFilter) {heights : List Nat}
    (h : ∀ height ∈ heights, LogsReadable J st height) :
    heightsRead J st C_LOGS heights = heights ∧
    ∃ parts, Storage.readElements J st C_LOGS heights = .ok (some parts) ∧
      ∀ out, ∃ out', NeveEthRpc.collectLogs J filter parts out = .ok out' := by
  induction heights with
  | nil => exact ⟨rfl, [], rfl, fun out => ⟨out, rfl⟩⟩
  | cons height rest ih =>
      obtain ⟨record, bytes, v, hblock, helement, hv⟩ := h height (List.mem_cons_self ..)
      obtain ⟨hreads, parts, hparts, hcollect⟩ :=
        ih fun k hk => h k (List.mem_cons_of_mem _ hk)
      refine ⟨?_, bytes :: parts, ?_, ?_⟩
      · simp only [heightsRead, hblock, helement, hreads]
      · simp only [Storage.readElements, hblock, helement, hparts]
      · intro out
        obtain ⟨out', hout'⟩ := hcollect (out ++ NeveEthRpc.matchingLogs filter v)
        exact ⟨out', by simp only [NeveEthRpc.collectLogs, hv, hout']⟩

/-- A chunk with a height that cannot be read ends the loop: if all its elements are
    there, one of them does not parse. -/
theorem readElements_bad (filter : NeveEthRpc.LogFilter) {heights : List Nat}
    (h : ¬∀ height ∈ heights, LogsReadable J st height) {parts : List Bytes}
    (hparts : Storage.readElements J st C_LOGS heights = .ok (some parts)) (out : List Value) :
    ∃ e, NeveEthRpc.collectLogs J filter parts out = .error e := by
  induction heights generalizing parts out with
  | nil => exact absurd (fun _ hk => absurd hk List.not_mem_nil) h
  | cons height rest ih =>
      simp only [Storage.readElements] at hparts
      cases hblock : st.readBlock height with
      | error e =>
          rw [hblock] at hparts
          cases hparts
      | ok found =>
      cases found with
      | none =>
          rw [hblock] at hparts
          cases hparts
      | some record =>
          rw [hblock] at hparts
          dsimp only at hparts
          cases helement : element J record C_LOGS with
          | error e =>
              rw [helement] at hparts
              cases hparts
          | ok part =>
              rw [helement] at hparts
              cases part with
              | none => cases hparts
              | some bytes =>
                  dsimp only at hparts
                  cases hrest : Storage.readElements J st C_LOGS rest with
                  | error e =>
                      rw [hrest] at hparts
                      cases hparts
                  | ok found =>
                      rw [hrest] at hparts
                      cases found with
                      | none => cases hparts
                      | some more =>
                          obtain rfl : bytes :: more = parts :=
                            Option.some.inj (Except.ok.inj hparts)
                          cases hv : J.fromSlice bytes with
                          | none =>
                              -- this height's part does not decode
                              refine ⟨"stored logs decode", ?_⟩
                              simp only [NeveEthRpc.collectLogs, hv]
                          | some v =>
                              -- this one does, so the bad height is among the rest
                              have hbad : ¬∀ k ∈ rest, LogsReadable J st k := by
                                intro hall
                                refine h ?_
                                intro k hk
                                rcases List.mem_cons.mp hk with rfl | hk
                                · exact ⟨record, bytes, v, hblock, helement, hv⟩
                                · exact hall k hk
                              obtain ⟨e, he⟩ :=
                                ih hbad hrest (out ++ NeveEthRpc.matchingLogs filter v)
                              exact ⟨e, by simp only [NeveEthRpc.collectLogs, hv, he]⟩

end Chunk

/-! ### The chunks of a range -/

section Chunks

variable {J : Codec} {stores : Nat → Storage} {filter : NeveEthRpc.LogFilter} {start stop : Nat}

/-- Where chunk `k` of a range starts. -/
def chunkCursor (stop start k : Nat) : Nat :=
  cursor u64Max stop NeveEthRpc.GETLOGS_READ_CHUNK start k

/-- Chunk `k` can be read. -/
def ChunkGood (J : Codec) (stores : Nat → Storage) (stop start k : Nat) : Prop :=
  ChunkReadable J (stores k) (chunkCursor stop start k) (chunkCursor stop start (k + 1))

/-- A chunk ends where the next one starts. -/
theorem chunkEnd_cursor (hstop : stop ≤ u64Max) {k : Nat}
    (hle : chunkCursor stop start k ≤ stop) :
    NeveEthRpc.chunkEnd (chunkCursor stop start k) stop + 1 - chunkCursor stop start k
        = chunkCursor stop start (k + 1) - chunkCursor stop start k ∧
      saturatingAdd (NeveEthRpc.chunkEnd (chunkCursor stop start k) stop) 1
        = chunkCursor stop start (k + 1) := by
  have hnext : chunkCursor stop start (k + 1)
      = min (chunkCursor stop start k + 256) (min (stop + 1) u64Max) :=
    cursor_succ k hle (by decide)
  have hpos : 0 < u64Max := by decide
  rw [hnext]
  simp only [NeveEthRpc.chunkEnd, saturatingAdd, NeveEthRpc.GETLOGS_READ_CHUNK]
  generalize chunkCursor stop start k = c at hle
  generalize u64Max = top at hstop hpos
  constructor <;> omega

/-- What chunk `k` reads. -/
theorem chunkReads_prefix (hstop : stop ≤ u64Max) (s : Storage) {k : Nat}
    (hle : chunkCursor stop start k ≤ stop) :
    chunkReads J s (chunkCursor stop start k)
        (NeveEthRpc.chunkEnd (chunkCursor stop start k) stop) C_LOGS
      <+: List.range' (chunkCursor stop start k)
        (chunkCursor stop start (k + 1) - chunkCursor stop start k) := by
  simp only [chunkReads, (chunkEnd_cursor hstop hle).1]
  cases s.store with
  | none => exact List.nil_prefix
  | some st => exact heightsRead_prefix C_LOGS _

variable (filter)

/-- **A chunk that can be read** is read in full, and the loop goes on at the next. -/
theorem scan_good (hstop : stop ≤ u64Max) {k : Nat} (hle : chunkCursor stop start k ≤ stop)
    (hgood : ChunkGood J stores stop start k) (fuel : Nat) (out : List Value) :
    ∃ out', scanLogsTraced J stores filter stop (fuel + 1) k (chunkCursor stop start k) out
      = (scanLogsTraced J stores filter stop fuel (k + 1) (chunkCursor stop start (k + 1))
          out').map fun r =>
        (List.range' (chunkCursor stop start k)
          (chunkCursor stop start (k + 1) - chunkCursor stop start k) ++ r.1, r.2) := by
  obtain ⟨st, hst, hall⟩ := hgood
  obtain ⟨hlen, hnext⟩ := chunkEnd_cursor hstop hle
  have hin : ∀ height ∈ List.range' (chunkCursor stop start k)
      (chunkCursor stop start (k + 1) - chunkCursor stop start k),
      LogsReadable J st height := by
    intro height hheight
    obtain ⟨hlo, hhi⟩ := List.mem_range'_1.mp hheight
    exact hall height hlo (by omega)
  obtain ⟨hreads, parts, hparts, hcollect⟩ := readElements_good filter hin
  obtain ⟨out', hout'⟩ := hcollect out
  refine ⟨out', ?_⟩
  rw [scanLogsTraced, if_pos hle]
  simp only [Storage.readElementRange, chunkReads, hst, hlen, hparts, hout', hreads, hnext]

/-- **A chunk that cannot be read** ends the loop. -/
theorem scan_bad (hstop : stop ≤ u64Max) {k : Nat} (hle : chunkCursor stop start k ≤ stop)
    (hbad : ¬ChunkGood J stores stop start k) (fuel : Nat) (out : List Value) :
    ∃ r, scanLogsTraced J stores filter stop (fuel + 1) k (chunkCursor stop start k) out
        = some r ∧
      r.1 <+: List.range' (chunkCursor stop start k)
        (chunkCursor stop start (k + 1) - chunkCursor stop start k) := by
  have hprefix := chunkReads_prefix (J := J) hstop (stores k) hle
  rw [scanLogsTraced, if_pos hle]
  dsimp only
  cases hread : (stores k).readElementRange J (chunkCursor stop start k)
      (NeveEthRpc.chunkEnd (chunkCursor stop start k) stop) C_LOGS with
  | error e => exact ⟨_, rfl, hprefix⟩
  | ok found =>
      cases found with
      | none => exact ⟨_, rfl, hprefix⟩
      | some parts =>
          simp only [Storage.readElementRange, (chunkEnd_cursor hstop hle).1] at hread
          cases hst : (stores k).store with
          | none =>
              rw [hst] at hread
              cases hread
          | some st =>
              rw [hst] at hread
              have hnot : ¬∀ height ∈ List.range' (chunkCursor stop start k)
                  (chunkCursor stop start (k + 1) - chunkCursor stop start k),
                  LogsReadable J st height := by
                intro hall
                refine hbad ⟨st, hst, ?_⟩
                intro height hlo hhi
                exact hall height (List.mem_range'_1.mpr ⟨hlo, by omega⟩)
              obtain ⟨e, he⟩ := readElements_bad filter hnot hread out
              dsimp only
              rw [he]
              exact ⟨_, rfl, hprefix⟩

/-- The loop, from chunk `k` on, of a range that is done with at chunk `n`. -/
theorem scan_of_stops (hstop : stop ≤ u64Max) {n : Nat}
    (hn : Stops (chunkCursor stop start) (ChunkGood J stores stop start) stop n) (m : Nat)
    {k : Nat} (hk : k + m = n) (out : List Value) :
    ∃ r, scanLogsTraced J stores filter stop (m + 1) k (chunkCursor stop start k) out = some r ∧
      ∃ part, chunks (chunkCursor stop start) k ++ r.1
          = chunks (chunkCursor stop start) n ++ part ∧
        part <+: List.range' (chunkCursor stop start n)
          (chunkCursor stop start (n + 1) - chunkCursor stop start n) := by
  induction m generalizing k out with
  | zero =>
      obtain rfl : k = n := hk
      by_cases hle : chunkCursor stop start k ≤ stop
      · have hbad := hn.here.resolve_left (Nat.not_lt.mpr hle)
        obtain ⟨r, hr, hprefix⟩ := scan_bad filter hstop hle hbad 0 out
        exact ⟨r, hr, r.1, rfl, hprefix⟩
      · refine ⟨([], .ok (some (.array out))), ?_, [], rfl, List.nil_prefix⟩
        rw [scanLogsTraced, if_neg hle]
  | succ m ih =>
      obtain ⟨hle, hgood⟩ := hn.before k (by omega)
      obtain ⟨out', hscan⟩ := scan_good filter hstop hle hgood (m + 1) out
      obtain ⟨r, hr, part, hpart, hprefix⟩ := ih (k := k + 1) (by omega) out'
      refine ⟨_, by rw [hscan, hr]; rfl, part, ?_, hprefix⟩
      rw [← hpart, chunks_succ, List.append_assoc]

/-- A range that is never done with keeps the loop going. -/
theorem scan_of_not_stops (hstop : stop ≤ u64Max)
    (hall : ∀ k, chunkCursor stop start k ≤ stop ∧ ChunkGood J stores stop start k)
    (fuel k : Nat) (out : List Value) :
    scanLogsTraced J stores filter stop fuel k (chunkCursor stop start k) out = none := by
  induction fuel generalizing k out with
  | zero => rfl
  | succ fuel ih =>
      obtain ⟨out', hscan⟩ := scan_good filter hstop (hall k).1 (hall k).2 fuel out
      rw [hscan, ih]
      rfl

/-- **The chunk loop** comes to an end, having read each height of the range at most once,
    exactly if the range ends below the last height there is or some chunk cannot be
    read. -/
theorem scanLogs_bounded_iff (hstart : start ≤ stop) (hstop : stop ≤ u64Max) :
    (∃ fuel r, scanLogsTraced J stores filter stop fuel 0 start [] = some r ∧
      r.1.length ≤ stop - start + 1 ∧ r.1.Nodup) ↔
    stop < u64Max ∨ ∃ k, ¬ChunkGood J stores stop start k := by
  have hzero : chunkCursor stop start 0 = start := cursor_zero hstart hstop
  have hiff : (∃ n, Stops (chunkCursor stop start) (ChunkGood J stores stop start) stop n) ↔
      stop < u64Max ∨ ∃ k, ¬ChunkGood J stores stop start k :=
    exists_stops_iff (by decide)
  rw [← hiff]
  constructor
  · rintro ⟨fuel, r, hr, -⟩
    refine exists_stops ?_
    by_contra hnot
    rw [not_exists] at hnot
    have hall : ∀ k, chunkCursor stop start k ≤ stop ∧ ChunkGood J stores stop start k := by
      intro k
      have hk := hnot k
      rw [not_or, not_not] at hk
      exact ⟨Nat.le_of_not_lt hk.1, hk.2⟩
    have hnone := scan_of_not_stops filter hstop hall fuel 0 []
    rw [hzero, hr] at hnone
    cases hnone
  · rintro ⟨n, hn⟩
    obtain ⟨r, hr, part, hpart, hprefix⟩ :=
      scan_of_stops filter hstop hn n (Nat.zero_add n) []
    have hbounded := chunks_bounded hstart hstop n hprefix
    rw [hzero] at hr
    have hreads : r.1 = chunks (chunkCursor stop start) n ++ part := hpart
    exact ⟨n + 1, r, hr, hreads ▸ hbounded.1, hreads ▸ hbounded.2⟩

end Chunks

/-- The cursor of a loop that goes up by one. -/
theorem saturatingAdd_cursor {stop start k : Nat} (hle : cursor u64Max stop 1 start k ≤ stop) :
    saturatingAdd (cursor u64Max stop 1 start k) 1 = cursor u64Max stop 1 start (k + 1) := by
  rw [cursor_succ k hle Nat.one_pos, saturatingAdd]
  omega

/-! ## A replay with an end -/

section Replay

variable {J : Codec} {stores : Nat → Storage} {req : NeveRangeReplay.Request} {start stop : Nat}

/-- The handler of a replay after so many turns, each on the store as it is then. -/
def replayRun (J : Codec) (req : NeveRangeReplay.Request) (stores : Nat → Storage) :
    Nat → NeveRangeReplay.Handler :=
  runTurns (fun t hd => NeveRangeReplay.handlerStep J req (stores t) hd) (.start req)

/-- The height a turn of it reads. -/
def replayReading (hd : NeveRangeReplay.Handler) : Option Nat :=
  match hd.phase with
  | .readBlock => some hd.h
  | _ => none

def ReplayDone (hd : NeveRangeReplay.Handler) : Prop :=
  (∃ reason, hd.phase = .rejected reason) ∨ ∃ cause, hd.phase = .closed cause

/-- A request with an end that is let through. -/
structure ReplayAdmitted (req : NeveRangeReplay.Request) (stores : Nat → Storage)
    (start stop : Nat) : Prop where
  fromHeight : req.fromHeight = some start
  toHeight : req.toHeight = some stop
  lowest_le : (stores 0).minHeight ≤ start
  le_stop : start ≤ stop
  stop_le : stop ≤ (stores 1).maxContiguousHeight
  nonempty : (stores 2).isEmpty = false

/-- The store gives a replay its message for a height. -/
def Delivers (J : Codec) (kind : NeveRangeReplay.ReplayKind) (s : Storage) (height : Nat) :
    Prop :=
  ∃ bytes msg, NeveRangeReplay.readStored J kind s height = .ok (some bytes) ∧
    J.rawValue bytes = some msg

/-- The loop's head, with the cursor at its `k`-th height. -/
def ReplayReady (start stop k : Nat) (hd : NeveRangeReplay.Handler) : Prop :=
  hd.phase = .readTarget ∧ hd.h = cursor u64Max stop 1 start k

/-- The turns before the loop. -/
theorem ReplayAdmitted.start_turns (h : ReplayAdmitted req stores start stop) :
    (replayRun J req stores 0).phase = .readMin ∧
    (replayRun J req stores 1).phase = .readContig ∧
    (replayRun J req stores 2).phase = .readEmpty ∧
    replayRun J req stores 3
      = ⟨.readTarget, (stores 0).minHeight, (stores 1).maxContiguousHeight, start, []⟩ := by
  have hstart : NeveRangeReplay.Handler.start req = ⟨.readMin, 0, 0, start, []⟩ := by
    simp only [NeveRangeReplay.Handler.start, h.fromHeight]
  have hdecide : NeveRangeReplay.decideRange start req.toHeight (stores 0).minHeight
      (stores 1).maxContiguousHeight = .readTarget := by
    simp only [NeveRangeReplay.decideRange, h.toHeight]
    rw [if_neg (Nat.not_lt.mpr h.lowest_le), if_neg (Nat.not_lt.mpr h.le_stop),
      if_neg (Nat.not_lt.mpr h.stop_le)]
  refine ⟨?_, ?_, ?_, ?_⟩
  · simp only [replayRun, runTurns, hstart]
  · simp only [replayRun, runTurns, hstart, NeveRangeReplay.handlerStep]
  · simp only [replayRun, runTurns, hstart, NeveRangeReplay.handlerStep]
  · simp only [replayRun, runTurns, hstart, NeveRangeReplay.handlerStep, h.nonempty,
      Bool.false_eq_true, if_false, hdecide]

theorem replay_turns (h : ReplayAdmitted req stores start stop) (hstop : stop ≤ u64Max) :
    TwoTurns replayReading (replayRun J req stores) ReplayDone (ReplayReady start stop)
      (cursor u64Max stop 1 start)
      (fun k => Delivers J req.kind (stores (3 + 2 * k + 1)) (cursor u64Max stop 1 start k))
      stop 3 := by
  obtain ⟨h0, h1, h2, h3⟩ := h.start_turns (J := J)
  have hnot : ∀ {hd : NeveRangeReplay.Handler} {p : NeveRangeReplay.Phase}, hd.phase = p →
      (∀ reason, p ≠ .rejected reason) → (∀ cause, p ≠ .closed cause) →
        ¬ReplayDone hd := by
    rintro hd p rfl hrej hclosed (⟨reason, hr⟩ | ⟨cause, hc⟩)
    · exact hrej reason hr
    · exact hclosed cause hc
  have hturn : ∀ t, replayRun J req stores (t + 1)
      = NeveRangeReplay.handlerStep J req (stores t) (replayRun J req stores t) := fun _ => rfl
  -- the head of the loop: past the end, or on to the height's read
  have hhead : ∀ k, ReplayReady start stop k (replayRun J req stores (3 + 2 * k)) →
      replayRun J req stores (3 + 2 * k + 1)
        = { replayRun J req stores (3 + 2 * k) with
            phase :=
              if stop < cursor u64Max stop 1 start k then .closed .caughtUp else .readBlock } := by
    rintro k ⟨hphase, hh⟩
    rw [hturn]
    simp only [NeveRangeReplay.handlerStep, hphase, h.toHeight, Option.getD_some, hh]
  constructor
  · refine ⟨⟨by rw [h3], by rw [h3, cursor_zero h.le_stop hstop]⟩, ?_⟩
    simp only [readsOf, replayReading, h0, h1, h2]
    rfl
  · intro t ht
    have hcases : t = 0 ∨ t = 1 ∨ t = 2 := by omega
    rcases hcases with rfl | rfl | rfl
    · exact hnot h0 (by simp) (by simp)
    · exact hnot h1 (by simp) (by simp)
    · exact hnot h2 (by simp) (by simp)
  · rintro k hready hle ⟨bytes, msg, hread, hraw⟩
    have hstep := hhead k hready
    rw [if_neg (Nat.not_lt.mpr hle)] at hstep
    have hphase : (replayRun J req stores (3 + 2 * k + 1)).phase = .readBlock := by rw [hstep]
    have hh : (replayRun J req stores (3 + 2 * k + 1)).h = cursor u64Max stop 1 start k := by
      rw [hstep]
      exact hready.2
    have hnext : ReplayReady start stop (k + 1) (replayRun J req stores (3 + 2 * k + 2)) := by
      rw [hturn]
      simp only [NeveRangeReplay.handlerStep, hphase, hh, hread, hraw, saturatingAdd_cursor hle]
      exact ⟨rfl, rfl⟩
    refine ⟨hnext, hnot hready.1 (by simp) (by simp), hnot hphase (by simp) (by simp), ?_⟩
    simp only [replayReading, hready.1, hphase, hh]
    rfl
  · intro k hready hhere
    have hstep := hhead k hready
    by_cases hpast : stop < cursor u64Max stop 1 start k
    · rw [if_pos hpast] at hstep
      have hphase : (replayRun J req stores (3 + 2 * k + 1)).phase = .closed .caughtUp := by
        rw [hstep]
      refine ⟨Or.inr ⟨.caughtUp, ?_⟩, ?_⟩
      · rw [hturn]
        simp only [NeveRangeReplay.handlerStep, hphase]
      · rw [if_pos hpast]
        simp only [replayReading, hready.1, hphase]
        rfl
    · rw [if_neg hpast] at hstep
      have hphase : (replayRun J req stores (3 + 2 * k + 1)).phase = .readBlock := by rw [hstep]
      have hh : (replayRun J req stores (3 + 2 * k + 1)).h = cursor u64Max stop 1 start k := by
        rw [hstep]
        exact hready.2
      refine ⟨Or.inr ?_, ?_⟩
      · have hbad := hhere.resolve_left hpast
        rw [hturn]
        simp only [NeveRangeReplay.handlerStep, hphase, hh]
        cases hread : NeveRangeReplay.readStored J req.kind (stores (3 + 2 * k + 1))
            (cursor u64Max stop 1 start k) with
        | error e => exact ⟨.unreadable, rfl⟩
        | ok found =>
            cases found with
            | none => exact ⟨.missing, rfl⟩
            | some bytes =>
                dsimp only
                cases hraw : J.rawValue bytes with
                | none => exact ⟨.unreadable, rfl⟩
                | some msg => exact absurd ⟨bytes, msg, hread, hraw⟩ hbad
      · rw [if_neg hpast]
        simp only [replayReading, hready.1, hphase, hh]
        rfl
  · rintro t (⟨reason, hr⟩ | ⟨cause, hc⟩)
    · refine ⟨Or.inl ⟨reason, ?_⟩, ?_⟩
      · rw [hturn]
        simp only [NeveRangeReplay.handlerStep, hr]
      · simp only [replayReading, hr]
    · refine ⟨Or.inr ⟨cause, ?_⟩, ?_⟩
      · rw [hturn]
        simp only [NeveRangeReplay.handlerStep, hc]
      · simp only [replayReading, hc]

/-- **A replay with an end** comes to one, having read each height of its range at most
    once, exactly if the range ends below the last height there is or the store does not
    give some height its message when the replay gets there. -/
theorem replay_bounded_iff (h : ReplayAdmitted req stores start stop) (hstop : stop ≤ u64Max) :
    (∃ t, ReplayDone (replayRun J req stores t) ∧
      (readsOf replayReading (replayRun J req stores) t).length ≤ stop - start + 1 ∧
      (readsOf replayReading (replayRun J req stores) t).Nodup) ↔
    stop < u64Max ∨
      ∃ k, start + k ≤ stop ∧ ¬Delivers J req.kind (stores (3 + 2 * k + 1)) (start + k) := by
  have hdone := (replay_turns (J := J) h hstop).done_iff
    fun reads => reads.length ≤ stop - start + 1 ∧ reads.Nodup
  rw [hdone, singles_bounded_iff h.le_stop hstop]
  refine or_congr_right (exists_congr fun k => and_congr_right fun hk => ?_)
  rw [cursor_one hk hstop]

end Replay

/-! ## `GET /blocks` -/

section Bulk

variable {J : Codec} {stores : Nat → Storage} {svc : NeveBulk.Service} {query : List Char}
  {start stop : Nat}

/-- The handler of an export after so many turns, each on its chain's store as it is
    then. -/
def bulkRun (J : Codec) (svc : NeveBulk.Service) (query : List Char) (stores : Nat → Storage) :
    Nat → NeveBulk.Handler :=
  runTurns (fun t hd => NeveBulk.handlerStep J svc.maxBlocks (stores t) hd)
    (.start svc query)

/-- The height a turn of it reads. -/
def bulkReading (hd : NeveBulk.Handler) : Option Nat :=
  match hd.phase with
  | .block => if hd.stop < hd.height then none else some hd.height
  | _ => none

def BulkDone (hd : NeveBulk.Handler) : Prop :=
  (∃ status message, hd.phase = .refused status message) ∨ ∃ cause, hd.phase = .ended cause

/-- A request that is let through, to be served up to `stop`. -/
def BulkAdmitted (svc : NeveBulk.Service) (query : List Char) (stores : Nat → Storage)
    (start stop : Nat) : Prop :=
  ∃ range chain, NeveBulk.parseRange query = .ok range ∧ svc.get range.chain = some chain ∧
    range.fromHeight = start ∧
    NeveBulk.decideWindow svc.maxBlocks range (stores 0).minHeight
      (stores 1).maxContiguousHeight = .ok stop

/-- The store has a block for the export at a height. -/
def HasBlock (J : Codec) (s : Storage) (height : Nat) : Prop :=
  ∃ bytes, s.getByHeight J height = .ok (some bytes)

/-- The loop's head, with the cursor at its `k`-th height. -/
def BulkReady (start stop k : Nat) (hd : NeveBulk.Handler) : Prop :=
  hd.phase = .block ∧ hd.height = cursor u64Max stop 1 start k ∧ hd.stop = stop

/-- The window an admitted request is served. -/
theorem BulkAdmitted.window (h : BulkAdmitted svc query stores start stop)
    (hfit : HeightsFit (stores 1)) : start ≤ stop ∧ stop ≤ u64Max := by
  obtain ⟨range, chain, -, -, rfl, hdecide⟩ := h
  have htop := hfit.maxContiguous_le
  simp only [NeveBulk.decideWindow] at hdecide
  by_cases hout : range.fromHeight < (stores 0).minHeight ∨
      (stores 1).maxContiguousHeight < range.fromHeight
  · rw [if_pos hout] at hdecide
    cases hdecide
  rw [if_neg hout] at hdecide
  cases hend : NeveBulk.windowEnd svc.maxBlocks range (stores 1).maxContiguousHeight with
  | error e =>
      rw [hend] at hdecide
      cases hdecide
  | ok stop' =>
      rw [hend] at hdecide
      dsimp only at hdecide
      by_cases hcount : svc.maxBlocks < saturatingAdd (stop' - range.fromHeight) 1
      · rw [if_pos hcount] at hdecide
        cases hdecide
      rw [if_neg hcount] at hdecide
      obtain rfl : stop' = stop := Except.ok.inj hdecide
      obtain ⟨htip, hgiven, hdefault⟩ := NeveBulk.windowEnd_eq_ok hend
      refine ⟨?_, htip.trans htop⟩
      cases hto : range.toHeight with
      | some t =>
          obtain ⟨rfl, hle⟩ := hgiven t hto
          exact hle
      | none =>
          rw [hdefault hto]
          simp only [saturatingAdd]
          omega

/-- The turns before the loop. -/
theorem BulkAdmitted.start_turns (h : BulkAdmitted svc query stores start stop) :
    (bulkRun J svc query stores 0).phase = .readMin ∧
    (bulkRun J svc query stores 1).phase = .readContiguous ∧
    (bulkRun J svc query stores 2).phase = .block ∧
    (bulkRun J svc query stores 2).height = start ∧
    (bulkRun J svc query stores 2).stop = stop := by
  obtain ⟨range, chain, hparse, hget, rfl, hdecide⟩ := h
  have hstart : NeveBulk.Handler.start svc query
      = ⟨.readMin, chain, range, 0, 0, 0, 0, []⟩ := by
    simp only [NeveBulk.Handler.start, hparse, hget]
  refine ⟨?_, ?_, ?_⟩
  · simp only [bulkRun, runTurns, hstart]
  · simp only [bulkRun, runTurns, hstart, NeveBulk.handlerStep]
  · simp only [bulkRun, runTurns, hstart, NeveBulk.handlerStep, hdecide, and_self]

theorem bulk_turns (h : BulkAdmitted svc query stores start stop)
    (hfit : HeightsFit (stores 1)) :
    TwoTurns bulkReading (bulkRun J svc query stores) BulkDone (BulkReady start stop)
      (cursor u64Max stop 1 start)
      (fun k => HasBlock J (stores (2 + 2 * k)) (cursor u64Max stop 1 start k)) stop 2 := by
  obtain ⟨hle, hstop⟩ := h.window hfit
  obtain ⟨h0, h1, h2, hheight, hend⟩ := h.start_turns (J := J)
  -- a handler is over only when it refused the request or ended the stream
  have hnot : ∀ {hd : NeveBulk.Handler} {p : NeveBulk.Phase}, hd.phase = p →
      (∀ status message, p ≠ .refused status message) → (∀ cause, p ≠ .ended cause) →
      ¬BulkDone hd := by
    rintro hd p rfl hrefused hended (⟨status, message, hr⟩ | ⟨cause, hc⟩)
    · exact hrefused status message hr
    · exact hended cause hc
  have hturn : ∀ t, bulkRun J svc query stores (t + 1)
      = NeveBulk.handlerStep J svc.maxBlocks (stores t) (bulkRun J svc query stores t) :=
    fun _ => rfl
  constructor
  -- two turns in, the handler stands at the window's first height
  · refine ⟨⟨h2, by rw [hheight, cursor_zero hle hstop], hend⟩, ?_⟩
    simp only [readsOf, bulkReading, h0, h1]
    rfl
  · intro t ht
    have hcases : t = 0 ∨ t = 1 := by omega
    rcases hcases with rfl | rfl
    · exact hnot h0 (by simp) (by simp)
    · exact hnot h1 (by simp) (by simp)
  -- a stored height takes two turns: its record, then the newline
  · rintro k ⟨hphase, hh, hs⟩ hin ⟨bytes, hread⟩
    have hinside : ¬ stop < cursor u64Max stop 1 start k := Nat.not_lt.mpr hin
    have hstep : bulkRun J svc query stores (2 + 2 * k + 1)
        = { bulkRun J svc query stores (2 + 2 * k) with
            phase := .newline
            frames := (bulkRun J svc query stores (2 + 2 * k)).frames ++ [bytes] } := by
      rw [hturn]
      simp only [NeveBulk.handlerStep, hphase, hs, hh, if_neg hinside, hread]
    have hnewline : (bulkRun J svc query stores (2 + 2 * k + 1)).phase = .newline := by
      rw [hstep]
    have hnext : BulkReady start stop (k + 1) (bulkRun J svc query stores (2 + 2 * k + 2)) := by
      rw [hturn]
      simp only [NeveBulk.handlerStep, hnewline]
      refine ⟨rfl, ?_, ?_⟩
      · rw [hstep]
        dsimp only
        rw [hh, saturatingAdd_cursor hin]
      · rw [hstep]
        exact hs
    refine ⟨hnext, hnot hphase (by simp) (by simp), hnot hnewline (by simp) (by simp), ?_⟩
    simp only [bulkReading, hphase, hnewline, hh, hs, if_neg hinside]
    rfl
  -- past the window, or at a height without a block, the stream ends
  · rintro k ⟨hphase, hh, hs⟩ hhere
    by_cases hpast : stop < cursor u64Max stop 1 start k
    · have hended : (bulkRun J svc query stores (2 + 2 * k + 1)).phase = .ended .caughtUp := by
        rw [hturn]
        simp only [NeveBulk.handlerStep, hphase, hs, hh, if_pos hpast]
      refine ⟨Or.inr ⟨.caughtUp, ?_⟩, ?_⟩
      · rw [hturn]
        simp only [NeveBulk.handlerStep, hended]
      · simp only [bulkReading, hphase, hended, hh, hs, if_pos hpast]
        rfl
    · have hbad := hhere.resolve_left hpast
      have hended : ∃ cause, (bulkRun J svc query stores (2 + 2 * k + 1)).phase
          = .ended cause := by
        rw [hturn]
        simp only [NeveBulk.handlerStep, hphase, hs, hh, if_neg hpast]
        cases hread : (stores (2 + 2 * k)).getByHeight J (cursor u64Max stop 1 start k) with
        | error e => exact ⟨.unreadable, rfl⟩
        | ok found =>
            cases found with
            | none => exact ⟨.missing, rfl⟩
            | some bytes => exact absurd ⟨bytes, hread⟩ hbad
      obtain ⟨cause, hcause⟩ := hended
      refine ⟨Or.inr ⟨cause, ?_⟩, ?_⟩
      · rw [hturn]
        simp only [NeveBulk.handlerStep, hcause]
      · simp only [bulkReading, hphase, hcause, hh, hs, if_neg hpast]
        rfl
  -- and stays as it is
  · rintro t (⟨status, message, hr⟩ | ⟨cause, hc⟩)
    · refine ⟨Or.inl ⟨status, message, ?_⟩, ?_⟩
      · rw [hturn]
        simp only [NeveBulk.handlerStep, hr]
      · simp only [bulkReading, hr]
    · refine ⟨Or.inr ⟨cause, ?_⟩, ?_⟩
      · rw [hturn]
        simp only [NeveBulk.handlerStep, hc]
      · simp only [bulkReading, hc]

/-- **An export** comes to an end, having read each height of its window at most once,
    exactly if the window ends below the last height there is or the store has no block
    for some height when the export gets there. -/
theorem bulk_bounded_iff (h : BulkAdmitted svc query stores start stop)
    (hfit : HeightsFit (stores 1)) :
    (∃ t, BulkDone (bulkRun J svc query stores t) ∧
      (readsOf bulkReading (bulkRun J svc query stores) t).length ≤ stop - start + 1 ∧
      (readsOf bulkReading (bulkRun J svc query stores) t).Nodup) ↔
    stop < u64Max ∨
      ∃ k, start + k ≤ stop ∧ ¬HasBlock J (stores (2 + 2 * k)) (start + k) := by
  obtain ⟨hle, hstop⟩ := h.window hfit
  have hdone := (bulk_turns (J := J) h hfit).done_iff
    fun reads => reads.length ≤ stop - start + 1 ∧ reads.Nodup
  rw [hdone, singles_bounded_iff hle hstop]
  refine or_congr_right (exists_congr fun k => and_congr_right fun hk => ?_)
  rw [cursor_one hk hstop]

end Bulk

/-! ## The three loops -/

theorem fromLeBytes_lt (bs : Bytes) : fromLeBytes bs < 256 ^ bs.length := by
  induction bs with
  | nil => decide
  | cons b rest ih =>
      have hb := b.toNat_lt
      rw [fromLeBytes, List.length_cons, pow_succ]
      omega

/-- The heights a filter is answered for. -/
theorem getLogsRange_window {s : Storage} {filter : NeveEthRpc.LogFilter} {start stop : Nat}
    (hfit : HeightsFit s) (h : NeveEthRpc.getLogsRange s filter = .ok (some (start, stop))) :
    start ≤ stop ∧ stop ≤ u64Max := by
  cases hhash : filter.blockHash with
  | none =>
      have hranged := NeveEthRpc.getLogsRange_range (s := s) hhash
      rw [h] at hranged
      cases hranged with
      | selected _ _ _ hsel _ =>
          cases hsel with
          | hash blockHash _ _ hsome _ _ =>
              rw [hhash] at hsome
              cases hsome
          | range _ _ _ _ _ hle _ _ htip => exact ⟨hle, htip.trans hfit.maxContiguous_le⟩
  | some blockHash =>
      simp only [NeveEthRpc.getLogsRange, hhash, bind, Except.bind] at h
      cases harr : NeveEthRpc.parseHash blockHash with
      | error e =>
          rw [harr] at h
          cases h
      | ok arr =>
          rw [harr] at h
          dsimp only at h
          cases hheight : s.heightOfHash arr with
          | error e =>
              rw [hheight] at h
              cases h
          | ok found =>
              rw [hheight] at h
              cases found with
              | none => cases h
              | some height =>
                  have hpair := Option.some.inj (Except.ok.inj h)
                  obtain ⟨rfl, rfl⟩ := Prod.mk.inj hpair
                  -- a hash names one height, read from eight bytes of the index
                  refine ⟨Nat.le_refl _, ?_⟩
                  simp only [Storage.heightOfHash] at hheight
                  cases hentry : s.hashToHeight.lookup arr with
                  | none =>
                      rw [hentry] at hheight
                      cases hheight
                  | some slice =>
                      rw [hentry] at hheight
                      dsimp only at hheight
                      by_cases hlen : slice.length ≠ 8
                      · rw [if_pos hlen] at hheight
                        cases hheight
                      · rw [if_neg hlen] at hheight
                        rw [← Option.some.inj (Except.ok.inj hheight)]
                        have hlt := fromLeBytes_lt slice
                        rw [not_not.mp hlen] at hlt
                        exact Nat.le_sub_one_of_lt hlt

/-- A request that one of the loops serves. -/
inductive RangeRequest where
  | getLogs (filter : NeveEthRpc.LogFilter)
  | replay (req : NeveRangeReplay.Request)
  | bulk (svc : NeveBulk.Service) (query : List Char)

namespace RangeRequest

/-- The request is let through, for the heights from `start` to `stop`. -/
def Admitted (stores : Nat → Storage) (start stop : Nat) : RangeRequest → Prop
  | getLogs filter => NeveEthRpc.getLogsRange (stores 0) filter = .ok (some (start, stop))
  | replay req => ReplayAdmitted req stores start stop
  | bulk svc query => BulkAdmitted svc query stores start stop

/-- Its loop ends, and up to then reads the given heights. -/
def Ends (J : Codec) (stores : Nat → Storage) (start stop : Nat) (reads : List Nat) :
    RangeRequest → Prop
  | getLogs filter =>
      ∃ fuel answer, scanLogsTraced J stores filter stop fuel 0 start [] = some (reads, answer)
  | replay req => ∃ t, ReplayDone (replayRun J req stores t) ∧
      readsOf replayReading (replayRun J req stores) t = reads
  | bulk svc query => ∃ t, BulkDone (bulkRun J svc query stores t) ∧
      readsOf bulkReading (bulkRun J svc query stores) t = reads

/-- What ends its loop early: a chunk without all its logs, a height without its message,
    or without its block, in the store as it is when the loop gets there. -/
def EndsEarly (J : Codec) (stores : Nat → Storage) (start stop : Nat) : RangeRequest → Prop
  | getLogs _ => ∃ k, ¬ChunkReadable J (stores k) (min (start + 256 * k) u64Max)
      (min (start + 256 * (k + 1)) u64Max)
  | replay req => ∃ k, start + k ≤ stop ∧
      ¬Delivers J req.kind (stores (3 + 2 * k + 1)) (start + k)
  | bulk _ _ => ∃ k, start + k ≤ stop ∧ ¬HasBlock J (stores (2 + 2 * k)) (start + k)

end RangeRequest

/-- At the last height there is, the chunks are those of `EndsEarly`. -/
theorem lt_or_early (J : Codec) (stores : Nat → Storage) (start : Nat) {stop : Nat}
    (hstop : stop ≤ u64Max) (k : Nat) :
    stop < u64Max ∨ (ChunkGood J stores stop start k ↔
      ChunkReadable J (stores k) (min (start + 256 * k) u64Max)
        (min (start + 256 * (k + 1)) u64Max)) := by
  rcases Nat.lt_or_eq_of_le hstop with hlt | rfl
  · exact Or.inl hlt
  · have hcursor : ∀ j, chunkCursor u64Max start j = min (start + 256 * j) u64Max := by
      intro j
      simp only [chunkCursor, cursor, NeveEthRpc.GETLOGS_READ_CHUNK]
      omega
    right
    simp only [ChunkGood, hcursor]

/-- **A loop ends after at most one read of each height of its range exactly if** the range
    ends below the last height there is, or something ends the loop early. -/
theorem range_loop_bounded_iff {J : Codec} {stores : Nat → Storage} {start stop : Nat}
    {request : RangeRequest} (hfit : ∀ t, HeightsFit (stores t))
    (h : request.Admitted stores start stop) :
    (∃ reads, request.Ends J stores start stop reads ∧ reads.length ≤ stop - start + 1 ∧
      reads.Nodup) ↔
    stop < u64Max ∨ request.EndsEarly J stores start stop := by
  cases request with
  | getLogs filter =>
      obtain ⟨hle, hstop⟩ := getLogsRange_window (hfit 0) h
      -- `eth_getLogs` reads whole chunks, the two streams one height a turn
      have hiff : (∃ fuel r, scanLogsTraced J stores filter stop fuel 0 start [] = some r ∧
            r.1.length ≤ stop - start + 1 ∧ r.1.Nodup) ↔
          stop < u64Max ∨ ∃ k, ¬ChunkGood J stores stop start k :=
        scanLogs_bounded_iff filter hle hstop
      constructor
      · rintro ⟨reads, ⟨fuel, answer, hscan⟩, hlen, hnodup⟩
        rcases hiff.mp ⟨fuel, _, hscan, hlen, hnodup⟩ with hlt | ⟨k, hk⟩
        · exact Or.inl hlt
        · rcases lt_or_early J stores start hstop k with hlt | heq
          · exact Or.inl hlt
          · exact Or.inr ⟨k, fun hread => hk (heq.mpr hread)⟩
      · intro hends
        have hgood : stop < u64Max ∨ ∃ k, ¬ChunkGood J stores stop start k := by
          rcases hends with hlt | ⟨k, hk⟩
          · exact Or.inl hlt
          · rcases lt_or_early J stores start hstop k with hlt | heq
            · exact Or.inl hlt
            · exact Or.inr ⟨k, fun hgood => hk (heq.mp hgood)⟩
        obtain ⟨fuel, r, hscan, hlen, hnodup⟩ := hiff.mpr hgood
        exact ⟨r.1, ⟨fuel, r.2, hscan⟩, hlen, hnodup⟩
  | replay req =>
      have hstop : stop ≤ u64Max := h.stop_le.trans (hfit 1).maxContiguous_le
      refine Iff.trans ?_ (replay_bounded_iff h hstop)
      constructor
      · rintro ⟨reads, ⟨t, hdone, rfl⟩, hbounded⟩
        exact ⟨t, hdone, hbounded⟩
      · rintro ⟨t, hdone, hbounded⟩
        exact ⟨_, ⟨t, hdone, rfl⟩, hbounded⟩
  | bulk svc query =>
      refine Iff.trans ?_ (bulk_bounded_iff h (hfit 1))
      constructor
      · rintro ⟨reads, ⟨t, hdone, rfl⟩, hbounded⟩
        exact ⟨t, hdone, hbounded⟩
      · rintro ⟨t, hdone, hbounded⟩
        exact ⟨_, ⟨t, hdone, rfl⟩, hbounded⟩

/-- The sample store once height 6 follows. -/
def fiveSix : Storage :=
  (NeveRangeReplay.sampleStore.put .none 6 (Vector.replicate 32 1) [] [[123, 125], EMPTY_ARRAY]).2

/-- A replay of both its heights ends. -/
theorem range_loop_bounded_iff_five_six :
    ∃ reads, (RangeRequest.replay ⟨.oldBlocks, some 5, some 6⟩).Ends JsonText.spacedCodec
      (fun _ => fiveSix) 5 6 reads ∧ reads.length ≤ 2 ∧ reads.Nodup := by
  have hlawful : NeveRangeReplay.LawfulStore JsonText.spacedReader fiveSix :=
    NeveRangeReplay.lawfulStore_sample.put (p := NeveRangeReplay.samplePut 6)
      (NeveRangeReplay.lawfulPut_sample (by decide))
  have hfit : HeightsFit fiveSix := by
    intro st hst
    obtain rfl := Option.some.inj hst
    refine ⟨by decide, ?_⟩
    intro k hk
    exact Nat.le_of_lt (hlawful.bounded k ⟨_, rfl, hk⟩)
  have hadmitted : (RangeRequest.replay ⟨.oldBlocks, some 5, some 6⟩).Admitted
      (fun _ => fiveSix) 5 6 :=
    ⟨rfl, rfl, by decide, by decide, by decide, rfl⟩
  exact (range_loop_bounded_iff (fun _ => hfit) hadmitted).mpr (Or.inl (by decide))

/-! ### The last height there is -/

/-- A store with the last height there is, and nothing else. -/
def topStore : Storage :=
  { Storage.fresh memory .C none with
    store := some (.holding u64Max [(u64Max, encode [[123, 125], EMPTY_ARRAY])]
      fun _ he => by rw [List.mem_singleton.mp he]) }

/-- `eth_getLogs` from the last height there is to itself. -/
def topFilter : NeveEthRpc.LogFilter where
  fromBlock := some "0xffffffffffffffff"
  toBlock := some "0xffffffffffffffff"
  address := none
  topics := none
  blockHash := none

/-- It goes on forever, and reads nothing. -/
theorem top_height_never_ends :
    ¬ ∀ (J : Codec) (stores : Nat → Storage) (start stop : Nat) (request : RangeRequest),
      (∀ t, HeightsFit (stores t)) → request.Admitted stores start stop →
      ∃ reads, request.Ends J stores start stop reads ∧ reads.length ≤ stop - start + 1 ∧
        reads.Nodup := by
  intro hall
  have hfit : HeightsFit topStore := by
    intro st hst
    obtain rfl := Option.some.inj hst
    refine ⟨Nat.le_refl _, ?_⟩
    intro k hk
    rw [List.mem_singleton.mp (Store.has_holding_iff.mp hk)]
  have hadmitted : NeveEthRpc.getLogsRange topStore topFilter
      = .ok (some (u64Max, u64Max)) := by
    rfl
  obtain ⟨reads, ⟨fuel, answer, hscan⟩, hlen, hnodup⟩ :=
    hall JsonText.spacedCodec (fun _ => topStore) u64Max u64Max (.getLogs topFilter)
      (fun _ => hfit) hadmitted
  have hends := (scanLogs_bounded_iff topFilter (Nat.le_refl _) (Nat.le_refl _)).mp
    ⟨fuel, _, hscan, hlen, hnodup⟩
  rcases hends with hlt | ⟨k, hk⟩
  · exact absurd hlt (Nat.lt_irrefl _)
  · -- every chunk starts and ends at the last height
    refine hk ⟨_, rfl, ?_⟩
    intro height hlo hhi
    simp only [chunkCursor, cursor] at hlo hhi
    omega

end NeveRangeLoops
