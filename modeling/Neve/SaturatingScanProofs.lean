import Mathlib

/-! # Scans with a saturating cursor

    A loop reads the numbers from `start` to `stop`, `size` of them at a turn, and moves
    its cursor by a sum that is cut off at `top`.  It stops at the first turn whose
    cursor is past `stop`, or that does not go well.

    Below `top` the cursor gets past `stop`.  At `top` it cannot: there the scan stops
    only if a turn does not go well. -/

namespace SaturatingScan

/-- Where the cursor stands at a turn. -/
def cursor (top stop size start k : Nat) : Nat := min (start + size * k) (min (stop + 1) top)

/-- A loop stops at its turn `n`: every turn before was within the range and went well. -/
structure Stops (c : Nat → Nat) (good : Nat → Prop) (stop n : Nat) : Prop where
  before : ∀ k < n, c k ≤ stop ∧ good k
  here : stop < c n ∨ ¬good n

/-- The first turn at which a loop can stop is the one at which it does. -/
theorem exists_stops {c : Nat → Nat} {good : Nat → Prop} {stop : Nat}
    (hex : ∃ n, stop < c n ∨ ¬good n) : ∃ n, Stops c good stop n := by
  classical
  refine ⟨Nat.find hex, ?_, Nat.find_spec hex⟩
  intro k hk
  have hnot := Nat.find_min hex hk
  rw [not_or, not_not] at hnot
  exact ⟨Nat.le_of_not_lt hnot.1, hnot.2⟩

section Cursor

variable {top stop size start : Nat}

theorem cursor_zero (hstart : start ≤ stop) (hstop : stop ≤ top) :
    cursor top stop size start 0 = start := by
  simp only [cursor, Nat.mul_zero]
  omega

theorem cursor_succ (k : Nat) (hle : cursor top stop size start k ≤ stop) (hsize : 0 < size) :
    cursor top stop size start (k + 1)
      = min (cursor top stop size start k + size) (min (stop + 1) top) := by
  simp only [cursor, Nat.mul_succ] at hle ⊢
  omega

theorem cursor_mono (k : Nat) :
    cursor top stop size start k ≤ cursor top stop size start (k + 1) := by
  simp only [cursor, Nat.mul_succ]
  omega

theorem cursor_le (k : Nat) : cursor top stop size start k ≤ stop + 1 := by
  simp only [cursor]
  omega

/-- The cursor gets past the end only if the end is below the top. -/
theorem lt_top_of_lt_cursor {k : Nat} (h : stop < cursor top stop size start k) :
    stop < top := by
  simp only [cursor] at h
  omega

/-- Below the top it does. -/
theorem exists_lt_cursor (hlt : stop < top) (hsize : 0 < size) :
    stop < cursor top stop size start (stop + 1) := by
  have hmul : stop + 1 ≤ size * (stop + 1) := Nat.le_mul_of_pos_left _ hsize
  simp only [cursor]
  omega

/-- **When a scan stops**: its end is below the top, or some turn does not go well. -/
theorem exists_stops_iff {good : Nat → Prop} (hsize : 0 < size) :
    (∃ n, Stops (cursor top stop size start) good stop n) ↔ stop < top ∨ ∃ k, ¬good k := by
  constructor
  · rintro ⟨n, hn⟩
    rcases hn.here with hpast | hbad
    · exact Or.inl (lt_top_of_lt_cursor hpast)
    · exact Or.inr ⟨n, hbad⟩
  · intro h
    refine exists_stops ?_
    rcases h with hlt | ⟨k, hk⟩
    · exact ⟨stop + 1, Or.inl (exists_lt_cursor hlt hsize)⟩
    · exact ⟨k, Or.inr hk⟩

/-! ## Reading in chunks -/

/-- What the turns before `n` read, each up to where the next one starts. -/
def chunks (c : Nat → Nat) (n : Nat) : List Nat :=
  (List.range n).flatMap fun k => List.range' (c k) (c (k + 1) - c k)

theorem chunks_succ (c : Nat → Nat) (n : Nat) :
    chunks c (n + 1) = chunks c n ++ List.range' (c n) (c (n + 1) - c n) := by
  rw [chunks, List.range_succ, List.flatMap_append, List.flatMap_singleton]
  rfl

/-- The chunks of a cursor that does not go back are one stretch. -/
theorem chunks_eq {c : Nat → Nat} (hmono : ∀ k, c k ≤ c (k + 1)) (n : Nat) :
    c 0 ≤ c n ∧ chunks c n = List.range' (c 0) (c n - c 0) := by
  induction n with
  | zero =>
      rw [Nat.sub_self]
      exact ⟨Nat.le_refl _, rfl⟩
  | succ n ih =>
      have hstep := hmono n
      refine ⟨ih.1.trans hstep, ?_⟩
      have hlen : c (n + 1) - c 0 = (c n - c 0) + (c (n + 1) - c n) := by omega
      have hnext : c 0 + (c n - c 0) = c n := by omega
      rw [chunks_succ, ih.2, hlen, ← List.range'_append_1, hnext]

/-- Whole chunks, and a part of one more, have every number once, and none past the end. -/
theorem chunks_bounded (hstart : start ≤ stop) (hstop : stop ≤ top) (n : Nat)
    {part : List Nat}
    (hpart : part <+: List.range' (cursor top stop size start n)
      (cursor top stop size start (n + 1) - cursor top stop size start n)) :
    (chunks (cursor top stop size start) n ++ part).length ≤ stop - start + 1 ∧
      (chunks (cursor top stop size start) n ++ part).Nodup := by
  obtain ⟨rest, hrest⟩ := hpart
  have hwhole : chunks (cursor top stop size start) (n + 1) = _ :=
    (chunks_eq (fun k => cursor_mono k) (n + 1)).2
  rw [chunks_succ, ← hrest, ← List.append_assoc, cursor_zero hstart hstop] at hwhole
  have hpre : chunks (cursor top stop size start) n ++ part
      <+: List.range' start (cursor top stop size start (n + 1) - start) := ⟨rest, hwhole⟩
  constructor
  · have hlen := hpre.length_le
    rw [List.length_range'] at hlen
    have hend : cursor top stop size start (n + 1) ≤ stop + 1 := cursor_le (n + 1)
    omega
  · exact hpre.sublist.nodup List.nodup_range'

end Cursor

/-! ## Reading one by one -/

section Single

variable {top stop start : Nat} {good : Nat → Prop}

/-- What a loop that reads its cursor has read when it stops at turn `n`. -/
def singles (c : Nat → Nat) (stop n : Nat) : List Nat :=
  (List.range n).map c ++ if stop < c n then [] else [c n]

theorem map_eq_range' {c : Nat → Nat} {n : Nat} (h : ∀ k < n, c k = start + k) :
    (List.range n).map c = List.range' start n := by
  rw [List.range'_eq_map_range]
  refine List.map_congr_left ?_
  intro k hk
  rw [h k (List.mem_range.mp hk)]

theorem cursor_one {k : Nat} (hk : start + k ≤ stop) (hstop : stop ≤ top) :
    cursor top stop 1 start k = start + k := by
  simp only [cursor]
  omega

/-- **A loop that reads its cursor keeps within its range exactly if** the end is below
    the top or one of the numbers up to it is not read well at its turn. -/
theorem singles_bounded_iff (hstart : start ≤ stop) (hstop : stop ≤ top) :
    (∃ n, Stops (cursor top stop 1 start) good stop n ∧
      (singles (cursor top stop 1 start) stop n).length ≤ stop - start + 1 ∧
      (singles (cursor top stop 1 start) stop n).Nodup) ↔
    stop < top ∨ ∃ k, start + k ≤ stop ∧ ¬good k := by
  constructor
  · rintro ⟨n, hn, hlen, -⟩
    rcases hn.here with hpast | hbad
    · exact Or.inl (lt_top_of_lt_cursor hpast)
    · by_cases hlt : stop < top
      · exact Or.inl hlt
      · -- at the top the cursor is never past the end, so the last turn was a read
        have hnot : ¬ stop < cursor top stop 1 start n := fun h => hlt (lt_top_of_lt_cursor h)
        rw [singles, if_neg hnot, List.length_append, List.length_map, List.length_range,
          List.length_singleton] at hlen
        exact Or.inr ⟨n, by omega, hbad⟩
  · intro h
    have hex : ∃ n, Stops (cursor top stop 1 start) good stop n :=
      (exists_stops_iff Nat.one_pos).mpr (h.imp_right fun ⟨k, hk⟩ => ⟨k, hk.2⟩)
    obtain ⟨n, hn⟩ := hex
    refine ⟨n, hn, ?_⟩
    have hin : ∀ k < n, start + k ≤ stop := by
      intro k hk
      rcases h with hlt | ⟨j, hj, hbad⟩
      · have hle := (hn.before k hk).1
        simp only [cursor] at hle
        omega
      · by_contra hout
        exact hbad (hn.before j (by omega)).2
    have hreads : (List.range n).map (cursor top stop 1 start) = List.range' start n :=
      map_eq_range' fun k hk => cursor_one (hin k hk) hstop
    rw [singles, hreads]
    by_cases hpast : stop < cursor top stop 1 start n
    · rw [if_pos hpast, List.append_nil, List.length_range']
      refine ⟨?_, List.nodup_range'⟩
      rcases Nat.eq_zero_or_pos n with rfl | hpos
      · omega
      · have hlast := hin (n - 1) (by omega)
        omega
    · have hhere : start + n ≤ stop := by
        rcases h with hlt | ⟨j, hj, hbad⟩
        · simp only [cursor] at hpast
          omega
        · by_contra hout
          exact hbad (hn.before j (by omega)).2
      rw [if_neg hpast, cursor_one hhere hstop, ← List.range'_1_concat, List.length_range']
      exact ⟨by omega, List.nodup_range'⟩

end Single

/-! ## Machines that take two turns for a number -/

section Turns

variable {σ : Type*}

/-- The state after so many turns. -/
def runTurns (step : Nat → σ → σ) (s : σ) : Nat → σ
  | 0 => s
  | t + 1 => step t (runTurns step s t)

/-- What a machine has read in so many turns; a turn reads one number or none. -/
def readsOf (reading : σ → Option Nat) (run : Nat → σ) : Nat → List Nat
  | 0 => []
  | t + 1 => readsOf reading run t ++ (reading (run t)).toList

/-- A machine that is back at the head of its loop every other turn, from turn `lead`
    on, with its cursor one step further. -/
structure TwoTurns (reading : σ → Option Nat) (run : Nat → σ) (done : σ → Prop)
    (ready : Nat → σ → Prop) (c : Nat → Nat) (good : Nat → Prop) (stop lead : Nat) :
    Prop where
  start : ready 0 (run lead) ∧ readsOf reading run lead = []
  early : ∀ t < lead, ¬done (run t)
  go : ∀ k, ready k (run (lead + 2 * k)) → c k ≤ stop → good k →
    ready (k + 1) (run (lead + 2 * k + 2)) ∧
    ¬done (run (lead + 2 * k)) ∧ ¬done (run (lead + 2 * k + 1)) ∧
    (reading (run (lead + 2 * k))).toList ++ (reading (run (lead + 2 * k + 1))).toList = [c k]
  halt : ∀ k, ready k (run (lead + 2 * k)) → (stop < c k ∨ ¬good k) →
    done (run (lead + 2 * k + 2)) ∧
    (reading (run (lead + 2 * k))).toList ++ (reading (run (lead + 2 * k + 1))).toList
      = if stop < c k then [] else [c k]
  frozen : ∀ t, done (run t) → done (run (t + 1)) ∧ reading (run t) = none

namespace TwoTurns

variable {reading : σ → Option Nat} {run : Nat → σ} {done : σ → Prop}
  {ready : Nat → σ → Prop}
  {c : Nat → Nat} {good : Nat → Prop} {stop lead : Nat}

/-- The machine is at the head of its loop as long as the turns go well. -/
theorem ready_of_good (h : TwoTurns reading run done ready c good stop lead) (n : Nat)
    (hgood : ∀ k < n, c k ≤ stop ∧ good k) :
    ready n (run (lead + 2 * n)) ∧
      readsOf reading run (lead + 2 * n) = (List.range n).map c := by
  induction n with
  | zero => exact h.start
  | succ n ih =>
      obtain ⟨hready, hreads⟩ := ih fun k hk => hgood k (Nat.lt_succ_of_lt hk)
      obtain ⟨hle, hok⟩ := hgood n (Nat.lt_succ_self n)
      obtain ⟨hnext, -, -, hread⟩ := h.go n hready hle hok
      refine ⟨hnext, ?_⟩
      rw [List.range_succ, List.map_append, List.map_singleton, ← hread, ← hreads]
      exact List.append_assoc ..

/-- A scan that stops brings the machine to its end, with what the scan has read. -/
theorem done_of_stops (h : TwoTurns reading run done ready c good stop lead) {n : Nat}
    (hn : Stops c good stop n) :
    done (run (lead + 2 * n + 2)) ∧
      readsOf reading run (lead + 2 * n + 2) = singles c stop n := by
  obtain ⟨hready, hreads⟩ := h.ready_of_good n hn.before
  obtain ⟨hdone, hread⟩ := h.halt n hready hn.here
  refine ⟨hdone, ?_⟩
  rw [singles, ← hreads, ← hread]
  exact List.append_assoc ..

/-- Nothing is read past the end. -/
theorem reads_of_done (h : TwoTurns reading run done ready c good stop lead) {t : Nat}
    (hdone : done (run t)) (d : Nat) :
    done (run (t + d)) ∧ readsOf reading run (t + d) = readsOf reading run t := by
  induction d with
  | zero => exact ⟨hdone, rfl⟩
  | succ d ih =>
      obtain ⟨hnext, hnone⟩ := h.frozen (t + d) ih.1
      refine ⟨hnext, ?_⟩
      show readsOf reading run (t + d) ++ (reading (run (t + d))).toList = _
      rw [hnone, ih.2]
      exact List.append_nil _

theorem reads_unique (h : TwoTurns reading run done ready c good stop lead) {t t' : Nat}
    (ht : done (run t)) (ht' : done (run t')) :
    readsOf reading run t = readsOf reading run t' := by
  rcases Nat.le_total t t' with hle | hle
  · obtain ⟨d, rfl⟩ := Nat.exists_eq_add_of_le hle
    exact (h.reads_of_done ht d).2.symm
  · obtain ⟨d, rfl⟩ := Nat.exists_eq_add_of_le hle
    exact (h.reads_of_done ht' d).2

/-- **The machine ends exactly when the scan stops**, and has read what the scan has. -/
theorem done_iff (h : TwoTurns reading run done ready c good stop lead)
    (P : List Nat → Prop) :
    (∃ t, done (run t) ∧ P (readsOf reading run t)) ↔
      ∃ n, Stops c good stop n ∧ P (singles c stop n) := by
  constructor
  · rintro ⟨t, ht, hP⟩
    have hex : ∃ n, stop < c n ∨ ¬good n := by
      by_contra hall
      rw [not_exists] at hall
      have hgood : ∀ k, c k ≤ stop ∧ good k := by
        intro k
        have hk := hall k
        rw [not_or, not_not] at hk
        exact ⟨Nat.le_of_not_lt hk.1, hk.2⟩
      -- a turn before the loop, or one of the two of some round
      by_cases hlt : t < lead
      · exact h.early t hlt ht
      · obtain ⟨d, rfl⟩ := Nat.exists_eq_add_of_le (Nat.le_of_not_lt hlt)
        obtain ⟨hready, -⟩ := h.ready_of_good (d / 2) fun k _ => hgood k
        obtain ⟨-, heven, hodd, -⟩ := h.go (d / 2) hready (hgood _).1 (hgood _).2
        rcases Nat.mod_two_eq_zero_or_one d with hzero | hone
        · rw [show lead + 2 * (d / 2) = lead + d by omega] at heven
          exact heven ht
        · rw [show lead + 2 * (d / 2) + 1 = lead + d by omega] at hodd
          exact hodd ht
    obtain ⟨n, hstops⟩ := exists_stops hex
    obtain ⟨hdone, hreads⟩ := h.done_of_stops hstops
    refine ⟨n, hstops, ?_⟩
    rw [← hreads, h.reads_unique hdone ht]
    exact hP
  · rintro ⟨n, hn, hP⟩
    obtain ⟨hdone, hreads⟩ := h.done_of_stops hn
    exact ⟨_, hdone, hreads ▸ hP⟩

end TwoTurns

end Turns

end SaturatingScan
