import Mathlib

/-! # Additive increase, additive decrease

    A delay goes up by `inc` after a miss, up to a cap, and down by `dec` after a
    hit, not below zero.  Misses and hits are accounted against the delay: each
    miss puts `inc` into it and each hit takes at most `dec` out.  Where misses
    only happen below some lag, the delay stays in a band above it, so the share
    of misses comes to `dec / (inc + dec)`. -/

namespace AdditiveControl

structure Control where
  inc : Nat
  dec : Nat
  cap : Nat

namespace Control

variable (c : Control)

/-- The delay after one outcome. -/
def record (d : Nat) (hit : Bool) : Nat :=
  if hit then d - c.dec else min (d + c.inc) c.cap

/-- The delay after a list of outcomes. -/
def run (d : Nat) (hits : List Bool) : Nat := hits.foldl c.record d

/-- A miss is only met at a delay below the lag. -/
def Explained (lag : Nat) : Nat → List Bool → Prop
  | _, [] => True
  | d, hit :: rest => (hit = false → d < lag) ∧ Explained lag (c.record d hit) rest

/-- A hit is only met at the lag or above it. -/
def Exact (lag : Nat) : Nat → List Bool → Prop
  | _, [] => True
  | d, hit :: rest => (hit = true → lag ≤ d) ∧ Exact lag (c.record d hit) rest

variable {c} {d lag early : Nat} {hits : List Bool}

@[simp] theorem run_cons (d : Nat) (hit : Bool) (rest : List Bool) :
    c.run d (hit :: rest) = c.run (c.record d hit) rest := rfl

theorem record_le_cap (h : d ≤ c.cap) (hit : Bool) : c.record d hit ≤ c.cap := by
  cases hit with
  | true => exact Nat.le_trans (Nat.sub_le ..) h
  | false => exact Nat.min_le_right ..

/-- The delay never leaves the cap. -/
theorem run_le_cap (h : d ≤ c.cap) (hits : List Bool) : c.run d hits ≤ c.cap := by
  induction hits generalizing d with
  | nil => exact h
  | cons hit rest ih => exact ih (record_le_cap h hit)

/-- A miss below the lag stays in the band, and so does every hit. -/
theorem record_le_band (hband : d ≤ lag + c.inc) {hit : Bool} (h : hit = false → d < lag) :
    c.record d hit ≤ lag + c.inc := by
  cases hit with
  | true => exact Nat.le_trans (Nat.sub_le ..) hband
  | false =>
      have hlt := h rfl
      exact Nat.le_trans (Nat.min_le_left ..) (by omega)

/-- **The band.** -/
theorem run_le_band (hband : d ≤ lag + c.inc) (h : c.Explained lag d hits) :
    c.run d hits ≤ lag + c.inc := by
  induction hits generalizing d with
  | nil => exact hband
  | cons hit rest ih => exact ih (record_le_band hband h.1) h.2

/-- A miss below the lag is never cut short by a cap that leaves room above it. -/
theorem record_miss (hroom : lag + c.inc ≤ c.cap + 1) (h : d < lag) :
    c.record d false = d + c.inc :=
  Nat.min_eq_left (by omega)

/-- A hit takes no more than `dec` below where hits begin, and a miss adds a whole `inc`. -/
theorem record_ge_band (hroom : lag + c.inc ≤ c.cap + 1) {hit : Bool}
    (hmiss : hit = false → d < lag) (hhit : hit = true → early ≤ d) (n : Nat)
    (hband : min (c.inc * n) (early - c.dec) ≤ d) :
    min (c.inc * (n + 1)) (early - c.dec) ≤ c.record d hit := by
  cases hit with
  | true => exact Nat.le_trans (Nat.min_le_right ..) (Nat.sub_le_sub_right (hhit rfl) _)
  | false =>
      rw [record_miss hroom (hmiss rfl), Nat.mul_succ]
      omega

/-- **The band, from below.**  The delay climbs a step an outcome until hits may begin, and
    then stays within a decrease of that. -/
theorem le_run_band (hroom : lag + c.inc ≤ c.cap + 1) (h : c.Explained lag d hits)
    (hexact : c.Exact early d hits) {n : Nat}
    (hband : min (c.inc * n) (early - c.dec) ≤ d) :
    min (c.inc * (n + hits.length)) (early - c.dec) ≤ c.run d hits := by
  induction hits generalizing d n with
  | nil => exact hband
  | cons hit rest ih =>
      rw [List.length_cons, Nat.add_comm rest.length, ← Nat.add_assoc, run_cons]
      exact ih h.2 hexact.2 (record_ge_band hroom h.1 hexact.1 n hband)

/-- **Accounting.**  Every miss is in the delay or was taken out by hits. -/
theorem accounts (hroom : lag + c.inc ≤ c.cap + 1) (h : c.Explained lag d hits) :
    d + c.inc * hits.count false ≤ c.run d hits + c.dec * hits.count true := by
  induction hits generalizing d with
  | nil => exact Nat.le_refl _
  | cons hit rest ih =>
      have hrest := ih h.2
      cases hit with
      | true =>
          have hrec : c.record d true = d - c.dec := rfl
          rw [List.count_cons_of_ne (by decide), List.count_cons_self, Nat.mul_succ, run_cons]
          rw [hrec] at hrest ⊢
          omega
      | false =>
          have hrec := record_miss hroom (h.1 rfl)
          rw [List.count_cons_self, List.count_cons_of_ne (by decide), Nat.mul_succ, run_cons]
          rw [hrec] at hrest ⊢
          omega

/-- Where hits never run the delay into zero, exactly so. -/
theorem accounts_exact (hroom : lag + c.inc ≤ c.cap + 1) (hdec : c.dec ≤ early)
    (h : c.Explained lag d hits) (hexact : c.Exact early d hits) :
    d + c.inc * hits.count false = c.run d hits + c.dec * hits.count true := by
  induction hits generalizing d with
  | nil => rfl
  | cons hit rest ih =>
      have hrest := ih h.2 hexact.2
      cases hit with
      | true =>
          have hle := hexact.1 rfl
          have hrec : c.record d true = d - c.dec := rfl
          rw [List.count_cons_of_ne (by decide), List.count_cons_self, Nat.mul_succ, run_cons]
          rw [hrec] at hrest ⊢
          omega
      | false =>
          have hrec := record_miss hroom (h.1 rfl)
          rw [List.count_cons_self, List.count_cons_of_ne (by decide), Nat.mul_succ, run_cons]
          rw [hrec] at hrest ⊢
          omega

/-- **The share of misses, from above.** -/
theorem misses_le (hroom : lag + c.inc ≤ c.cap + 1) (hband : d ≤ lag + c.inc)
    (h : c.Explained lag d hits) :
    (c.inc + c.dec) * hits.count false ≤ c.dec * hits.length + (lag + c.inc) := by
  have hacc := accounts hroom h
  have hend := run_le_band hband h
  rw [← List.count_true_add_count_false hits, Nat.mul_add, Nat.add_mul]
  omega

/-- **The share of misses, from below.** -/
theorem le_misses (hroom : lag + c.inc ≤ c.cap + 1) (hdec : c.dec ≤ early)
    (h : c.Explained lag d hits) (hexact : c.Exact early d hits) :
    c.dec * hits.length ≤ (c.inc + c.dec) * hits.count false + d := by
  have hacc := accounts_exact hroom hdec h hexact
  rw [← List.count_true_add_count_false hits, Nat.mul_add, Nat.add_mul]
  omega

/-- A lag the cap never reaches is missed every time, and the delay goes up to the
    cap and stays there. -/
theorem run_pegged (hcap : c.cap < lag) (hd : d ≤ c.cap) (hexact : c.Exact lag d hits) :
    hits.count true = 0 ∧ c.run d hits = min (d + c.inc * hits.length) c.cap := by
  induction hits generalizing d with
  | nil => exact ⟨rfl, (Nat.min_eq_left hd).symm⟩
  | cons hit rest ih =>
      cases hit with
      | true =>
          have := hexact.1 rfl
          omega
      | false =>
          obtain ⟨hcount, hrun⟩ := ih (record_le_cap hd false) hexact.2
          refine ⟨by rw [List.count_cons_of_ne (by decide)]; exact hcount, ?_⟩
          have hrec : c.record d false = min (d + c.inc) c.cap := rfl
          rw [run_cons, hrun, hrec, List.length_cons, Nat.mul_succ]
          omega

end Control

end AdditiveControl
