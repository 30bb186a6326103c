import Mathlib

/-! # The first gap of a set of numbers

    Scanning a finite set upward from a floor stops at the least number not in
    it.  `IsFirstGap P m g` states what that number is for any predicate;
    `firstGap` computes it for a list by climbing at most as many steps as the
    list has entries, which is always enough. -/

namespace FirstGap

/-- `g` is the least number from `m` on that does not satisfy `P`. -/
structure IsFirstGap (P : Nat → Prop) (m g : Nat) : Prop where
  le : m ≤ g
  gap : ¬ P g
  filled : ∀ k, m ≤ k → k < g → P k

/-- The first gap is unique. -/
theorem IsFirstGap.unique {P : Nat → Prop} {m g g' : Nat}
    (h : IsFirstGap P m g) (h' : IsFirstGap P m g') : g = g' := by
  rcases Nat.lt_trichotomy g g' with hlt | heq | hgt
  · exact absurd (h'.filled g h.le hlt) h.gap
  · exact heq
  · exact absurd (h.filled g' h'.le hgt) h'.gap

/-- Filling more numbers never lowers the first gap. -/
theorem IsFirstGap.mono {P Q : Nat → Prop} {m g g' : Nat}
    (hPQ : ∀ k, P k → Q k) (h : IsFirstGap P m g) (h' : IsFirstGap Q m g') :
    g ≤ g' := by
  rcases Nat.lt_or_ge g' g with hlt | hge
  · exact absurd (hPQ g' (h.filled g' h'.le hlt)) h'.gap
  · exact hge

/-- Filling a range that starts at the first gap moves it past the range. -/
theorem IsFirstGap.lt_of_filled {P Q : Nat → Prop} {m g g' e : Nat}
    (hPQ : ∀ k, P k → Q k) (h : IsFirstGap P m g) (h' : IsFirstGap Q m g')
    (hfill : ∀ k, g ≤ k → k ≤ e → Q k) : e < g' := by
  rcases Nat.lt_or_ge e g' with hlt | hle
  · exact hlt
  · have hg : g ≤ g' := h.mono hPQ h'
    exact absurd (hfill g' hg hle) h'.gap

/-- Climb from `h` while the number is present, at most `fuel` steps. -/
def climb (present : Nat → Bool) : Nat → Nat → Nat
  | 0, h => h
  | fuel + 1, h => if present h then climb present fuel (h + 1) else h

theorem climb_succ (present : Nat → Bool) (fuel h : Nat) :
    climb present (fuel + 1) h
      = if present h then climb present fuel (h + 1) else h := rfl

theorem le_climb (present : Nat → Bool) (fuel : Nat) :
    ∀ h, h ≤ climb present fuel h := by
  induction fuel with
  | zero => intro h; exact Nat.le_refl h
  | succ fuel ih =>
      intro h
      rw [climb_succ]
      by_cases hp : present h = true
      · rw [if_pos hp]
        exact Nat.le_trans (Nat.le_succ h) (ih (h + 1))
      · rw [if_neg hp]

/-- Everything climbed over is present. -/
theorem climb_filled (present : Nat → Bool) (fuel : Nat) :
    ∀ h k, h ≤ k → k < climb present fuel h → present k = true := by
  induction fuel with
  | zero =>
      intro h k hk hlt
      exact absurd hlt (Nat.not_lt.mpr hk)
  | succ fuel ih =>
      intro h k hk hlt
      rw [climb_succ] at hlt
      by_cases hp : present h = true
      · rw [if_pos hp] at hlt
        rcases Nat.eq_or_lt_of_le hk with heq | hgt
        · rw [← heq]; exact hp
        · exact ih (h + 1) k hgt hlt
      · rw [if_neg hp] at hlt
        exact absurd hlt (Nat.not_lt.mpr hk)

/-- The entries of a list from `h` on. -/
def upper (keys : List Nat) (h : Nat) : Finset Nat :=
  keys.toFinset.filter (h ≤ ·)

theorem card_upper_succ_lt {keys : List Nat} {h : Nat} (hmem : h ∈ keys) :
    (upper keys (h + 1)).card < (upper keys h).card := by
  refine Finset.card_lt_card ⟨?_, ?_⟩
  · intro k hk
    have hk' := Finset.mem_filter.mp hk
    exact Finset.mem_filter.mpr ⟨hk'.1, Nat.le_of_succ_le hk'.2⟩
  · intro hsub
    have hh : h ∈ upper keys h :=
      Finset.mem_filter.mpr ⟨List.mem_toFinset.mpr hmem, Nat.le_refl h⟩
    have := (Finset.mem_filter.mp (hsub hh)).2
    omega

/-- With as many steps as there are entries left, the climb ends at a gap. -/
theorem climb_gap (keys : List Nat) (fuel : Nat) :
    ∀ h, (upper keys h).card ≤ fuel → climb (keys.contains ·) fuel h ∉ keys := by
  induction fuel with
  | zero =>
      intro h hc hmem
      have := card_upper_succ_lt (h := h) hmem
      omega
  | succ fuel ih =>
      intro h hc
      rw [climb_succ]
      by_cases hp : keys.contains h = true
      · rw [if_pos hp]
        have := card_upper_succ_lt (List.contains_iff_mem.mp hp)
        exact ih (h + 1) (by omega)
      · rw [if_neg hp]
        exact fun hmem => hp (List.contains_iff_mem.mpr hmem)

/-- The least number from `m` on that is not in the list. -/
def firstGap (keys : List Nat) (m : Nat) : Nat :=
  climb (keys.contains ·) keys.length m

theorem isFirstGap_firstGap (keys : List Nat) (m : Nat) :
    IsFirstGap (· ∈ keys) m (firstGap keys m) where
  le := le_climb _ _ m
  gap := by
    refine climb_gap keys keys.length m ?_
    exact Nat.le_trans (Finset.card_filter_le _ _) (List.toFinset_card_le keys)
  filled := by
    intro k hk hlt
    exact List.contains_iff_mem.mp (climb_filled _ _ m k hk hlt)

end FirstGap
