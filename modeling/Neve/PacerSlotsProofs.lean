import Neve.PacerProofs

/-! # One pacer — the slots it hands out

    Any number of tasks call `Pacer::wait` on one pacer.  A call reads the clock and
    claims its slot in one critical section, and sleeps outside of it, so the calls are
    one sequence, whatever their tasks do meanwhile.

    Each slot is the earliest instant that is not before its call and an interval past
    every slot claimed before it (`slots_earliest`). -/

namespace NevePacer

/-- One call of `wait`: by whom, when, and the slot it claimed. -/
structure Claim (κ : Type) where
  task : κ
  called : Nat
  slot : Nat

/-! ## Slots that are as early as they can be -/

section Earliest

variable {κ : Type}

/-- What a claim may take: not before its call, and an interval past every slot
    claimed before. -/
def Admissible (interval : Nat) (before : List (Claim κ)) (called t : Nat) : Prop :=
  called ≤ t ∧ ∀ b ∈ before, b.slot + interval ≤ t

/-- Every claim took the least of what it may take. -/
def Earliest (interval : Nat) (claims : List (Claim κ)) : Prop :=
  ∀ before c after, claims = before ++ c :: after →
    IsLeast {t | Admissible interval before c.called t} c.slot

variable {interval : Nat} {claims : List (Claim κ)}

theorem earliest_nil : Earliest interval ([] : List (Claim κ)) := by
  intro before c after h
  have hlen := congrArg List.length h
  rw [List.length_append, List.length_cons, List.length_nil] at hlen
  omega

/-- One more claim. -/
theorem Earliest.concat (h : Earliest interval claims) {c : Claim κ}
    (hleast : IsLeast {t | Admissible interval claims c.called t} c.slot) :
    Earliest interval (claims ++ [c]) := by
  intro before d after hsplit
  rcases List.eq_nil_or_concat after with rfl | ⟨later, last, rfl⟩
  · obtain ⟨rfl, hc⟩ := List.append_inj' hsplit rfl
    rw [← List.head_eq_of_cons_eq hc]
    exact hleast
  · have hassoc : before ++ d :: (later ++ [last]) = (before ++ d :: later) ++ [last] := by
      rw [List.append_assoc, List.cons_append]
    rw [List.concat_eq_append, hassoc] at hsplit
    exact h before d later (List.append_inj' hsplit rfl).1

theorem Earliest.called_le (h : Earliest interval claims) {c : Claim κ} (hc : c ∈ claims) :
    c.called ≤ c.slot := by
  obtain ⟨before, after, hsplit⟩ := List.append_of_mem hc
  exact (h before c after hsplit).1.1

/-- The slots of two claims are an interval apart. -/
theorem Earliest.spaced (h : Earliest interval claims) :
    claims.Pairwise fun a b => a.slot + interval ≤ b.slot := by
  rw [List.pairwise_iff_getElem]
  intro i j hi hj hij
  have hsplit : claims = claims.take j ++ claims[j] :: claims.drop (j + 1) := by
    rw [List.getElem_cons_drop, List.take_append_drop]
  have hmem : claims[i] ∈ claims.take j := by
    rw [List.mem_take_iff_getElem]
    exact ⟨i, by omega, rfl⟩
  exact (h _ _ _ hsplit).1.2 _ hmem

/-- A pacer that has caught up does not delay. -/
theorem Earliest.idle (h : Earliest interval claims) {before after : List (Claim κ)}
    {c : Claim κ} (hsplit : claims = before ++ c :: after)
    (hfree : ∀ b ∈ before, b.slot + interval ≤ c.called) : c.slot = c.called := by
  have hleast := h before c after hsplit
  exact Nat.le_antisymm (hleast.2 ⟨Nat.le_refl _, hfree⟩) hleast.1.1

/-- A pacer that is behind grants the next slot an interval after the last. -/
theorem Earliest.busy (h : Earliest interval claims) {before after : List (Claim κ)}
    {b c : Claim κ} (hsplit : claims = before ++ b :: c :: after)
    (hbehind : c.called ≤ b.slot + interval) : c.slot = b.slot + interval := by
  have hcut : claims = (before ++ [b]) ++ c :: after := by
    rw [hsplit, List.append_assoc, List.singleton_append]
  have hleast := h (before ++ [b]) c after hcut
  have hb : b ∈ before ++ [b] := List.mem_append_right _ (List.mem_singleton.mpr rfl)
  refine Nat.le_antisymm (hleast.2 ⟨hbehind, ?_⟩) (hleast.1.2 b hb)
  intro a ha
  rcases List.mem_append.mp ha with hold | hlast
  · have hapart := (h before b (c :: after) hsplit).1.2 a hold
    omega
  · rw [List.mem_singleton.mp hlast]

/-- **No other schedule of the same calls is ahead anywhere**, as long as it keeps the
    interval and calls nobody early. -/
theorem Earliest.le_schedule (h : Earliest interval claims) (schedule : Nat → Nat)
    (happart : ∀ j k, j < k → k < claims.length → schedule j + interval ≤ schedule k)
    (hcalled : ∀ k c, claims[k]? = some c → c.called ≤ schedule k) :
    ∀ k c, claims[k]? = some c → c.slot ≤ schedule k := by
  intro k
  induction k using Nat.strong_induction_on with
  | _ k ih =>
      intro c hc
      obtain ⟨hk, hget⟩ := List.getElem?_eq_some_iff.mp hc
      have hsplit : claims = claims.take k ++ c :: claims.drop (k + 1) := by
        rw [← hget, List.getElem_cons_drop, List.take_append_drop]
      refine (h _ _ _ hsplit).2 ⟨hcalled k c hc, ?_⟩
      -- the slots before are no later than the schedule's, by induction
      intro b hb
      obtain ⟨j, hj, hbj⟩ := List.mem_take_iff_getElem.mp hb
      have hjk : j < k := by omega
      have hle := ih j hjk b (List.getElem?_eq_some_iff.mpr ⟨by omega, hbj⟩)
      have hgap := happart j k hjk hk
      omega

end Earliest

/-! ## The calls of one pacer -/

/-- The clock, the pacer, and the claims made of it so far, in their order. -/
structure Solo (κ : Type) where
  now : Nat
  pacer : Pacer
  claims : List (Claim κ)

/-- A task calls `wait`, or time passes. -/
inductive SoloAction (κ : Type) where
  | wait (task : κ)
  | advance (t : Nat)

section Solo

variable {κ : Type}

/-- A pacer that has just been made. -/
def Solo.start (now interval : Nat) : Solo κ := ⟨now, .new interval now, []⟩

def soloStep (horizon : Nat) (solo : Solo κ) : SoloAction κ → Option (Solo κ)
  | .wait task =>
      let claimed := solo.pacer.wait horizon solo.now
      some { solo with
        pacer := claimed.2
        claims := solo.claims ++ [⟨task, solo.now, claimed.1⟩] }
  | .advance t => if solo.now ≤ t then some { solo with now := t } else none

/-- No slot is claimed within an interval of the last instant. -/
def SoloRoomy (horizon : Nat) (solo : Solo κ) : SoloAction κ → Prop
  | .wait _ => solo.pacer.Room horizon solo.now
  | .advance _ => True

/-- What every call keeps: the next slot is an interval past each of the slots, and no
    further than the last one or the clock asks for. -/
structure Kept (interval : Nat) (solo : Solo κ) : Prop where
  interval_eq : solo.pacer.interval = interval
  earliest : Earliest interval solo.claims
  below : ∀ c ∈ solo.claims, c.slot + interval ≤ solo.pacer.nextSlot
  tight : solo.pacer.nextSlot ≤ solo.now ∨
    ∃ c ∈ solo.claims, solo.pacer.nextSlot = c.slot + interval

theorem kept_start (now interval : Nat) : Kept interval (Solo.start now interval : Solo κ) where
  interval_eq := rfl
  earliest := earliest_nil
  below := fun _ hc => absurd hc List.not_mem_nil
  tight := Or.inl (Nat.le_refl now)

/-- The slot of a call is the least it may take. -/
theorem Kept.isLeast {interval : Nat} {solo : Solo κ} (h : Kept interval solo) :
    IsLeast {t | Admissible interval solo.claims solo.now t}
      (max solo.pacer.nextSlot solo.now) := by
  constructor
  · refine ⟨Nat.le_max_right .., ?_⟩
    intro c hc
    exact (h.below c hc).trans (Nat.le_max_left ..)
  · rintro t ⟨hnow, hpast⟩
    refine Nat.max_le.mpr ⟨?_, hnow⟩
    rcases h.tight with hidle | ⟨c, hc, hnext⟩
    · exact hidle.trans hnow
    · exact hnext ▸ hpast c hc

/-- **One call, or time passing**, keeps that. -/
theorem Kept.step {horizon interval : Nat} (hpos : 0 < interval) {solo solo' : Solo κ}
    {a : SoloAction κ} (h : Kept interval solo) (hroomy : SoloRoomy horizon solo a)
    (hstep : soloStep horizon solo a = some solo') : Kept interval solo' := by
  cases a with
  | wait task =>
      have hwait := Pacer.wait_pos (by rw [h.interval_eq]; omega) hroomy
      simp only [soloStep, hwait] at hstep
      obtain rfl := Option.some.inj hstep
      refine ⟨h.interval_eq, h.earliest.concat h.isLeast, ?_, ?_⟩
      · intro c hc
        dsimp only
        rw [h.interval_eq]
        rcases List.mem_append.mp hc with hold | hnew
        · have hbelow := h.below c hold
          have hmax := Nat.le_max_left solo.pacer.nextSlot solo.now
          omega
        · rw [List.mem_singleton.mp hnew]
      · refine Or.inr ⟨_, List.mem_append_right _ (List.mem_singleton.mpr rfl), ?_⟩
        dsimp only
        rw [h.interval_eq]
  | advance t =>
      simp only [soloStep] at hstep
      by_cases hle : solo.now ≤ t
      · rw [if_pos hle] at hstep
        obtain rfl := Option.some.inj hstep
        exact ⟨h.interval_eq, h.earliest, h.below, h.tight.imp_left fun hidle =>
          hidle.trans hle⟩
      · rw [if_neg hle] at hstep
        cases hstep

/-- The law of the slots of one pacer. -/
structure SlotLaw (interval : Nat) (claims : List (Claim κ)) : Prop where
  ordered : claims.Pairwise fun a b => a.slot < b.slot
  spaced : claims.Pairwise fun a b => a.slot + interval ≤ b.slot
  called_le : ∀ c ∈ claims, c.called ≤ c.slot
  earliest : Earliest interval claims
  idle : ∀ before c after, claims = before ++ c :: after →
    (∀ b ∈ before, b.slot + interval ≤ c.called) → c.slot = c.called
  busy : ∀ before b c after, claims = before ++ b :: c :: after →
    c.called ≤ b.slot + interval → c.slot = b.slot + interval
  optimal : ∀ schedule : Nat → Nat,
    (∀ j k, j < k → k < claims.length → schedule j + interval ≤ schedule k) →
    (∀ k c, claims[k]? = some c → c.called ≤ schedule k) →
    ∀ k c, claims[k]? = some c → c.slot ≤ schedule k

/-- **A single pacer spaces and does not waste slots.** -/
theorem slots_earliest {horizon now interval : Nat} (hpos : 0 < interval)
    {actions : List (SoloAction κ)} {solo : Solo κ}
    (h : Run.Through (soloStep horizon) (SoloRoomy horizon) (.start now interval) actions solo) :
    SlotLaw interval solo.claims := by
  have hkept : Kept interval solo :=
    Run.exec_invariant (SoloRoomy horizon) (fun _ _ _ hi hroomy hs => hi.step hpos hroomy hs)
      (kept_start now interval) h.meets h.exec
  have hearliest := hkept.earliest
  exact {
    ordered := hearliest.spaced.imp fun hab => by omega
    spaced := hearliest.spaced
    called_le := fun c hc => hearliest.called_le hc
    earliest := hearliest
    idle := fun before c after hsplit hfree => hearliest.idle hsplit hfree
    busy := fun before b c after hsplit hbehind => hearliest.busy hsplit hbehind
    optimal := hearliest.le_schedule }

end Solo

/-- Two tasks at once, and one after a pause, at one slot every 40 ms. -/
def pausedCalls : List (SoloAction Nat) :=
  [.wait 0, .wait 1, .advance (ms 100), .wait 0, .advance (ms 110), .wait 2]

theorem slots_earliest_paused :
    SlotLaw (ms 40)
      ([⟨0, 0, 0⟩, ⟨1, 0, ms 40⟩, ⟨0, ms 100, ms 100⟩, ⟨2, ms 110, ms 140⟩]
      : List (Claim Nat)) := by
  have hrun : Run.Through (soloStep INSTANT_MAX) (SoloRoomy INSTANT_MAX) (.start 0 (ms 40))
      pausedCalls ⟨ms 110, ⟨ms 40, ms 180⟩,
        [⟨0, 0, 0⟩, ⟨1, 0, ms 40⟩, ⟨0, ms 100, ms 100⟩,
          ⟨2, ms 110, ms 140⟩]⟩ := by
    refine .cons ⟨0, ⟨ms 40, ms 40⟩, [⟨0, 0, 0⟩]⟩
      (by decide : 0 + ms 40 ≤ INSTANT_MAX) rfl ?_
    refine .cons ⟨0, ⟨ms 40, ms 80⟩, _⟩ (by decide : ms 40 + ms 40 ≤ INSTANT_MAX) rfl ?_
    refine .cons ⟨ms 100, ⟨ms 40, ms 80⟩, _⟩ trivial rfl ?_
    refine .cons ⟨ms 100, ⟨ms 40, ms 140⟩, _⟩
      (by decide : ms 100 + ms 40 ≤ INSTANT_MAX) rfl ?_
    refine .cons ⟨ms 110, ⟨ms 40, ms 140⟩, _⟩ trivial rfl ?_
    exact .cons _ (by decide : ms 140 + ms 40 ≤ INSTANT_MAX) rfl (.nil _)
  exact slots_earliest (by decide) hrun

end NevePacer
