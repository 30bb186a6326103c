import Neve.RunProofs
import Neve.RecordProofs

/-! # Pacing — one host budget over several chains

    A pacer hands out slots: whoever waits claims the next one and sleeps until it.
    `IngestCfg::pace` waits on the host's pacer, then on the chain's own.  The host's
    slots are an interval apart; the calls return at the chain's.

    The returns are as far apart as the host's slots exactly if no chain can hold a
    released call back for longer than the host waits between two
    (`host_cap_bounds_sum_iff`). -/

namespace NevePacer

/-! ## Slots -/

/-- Two instants with an interval between them. -/
def Apart (interval a b : Nat) : Prop := a + interval ≤ b ∨ b + interval ≤ a

theorem Apart.symm {interval a b : Nat} (h : Apart interval a b) : Apart interval b a :=
  Or.symm h

/-- Slots handed out so far, and where the next one may be: they are an interval apart,
    and the next one is an interval past each of them. -/
structure Spacing (interval nextSlot : Nat) (slots : List Nat) : Prop where
  apart : slots.Pairwise (Apart interval)
  below : ∀ s ∈ slots, s + interval ≤ nextSlot

namespace Spacing

variable {interval nextSlot : Nat} {slots slots' : List Nat}

theorem nil (interval nextSlot : Nat) : Spacing interval nextSlot [] :=
  ⟨List.Pairwise.nil, fun _ hs => absurd hs List.not_mem_nil⟩

/-- Claiming a slot that is free, and moving on by an interval. -/
theorem claim (h : Spacing interval nextSlot slots) {slot : Nat} (hslot : nextSlot ≤ slot) :
    Spacing interval (slot + interval) (slot :: slots) := by
  constructor
  · rw [List.pairwise_cons]
    refine ⟨?_, h.apart⟩
    intro s hs
    exact Or.inr ((h.below s hs).trans hslot)
  · intro s hs
    rcases List.mem_cons.mp hs with rfl | hold
    · exact Nat.le_refl _
    · have := h.below s hold
      omega

theorem perm (h : Spacing interval nextSlot slots) (hp : slots.Perm slots') :
    Spacing interval nextSlot slots' := by
  constructor
  · exact (hp.pairwise_iff Apart.symm).mp h.apart
  · intro s hs
    exact h.below s (hp.mem_iff.mpr hs)

end Spacing

/-- An element out of the middle of one list to the end of the next. -/
theorem perm_moved {α : Type*} (a : α) (before after later : List α) :
    (before ++ a :: after ++ later).Perm (before ++ after ++ (later ++ [a])) := by
  rw [← List.append_assoc, List.append_assoc before, List.cons_append]
  refine List.perm_middle.trans ?_
  rw [← List.append_assoc]
  exact (List.perm_append_singleton a _).symm

/-! ## The pacers -/

/-- `Instant::checked_add`; `horizon` is the last instant there is. -/
def checkedAdd (horizon instant duration : Nat) : Option Nat :=
  if instant + duration ≤ horizon then some (instant + duration) else none

/-- The last instant of the platform: seconds in an `i64`, and nanoseconds. -/
def INSTANT_MAX : Nat := 2 ^ 63 * 10 ^ 9 - 1

structure Pacer where
  interval : Nat
  nextSlot : Nat

namespace Pacer

/-- A pacer made `now`. -/
def new (interval now : Nat) : Pacer := ⟨interval, now⟩

/-- `Pacer::wait` up to its sleep: until when it sleeps, and the pacer left behind. -/
def wait (horizon : Nat) (p : Pacer) (now : Nat) : Nat × Pacer :=
  if p.interval = 0 then (now, p)
  else
    let slot := max p.nextSlot now
    (slot, { p with nextSlot := (checkedAdd horizon slot p.interval).getD slot })

/-- The slot claimed now leaves room for an interval after it. -/
def Room (horizon : Nat) (p : Pacer) (now : Nat) : Prop :=
  max p.nextSlot now + p.interval ≤ horizon

variable {horizon now : Nat} {p : Pacer}

/-- An unpaced call does not wait. -/
theorem wait_zero (h : p.interval = 0) : p.wait horizon now = (now, p) := if_pos h

theorem wait_pos (h : p.interval ≠ 0) (hroom : p.Room horizon now) :
    p.wait horizon now
      = (max p.nextSlot now, { p with nextSlot := max p.nextSlot now + p.interval }) := by
  simp only [wait]
  rw [if_neg h, checkedAdd, if_pos (show _ ≤ horizon from hroom), Option.getD_some]

@[simp] theorem wait_interval (horizon : Nat) (p : Pacer) (now : Nat) :
    (p.wait horizon now).2.interval = p.interval := by
  simp only [wait]
  by_cases h : p.interval = 0
  · rw [if_pos h]
  · rw [if_neg h]

/-- Nobody is released before it asks. -/
theorem le_wait (horizon : Nat) (p : Pacer) (now : Nat) : now ≤ (p.wait horizon now).1 := by
  simp only [wait]
  by_cases h : p.interval = 0
  · rw [if_pos h]
  · rw [if_neg h]
    exact Nat.le_max_right ..

/-- A call that finds its pacer's slot free goes on at once, and the next slot is an
    interval later at most. -/
theorem wait_free (hroom : p.Room horizon now) (hfree : p.nextSlot ≤ now) :
    (p.wait horizon now).1 = now ∧
      (p.wait horizon now).2.nextSlot ≤ now + p.interval := by
  by_cases h : p.interval = 0
  · rw [wait_zero h]
    exact ⟨rfl, hfree.trans (Nat.le_add_right ..)⟩
  · rw [wait_pos h hroom]
    exact ⟨Nat.max_eq_right hfree, by simp only [Nat.max_eq_right hfree, Nat.le_refl]⟩

end Pacer

/-! ## Calls in flight -/

/-- The budget a call sleeps under. -/
inductive Budget where
  | host
  | chain
  deriving DecidableEq

/-- A call of `pace` that sleeps until `slot`. -/
structure Call (κ : Type) where
  chain : κ
  budget : Budget
  slot : Nat

/-- The chains of one host: its pacer and theirs, the calls that sleep, and the calls
    that have returned, with the times they did (oldest first). -/
structure System (κ : Type) where
  now : Nat
  host : Pacer
  chains : κ → Pacer
  sleeping : List (Call κ)
  returned : List (κ × Nat)

/-- A chain calls `pace`; the `i`-th sleeper's slot has come; time passes. -/
inductive Action (κ : Type) where
  | pace (c : κ)
  | wake (i : Nat)
  | advance (t : Nat)

section System

variable {κ : Type} [DecidableEq κ] (horizon : Nat)

/-- All pacers made at one time, before any call. -/
def System.start (now interval : Nat) (intervals : κ → Nat) : System κ :=
  ⟨now, .new interval now, fun c => .new (intervals c) now, [], []⟩

/-- A sleeper whose slot has come: out of the host's wait into the chain's, or back to
    the caller. -/
def System.release (sys : System κ) (i : Nat) (call : Call κ) : System κ :=
  match call.budget with
  | .host =>
      let claimed := (sys.chains call.chain).wait horizon sys.now
      { sys with
        chains := Function.update sys.chains call.chain claimed.2
        sleeping := sys.sleeping.set i ⟨call.chain, .chain, claimed.1⟩ }
  | .chain =>
      { sys with
        sleeping := sys.sleeping.eraseIdx i
        returned := sys.returned ++ [(call.chain, sys.now)] }

/-- One step.  A sleeper is woken at its slot: time does not pass it by. -/
def step (sys : System κ) : Action κ → Option (System κ)
  | .pace c =>
      let claimed := sys.host.wait horizon sys.now
      some { sys with
        host := claimed.2
        sleeping := sys.sleeping ++ [⟨c, .host, claimed.1⟩] }
  | .wake i =>
      match sys.sleeping[i]? with
      | none => none
      | some call => if call.slot ≤ sys.now then some (sys.release horizon i call) else none
  | .advance t =>
      if sys.now ≤ t ∧ ∀ call ∈ sys.sleeping, t ≤ call.slot then
        some { sys with now := t }
      else none

/-- No slot is claimed within an interval of the last instant. -/
def Roomy (sys : System κ) : Action κ → Prop
  | .pace _ => sys.host.Room horizon sys.now
  | .wake i => ∀ call, sys.sleeping[i]? = some call → call.budget = .host →
      (sys.chains call.chain).Room horizon sys.now
  | .advance _ => True

end System

/-- Any two calls have returned at least an interval apart. -/
def Spaced {κ : Type} (interval : Nat) (returned : List (κ × Nat)) : Prop :=
  returned.Pairwise fun a b => a.2 + interval ≤ b.2

/-- The host's interval is zero, or the host has one chain only, or no chain's own
    interval is longer. -/
def CapHolds {κ : Type} (interval : Nat) (intervals : κ → Nat) : Prop :=
  interval = 0 ∨ (∀ c d : κ, c = d) ∨ ∀ c, intervals c ≤ interval

/-! ## What a step does -/

section Steps

variable {κ : Type} [DecidableEq κ] {horizon : Nat}

/-- Every step is one of four: a slot claimed from the host, a sleeper handed from the
    host's pacer to its chain's, a sleeper back at its caller, or time. -/
inductive Effect (horizon : Nat) (sys : System κ) : Action κ → System κ → Prop where
  | paced (c : κ) : Effect horizon sys (.pace c) { sys with
      host := (sys.host.wait horizon sys.now).2
      sleeping := sys.sleeping ++ [⟨c, .host, (sys.host.wait horizon sys.now).1⟩] }
  | handed (i : Nat) (before after : List (Call κ)) (call : Call κ)
      (hsleeping : sys.sleeping = before ++ call :: after) (hi : sys.sleeping[i]? = some call)
      (hbudget : call.budget = .host) (hdue : call.slot ≤ sys.now) :
      Effect horizon sys (.wake i) { sys with
        chains := Function.update sys.chains call.chain
          ((sys.chains call.chain).wait horizon sys.now).2
        sleeping := before ++
          ⟨call.chain, .chain, ((sys.chains call.chain).wait horizon sys.now).1⟩ :: after }
  | returned (i : Nat) (before after : List (Call κ)) (call : Call κ)
      (hsleeping : sys.sleeping = before ++ call :: after) (hbudget : call.budget = .chain)
      (hdue : call.slot ≤ sys.now) :
      Effect horizon sys (.wake i) { sys with
        sleeping := before ++ after
        returned := sys.returned ++ [(call.chain, sys.now)] }
  | advanced (t : Nat) (hnow : sys.now ≤ t)
      (hslots : ∀ call ∈ sys.sleeping, t ≤ call.slot) :
      Effect horizon sys (.advance t) { sys with now := t }

theorem step_effect {sys sys' : System κ} {a : Action κ} (h : step horizon sys a = some sys') :
    Effect horizon sys a sys' := by
  cases a with
  | pace c =>
      rw [← Option.some.inj h]
      exact Effect.paced c
  | wake i =>
      simp only [step] at h
      cases hi : sys.sleeping[i]? with
      | none =>
          rw [hi] at h
          cases h
      | some call =>
          rw [hi] at h
          dsimp only at h
          by_cases hdue : call.slot ≤ sys.now
          · rw [if_pos hdue] at h
            rw [← Option.some.inj h]
            obtain ⟨hlt, hget⟩ := List.getElem?_eq_some_iff.mp hi
            have hsplit : sys.sleeping
                = sys.sleeping.take i ++ call :: sys.sleeping.drop (i + 1) := by
              rw [← hget, List.getElem_cons_drop, List.take_append_drop]
            cases hbudget : call.budget with
            | host =>
                simp only [System.release, hbudget]
                rw [List.set_eq_take_append_cons_drop, if_pos hlt]
                exact Effect.handed i _ _ call hsplit hi hbudget hdue
            | chain =>
                simp only [System.release, hbudget]
                rw [List.eraseIdx_eq_take_drop_succ]
                exact Effect.returned i _ _ call hsplit hbudget hdue
          · rw [if_neg hdue] at h
            cases h
  | advance t =>
      simp only [step] at h
      by_cases hok : sys.now ≤ t ∧ ∀ call ∈ sys.sleeping, t ≤ call.slot
      · rw [if_pos hok] at h
        rw [← Option.some.inj h]
        exact Effect.advanced t hok.1 hok.2
      · rw [if_neg hok] at h
        cases h

/-! ## Time -/

/-- Sleepers wait for what is to come, and the returns are in order. -/
structure Timely (sys : System κ) : Prop where
  due : ∀ call ∈ sys.sleeping, sys.now ≤ call.slot
  past : ∀ r ∈ sys.returned, r.2 ≤ sys.now
  sorted : sys.returned.Pairwise fun a b => a.2 ≤ b.2

omit [DecidableEq κ] in
theorem timely_start (now interval : Nat) (intervals : κ → Nat) :
    Timely (.start now interval intervals) := by
  constructor
  · intro call hcall
    cases hcall
  · intro r hr
    cases hr
  · exact List.Pairwise.nil

theorem Timely.step {sys sys' : System κ} {a : Action κ} (h : Timely sys)
    (hstep : step horizon sys a = some sys') : Timely sys' := by
  cases step_effect hstep with
  | paced c =>
      refine ⟨?_, h.past, h.sorted⟩
      intro call hcall
      rcases List.mem_append.mp hcall with hold | hnew
      · exact h.due call hold
      · rw [List.mem_singleton.mp hnew]
        exact Pacer.le_wait ..
  | handed i before after call hsleeping hi hbudget hdue =>
      refine ⟨?_, h.past, h.sorted⟩
      intro other hother
      -- the call that was handed on, asleep until its chain's slot, or one that slept on
      have hcases : other = ⟨call.chain, .chain,
          ((sys.chains call.chain).wait horizon sys.now).1⟩ ∨ other ∈ sys.sleeping := by
        rw [hsleeping]
        rcases List.mem_append.mp hother with hb | ha
        · exact Or.inr (List.mem_append_left _ hb)
        · rcases List.mem_cons.mp ha with heq | ha
          · exact Or.inl heq
          · exact Or.inr (List.mem_append_right _ (List.mem_cons_of_mem _ ha))
      rcases hcases with rfl | hold
      · exact Pacer.le_wait ..
      · exact h.due other hold
  | returned i before after call hsleeping hbudget hdue =>
      refine ⟨?_, ?_, ?_⟩
      · intro other hother
        refine h.due other ?_
        rw [hsleeping]
        rcases List.mem_append.mp hother with hb | ha
        · exact List.mem_append_left _ hb
        · exact List.mem_append_right _ (List.mem_cons_of_mem _ ha)
      · intro r hr
        rcases List.mem_append.mp hr with hold | hnew
        · exact h.past r hold
        · rw [List.mem_singleton.mp hnew]
      -- a return is appended at the present, and no return lies in the future
      · rw [List.pairwise_append]
        refine ⟨h.sorted, List.pairwise_singleton _ _, ?_⟩
        intro r hr r' hr'
        rw [List.mem_singleton.mp hr']
        exact h.past r hr
  | advanced t hnow hslots =>
      refine ⟨hslots, ?_, h.sorted⟩
      intro r hr
      exact (h.past r hr).trans hnow

omit [DecidableEq κ] in
/-- A sleeper is woken at its slot, not later. -/
theorem Timely.slot_eq {sys : System κ} (h : Timely sys) {before after : List (Call κ)}
    {call : Call κ} (hsleeping : sys.sleeping = before ++ call :: after)
    (hdue : call.slot ≤ sys.now) : call.slot = sys.now := by
  refine Nat.le_antisymm hdue (h.due call ?_)
  rw [hsleeping]
  exact List.mem_append_right _ (List.mem_cons_self ..)

/-- The intervals are as configured. -/
structure Configured (interval : Nat) (intervals : κ → Nat) (sys : System κ) : Prop where
  host : sys.host.interval = interval
  chains : ∀ c, (sys.chains c).interval = intervals c

theorem Configured.step {interval : Nat} {intervals : κ → Nat} {sys sys' : System κ}
    {a : Action κ} (h : Configured interval intervals sys)
    (hstep : step horizon sys a = some sys') : Configured interval intervals sys' := by
  cases step_effect hstep with
  | paced c => exact ⟨(Pacer.wait_interval ..).trans h.host, h.chains⟩
  | handed i before after call hsleeping hi hbudget hdue =>
      refine ⟨h.host, ?_⟩
      intro c
      by_cases hc : c = call.chain
      · subst hc
        dsimp only
        rw [Function.update_self, Pacer.wait_interval]
        exact h.chains call.chain
      · dsimp only
        rw [Function.update_of_ne hc]
        exact h.chains c
  | returned i before after call hsleeping hbudget hdue => exact ⟨h.host, h.chains⟩
  | advanced t hnow hslots => exact ⟨h.host, h.chains⟩

end Steps

/-! ## Spacing on the host's pacer -/

section Host

variable {κ : Type} {horizon interval : Nat} {intervals : κ → Nat}

/-- The slots of all calls made so far, in no order that matters. -/
def System.slots (sys : System κ) : List Nat :=
  sys.sleeping.map Call.slot ++ sys.returned.map Prod.snd

/-- Every call still has the slot that the host's pacer gave it: no chain's pacer holds it
    back. -/
structure OnTime (interval : Nat) (sys : System κ) : Prop where
  spacing : Spacing interval sys.host.nextSlot sys.slots
  free : ∀ call ∈ sys.sleeping, call.budget = .host →
    (sys.chains call.chain).nextSlot ≤ call.slot
  behind : ∀ c, (sys.chains c).nextSlot ≤ sys.host.nextSlot

theorem onTime_start (now : Nat) : OnTime interval (.start now interval intervals) := by
  constructor
  · exact Spacing.nil ..
  · intro call hcall
    cases hcall
  · intro c
    exact Nat.le_refl _

variable [DecidableEq κ]

/-- **Where no chain waits longer than the host**, a released call finds its chain's slot
    free: the call released before it is an interval back. -/
theorem OnTime.step {sys sys' : System κ} {a : Action κ} (hpos : 0 < interval)
    (hle : ∀ c, intervals c ≤ interval) (h : OnTime interval sys) (htime : Timely sys)
    (hconf : Configured interval intervals sys) (hroomy : Roomy horizon sys a)
    (hstep : step horizon sys a = some sys') : OnTime interval sys' := by
  cases step_effect hstep with
  | paced c =>
      have hne : sys.host.interval ≠ 0 := by
        rw [hconf.host]
        omega
      have hwait := Pacer.wait_pos hne hroomy
      rw [hconf.host] at hwait
      rw [hwait]
      constructor
      · refine (h.spacing.claim (Nat.le_max_left _ sys.now)).perm ?_
        simp only [System.slots, List.map_append, List.map_cons, List.map_nil, List.append_assoc]
        exact List.perm_middle.symm
      · intro call hcall hbudget
        rcases List.mem_append.mp hcall with hold | hnew
        · exact h.free call hold hbudget
        · rw [List.mem_singleton.mp hnew]
          exact (h.behind c).trans (Nat.le_max_left ..)
      · intro c'
        have := h.behind c'
        dsimp only
        omega
  | handed i before after call hsleeping hi hbudget hdue =>
      have hmem : call ∈ sys.sleeping := by
        rw [hsleeping]
        exact List.mem_append_right _ (List.mem_cons_self ..)
      have hslot := htime.slot_eq hsleeping hdue
      have hfree := h.free call hmem hbudget
      rw [hslot] at hfree
      obtain ⟨hnow, hnext⟩ := Pacer.wait_free (hroomy call hi hbudget) hfree
      rw [hconf.chains] at hnext
      have hnext := hnext.trans (Nat.add_le_add_left (hle call.chain) sys.now)
      -- the other slots are an interval away from this one
      have hperm : sys.slots.Perm (call.slot :: ((before ++ after).map Call.slot
          ++ sys.returned.map Prod.snd)) := by
        simp only [System.slots, hsleeping, List.map_append, List.map_cons, List.append_assoc,
          List.cons_append]
        exact List.perm_middle
      obtain ⟨hapart, -⟩ := List.pairwise_cons.mp (h.spacing.perm hperm).apart
      have hothers : ∀ other ∈ before ++ after, sys.now + interval ≤ other.slot := by
        intro other hother
        have hdue' : sys.now ≤ other.slot := by
          refine htime.due other ?_
          rw [hsleeping]
          exact List.perm_middle.mem_iff.mpr (List.mem_cons_of_mem _ hother)
        rcases hapart other.slot (List.mem_append_left _ (List.mem_map_of_mem hother)) with
          hlater | hearlier
        · rwa [hslot] at hlater
        · omega
      constructor
      · have hsame : System.slots { sys with
            chains := Function.update sys.chains call.chain
              ((sys.chains call.chain).wait horizon sys.now).2
            sleeping := before ++
              ⟨call.chain, .chain, ((sys.chains call.chain).wait horizon sys.now).1⟩ :: after }
            = sys.slots := by
          simp only [System.slots, hsleeping, List.map_append, List.map_cons, hnow, hslot]
        rw [hsame]
        exact h.spacing
      · intro other hother hbudget'
        have hother' : other ∈ before ++ after := by
          rcases List.mem_append.mp hother with hb | ha
          · exact List.mem_append_left _ hb
          · rcases List.mem_cons.mp ha with rfl | ha
            · cases hbudget'
            · exact List.mem_append_right _ ha
        dsimp only
        by_cases hc : other.chain = call.chain
        · rw [hc, Function.update_self]
          exact hnext.trans (hothers other hother')
        · rw [Function.update_of_ne hc]
          refine h.free other ?_ hbudget'
          rw [hsleeping]
          exact List.perm_middle.mem_iff.mpr (List.mem_cons_of_mem _ hother')
      · intro c
        dsimp only
        by_cases hc : c = call.chain
        · subst hc
          rw [Function.update_self]
          refine hnext.trans ?_
          rw [← hslot]
          exact h.spacing.below call.slot
            (List.mem_append_left _ (List.mem_map_of_mem hmem))
        · rw [Function.update_of_ne hc]
          exact h.behind c
  | returned i before after call hsleeping hbudget hdue =>
      have hslot := htime.slot_eq hsleeping hdue
      constructor
      · refine h.spacing.perm ?_
        simp only [System.slots, hsleeping, List.map_append, List.map_cons, List.map_nil, hslot]
        exact perm_moved ..
      · intro other hother
        refine h.free other ?_
        rw [hsleeping]
        exact List.perm_middle.mem_iff.mpr (List.mem_cons_of_mem _ hother)
      · exact h.behind
  | advanced t hnow hslots => exact ⟨h.spacing, h.free, h.behind⟩

end Host

/-! ## Spacing on a chain's own pacer -/

section Own

variable {κ : Type} [DecidableEq κ] {horizon interval : Nat} {intervals : κ → Nat}

/-- The slot a call got from the pacer of `c`, if it got there. -/
def Call.ownSlot (c : κ) (call : Call κ) : Option Nat :=
  if call.chain = c ∧ call.budget = .chain then some call.slot else none

/-- The time of a return, if `c` made the call. -/
def ownReturn (c : κ) (r : κ × Nat) : Option Nat := if r.1 = c then some r.2 else none

/-- The slots that the pacer of `c` gave. -/
def System.ownSlots (sys : System κ) (c : κ) : List Nat :=
  sys.sleeping.filterMap (Call.ownSlot c) ++ sys.returned.filterMap (ownReturn c)

def OwnSpacing (interval : Nat) (c : κ) (sys : System κ) : Prop :=
  Spacing interval (sys.chains c).nextSlot (sys.ownSlots c)

/-- **A chain keeps its own interval**, whatever the host's pacer and the other chains do. -/
theorem OwnSpacing.step {sys sys' : System κ} {a : Action κ} {c : κ} (hpos : 0 < intervals c)
    (h : OwnSpacing (intervals c) c sys) (htime : Timely sys)
    (hconf : Configured interval intervals sys) (hroomy : Roomy horizon sys a)
    (hstep : NevePacer.step horizon sys a = some sys') : OwnSpacing (intervals c) c sys' := by
  cases step_effect hstep with
  | paced c' =>
      -- a call waiting on the host holds no slot of its chain yet
      have hnone : Call.ownSlot c ⟨c', .host, (sys.host.wait horizon sys.now).1⟩ = none := by
        refine if_neg ?_
        rintro ⟨-, hbudget⟩
        cases hbudget
      simp only [OwnSpacing, System.ownSlots, List.filterMap_append, List.filterMap_cons, hnone,
        List.filterMap_nil, List.append_nil]
      exact h
  | handed i before after call hsleeping hi hbudget hdue =>
      have hold : Call.ownSlot c call = none := by
        refine if_neg ?_
        rintro ⟨-, hchain⟩
        rw [hbudget] at hchain
        cases hchain
      simp only [OwnSpacing, System.ownSlots, hsleeping, List.filterMap_append,
        List.filterMap_cons, hold] at h
      by_cases hc : call.chain = c
      · subst hc
        have hne : (sys.chains call.chain).interval ≠ 0 := by
          rw [hconf.chains]
          omega
        have hwait := Pacer.wait_pos hne (hroomy call hi hbudget)
        rw [hconf.chains] at hwait
        have hnew : ∀ slot, Call.ownSlot call.chain ⟨call.chain, .chain, slot⟩ = some slot :=
          fun slot => if_pos ⟨rfl, rfl⟩
        simp only [OwnSpacing, System.ownSlots, List.filterMap_append, List.filterMap_cons,
          Function.update_self, hwait, hnew]
        -- the chain's own call claims the next slot of its pacer
        refine (Spacing.claim h (Nat.le_max_left _ sys.now)).perm ?_
        rw [List.append_assoc, List.append_assoc, List.cons_append]
        exact List.perm_middle.symm
      · have hother : ∀ slot, Call.ownSlot c ⟨call.chain, .chain, slot⟩ = none :=
          fun slot => if_neg fun h => hc h.1
        simp only [OwnSpacing, System.ownSlots, List.filterMap_append, List.filterMap_cons,
          Function.update_of_ne (Ne.symm hc), hother]
        exact h
  | returned i before after call hsleeping hbudget hdue =>
      -- a returned call was woken at its slot: the slot becomes the return
      have hslot := htime.slot_eq hsleeping hdue
      simp only [OwnSpacing, System.ownSlots, hsleeping, List.filterMap_append,
        List.filterMap_cons] at h
      simp only [OwnSpacing, System.ownSlots, List.filterMap_append, List.filterMap_cons,
        List.filterMap_nil]
      by_cases hc : call.chain = c
      · rw [show Call.ownSlot c call = some call.slot from if_pos ⟨hc, hbudget⟩, hslot] at h
        rw [show ownReturn c (call.chain, sys.now) = some sys.now from if_pos hc]
        exact h.perm (perm_moved ..)
      · rw [show Call.ownSlot c call = none from if_neg fun h => hc h.1] at h
        rw [show ownReturn c (call.chain, sys.now) = none from if_neg hc, List.append_nil]
        exact h
  | advanced t hnow hslots => exact h

end Own

/-! ## Runs -/

section Runs

variable {κ : Type} [DecidableEq κ] {horizon interval now : Nat} {intervals : κ → Nat}

/-- What is apart and in order is spaced. -/
theorem le_of_apart {a b : Nat} (hpos : 0 < interval) (h : Apart interval a b) (hle : a ≤ b) :
    a + interval ≤ b := by
  rcases h with h | h
  · exact h
  · omega

/-- A run of the chains from their start, with room on the clock. -/
def Runs (horizon now interval : Nat) (intervals : κ → Nat) (actions : List (Action κ))
    (sys : System κ) : Prop :=
  Run.Through (step horizon) (Roomy horizon) (.start now interval intervals) actions sys

/-- What every run keeps: time, and the intervals. -/
structure Base (interval : Nat) (intervals : κ → Nat) (sys : System κ) : Prop where
  timely : Timely sys
  configured : Configured interval intervals sys

theorem Base.step {sys sys' : System κ} {a : Action κ} (h : Base interval intervals sys)
    (hstep : NevePacer.step horizon sys a = some sys') : Base interval intervals sys' :=
  ⟨h.timely.step hstep, h.configured.step hstep⟩

omit [DecidableEq κ] in
theorem base_start (now interval : Nat) (intervals : κ → Nat) :
    Base interval intervals (.start now interval intervals) :=
  ⟨timely_start .., ⟨rfl, fun _ => rfl⟩⟩

theorem base_of_runs {actions : List (Action κ)} {sys : System κ}
    (h : Runs horizon now interval intervals actions sys) : Base interval intervals sys :=
  Run.exec_invariant_all (fun _ _ _ hi hs => Base.step hi hs) (base_start ..) h.exec

/-- Every run keeps every chain's own interval. -/
theorem own_interval_kept {actions : List (Action κ)} {sys : System κ}
    (h : Runs horizon now interval intervals actions sys) (c : κ) :
    (sys.returned.filterMap (ownReturn c)).Pairwise fun a b => a + intervals c ≤ b := by
  have hbase := base_of_runs h
  have hsorted : (sys.returned.filterMap (ownReturn c)).Pairwise fun a b => a ≤ b := by
    refine List.Pairwise.filterMap (ownReturn c) ?_ hbase.timely.sorted
    intro r r' hle a ha b hb
    simp only [ownReturn, Option.ite_none_right_eq_some, Option.some.injEq] at ha hb
    rw [← ha.2, ← hb.2]
    exact hle
  rcases Nat.eq_zero_or_pos (intervals c) with hzero | hpos
  · rw [hzero]
    exact hsorted
  · have hstep : ∀ (s : System κ) (a : Action κ) (s' : System κ),
        (Base interval intervals s ∧ OwnSpacing (intervals c) c s) → Roomy horizon s a →
        NevePacer.step horizon s a = some s' →
        Base interval intervals s' ∧ OwnSpacing (intervals c) c s' := by
      intro s a s' hi hroomy hs
      exact ⟨hi.1.step hs, hi.2.step hpos hi.1.timely hi.1.configured hroomy hs⟩
    have hown := (Run.exec_invariant (Roomy horizon) hstep
      ⟨base_start .., Spacing.nil ..⟩ h.meets h.exec).2
    have hapart := (List.pairwise_append.mp hown.apart).2.1
    exact (hapart.and hsorted).imp fun h => le_of_apart hpos h.1 h.2

/-- **The cap holds** where the configuration allows for it. -/
theorem spaced_of_capHolds (hcap : CapHolds interval intervals) {actions : List (Action κ)}
    {sys : System κ} (h : Runs horizon now interval intervals actions sys) :
    Spaced interval sys.returned := by
  have hbase := base_of_runs h
  rcases Nat.eq_zero_or_pos interval with hzero | hpos
  · rw [hzero]
    exact hbase.timely.sorted
  by_cases hle : ∀ c, intervals c ≤ interval
  · have hstep : ∀ (s : System κ) (a : Action κ) (s' : System κ),
        (Base interval intervals s ∧ OnTime interval s) → Roomy horizon s a →
        NevePacer.step horizon s a = some s' →
        Base interval intervals s' ∧ OnTime interval s' := by
      intro s a s' hi hroomy hs
      exact ⟨hi.1.step hs, hi.2.step hpos hle hi.1.timely hi.1.configured hroomy hs⟩
    have hon := (Run.exec_invariant (Roomy horizon) hstep
      ⟨base_start .., onTime_start now⟩ h.meets h.exec).2
    have hapart := (List.pairwise_append.mp hon.spacing.apart).2.1
    have hreturns := List.pairwise_map.mp hapart
    exact (hreturns.and hbase.timely.sorted).imp fun h => le_of_apart hpos h.1 h.2
  · -- one chain, and its own interval is the longer one
    obtain ⟨c, hc⟩ := not_forall.mp hle
    have hone : ∀ d, d = c := by
      rcases hcap with hzero | hone | hall
      · omega
      · exact fun d => hone d c
      · exact absurd hall hle
    have hall : sys.returned.filterMap (ownReturn c) = sys.returned.map Prod.snd := by
      rw [← List.filterMap_eq_map]
      refine List.filterMap_congr ?_
      intro r _
      exact if_pos (hone r.1)
    have hown := own_interval_kept h c
    rw [hall, List.pairwise_map] at hown
    exact hown.imp fun hab => by omega

/-! ### A call overtaken by another chain's -/

/-- One step that finds room, and the rest of the run. -/
theorem through_pace {next : Nat} {chains : κ → Pacer} {sleeping : List (Call κ)}
    {returned : List (κ × Nat)} {rest : List (Action κ)} {sys : System κ} {c : κ} (slot : Nat)
    (hne : interval ≠ 0) (hslot : max next now = slot) (hroom : slot + interval ≤ horizon)
    (h : Run.Through (step horizon) (Roomy horizon)
      ⟨now, ⟨interval, slot + interval⟩, chains,
        sleeping ++ [⟨c, .host, slot⟩], returned⟩ rest sys) :
    Run.Through (step horizon) (Roomy horizon)
      ⟨now, ⟨interval, next⟩, chains, sleeping, returned⟩ (.pace c :: rest) sys := by
  subst hslot
  refine Run.Through.cons _ hroom ?_ h
  simp only [step, @Pacer.wait_pos horizon now ⟨interval, next⟩ hne hroom]

theorem through_handed {host : Pacer} {chains : κ → Pacer} {sleeping : List (Call κ)}
    {returned : List (κ × Nat)} {rest : List (Action κ)} {sys : System κ} {c : κ} {slot : Nat}
    {own : Pacer} (hdue : slot ≤ now) (hown : chains c = own) (hroom : own.Room horizon now)
    (h : Run.Through (step horizon) (Roomy horizon)
      ⟨now, host, Function.update chains c (own.wait horizon now).2,
        ⟨c, .chain, (own.wait horizon now).1⟩ :: sleeping, returned⟩ rest sys) :
    Run.Through (step horizon) (Roomy horizon)
      ⟨now, host, chains, ⟨c, .host, slot⟩ :: sleeping, returned⟩
        (.wake 0 :: rest) sys := by
  subst hown
  refine Run.Through.cons _ ?_ (if_pos hdue) h
  intro call hcall _
  rw [← Option.some.inj hcall]
  exact hroom

theorem through_returned {host : Pacer} {chains : κ → Pacer} {sleeping : List (Call κ)}
    {returned : List (κ × Nat)} {rest : List (Action κ)} {sys : System κ} {c : κ} {slot : Nat}
    (hdue : slot ≤ now)
    (h : Run.Through (step horizon) (Roomy horizon)
      ⟨now, host, chains, sleeping, returned ++ [(c, now)]⟩ rest sys) :
    Run.Through (step horizon) (Roomy horizon)
      ⟨now, host, chains, ⟨c, .chain, slot⟩ :: sleeping, returned⟩
        (.wake 0 :: rest) sys := by
  refine Run.Through.cons _ ?_ (if_pos hdue) h
  intro call hcall hbudget
  rw [← Option.some.inj hcall] at hbudget
  cases hbudget

theorem through_advance {host : Pacer} {chains : κ → Pacer} {sleeping : List (Call κ)}
    {returned : List (κ × Nat)} {rest : List (Action κ)} {sys : System κ} {t : Nat}
    (hnow : now ≤ t) (hslots : ∀ call ∈ sleeping, t ≤ call.slot)
    (h : Run.Through (step horizon) (Roomy horizon) ⟨t, host, chains, sleeping, returned⟩
      rest sys) :
    Run.Through (step horizon) (Roomy horizon) ⟨now, host, chains, sleeping, returned⟩
      (.advance t :: rest) sys :=
  Run.Through.cons _ trivial (if_pos ⟨hnow, hslots⟩) h

/-- Two calls of `c` at once; the second is released by the host after an interval, and
    then waits out the interval of its chain.  When that is over, `d` calls. -/
def overtaking (c d : κ) (now interval own : Nat) : List (Action κ) :=
  [.pace c, .pace c, .wake 0, .wake 0, .advance (now + interval), .wake 0,
    .advance (now + own), .pace d, .wake 0, .advance (max (now + 2 * interval) (now + own)),
    .wake 0, .wake 0]

/-- **A chain with a longer interval is overtaken**: its second call returns with the
    other chain's, or less than the host's interval before it. -/
theorem overtaking_runs {c d : κ} (hcd : d ≠ c) (hpos : 0 < interval)
    (hlong : interval < intervals c)
    (hroom : now + 3 * interval + 2 * intervals c + intervals d ≤ horizon) :
    ∃ sys, Runs horizon now interval intervals (overtaking c d now interval (intervals c)) sys ∧
      sys.returned = [(c, now), (c, now + intervals c),
        (d, max (now + 2 * interval) (now + intervals c))] := by
  have hne : interval ≠ 0 := Nat.ne_of_gt hpos
  have hown : intervals c ≠ 0 := by omega
  -- the slots that the pacer of `c` gives
  have hfirst : (Pacer.mk (intervals c) now).wait horizon now
      = (now, ⟨intervals c, now + intervals c⟩) := by
    have hwait := @Pacer.wait_pos horizon now ⟨intervals c, now⟩ hown
      (by simp only [Pacer.Room]; omega)
    rwa [Nat.max_self] at hwait
  have hsecond : (Pacer.mk (intervals c) (now + intervals c)).wait horizon (now + interval)
      = (now + intervals c, ⟨intervals c, now + intervals c + intervals c⟩) := by
    have hwait := @Pacer.wait_pos horizon (now + interval) ⟨intervals c, now + intervals c⟩
      hown (by simp only [Pacer.Room]; omega)
    rwa [Nat.max_eq_left (by dsimp only; omega)] at hwait
  generalize hs : max (now + 2 * interval) (now + intervals c) = s
  have hlast : ((Pacer.mk (intervals d) now).wait horizon s).1 = s :=
    (Pacer.wait_free (by simp only [Pacer.Room]; omega) (by dsimp only; omega)).1
  have hother : ∀ p q : Pacer, Function.update (Function.update
      (fun k => Pacer.mk (intervals k) now) c p) c q d = ⟨intervals d, now⟩ := by
    intro p q
    rw [Function.update_of_ne hcd, Function.update_of_ne hcd]
  refine ⟨⟨s, ⟨interval, s + interval⟩, Function.update (Function.update (Function.update
    (fun k => Pacer.mk (intervals k) now) c ⟨intervals c, now + intervals c⟩)
    c ⟨intervals c, now + intervals c + intervals c⟩)
    d (Pacer.wait horizon ⟨intervals d, now⟩ s).2, [],
    [(c, now), (c, now + intervals c), (d, s)]⟩, ?_, rfl⟩
  simp only [Runs, overtaking, System.start, Pacer.new, hs]
  refine through_pace now hne (Nat.max_self now) (by omega) ?_
  refine through_pace (now + interval) hne (by omega) (by omega) ?_
  refine through_handed (Nat.le_refl now) rfl (by simp only [Pacer.Room]; omega) ?_
  rw [hfirst]
  refine through_returned (Nat.le_refl now) ?_
  refine through_advance (by omega) (by simp) ?_
  refine through_handed (Nat.le_refl _) (Function.update_self ..)
    (by simp only [Pacer.Room]; omega) ?_
  rw [hsecond]
  refine through_advance (by omega) (by simp) ?_
  refine through_pace s hne (by omega) (by omega) ?_
  refine through_returned (Nat.le_refl _) ?_
  refine through_advance (by omega) (by simp) ?_
  refine through_handed (Nat.le_refl _) (hother _ _) (by simp only [Pacer.Room]; omega) ?_
  rw [hlast]
  exact through_returned (Nat.le_refl _) (Run.Through.nil _)

/-- **What the host's cap bounds.** On a clock with room for a few intervals, any two
    calls of any chains return at least the host's interval apart, in every run, exactly
    if that interval is zero, or the host has one chain only, or no chain's own interval
    is longer. -/
theorem host_cap_bounds_sum_iff
    (hroom : ∀ c d, now + 3 * interval + 2 * intervals c + intervals d ≤ horizon) :
    (∀ actions sys, Runs horizon now interval intervals actions sys →
      Spaced interval sys.returned) ↔ CapHolds interval intervals := by
  constructor
  · intro hall
    by_contra hnot
    simp only [CapHolds, not_or, not_forall] at hnot
    obtain ⟨hzero, ⟨c₁, c₂, hne⟩, c, hc⟩ := hnot
    -- some other chain
    obtain ⟨d, hd⟩ : ∃ d, d ≠ c := by
      by_cases h : c₁ = c
      · exact ⟨c₂, fun h' => hne (h.trans h'.symm)⟩
      · exact ⟨c₁, h⟩
    obtain ⟨sys, hruns, hreturned⟩ := overtaking_runs hd (Nat.pos_of_ne_zero hzero)
      (Nat.lt_of_not_le hc) (hroom c d)
    have hspaced := hall _ sys hruns
    rw [hreturned] at hspaced
    have hlast := (List.pairwise_cons.mp (List.pairwise_cons.mp hspaced).2).1
      (d, max (now + 2 * interval) (now + intervals c)) (List.mem_singleton.mpr rfl)
    dsimp only at hlast
    omega
  · intro hcap actions sys hruns
    exact spaced_of_capHolds hcap hruns

end Runs

/-! ### The default intervals -/

/-- Milliseconds, on a clock of nanoseconds. -/
def ms (n : Nat) : Nat := n * 10 ^ 6

/-- The intervals of the two chains on the public endpoint. -/
def defaultIntervals : NeveRecord.Chain → Nat
  | .C => ms 40
  | .P => ms 200

/-- The default intervals let the host's 25 requests a second be exceeded; with the
    P-chain's at the host's own, they do not. -/
theorem host_cap_bounds_sum_iff_defaults :
    (¬ ∀ actions sys, Runs INSTANT_MAX 0 (ms 40) defaultIntervals actions sys →
      Spaced (ms 40) sys.returned) ∧
    ∀ actions sys, Runs INSTANT_MAX 0 (ms 40) (fun _ : NeveRecord.Chain => ms 40) actions sys →
      Spaced (ms 40) sys.returned := by
  have hsome : ∀ c, defaultIntervals c ≤ ms 200 := by
    intro c
    cases c with
    | C => decide
    | P => decide
  have hbound : 0 + 3 * ms 40 + 2 * ms 200 + ms 200 ≤ INSTANT_MAX := by decide
  constructor
  · intro hall
    have hcap := (host_cap_bounds_sum_iff (fun c d => by
      have := hsome c
      have := hsome d
      omega)).mp hall
    rcases hcap with hzero | hone | hle
    · exact absurd hzero (by decide)
    · exact absurd (hone .C .P) (by decide)
    · exact absurd (hle .P) (by decide)
  · refine (host_cap_bounds_sum_iff ?_).mpr (Or.inr (Or.inr fun _ => Nat.le_refl _))
    intro _ _
    decide

/-- On the default intervals: two P-chain calls at once, the second of which is released
    at 40 ms and goes out at 200 ms, and a C-chain call at that very time. -/
theorem pchain_call_overtaken :
    ∃ sys, Runs INSTANT_MAX 0 (ms 40) defaultIntervals
        (overtaking .P .C 0 (ms 40) (ms 200)) sys ∧
      sys.returned = [(.P, 0), (.P, ms 200), (.C, ms 200)] ∧ ¬ Spaced (ms 40) sys.returned := by
  obtain ⟨sys, hruns, hreturned⟩ := overtaking_runs
    (show NeveRecord.Chain.C ≠ .P by decide) (show 0 < ms 40 by decide)
    (show ms 40 < defaultIntervals .P by decide)
    (show 0 + 3 * ms 40 + 2 * defaultIntervals .P + defaultIntervals .C ≤ INSTANT_MAX by decide)
  refine ⟨sys, hruns, hreturned, ?_⟩
  rw [hreturned]
  intro hspaced
  have hlast := (List.pairwise_cons.mp (List.pairwise_cons.mp hspaced).2).1
    (.C, ms 200) (List.mem_singleton.mpr rfl)
  exact absurd hlast (by decide)

end NevePacer
