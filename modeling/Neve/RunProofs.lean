import Mathlib

/-! # Runs of a step function

    A system is a partial step function: `step s a` is the state after action
    `a`, or `none` when `a` is not enabled in `s`.  `exec` runs a list of
    actions.  The invariant rule is stated for runs whose steps all meet a side
    condition, so that "in every run that never does X" is one application. -/

namespace Run

variable {S A : Type*}

/-- The state after a list of actions, if each is enabled in turn. -/
def exec (step : S → A → Option S) : S → List A → Option S
  | s, [] => some s
  | s, a :: rest => (step s a).bind fun s' => exec step s' rest

/-- Every step of the run meets `cond` in the state it is taken from. -/
def Meets (step : S → A → Option S) (cond : S → A → Prop) : S → List A → Prop
  | _, [] => True
  | s, a :: rest => cond s a ∧ ∀ s', step s a = some s' → Meets step cond s' rest

/-- Every state of the run, the first and the last included, satisfies `I`. -/
def Always (step : S → A → Option S) (I : S → Prop) : S → List A → Prop
  | s, [] => I s
  | s, a :: rest => I s ∧ ∀ s', step s a = some s' → Always step I s' rest

variable {step : S → A → Option S} {Inv : S → Prop}

theorem Always.head {s : S} {as : List A} (h : Always step Inv s as) : Inv s := by
  cases as with
  | nil => exact h
  | cons a rest => exact h.1

@[simp] theorem exec_nil (s : S) : exec step s [] = some s := rfl

theorem exec_cons {s s' : S} {a : A} {rest : List A}
    (h : exec step s (a :: rest) = some s') :
    ∃ s1, step s a = some s1 ∧ exec step s1 rest = some s' :=
  Option.bind_eq_some_iff.mp h

/-- One step, then the rest of the run. -/
theorem exec_step {s s1 s' : S} {a : A} {rest : List A} (h : step s a = some s1)
    (h' : exec step s1 rest = some s') : exec step s (a :: rest) = some s' := by
  simp only [exec, h, Option.bind_some, h']

theorem exec_append (step : S → A → Option S) (s : S) (as bs : List A) :
    exec step s (as ++ bs) = (exec step s as).bind fun s' => exec step s' bs := by
  induction as generalizing s with
  | nil => rfl
  | cons a rest ih =>
      simp only [List.cons_append, exec]
      cases step s a with
      | none => rfl
      | some s1 => exact ih s1

/-- Runs one after the other. -/
theorem exec_trans {s s1 s2 : S} {as bs : List A} (h : exec step s as = some s1)
    (h' : exec step s1 bs = some s2) : exec step s (as ++ bs) = some s2 := by
  rw [exec_append, h]
  exact h'

/-- **Invariant rule.** What holds initially and is preserved by every step
    that meets the condition holds after every run whose steps meet it. -/
theorem exec_invariant (cond : S → A → Prop)
    (hstep : ∀ s a s', Inv s → cond s a → step s a = some s' → Inv s')
    {as : List A} {s s' : S} (hinit : Inv s) (hcond : Meets step cond s as)
    (hrun : exec step s as = some s') : Inv s' := by
  induction as generalizing s with
  | nil =>
      have heq : s = s' := Option.some.inj hrun
      rw [← heq]
      exact hinit
  | cons a rest ih =>
      obtain ⟨s1, h1, h2⟩ := exec_cons hrun
      exact ih (hstep s a s1 hinit hcond.1 h1) (hcond.2 s1 h1) h2

theorem meets_true (s : S) (as : List A) : Meets step (fun _ _ => True) s as := by
  induction as generalizing s with
  | nil => exact trivial
  | cons a rest ih => exact ⟨trivial, fun s' _ => ih s'⟩

/-- Conditions met along a run, one step at a time. -/
theorem meets_cons {cond : S → A → Prop} {s s1 : S} {a : A} {rest : List A}
    (hcond : cond s a) (hstep : step s a = some s1) (hrest : Meets step cond s1 rest) :
    Meets step cond s (a :: rest) := by
  refine ⟨hcond, ?_⟩
  intro s' hs'
  rw [Option.some.inj (hs'.symm.trans hstep)]
  exact hrest

/-- A run from `s` to `s'` whose steps all meet the condition. -/
structure Through (step : S → A → Option S) (cond : S → A → Prop) (s : S) (as : List A)
    (s' : S) : Prop where
  meets : Meets step cond s as
  exec : exec step s as = some s'

theorem Through.nil {cond : S → A → Prop} (s : S) : Through step cond s [] s :=
  ⟨trivial, rfl⟩

theorem Through.cons {cond : S → A → Prop} {s s' : S} {a : A} {rest : List A} (s1 : S)
    (hcond : cond s a) (hstep : step s a = some s1) (h : Through step cond s1 rest s') :
    Through step cond s (a :: rest) s' :=
  ⟨meets_cons hcond hstep h.meets, exec_step hstep h.exec⟩

theorem Through.append {cond : S → A → Prop} {s s1 s' : S} {as bs : List A}
    (h : Through step cond s as s1) (h' : Through step cond s1 bs s') :
    Through step cond s (as ++ bs) s' := by
  induction as generalizing s with
  | nil =>
      rw [Option.some.inj h.exec]
      exact h'
  | cons a rest ih =>
      obtain ⟨s2, hstep, hrest⟩ := exec_cons h.exec
      exact Through.cons s2 h.meets.1 hstep (ih ⟨h.meets.2 s2 hstep, hrest⟩)

/-- A condition on the actions alone is met from every state. -/
theorem meets_of_forall {good : A → Prop} {as : List A} (h : ∀ a ∈ as, good a) (s : S) :
    Meets step (fun _ a => good a) s as := by
  induction as generalizing s with
  | nil => exact trivial
  | cons a rest ih =>
      exact ⟨h a (List.mem_cons_self ..),
        fun s' _ => ih (fun x hx => h x (List.mem_cons_of_mem _ hx)) s'⟩

/-- A condition that an invariant guarantees is met along every run. -/
theorem meets_of_invariant {cond : S → A → Prop} (hcond : ∀ s a, Inv s → cond s a)
    (hstep : ∀ s a s', Inv s → step s a = some s' → Inv s') {as : List A} {s : S}
    (hinit : Inv s) : Meets step cond s as := by
  induction as generalizing s with
  | nil => exact trivial
  | cons a rest ih => exact ⟨hcond s a hinit, fun s' hs' => ih (hstep s a s' hinit hs')⟩

/-- A condition that follows from another one, given what that one keeps invariant. -/
theorem Meets.weaken {cond cond' : S → A → Prop}
    (hcond : ∀ s a, Inv s → cond s a → cond' s a)
    (hstep : ∀ s a s', Inv s → cond s a → step s a = some s' → Inv s') {as : List A} {s : S}
    (hinit : Inv s) (h : Meets step cond s as) : Meets step cond' s as := by
  induction as generalizing s with
  | nil => exact trivial
  | cons a rest ih =>
      exact ⟨hcond s a hinit h.1, fun s' hs' => ih (hstep s a s' hinit h.1 hs') (h.2 s' hs')⟩

/-- The invariant rule with no side condition. -/
theorem exec_invariant_all
    (hstep : ∀ s a s', Inv s → step s a = some s' → Inv s')
    {as : List A} {s s' : S} (hinit : Inv s)
    (hrun : exec step s as = some s') : Inv s' :=
  exec_invariant (fun _ _ => True) (fun s a s' hi _ hs => hstep s a s' hi hs) hinit
    (meets_true s as) hrun

/-- **History rule.**  An invariant may speak of the actions taken so far. -/
theorem exec_history {Inv : List A → S → Prop}
    (hstep : ∀ before s a s', Inv before s → step s a = some s' → Inv (before ++ [a]) s')
    {as before : List A} {s s' : S} (hinit : Inv before s) (hrun : exec step s as = some s') :
    Inv (before ++ as) s' := by
  induction as generalizing before s with
  | nil =>
      rw [List.append_nil, ← Option.some.inj hrun]
      exact hinit
  | cons a rest ih =>
      obtain ⟨s1, h1, h2⟩ := exec_cons hrun
      rw [List.append_cons]
      exact ih (hstep before s a s1 hinit h1) h2

/-- **Exactly these runs.** If steps that meet the condition keep what makes a state
    good, and a step that does not is possible and leads to one that is not, then
    every state of a run is good exactly if all its steps meet the condition. -/
theorem always_iff_meets {cond : S → A → Prop} {Good : S → Prop}
    (hgood : ∀ s, Inv s → Good s)
    (hstep : ∀ s a s', Inv s → cond s a → step s a = some s' → Inv s')
    (hbad : ∀ s a, Inv s → ¬ cond s a → ∃ s', step s a = some s' ∧ ¬ Good s')
    {as : List A} {s : S} (hinit : Inv s) : Always step Good s as ↔ Meets step cond s as := by
  induction as generalizing s with
  | nil =>
      constructor
      · intro _
        exact trivial
      · intro _
        exact hgood s hinit
  | cons a rest ih =>
      constructor
      · rintro ⟨-, hrest⟩
        have hcond : cond s a := by
          by_contra hnot
          obtain ⟨s', hs', hnotgood⟩ := hbad s a hinit hnot
          exact hnotgood (hrest s' hs').head
        exact ⟨hcond, fun s' hs' => (ih (hstep s a s' hinit hcond hs')).mp (hrest s' hs')⟩
      · rintro ⟨hcond, hrest⟩
        exact ⟨hgood s hinit,
          fun s' hs' => (ih (hstep s a s' hinit hcond hs')).mpr (hrest s' hs')⟩

/-- **Moment rule.** If every step only adds to what is observed, and what it
    adds is `Fresh` in the state it is taken from, then whatever is observed at
    the end was there at the start or was fresh at some moment of the run. -/
theorem exec_moment {β : Type*} {obs : S → List β} {Fresh : S → A → β → Prop}
    (hstep : ∀ s a s', step s a = some s' → ∀ b ∈ obs s', b ∈ obs s ∨ Fresh s a b)
    {as : List A} {s s' : S} (hrun : exec step s as = some s') {b : β} (hb : b ∈ obs s') :
    b ∈ obs s ∨ ∃ before a after mid, as = before ++ a :: after ∧
      exec step s before = some mid ∧ Fresh mid a b := by
  induction as generalizing s with
  | nil =>
      rw [Option.some.inj hrun]
      exact Or.inl hb
  | cons a rest ih =>
      obtain ⟨s1, h1, h2⟩ := exec_cons hrun
      rcases ih h2 with hold | ⟨before, a', after, mid, rfl, hmid, hfresh⟩
      · rcases hstep s a s1 h1 b hold with hold | hfresh
        · exact Or.inl hold
        · exact Or.inr ⟨[], a, rest, s, rfl, rfl, hfresh⟩
      · exact Or.inr ⟨a :: before, a', after, mid, rfl, exec_step h1 hmid, hfresh⟩

/-- **Append rule.** If every step leaves an observed list as it is or appends
    one `Fresh` element, then element `i` was appended at some moment, when there
    were `i` before it. -/
theorem exec_appended {β : Type*} {obs : S → List β} {Fresh : S → A → β → Prop}
    (hstep : ∀ s a s', step s a = some s' →
      obs s' = obs s ∨ ∃ b, obs s' = obs s ++ [b] ∧ Fresh s a b)
    {as : List A} {s s' : S} (hrun : exec step s as = some s') (hnone : obs s = [])
    {i : Nat} {b : β} (hi : (obs s')[i]? = some b) :
    ∃ before a after mid, as = before ++ a :: after ∧ exec step s before = some mid ∧
      (obs mid).length = i ∧ Fresh mid a b := by
  have hindexed : ∀ s1 a s2, step s1 a = some s2 → ∀ c ∈ (obs s2).zipIdx,
      c ∈ (obs s1).zipIdx ∨ ((obs s1).length = c.2 ∧ Fresh s1 a c.1) := by
    intro s1 a s2 heq c hc
    rcases hstep s1 a s2 heq with hsame | ⟨b', hnew, hfresh⟩
    · rw [hsame] at hc
      exact Or.inl hc
    · rw [hnew, List.zipIdx_append, List.mem_append] at hc
      rcases hc with hold | hc
      · exact Or.inl hold
      · have hc : c = (b', (obs s1).length) := by simpa using hc
        rw [hc]
        exact Or.inr ⟨rfl, hfresh⟩
  have hmem : (b, i) ∈ (obs s').zipIdx := List.mem_zipIdx_iff_getElem?.mpr hi
  rcases exec_moment hindexed hrun hmem with hold |
    ⟨before, a, after, mid, has, hmid, hlen, hfresh⟩
  · rw [hnone] at hold
    cases hold
  · exact ⟨before, a, after, mid, has, hmid, hlen, hfresh⟩

/-- **Progress rule.** If what is finished stays so, and every step that counts
    finishes or raises a measure no step lowers, then a run finishes or raises it
    by the number of its steps that count. -/
theorem exec_progress {done : S → Prop} {measure : S → Nat} {counts : A → Bool}
    (hdone : ∀ s a s', done s → step s a = some s' → done s')
    (hstep : ∀ s a s', step s a = some s' →
      done s' ∨ measure s + (if counts a then 1 else 0) ≤ measure s')
    {as : List A} {s s' : S} {n : Nat} (h : done s ∨ n ≤ measure s)
    (hrun : exec step s as = some s') :
    done s' ∨ n + as.countP counts ≤ measure s' := by
  induction as generalizing s n with
  | nil =>
      rw [← Option.some.inj hrun]
      exact h
  | cons a rest ih =>
      obtain ⟨s1, h1, h2⟩ := exec_cons hrun
      rw [List.countP_cons, Nat.add_comm (rest.countP counts), ← Nat.add_assoc]
      refine ih ?_ h2
      rcases h with hfin | hle
      · exact Or.inl (hdone s a s1 hfin h1)
      · rcases hstep s a s1 h1 with hfin | hadd
        · exact Or.inl hfin
        · exact Or.inr (Nat.le_trans (Nat.add_le_add_right hle _) hadd)

/-- Where every action is always possible, so is every run. -/
theorem exec_total (htotal : ∀ s a, ∃ s', step s a = some s') (s : S) (as : List A) :
    ∃ s', exec step s as = some s' := by
  induction as generalizing s with
  | nil => exact ⟨s, rfl⟩
  | cons a rest ih =>
      obtain ⟨s1, h1⟩ := htotal s a
      obtain ⟨s', h2⟩ := ih s1
      exact ⟨s', exec_step h1 h2⟩

/-- A result that is there came from a computation that succeeded. -/
theorem toOption_eq_some {ε α : Type*} {x : Except ε α} {a : α}
    (h : x.toOption = some a) : x = .ok a := by
  cases x with
  | error e => cases h
  | ok b => rw [show b = a from Option.some.inj h]

end Run
