import Mathlib.Data.List.Basic

/-! # Outcomes — what options and results come to

    Sequences of computations that may give nothing or fail, and lookups in lists of
    entries. -/

namespace Outcome

/-- What a sequence of two computations gives, both of them gave. -/
theorem bind_eq_ok {ε α β : Type} {x : Except ε α} {f : α → Except ε β} {b : β}
    (h : (x >>= f) = .ok b) : ∃ a, x = .ok a ∧ f a = .ok b := by
  cases x with
  | error e => cases h
  | ok a => exact ⟨a, rfl, h⟩

section Scan

variable {α β : Type*} {f : α → Option β} {l : List α}

theorem mapM_eq_some_iff {bs : List β} : l.mapM f = some bs ↔ l.map f = bs.map some := by
  induction l generalizing bs with
  | nil => cases bs <;> simp
  | cons a rest ih =>
      rw [List.mapM_cons]
      cases bs with
      | nil => cases f a <;> cases rest.mapM f <;> simp
      | cons b bs =>
          rw [List.map_cons, List.map_cons, List.cons.injEq, ← ih]
          cases f a <;> cases rest.mapM f <;> simp

theorem mapM_eq_none_iff : l.mapM f = none ↔ ∃ a ∈ l, f a = none := by
  induction l with
  | nil => simp
  | cons a rest ih =>
      rw [List.mapM_cons, List.exists_mem_cons_iff, ← ih]
      cases f a <;> cases rest.mapM f <;> simp

end Scan

section Lookup

variable {α β : Type} [BEq α] [LawfulBEq α] {key : α} {entries : List (α × β)}

/-- What a lookup finds is an entry. -/
theorem mem_of_lookup {value : β} (h : entries.lookup key = some value) :
    (key, value) ∈ entries := by
  obtain ⟨before, after, heq, -⟩ := List.lookup_eq_some_iff.mp h
  rw [heq]
  exact List.mem_append_right _ List.mem_cons_self

/-- A key has an entry exactly when the lookup finds one. -/
theorem mem_keys_iff_lookup :
    key ∈ entries.map Prod.fst ↔ ∃ value, entries.lookup key = some value := by
  constructor
  · intro h
    cases hl : entries.lookup key with
    | some value => exact ⟨value, rfl⟩
    | none =>
        obtain ⟨e, he, rfl⟩ := List.mem_map.mp h
        have hne := List.lookup_eq_none_iff.mp hl e he
        rw [bne_self_eq_false] at hne
        cases hne
  · rintro ⟨value, h⟩
    exact List.mem_map.mpr ⟨_, mem_of_lookup h, rfl⟩

end Lookup

end Outcome
