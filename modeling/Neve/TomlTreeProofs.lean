import Mathlib

/-! # Document trees — writing at a path, reading at a path

    A configuration document is a tree of tables with scalars at the leaves.  Writing
    a value at a path creates the tables on the way and is visible there and below; a
    path that neither starts with the written one nor is a start of it reads as before
    (`at_setPath_other`).  A list of writes is summed up by the last one of each path
    (`at_foldPaths`). -/

namespace TomlTree

/-- A 64-bit floating-point number; the finite ones as the rational they stand for. -/
inductive F64 where
  | finite (q : ℚ)
  | infinite (negative : Bool)
  | nan
  deriving DecidableEq

inductive Value where
  | string (s : String)
  | integer (n : Int64)
  | float (f : F64)
  | boolean (b : Bool)
  | datetime (text : String)
  | array (items : List Value)
  | table (entries : List (String × Value))

/-- A table: its entries, one for each key. -/
abbrev Table := List (String × Value)

/-- Whether a value is a table. -/
def Value.isTable : Value → Bool
  | .table _ => true
  | _ => false

/-! ## One table -/

namespace Table

def get (t : Table) (k : String) : Option Value := t.lookup k

def keys (t : Table) : List String := t.map Prod.fst

/-- Write one key, in its place if it is there already. -/
def insert (k : String) (v : Value) : Table → Table
  | [] => [(k, v)]
  | (k', v') :: rest => if k = k' then (k, v) :: rest else (k', v') :: insert k v rest

@[simp] theorem get_nil (k : String) : get [] k = none := rfl

theorem get_cons (k k' : String) (v : Value) (t : Table) :
    get ((k', v) :: t) k = if k = k' then some v else get t k := by
  simp only [get]
  by_cases h : k = k'
  · rw [if_pos h, List.lookup_cons, h, beq_self_eq_true]
  · rw [if_neg h, List.lookup_cons, beq_false_of_ne h]

theorem get_insert (k k' : String) (v : Value) (t : Table) :
    get (insert k v t) k' = if k' = k then some v else get t k' := by
  induction t with
  | nil => rw [insert, get_cons]
  | cons e t ih =>
      obtain ⟨k₀, v₀⟩ := e
      rw [insert]
      by_cases h : k = k₀
      · rw [if_pos h, get_cons, get_cons]
        by_cases h' : k' = k
        · rw [if_pos h', if_pos h']
        · rw [if_neg h', if_neg h', if_neg (h ▸ h')]
      · rw [if_neg h, get_cons, get_cons, ih]
        by_cases h' : k' = k
        · rw [if_pos h', if_pos h', if_neg (h' ▸ h)]
        · rw [if_neg h', if_neg h']

@[simp] theorem get_insert_self (k : String) (v : Value) (t : Table) :
    get (insert k v t) k = some v := by
  rw [get_insert, if_pos rfl]

theorem get_insert_ne {k k' : String} (h : k' ≠ k) (v : Value) (t : Table) :
    get (insert k v t) k' = get t k' := by
  rw [get_insert, if_neg h]

/-- A key that reads has an entry. -/
theorem mem_keys_of_get {t : Table} {k : String} {v : Value} (h : get t k = some v) :
    k ∈ keys t := by
  obtain ⟨before, after, heq, -⟩ := List.lookup_eq_some_iff.mp h
  rw [heq]
  simp [keys]

theorem mem_keys_iff {t : Table} {k : String} : k ∈ keys t ↔ (get t k).isSome = true := by
  constructor
  · intro h
    induction t with
    | nil => cases h
    | cons e t ih =>
        obtain ⟨k₀, v₀⟩ := e
        rw [get_cons]
        by_cases hk : k = k₀
        · rw [if_pos hk]
          rfl
        · rw [if_neg hk]
          refine ih ?_
          rw [keys, List.map_cons, List.mem_cons] at h
          exact h.resolve_left hk
  · intro h
    obtain ⟨v, hv⟩ := Option.isSome_iff_exists.mp h
    exact mem_keys_of_get hv

end Table

/-! ## Paths -/

/-- What stands at a path. -/
def Value.at : Value → List String → Option Value
  | v, [] => some v
  | .table t, k :: rest => (Table.get t k).bind fun v => v.at rest
  | _, _ :: _ => none

def Table.at (t : Table) (path : List String) : Option Value := (Value.table t).at path

/-- Why a value cannot be written at a path: there is no path, or a key on the way holds
    something else than a table. -/
inductive PathError where
  | empty
  | notTable (head : String)
  deriving DecidableEq

/-- Write a value at a path, creating the tables on the way. -/
def setPath : Table → List String → Value → Except PathError Table
  | _, [], _ => .error .empty
  | t, [last], v => .ok (Table.insert last v t)
  | t, head :: next :: rest, v =>
      match Table.get t head with
      | none => (setPath [] (next :: rest) v).map fun sub => Table.insert head (.table sub) t
      | some (.table sub) =>
          (setPath sub (next :: rest) v).map fun sub' => Table.insert head (.table sub') t
      | some _ => .error (.notTable head)

@[simp] theorem Value.at_nil (v : Value) : v.at [] = some v := by
  cases v <;> rfl

@[simp] theorem Table.at_nil (t : Table) : Table.at t [] = some (.table t) := rfl

@[simp] theorem Table.at_cons (t : Table) (k : String) (rest : List String) :
    Table.at t (k :: rest) = (Table.get t k).bind fun v => v.at rest := rfl

theorem Value.at_table (t : Table) (path : List String) :
    (Value.table t).at path = Table.at t path := rfl

theorem Value.at_append (v : Value) (p q : List String) :
    v.at (p ++ q) = (v.at p).bind fun w => w.at q := by
  induction p generalizing v with
  | nil => simp
  | cons k p ih =>
      cases v with
      | table t =>
          rw [List.cons_append, Value.at_table, Value.at_table, Table.at_cons, Table.at_cons]
          cases Table.get t k with
          | none => rfl
          | some w => exact ih w
      | _ => rfl

theorem Table.at_append (t : Table) (p q : List String) :
    Table.at t (p ++ q) = (Table.at t p).bind fun w => w.at q :=
  Value.at_append (.table t) p q

/-- How a write of at least two steps goes: into the table under its first key, which
    is empty if there was none. -/
theorem setPath_cons {t t' : Table} {head next : String} {rest : List String} {v : Value}
    (h : setPath t (head :: next :: rest) v = .ok t') :
    ∃ sub sub', (∀ path : List String, path ≠ [] →
        Table.at sub path = Table.at t (head :: path)) ∧
      setPath sub (next :: rest) v = .ok sub' ∧ t' = Table.insert head (.table sub') t := by
  simp only [setPath] at h
  cases hget : Table.get t head with
  | none =>
      rw [hget] at h
      cases hsub : setPath [] (next :: rest) v with
      | error e =>
          rw [hsub] at h
          cases h
      | ok sub' =>
          rw [hsub] at h
          refine ⟨[], sub', ?_, hsub, (Except.ok.inj h).symm⟩
          intro path hpath
          rw [Table.at_cons, hget]
          cases path with
          | nil => exact absurd rfl hpath
          | cons k rest => rfl
  | some w =>
      rw [hget] at h
      cases w with
      | table sub =>
          dsimp only at h
          cases hsub : setPath sub (next :: rest) v with
          | error e =>
              rw [hsub] at h
              cases h
          | ok sub' =>
              rw [hsub] at h
              refine ⟨sub, sub', ?_, hsub, (Except.ok.inj h).symm⟩
              intro path _
              rw [Table.at_cons, hget]
              rfl
      | _ => cases h

/-- What was written is there, and below it what it holds. -/
theorem at_setPath_append {t t' : Table} {p : List String} {v : Value}
    (h : setPath t p v = .ok t') (q : List String) : Table.at t' (p ++ q) = v.at q := by
  induction p generalizing t t' with
  | nil => cases h
  | cons head rest ih =>
      cases rest with
      | nil =>
          rw [← Except.ok.inj h, List.cons_append, Table.at_cons, Table.get_insert_self]
          rfl
      | cons next rest =>
          obtain ⟨sub, sub', -, hsub, rfl⟩ := setPath_cons h
          rw [List.cons_append, Table.at_cons, Table.get_insert_self]
          exact ih hsub

theorem at_setPath_self {t t' : Table} {p : List String} {v : Value}
    (h : setPath t p v = .ok t') : Table.at t' p = some v := by
  have happend := at_setPath_append h []
  rw [List.append_nil, Value.at_nil] at happend
  exact happend

/-- Every proper start of a written path is a table. -/
theorem at_setPath_start {t t' : Table} {p q : List String} {v : Value}
    (h : setPath t p v = .ok t') (hq : q <+: p) (hne : q ≠ p) :
    ∃ sub, Table.at t' q = some (.table sub) := by
  obtain ⟨rest, rfl⟩ := hq
  cases rest with
  | nil => exact absurd (List.append_nil q).symm hne
  | cons k rest =>
      have hself := at_setPath_self h
      rw [Table.at_append] at hself
      obtain ⟨w, hw, hk⟩ := Option.bind_eq_some_iff.mp hself
      cases w with
      | table sub => exact ⟨sub, hw⟩
      | _ => cases hk

/-- The frame rule: a path that is neither above nor below the written one reads as it
    did. -/
theorem at_setPath_other {t t' : Table} {p q : List String} {v : Value}
    (h : setPath t p v = .ok t') (hpq : ¬ p <+: q) (hqp : ¬ q <+: p) :
    Table.at t' q = Table.at t q := by
  induction p generalizing t t' q with
  | nil => cases h
  | cons head rest ih =>
      cases q with
      | nil => exact absurd List.nil_prefix hqp
      | cons k q =>
          cases rest with
          | nil =>
              rw [← Except.ok.inj h, Table.at_cons, Table.at_cons, Table.get_insert_ne]
              rintro rfl
              exact hpq (List.prefix_append [k] q)
          | cons next rest =>
              obtain ⟨sub, sub', hbelow, hsub, rfl⟩ := setPath_cons h
              by_cases hk : k = head
              · subst hk
                rw [List.cons_prefix_cons] at hpq hqp
                have hne : q ≠ [] := by
                  rintro rfl
                  exact hqp ⟨rfl, List.nil_prefix⟩
                rw [Table.at_cons, Table.get_insert_self]
                exact (ih hsub (fun hp => hpq ⟨rfl, hp⟩) fun hq => hqp ⟨rfl, hq⟩).trans
                  (hbelow q hne)
              · rw [Table.at_cons, Table.at_cons, Table.get_insert_ne hk]

/-! ## A list of writes -/

/-- Write the entries of a list in order, as far as they can be. -/
def foldPaths : Table → List (List String × Value) → Except PathError Table
  | t, [] => .ok t
  | t, (p, v) :: rest =>
      match setPath t p v with
      | .error e => .error e
      | .ok t' => foldPaths t' rest

/-- The last value that a list of writes gives a path. -/
def lastAt (writes : List (List String × Value)) (path : List String) : Option Value :=
  ((writes.filter (·.1 = path)).getLast?).map Prod.snd

@[simp] theorem lastAt_nil (path : List String) : lastAt [] path = none := rfl

theorem lastAt_append (ws ws' : List (List String × Value)) (path : List String) :
    lastAt (ws ++ ws') path = (lastAt ws' path).or (lastAt ws path) := by
  simp only [lastAt, List.filter_append, List.getLast?_append]
  cases (ws'.filter (·.1 = path)).getLast? <;> rfl

theorem lastAt_cons (p : List String) (v : Value) (ws : List (List String × Value))
    (path : List String) :
    lastAt ((p, v) :: ws) path
      = (lastAt ws path).or (if p = path then some v else none) := by
  rw [← List.singleton_append, lastAt_append]
  congr 1
  by_cases h : p = path
  · simp [lastAt, h]
  · simp [lastAt, h]

theorem lastAt_eq_none {ws : List (List String × Value)} {path : List String}
    (h : ∀ w ∈ ws, w.1 ≠ path) : lastAt ws path = none := by
  have hnil : ws.filter (·.1 = path) = [] := by
    rw [List.filter_eq_nil_iff]
    intro w hw
    simpa using h w hw
  rw [lastAt, hnil]
  rfl

/-- Only the writes that may be at a path matter there. -/
theorem lastAt_filter (keep : List String → Bool) (ws : List (List String × Value))
    {path : List String} (h : keep path = true) :
    lastAt (ws.filter fun w => keep w.1) path = lastAt ws path := by
  simp only [lastAt]
  rw [List.filter_filter]
  congr 2
  refine List.filter_congr ?_
  intro w _
  by_cases hw : w.1 = path
  · simp [hw, h]
  · simp [hw]

/-- Writes that are not below or above a path, other than at it. -/
def Beside (path : List String) (ws : List (List String × Value)) : Prop :=
  ∀ w ∈ ws, w.1 <+: path ∨ path <+: w.1 → w.1 = path

/-- **The last write wins.** A path that no write crosses reads what was last written
    there, and what it read before if nothing was. -/
theorem at_foldPaths {t t' : Table} {ws : List (List String × Value)} {path : List String}
    (h : foldPaths t ws = .ok t') (hbeside : Beside path ws) :
    Table.at t' path = (lastAt ws path).or (Table.at t path) := by
  induction ws generalizing t with
  | nil =>
      rw [← Except.ok.inj h]
      rfl
  | cons w ws ih =>
      obtain ⟨p, v⟩ := w
      simp only [foldPaths] at h
      cases hset : setPath t p v with
      | error e =>
          rw [hset] at h
          cases h
      | ok t₁ =>
          rw [hset] at h
          rw [Beside, List.forall_mem_cons] at hbeside
          rw [ih h hbeside.2, lastAt_cons]
          cases lastAt ws path with
          | some u => rfl
          | none =>
              rw [Option.none_or, Option.none_or]
              by_cases hp : p = path
              · rw [if_pos hp, Option.some_or, ← hp]
                exact at_setPath_self hset
              · rw [if_neg hp, Option.none_or]
                refine at_setPath_other hset ?_ ?_
                · intro hpre
                  exact hp (hbeside.1 (Or.inl hpre))
                · intro hpre
                  exact hp (hbeside.1 (Or.inr hpre))

end TomlTree
