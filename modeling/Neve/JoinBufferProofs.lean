import Mathlib
import Neve.StorageProofs
import Neve.RunProofs

/-! # Join buffer — two halves of a height, in any order

    Blocks and logs arrive independently; a height is written once both halves
    are there.  Each call takes the lock once, decides, and acts after releasing
    it, so a run is an order of locked sections interleaved with the writes they
    decided on (`System`).

    The buffer is compared with the history of calls alone: what it holds for a
    height is the most recent half that arrived since the height last left it
    (`heldHalf`), and what a call decides follows from the calls before it
    (`actOf`). -/

namespace NeveJoinBuffer

open JsonValue ByteText NeveRecord NeveStorage

/-- Which half a metric label refers to. -/
inductive Half where
  | Block
  | Log
  deriving DecidableEq, Repr

def Half.asStr : Half → String
  | .Block => "block"
  | .Log => "log"

/-- Result of feeding one half into the buffer. -/
inductive JoinOutcome where
  | Completed
  | Buffered
  | Deferred
  deriving DecidableEq, Repr

structure PendingBlock where
  hash : Bytes32
  txHashes : List Bytes32
  bytes : Bytes
  since : Nat
  deriving DecidableEq

structure PendingLogs where
  bytes : Bytes
  since : Nat
  deriving DecidableEq

inductive Pending where
  | block (b : PendingBlock)
  | logs (l : PendingLogs)
  deriving DecidableEq

def Pending.since : Pending → Nat
  | .block b => b.since
  | .logs l => l.since

/-- The decision made under the lock, acted on after release. -/
inductive WriteAct where
  | write (hash : Bytes32) (txHashes : List Bytes32) (blockBytes logs : Bytes)
      (first : Half) (since : Nat)
  | buffered
  | deferred
  deriving DecidableEq

def WriteAct.isWrite : WriteAct → Bool
  | .write .. => true
  | _ => false

/-- The pending halves, at most one a height. -/
abbrev PendingMap := AList (fun _ : Nat => Pending)

/-- A call into the buffer. -/
inductive Call where
  | block (height : Nat) (hash : Bytes32) (txHashes : List Bytes32) (blockBytes : Bytes)
  | logs (height : Nat) (logsBytes : Bytes)
  deriving DecidableEq

namespace Call

def height : Call → Nat
  | block height _ _ _ => height
  | logs height _ => height

def half : Call → Half
  | block .. => .Block
  | logs .. => .Log

/-- The half a call leaves in the buffer. -/
def pending (since : Nat) : Call → Pending
  | block _ hash txHashes blockBytes => .block ⟨hash, txHashes, blockBytes, since⟩
  | logs _ logsBytes => .logs ⟨logsBytes, since⟩

/-- The write that completes an arriving half with a buffered one of the other
    kind. -/
def complete : Call → Pending → Option WriteAct
  | block _ hash txHashes blockBytes, .logs l =>
      some (.write hash txHashes blockBytes l.bytes .Log l.since)
  | logs _ logsBytes, .block b =>
      some (.write b.hash b.txHashes b.bytes logsBytes .Block b.since)
  | _, _ => none

end Call

/-! ## The code -/

/-- The locked section of both calls: take the height out of the map, then
    complete, replace (keeping the first arrival's time), flush or insert. -/
def locked (maxEntries : Nat) (pending : PendingMap) (now : Nat) (call : Call) :
    WriteAct × PendingMap :=
  match pending.extract call.height with
  | (some held, rest) =>
      match call.complete held with
      | some act => (act, rest)
      | none => (.buffered, rest.insert call.height (call.pending held.since))
  | (none, rest) =>
      if maxEntries ≤ rest.entries.length then (.deferred, ∅)
      else (.buffered, rest.insert call.height (call.pending now))

/-- A block arrived for `height`. -/
def onBlock (maxEntries : Nat) (pending : PendingMap) (now height : Nat) (hash : Bytes32)
    (txHashes : List Bytes32) (blockBytes : Bytes) : WriteAct × PendingMap :=
  locked maxEntries pending now (.block height hash txHashes blockBytes)

/-- Logs arrived for `height`. -/
def onLogs (maxEntries : Nat) (pending : PendingMap) (now height : Nat)
    (logsBytes : Bytes) : WriteAct × PendingMap :=
  locked maxEntries pending now (.logs height logsBytes)

/-- Carry out the decision made under the lock. -/
def apply (s : Storage) (fault : Fault) (height : Nat) :
    WriteAct → Except String JoinOutcome × Storage
  | .write hash txHashes blockBytes logs _ _ =>
      match s.put fault height hash txHashes [blockBytes, logs] with
      | (.error e, s') => (.error e, s')
      | (.ok (), s') => (.ok .Completed, s')
  | .buffered => (.ok .Buffered, s)
  | .deferred => (.ok .Deferred, s)

/-- Block bytes for an in-flight height. -/
def bufferedBlock (pending : PendingMap) (height : Nat) : Option Bytes :=
  match pending.lookup height with
  | some (.block b) => some b.bytes
  | _ => none

/-! ## Runs -/

/-- The result of the put a decision issues, if it issues one. -/
def putResult (s : Storage) (fault : Fault) (height : Nat) :
    WriteAct → Option (Except String Unit)
  | .write hash txHashes blockBytes logs _ _ =>
      some (s.put fault height hash txHashes [blockBytes, logs]).1
  | _ => none

/-- A call that took the lock at time `now`, with what it decided. -/
structure Arrival where
  call : Call
  now : Nat
  act : WriteAct
  deriving DecidableEq

/-- A call that returned: its position in the history, the result of the put it
    issued, if it issued one, and what it returned. -/
structure Returned where
  pos : Nat
  put : Option (Except String Unit)
  result : Except String JoinOutcome

/-- The buffer and its store, with the history of locked sections (newest
    first), the calls still between their lock and their return, and those that
    returned. -/
structure System where
  storage : Storage
  maxEntries : Nat
  pending : PendingMap
  history : List Arrival
  inFlight : List Nat
  returned : List Returned

def System.new (storage : Storage) (maxEntries : Nat) : System :=
  ⟨storage, maxEntries, ∅, [], [], []⟩

/-- The call at a position of the history, counted from the oldest. -/
def arrivalAt (history : List Arrival) (pos : Nat) : Option Arrival := history.reverse[pos]?

inductive Event where
  | enter (call : Call) (now : Nat)
  | finish (pos : Nat) (fault : Fault)

def step (b : System) : Event → Option System
  | .enter call now =>
      let out := locked b.maxEntries b.pending now call
      some { b with
        pending := out.2
        history := ⟨call, now, out.1⟩ :: b.history
        inFlight := b.history.length :: b.inFlight }
  | .finish pos fault =>
      if pos ∈ b.inFlight then
        (arrivalAt b.history pos).map fun e =>
          let out := apply b.storage fault e.call.height e.act
          { b with
            storage := out.2
            inFlight := b.inFlight.erase pos
            returned :=
              ⟨pos, putResult b.storage fault e.call.height e.act, out.1⟩ :: b.returned }
      else none

/-! ## The history alone -/

/-- The call makes `height` leave the buffer: it completes it, or it flushes. -/
def Arrival.leaves (e : Arrival) (height : Nat) : Bool :=
  match e.act with
  | .write .. => e.call.height == height
  | .deferred => true
  | .buffered => false

/-- The most recent half that arrived for a height since the height last left
    the buffer, and its position. -/
def lastArrival : List Arrival → Nat → Option (Arrival × Nat)
  | [], _ => none
  | e :: earlier, height =>
      if e.leaves height then none
      else if e.call.height = height then some (e, earlier.length)
      else lastArrival earlier height

/-- When the first half since then arrived. -/
def firstArrival : List Arrival → Nat → Option Nat
  | [], _ => none
  | e :: earlier, height =>
      if e.leaves height then none
      else if e.call.height = height then some ((firstArrival earlier height).getD e.now)
      else firstArrival earlier height

/-- What the buffer must hold for a height. -/
def heldHalf (history : List Arrival) (height : Nat) : Option Pending :=
  (lastArrival history height).map fun (e, _) =>
    e.call.pending ((firstArrival history height).getD e.now)

/-- The heights the buffer must hold. -/
def heldHeights (history : List Arrival) : List Nat :=
  ((history.map fun e => e.call.height).dedup).filter fun height =>
    (lastArrival history height).isSome

/-- The write of two halves of different kinds; `first` arrived first. -/
def joined (since : Nat) : (first second : Call) → Option WriteAct
  | .logs _ logsBytes, .block _ hash txHashes blockBytes =>
      some (.write hash txHashes blockBytes logsBytes .Log since)
  | .block _ hash txHashes blockBytes, .logs _ logsBytes =>
      some (.write hash txHashes blockBytes logsBytes .Block since)
  | _, _ => none

/-- What a call decides, given the calls before it. -/
def actOf (maxEntries : Nat) (earlier : List Arrival) (call : Call) : WriteAct :=
  match lastArrival earlier call.height with
  | some (e, _) =>
      (joined ((firstArrival earlier call.height).getD e.now) e.call call).getD .buffered
  | none => if maxEntries ≤ (heldHeights earlier).length then .deferred else .buffered

/-- The positions whose halves went into writes. -/
def used : List Arrival → List Nat
  | [] => []
  | e :: earlier =>
      if e.act.isWrite then
        earlier.length ::
          ((lastArrival earlier e.call.height).map Prod.snd).toList ++ used earlier
      else used earlier

/-! ## Reading the history -/

section History

variable {e : Arrival} {earlier : List Arrival} {height : Nat}

theorem heldHalf_cons_leaves (h : e.leaves height = true) :
    heldHalf (e :: earlier) height = none := by
  simp only [heldHalf, lastArrival, h, if_true, Option.map_none]

theorem heldHalf_cons_other (hl : e.leaves height = false) (hh : e.call.height ≠ height) :
    heldHalf (e :: earlier) height = heldHalf earlier height := by
  simp only [heldHalf, lastArrival, firstArrival, hl, if_neg hh, Bool.false_eq_true,
    if_false]

theorem heldHalf_cons_same (hl : e.leaves height = false) (hh : e.call.height = height) :
    heldHalf (e :: earlier) height
      = some (e.call.pending ((firstArrival earlier height).getD e.now)) := by
  simp only [heldHalf, lastArrival, firstArrival, hl, if_pos hh, Bool.false_eq_true,
    if_false, Option.map_some, Option.getD_some]

theorem isSome_firstArrival (history : List Arrival) (height : Nat) :
    (firstArrival history height).isSome = (lastArrival history height).isSome := by
  induction history with
  | nil => rfl
  | cons e earlier ih =>
      simp only [firstArrival, lastArrival]
      by_cases hl : e.leaves height = true
      · simp only [hl, if_true, Option.isSome_none]
      · by_cases hh : e.call.height = height
        · simp only [hl, if_pos hh, Bool.false_eq_true, if_false, Option.isSome_some]
        · simp only [hl, if_neg hh, Bool.false_eq_true, if_false, ih]

theorem Call.since_pending (call : Call) (t : Nat) : (call.pending t).since = t := by
  cases call <;> rfl

/-- A held half, by the call that brought it and the first arrival's time. -/
theorem heldHalf_eq_some {history : List Arrival} {held : Pending}
    (h : heldHalf history height = some held) :
    ∃ e pos, lastArrival history height = some (e, pos) ∧
      firstArrival history height = some held.since ∧
      held = e.call.pending held.since := by
  obtain ⟨⟨e, pos⟩, hlast, rfl⟩ := Option.map_eq_some_iff.mp h
  have hfirst : (firstArrival history height).isSome := by
    rw [isSome_firstArrival, hlast]
    rfl
  obtain ⟨t, ht⟩ := Option.isSome_iff_exists.mp hfirst
  refine ⟨e, pos, hlast, ?_, ?_⟩
  · simp only [ht, Option.getD_some, Call.since_pending]
  · simp only [ht, Option.getD_some, Call.since_pending]

theorem heldHalf_eq_none {history : List Arrival} :
    heldHalf history height = none ↔ lastArrival history height = none :=
  Option.map_eq_none_iff

/-- A half that is held was brought by a call for its height. -/
theorem lastArrival_spec {history : List Arrival} {pos : Nat}
    (h : lastArrival history height = some (e, pos)) :
    e.call.height = height ∧ pos < history.length ∧ arrivalAt history pos = some e := by
  induction history with
  | nil => cases h
  | cons x earlier ih =>
      simp only [lastArrival] at h
      by_cases hl : x.leaves height = true
      · rw [if_pos hl] at h
        cases h
      rw [if_neg hl] at h
      by_cases hh : x.call.height = height
      · rw [if_pos hh] at h
        obtain ⟨rfl, rfl⟩ := Prod.mk.inj (Option.some.inj h)
        refine ⟨hh, Nat.lt_succ_self _, ?_⟩
        simp [arrivalAt]
      · rw [if_neg hh] at h
        obtain ⟨h1, h2, h3⟩ := ih h
        refine ⟨h1, Nat.lt_succ_of_lt h2, ?_⟩
        simp only [arrivalAt, List.reverse_cons]
        rw [List.getElem?_append_left (by rw [List.length_reverse]; exact h2)]
        exact h3

theorem mem_heldHeights {history : List Arrival} :
    height ∈ heldHeights history ↔ (lastArrival history height).isSome := by
  simp only [heldHeights, List.mem_filter, List.mem_dedup, List.mem_map,
    and_iff_right_iff_imp]
  intro h
  obtain ⟨⟨e, pos⟩, hlast⟩ := Option.isSome_iff_exists.mp h
  obtain ⟨hheight, -, hat⟩ := lastArrival_spec hlast
  exact ⟨e, List.mem_reverse.mp (List.mem_of_getElem? hat), hheight⟩

/-- Completing a held half is joining the two calls. -/
theorem complete_pending (first second : Call) (t : Nat) :
    second.complete (first.pending t) = joined t first second := by
  cases first <;> cases second <;> rfl

theorem isWrite_of_joined {t : Nat} {first second : Call} {act : WriteAct}
    (h : joined t first second = some act) : act.isWrite = true := by
  cases first <;> cases second <;> cases h <;> rfl

theorem joined_isSome_iff (t : Nat) (first second : Call) :
    (joined t first second).isSome ↔ first.half ≠ second.half := by
  cases first <;> cases second <;> simp [joined, Call.half]

end History

/-! ## One locked section -/

/-- The buffer holds exactly what the history says. -/
def Content (pending : PendingMap) (history : List Arrival) : Prop :=
  ∀ height, pending.lookup height = heldHalf history height

theorem entries_length (pending : PendingMap) :
    pending.entries.length = pending.keys.length :=
  (List.length_map ..).symm

/-- A full buffer can be told from the history. -/
theorem Content.length_eq {pending : PendingMap} {history : List Arrival}
    (h : Content pending history) :
    pending.entries.length = (heldHeights history).length := by
  rw [entries_length]
  refine List.Perm.length_eq ((List.perm_ext_iff_of_nodup pending.keys_nodup ?_).mpr ?_)
  · exact (List.nodup_dedup _).filter _
  · intro height
    rw [mem_heldHeights, ← AList.mem_keys, ← AList.lookup_isSome, h height]
    simp only [heldHalf, Option.isSome_map]

section Locked

variable {maxEntries now : Nat} {pending : PendingMap} {history : List Arrival} {call : Call}

/-- Everything a locked section can do. -/
theorem locked_cases (maxEntries now : Nat) (pending : PendingMap) (call : Call) :
    (∃ held act, pending.lookup call.height = some held ∧ call.complete held = some act ∧
      locked maxEntries pending now call = (act, pending.erase call.height)) ∨
    (∃ held, pending.lookup call.height = some held ∧ call.complete held = none ∧
      locked maxEntries pending now call = (.buffered,
        (pending.erase call.height).insert call.height (call.pending held.since))) ∨
    (pending.lookup call.height = none ∧ maxEntries ≤ pending.entries.length ∧
      locked maxEntries pending now call = (.deferred, ∅)) ∨
    (pending.lookup call.height = none ∧ pending.entries.length < maxEntries ∧
      locked maxEntries pending now call = (.buffered,
        (pending.erase call.height).insert call.height (call.pending now))) := by
  simp only [locked, AList.extract_eq_lookup_erase]
  cases hl : pending.lookup call.height with
  | some held =>
      cases hc : call.complete held with
      | some act => exact Or.inl ⟨held, act, rfl, hc, by simp only [hc]⟩
      | none => exact Or.inr (Or.inl ⟨held, rfl, hc, by simp only [hc]⟩)
  | none =>
      -- taking out a height that is not there leaves the map as it was
      have hlen : (pending.erase call.height).entries.length = pending.entries.length := by
        rw [entries_length, entries_length, AList.keys_erase,
          List.erase_of_not_mem (AList.lookup_eq_none.mp hl)]
      by_cases hfull : maxEntries ≤ pending.entries.length
      · refine Or.inr (Or.inr (Or.inl ⟨rfl, hfull, ?_⟩))
        rw [← hlen] at hfull
        simp only [if_pos hfull]
      · refine Or.inr (Or.inr (Or.inr ⟨rfl, Nat.lt_of_not_le hfull, ?_⟩))
        rw [← hlen] at hfull
        simp only [if_neg hfull]

/-- What a locked section decides follows from the history. -/
theorem act_locked (h : Content pending history) :
    (locked maxEntries pending now call).1 = actOf maxEntries history call := by
  have hheld : ∀ held, pending.lookup call.height = some held →
      ∃ e pos, lastArrival history call.height = some (e, pos) ∧
        call.complete held
          = joined ((firstArrival history call.height).getD e.now) e.call call := by
    intro held hl
    rw [h call.height] at hl
    obtain ⟨e, pos, hlast, hfirst, hpend⟩ := heldHalf_eq_some hl
    refine ⟨e, pos, hlast, ?_⟩
    rw [hfirst, Option.getD_some, ← complete_pending, ← hpend]
  have hnone : pending.lookup call.height = none → lastArrival history call.height = none := by
    intro hl
    rw [h call.height] at hl
    exact heldHalf_eq_none.mp hl
  rcases locked_cases maxEntries now pending call with
    ⟨held, act, hl, hc, heq⟩ | ⟨held, hl, hc, heq⟩ | ⟨hl, hfull, heq⟩ |
      ⟨hl, hroom, heq⟩
  · obtain ⟨e, pos, hlast, hj⟩ := hheld held hl
    rw [hc] at hj
    simp only [heq, actOf, hlast, ← hj, Option.getD_some]
  · obtain ⟨e, pos, hlast, hj⟩ := hheld held hl
    rw [hc] at hj
    simp only [heq, actOf, hlast, ← hj, Option.getD_none]
  · rw [h.length_eq] at hfull
    simp only [heq, actOf, hnone hl, if_pos hfull]
  · rw [h.length_eq] at hroom
    simp only [heq, actOf, hnone hl, if_neg (Nat.not_le_of_lt hroom)]

/-- The step lemma: after a locked section the buffer still holds what the
    history says. -/
theorem Content.locked (h : Content pending history) (maxEntries now : Nat) (call : Call) :
    Content (NeveJoinBuffer.locked maxEntries pending now call).2
      (⟨call, now, (NeveJoinBuffer.locked maxEntries pending now call).1⟩ :: history) := by
  intro height
  rcases locked_cases maxEntries now pending call with
    ⟨held, act, hl, hc, heq⟩ | ⟨held, hl, hc, heq⟩ | ⟨hl, hfull, heq⟩ |
      ⟨hl, hroom, heq⟩
  · -- completed: the height is gone, the others are untouched
    rw [heq]
    have hwrite : act.isWrite = true := by
      rw [h call.height] at hl
      obtain ⟨e, -, -, -, hpend⟩ := heldHalf_eq_some hl
      rw [hpend, complete_pending] at hc
      exact isWrite_of_joined hc
    have hleaves : ∀ k, (Arrival.mk call now act).leaves k = (call.height == k) := by
      intro k
      cases act with
      | write _ _ _ _ _ _ => rfl
      | buffered => cases hwrite
      | deferred => cases hwrite
    by_cases hk : call.height = height
    · rw [heldHalf_cons_leaves (by rw [hleaves, hk, beq_self_eq_true]), ← hk]
      exact AList.lookup_erase call.height pending
    · rw [heldHalf_cons_other (by rw [hleaves, beq_false_of_ne hk]) hk, ← h height]
      exact AList.lookup_erase_ne (Ne.symm hk)
  · -- replaced: the new half keeps the first arrival's time
    rw [heq]
    by_cases hk : call.height = height
    · obtain ⟨-, -, -, hfirst, -⟩ := heldHalf_eq_some ((h call.height).symm.trans hl)
      rw [heldHalf_cons_same rfl hk, ← hk, hfirst]
      exact AList.lookup_insert _
    · rw [heldHalf_cons_other rfl hk, ← h height]
      exact (AList.lookup_insert_ne (Ne.symm hk)).trans (AList.lookup_erase_ne (Ne.symm hk))
  · -- flushed
    rw [heq, heldHalf_cons_leaves rfl]
    exact AList.lookup_empty height
  · -- inserted
    rw [heq]
    by_cases hk : call.height = height
    · have hnone := heldHalf_eq_none.mp ((h call.height).symm.trans hl)
      have hfirst : firstArrival history call.height = none := by
        have hsome := isSome_firstArrival history call.height
        rw [hnone] at hsome
        exact Option.isNone_iff_eq_none.mp (by simpa using hsome)
      rw [heldHalf_cons_same rfl hk, ← hk, hfirst]
      exact AList.lookup_insert _
    · rw [heldHalf_cons_other rfl hk, ← h height]
      exact (AList.lookup_insert_ne (Ne.symm hk)).trans (AList.lookup_erase_ne (Ne.symm hk))

/-- A locked section never exceeds the cap. -/
theorem length_locked_le (h : pending.entries.length ≤ maxEntries) :
    (locked maxEntries pending now call).2.entries.length ≤ maxEntries := by
  have hinsert : ∀ p : Pending,
      ((pending.erase call.height).insert call.height p).entries.length
        = (pending.keys.erase call.height).length + 1 := by
    intro p
    rw [entries_length, AList.keys_insert, AList.keys_erase, List.length_cons,
      List.erase_of_not_mem (pending.keys_nodup.not_mem_erase)]
  rw [entries_length] at h
  rcases locked_cases maxEntries now pending call with
    ⟨held, act, hl, hc, heq⟩ | ⟨held, hl, hc, heq⟩ | ⟨hl, hfull, heq⟩ |
      ⟨hl, hroom, heq⟩
  · rw [heq, entries_length, AList.keys_erase]
    exact Nat.le_trans List.length_erase_le h
  · have hmem : call.height ∈ pending.keys :=
      AList.lookup_isSome.mp (Option.isSome_iff_exists.mpr ⟨held, hl⟩)
    have hpos : 0 < pending.keys.length := List.length_pos_of_mem hmem
    rw [heq, hinsert, List.length_erase_of_mem hmem]
    omega
  · rw [heq]
    exact Nat.zero_le _
  · rw [entries_length] at hroom
    rw [heq, hinsert, List.erase_of_not_mem (AList.lookup_eq_none.mp hl)]
    exact hroom

end Locked

/-! ## No half is used twice -/

theorem used_lt {history : List Arrival} {p : Nat} (h : p ∈ used history) :
    p < history.length := by
  induction history with
  | nil => cases h
  | cons e earlier ih =>
      simp only [used] at h
      by_cases hw : e.act.isWrite = true
      · rw [if_pos hw] at h
        rcases List.mem_append.mp h with hnew | hold
        · rcases List.mem_cons.mp hnew with rfl | hpartner
          · exact Nat.lt_succ_self _
          · obtain ⟨⟨e', pos⟩, hlast, rfl⟩ :=
              Option.map_eq_some_iff.mp (Option.mem_toList.mp hpartner)
            exact Nat.lt_succ_of_lt (lastArrival_spec hlast).2.1
        · exact Nat.lt_succ_of_lt (ih hold)
      · rw [if_neg hw] at h
        exact Nat.lt_succ_of_lt (ih h)

/-- A half that is still held went into no write. -/
theorem lastArrival_not_used {history : List Arrival} {height pos : Nat} {e : Arrival}
    (h : lastArrival history height = some (e, pos)) : pos ∉ used history := by
  induction history with
  | nil => cases h
  | cons x earlier ih =>
      simp only [lastArrival] at h
      by_cases hl : x.leaves height = true
      · rw [if_pos hl] at h
        cases h
      rw [if_neg hl] at h
      by_cases hh : x.call.height = height
      · rw [if_pos hh] at h
        obtain ⟨rfl, rfl⟩ := Prod.mk.inj (Option.some.inj h)
        have hw : x.act.isWrite = false := by
          cases hact : x.act with
          | write _ _ _ _ _ _ => simp [Arrival.leaves, hact, hh] at hl
          | buffered => rfl
          | deferred => rfl
        simp only [used, hw, Bool.false_eq_true, if_false]
        exact fun hmem => Nat.lt_irrefl _ (used_lt hmem)
      · rw [if_neg hh] at h
        obtain ⟨hheight, hlt, hat⟩ := lastArrival_spec h
        simp only [used]
        by_cases hw : x.act.isWrite = true
        · rw [if_pos hw]
          intro hmem
          rcases List.mem_append.mp hmem with hnew | hold
          · rcases List.mem_cons.mp hnew with heq | hpartner
            · exact Nat.ne_of_lt hlt heq
            · -- the partner of another height's write is a call for that height
              obtain ⟨⟨e', pos'⟩, hlast, rfl⟩ :=
                Option.map_eq_some_iff.mp (Option.mem_toList.mp hpartner)
              obtain ⟨hheight', -, hat'⟩ := lastArrival_spec hlast
              have hsame : e' = e := Option.some.inj (hat'.symm.trans hat)
              exact hh (hheight'.symm.trans (hsame ▸ hheight))
          · exact ih h hold
        · rw [if_neg hw]
          exact ih h

theorem used_nodup (history : List Arrival) : (used history).Nodup := by
  induction history with
  | nil => exact List.nodup_nil
  | cons e earlier ih =>
      simp only [used]
      by_cases hw : e.act.isWrite = true
      · rw [if_pos hw]
        cases hlast : lastArrival earlier e.call.height with
        | none =>
            refine List.nodup_cons.mpr ⟨?_, ih⟩
            exact fun hmem => Nat.lt_irrefl _ (used_lt hmem)
        | some partner =>
            obtain ⟨e', pos⟩ := partner
            have hlt := (lastArrival_spec hlast).2.1
            refine List.nodup_cons.mpr ⟨?_, List.nodup_cons.mpr ⟨?_, ih⟩⟩
            · intro hmem
              rcases List.mem_cons.mp hmem with heq | hold
              · exact Nat.ne_of_lt hlt heq.symm
              · exact Nat.lt_irrefl _ (used_lt hold)
            · exact lastArrival_not_used hlast
      · rw [if_neg hw]
        exact ih

/-! ## Whole runs -/

/-- What a call returns, by what it decided: an error exactly when the write it
    issued failed. -/
def Matches (act : WriteAct) (r : Returned) : Prop :=
  match act with
  | .write .. => ∃ put, r.put = some put ∧
      ((put = .ok () ∧ r.result = .ok .Completed) ∨
        ∃ e, put = .error e ∧ r.result = .error e)
  | .buffered => r.put = none ∧ r.result = .ok .Buffered
  | .deferred => r.put = none ∧ r.result = .ok .Deferred

theorem matches_apply (s : Storage) (fault : Fault) (height pos : Nat) (act : WriteAct) :
    Matches act ⟨pos, putResult s fault height act, (apply s fault height act).1⟩ := by
  cases act with
  | buffered => exact ⟨rfl, rfl⟩
  | deferred => exact ⟨rfl, rfl⟩
  | write hash txHashes blockBytes logs first since =>
      refine ⟨_, rfl, ?_⟩
      simp only [apply]
      rcases s.put fault height hash txHashes [blockBytes, logs] with ⟨result, s'⟩
      cases result with
      | error e => exact Or.inr ⟨e, rfl, rfl⟩
      | ok u => exact Or.inl ⟨rfl, rfl⟩

theorem apply_write_state (s : Storage) (fault : Fault) (height : Nat) (hash : Bytes32)
    (txHashes : List Bytes32) (blockBytes logs : Bytes) (first : Half) (since : Nat) :
    (apply s fault height (.write hash txHashes blockBytes logs first since)).2
      = (s.put fault height hash txHashes [blockBytes, logs]).2 := by
  simp only [apply]
  rcases s.put fault height hash txHashes [blockBytes, logs] with ⟨result, s'⟩
  cases result <;> rfl

/-- What holds after every run of the buffer. -/
structure Invariant (b : System) : Prop where
  /-- At most `maxEntries` heights are held. -/
  bounded : b.pending.entries.length ≤ b.maxEntries
  /-- At most one half is held for a height. -/
  one_half : b.pending.keys.Nodup
  /-- A held half is the most recent one since its height last left. -/
  content : ∀ height, b.pending.lookup height = heldHalf b.history height
  /-- Every call decided what the calls before it determine. -/
  acts : ∀ later e earlier, b.history = later ++ e :: earlier →
    e.act = actOf b.maxEntries earlier e.call
  /-- A write is issued exactly when the other half is held. -/
  writes : ∀ later e earlier, b.history = later ++ e :: earlier →
    (e.act.isWrite = true ↔ ∃ e' pos,
      lastArrival earlier e.call.height = some (e', pos) ∧ e'.call.half ≠ e.call.half)
  /-- No half is used in two writes. -/
  used_once : (used b.history).Nodup
  /-- After a write the height is gone; after an overflow everything is. -/
  left : ∀ e earlier, b.history = e :: earlier →
    (e.act.isWrite = true → b.pending.lookup e.call.height = none) ∧
    (e.act = .deferred → b.pending = ∅)
  /-- Every call returned what it decided. -/
  returned : ∀ r ∈ b.returned, ∃ e, arrivalAt b.history r.pos = some e ∧ Matches e.act r

/-- The inductive part of the invariant. -/
structure Core (maxEntries : Nat) (b : System) : Prop where
  cap : b.maxEntries = maxEntries
  bounded : b.pending.entries.length ≤ b.maxEntries
  content : Content b.pending b.history
  acts : ∀ later e earlier, b.history = later ++ e :: earlier →
    e.act = actOf b.maxEntries earlier e.call
  returned : ∀ r ∈ b.returned, ∃ e, arrivalAt b.history r.pos = some e ∧ Matches e.act r

theorem core_new (storage : Storage) (maxEntries : Nat) :
    Core maxEntries (System.new storage maxEntries) where
  cap := rfl
  bounded := Nat.zero_le _
  content height := AList.lookup_empty height
  acts later e earlier h := by
    have hlen := congrArg List.length h
    simp [System.new] at hlen
  returned _ h := nomatch h

/-- Positions do not move when a call is added. -/
theorem arrivalAt_cons {history : List Arrival} {pos : Nat} {e : Arrival} (new : Arrival)
    (h : arrivalAt history pos = some e) : arrivalAt (new :: history) pos = some e := by
  simp only [arrivalAt, List.reverse_cons]
  rw [List.getElem?_append_left (List.getElem?_eq_some_iff.mp h).1]
  exact h

theorem Core.step {maxEntries : Nat} {b b' : System} {ev : Event} (h : Core maxEntries b)
    (hstep : step b ev = some b') : Core maxEntries b' := by
  cases ev with
  | enter call now =>
      rw [← Option.some.inj hstep]
      refine ⟨h.cap, length_locked_le h.bounded, h.content.locked _ now call, ?_, ?_⟩
      · intro later e earlier heq
        cases later with
        | nil =>
            obtain ⟨rfl, rfl⟩ := List.cons.inj heq
            exact act_locked h.content
        | cons x later => exact h.acts later e earlier (List.cons.inj heq).2
      · intro r hr
        obtain ⟨e, hat, hm⟩ := h.returned r hr
        exact ⟨e, arrivalAt_cons _ hat, hm⟩
  | finish pos fault =>
      simp only [NeveJoinBuffer.step] at hstep
      by_cases hin : pos ∈ b.inFlight
      · rw [if_pos hin] at hstep
        obtain ⟨e, hat, rfl⟩ := Option.map_eq_some_iff.mp hstep
        refine ⟨h.cap, h.bounded, h.content, h.acts, ?_⟩
        intro r hr
        rcases List.mem_cons.mp hr with rfl | hold
        · exact ⟨e, hat, matches_apply _ _ _ _ _⟩
        · exact h.returned r hold
      · rw [if_neg hin] at hstep
        cases hstep

/-- A decision is a write exactly when the held half is of the other kind. -/
theorem isWrite_actOf (maxEntries : Nat) (earlier : List Arrival) (call : Call) :
    (actOf maxEntries earlier call).isWrite = true ↔ ∃ e' pos,
      lastArrival earlier call.height = some (e', pos) ∧ e'.call.half ≠ call.half := by
  simp only [actOf]
  cases hlast : lastArrival earlier call.height with
  | none =>
      constructor
      · intro h
        by_cases hfull : maxEntries ≤ (heldHeights earlier).length
        · simp only [if_pos hfull] at h
          cases h
        · simp only [if_neg hfull] at h
          cases h
      · rintro ⟨_, _, h, -⟩
        cases h
  | some partner =>
      obtain ⟨e, pos⟩ := partner
      dsimp only
      have hiff := joined_isSome_iff ((firstArrival earlier call.height).getD e.now) e.call call
      cases hj : joined ((firstArrival earlier call.height).getD e.now) e.call call with
      | none =>
          rw [hj] at hiff
          constructor
          · intro h
            cases h
          · rintro ⟨e', pos', heq, hne⟩
            obtain ⟨rfl, -⟩ := Prod.mk.inj (Option.some.inj heq)
            exact nomatch hiff.mpr hne
      | some act =>
          rw [hj] at hiff
          constructor
          · intro _
            exact ⟨e, pos, rfl, hiff.mp rfl⟩
          · intro _
            exact isWrite_of_joined hj

theorem Core.invariant {maxEntries : Nat} {b : System} (h : Core maxEntries b) :
    Invariant b where
  bounded := h.bounded
  one_half := b.pending.keys_nodup
  content := h.content
  acts := h.acts
  writes later e earlier heq := by
    rw [h.acts later e earlier heq]
    exact isWrite_actOf b.maxEntries earlier e.call
  used_once := used_nodup b.history
  left e earlier heq := by
    constructor
    · intro hw
      rw [h.content e.call.height, heq]
      refine heldHalf_cons_leaves ?_
      cases hact : e.act with
      | write _ _ _ _ _ _ => simp [Arrival.leaves, hact]
      | buffered => rw [hact] at hw; cases hw
      | deferred => rw [hact] at hw; cases hw
    · intro hd
      have hkeys : b.pending.keys = [] := by
        refine List.eq_nil_iff_forall_not_mem.mpr ?_
        intro height
        refine AList.lookup_eq_none.mp ?_
        rw [h.content height, heq]
        exact heldHalf_cons_leaves (by simp [Arrival.leaves, hd])
      exact AList.ext (List.map_eq_nil_iff.mp hkeys)
  returned := h.returned

/-- **The join buffer over whole runs.** Whatever the cap and however calls and
    writes interleave, the buffer is what the history of calls makes it. -/
theorem joinBuffer_run (storage : Storage) (maxEntries : Nat) (events : List Event)
    (b : System) (hrun : Run.exec step (System.new storage maxEntries) events = some b) :
    b.maxEntries = maxEntries ∧ Invariant b := by
  have hcore : Core maxEntries b :=
    Run.exec_invariant_all (fun _ _ _ hi hs => hi.step hs)
      (core_new storage maxEntries) hrun
  exact ⟨hcore.cap, hcore.invariant⟩

/-- A cap of one: a height completes, then a second new height overflows. -/
def sampleEvents : List Event :=
  [.enter (.block 1 (Vector.replicate 32 0) [] [123, 125]) 10, .finish 0 .none,
    .enter (.logs 1 [91, 93]) 11, .finish 1 .none,
    .enter (.logs 2 [91, 93]) 12, .enter (.logs 3 [91, 93]) 13, .finish 3 .none]

theorem joinBuffer_run_sample :
    ∃ b, Run.exec step (System.new (Storage.fresh memory .C none) 1) sampleEvents = some b ∧
      b.history.map (fun e => e.act.isWrite) = [false, false, true, false] ∧
      b.returned.map (fun r => r.result.toOption)
        = [some .Deferred, some .Completed, some .Buffered] ∧
      Invariant b :=
  ⟨_, rfl, rfl, rfl, (joinBuffer_run (Storage.fresh memory .C none) 1 sampleEvents _ rfl).2⟩

end NeveJoinBuffer
