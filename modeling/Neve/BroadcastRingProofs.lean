import Mathlib

/-! # A broadcast channel with a bounded ring

    One sender, any number of receivers, each with a cursor of its own.  The
    channel keeps the last values, as many as its capacity; a receiver further behind
    than that is told how many it has lost and goes on from the oldest value kept.
    `Broadcast` is what is relied on of a library of such channels.  What a receiver
    reads is related to the whole history by `Follows`, in which every value is either
    read or counted as lost, in order. -/

namespace BroadcastRing

variable {α : Type*}

/-- What receiving at a position finds. -/
inductive Received (α : Type*) where
  | value (v : α)
  | lagged (n : Nat)
  deriving DecidableEq

/-- A library of broadcast channels: what a program calls, and what it relies on. -/
structure Broadcast (α : Type*) where
  Ring : Type
  channel : Nat → Ring
  capacity : Ring → Nat
  /-- Where the next value goes, and where a new receiver starts. -/
  tail : Ring → Nat
  send : Ring → α → Ring
  /-- Receive at a position: the value there, or by how much it is too late, and where
      to go on.  `none` when there is nothing to read yet. -/
  recv : Ring → Nat → Option (Received α × Nat)
  /-- The values that were ever sent, oldest first. -/
  Sent : Ring → List α → Prop
  /-- A capacity that is a power of two is taken as it is. -/
  capacity_channel : ∀ k, capacity (channel (2 ^ k)) = 2 ^ k
  capacity_send : ∀ ring v, capacity (send ring v) = capacity ring
  sent_channel : ∀ cap, Sent (channel cap) []
  sent_send : ∀ {ring history} (v : α), Sent ring history → 0 < capacity ring →
    Sent (send ring v) (history ++ [v])
  tail_sent : ∀ {ring history}, Sent ring history → tail ring = history.length
  /-- A value within the capacity is read. -/
  recv_kept : ∀ {ring history pos}, Sent ring history →
    history.length ≤ pos + capacity ring →
    recv ring pos = (history[pos]?).map fun v => (.value v, pos + 1)
  /-- Further back everything up to the oldest value kept is lost. -/
  recv_late : ∀ {ring history pos}, Sent ring history →
    pos + capacity ring < history.length →
    recv ring pos = some (.lagged (history.length - capacity ring - pos),
      history.length - capacity ring)

/-- A channel of a library. -/
structure Channel (α : Type*) where
  broadcast : Broadcast α
  ring : broadcast.Ring

namespace Channel

def new (broadcast : Broadcast α) (cap : Nat) : Channel α :=
  ⟨broadcast, broadcast.channel cap⟩

def cap (r : Channel α) : Nat := r.broadcast.capacity r.ring

def tail (r : Channel α) : Nat := r.broadcast.tail r.ring

/-- Sending never waits. -/
def send (r : Channel α) (v : α) : Channel α := ⟨r.broadcast, r.broadcast.send r.ring v⟩

def recv (r : Channel α) (pos : Nat) : Option (Received α × Nat) := r.broadcast.recv r.ring pos

end Channel

open Channel

/-- The history of a channel. -/
def Keeps (r : Channel α) (history : List α) : Prop := r.broadcast.Sent r.ring history

section Channels

variable {r : Channel α} {history : List α}

theorem Keeps.tail (h : Keeps r history) : r.tail = history.length := r.broadcast.tail_sent h

theorem cap_new (broadcast : Broadcast α) (k : Nat) :
    (Channel.new broadcast (2 ^ k)).cap = 2 ^ k := broadcast.capacity_channel k

@[simp] theorem send_cap (r : Channel α) (v : α) : (r.send v).cap = r.cap :=
  r.broadcast.capacity_send r.ring v

theorem keeps_new (broadcast : Broadcast α) (cap : Nat) : Keeps (Channel.new broadcast cap) [] :=
  broadcast.sent_channel cap

theorem Keeps.send (h : Keeps r history) (hcap : 0 < r.cap) (v : α) :
    Keeps (r.send v) (history ++ [v]) := r.broadcast.sent_send v h hcap

theorem Keeps.recv_kept (h : Keeps r history) {pos : Nat} (hle : history.length ≤ pos + r.cap) :
    r.recv pos = (history[pos]?).map fun v => (.value v, pos + 1) := r.broadcast.recv_kept h hle

theorem Keeps.recv_late (h : Keeps r history) {pos : Nat} (hlt : pos + r.cap < history.length) :
    r.recv pos = some (.lagged (history.length - r.cap - pos), history.length - r.cap) :=
  r.broadcast.recv_late h hlt

/-- Receiving is behind when the value at its position is no longer kept. -/
theorem recv_lagged (h : Keeps r history) {pos n next : Nat}
    (hr : r.recv pos = some (.lagged n, next)) :
    0 < n ∧ pos + n = next ∧ next + r.cap = history.length := by
  rcases Nat.lt_or_ge (pos + r.cap) history.length with hlate | hkept
  · rw [h.recv_late hlate] at hr
    obtain ⟨hn, hnext⟩ := Prod.mk.inj (Option.some.inj hr)
    have hn' := Received.lagged.inj hn
    omega
  · rw [h.recv_kept hkept] at hr
    obtain ⟨v, -, hv⟩ := Option.map_eq_some_iff.mp hr
    cases hv

theorem recv_value (h : Keeps r history) {pos next : Nat} {v : α}
    (hr : r.recv pos = some (.value v, next)) :
    history[pos]? = some v ∧ next = pos + 1 := by
  rcases Nat.lt_or_ge (pos + r.cap) history.length with hlate | hkept
  · rw [h.recv_late hlate] at hr
    cases hr
  · rw [h.recv_kept hkept] at hr
    obtain ⟨v', hv', heq⟩ := Option.map_eq_some_iff.mp hr
    obtain ⟨hval, hnext⟩ := Prod.mk.inj heq
    have hsame : v' = v := Received.value.inj hval
    exact ⟨hsame ▸ hv', hnext.symm⟩

/-- A receiver within the capacity reads a value, unless it has caught up. -/
theorem recv_within (h : Keeps r history) {pos next : Nat} {x : Received α}
    (hle : history.length ≤ pos + r.cap) (hr : r.recv pos = some (x, next)) :
    ∃ v, x = .value v := by
  cases x with
  | value v => exact ⟨v, rfl⟩
  | lagged n =>
      obtain ⟨hn, hpos, hnext⟩ := recv_lagged h hr
      omega

end Channels

/-! ## A ring in memory -/

/-- The values still kept, oldest first; `base` is the position of the oldest among all
    values ever sent. -/
structure Ring (α : Type) where
  cap : Nat
  base : Nat
  kept : List α

namespace Ring

variable {α : Type} {r : Ring α} {history : List α}

/-- A full ring drops its oldest value. -/
def send (r : Ring α) (v : α) : Ring α :=
  if r.kept.length < r.cap then { r with kept := r.kept ++ [v] }
  else { r with base := r.base + 1, kept := r.kept.tail ++ [v] }

def recv (r : Ring α) (pos : Nat) : Option (Received α × Nat) :=
  if pos < r.base then some (.lagged (r.base - pos), r.base)
  else (r.kept[pos - r.base]?).map fun v => (.value v, pos + 1)

/-- The ring is what one of this capacity keeps of a history. -/
structure Sent (r : Ring α) (history : List α) : Prop where
  base : r.base = history.length - r.cap
  kept : r.kept = history.drop r.base

theorem cap_send (r : Ring α) (v : α) : (r.send v).cap = r.cap := by
  simp only [send]
  split <;> rfl

theorem Sent.send (h : Sent r history) (hcap : 0 < r.cap) (v : α) :
    Sent (r.send v) (history ++ [v]) := by
  have hbase := h.base
  have hlen : r.kept.length = history.length - r.base := by
    rw [h.kept, List.length_drop]
  by_cases hroom : r.kept.length < r.cap
  · have heq : r.send v = { r with kept := r.kept ++ [v] } := if_pos hroom
    have hzero : r.base = 0 := by omega
    rw [heq]
    constructor
    · show r.base = (history ++ [v]).length - r.cap
      rw [List.length_append, List.length_singleton]
      omega
    · show r.kept ++ [v] = (history ++ [v]).drop r.base
      rw [h.kept, hzero]
      rfl
  · have heq : r.send v = { r with base := r.base + 1, kept := r.kept.tail ++ [v] } :=
      if_neg hroom
    rw [heq]
    constructor
    · show r.base + 1 = (history ++ [v]).length - r.cap
      rw [List.length_append, List.length_singleton]
      omega
    · show r.kept.tail ++ [v] = (history ++ [v]).drop (r.base + 1)
      rw [h.kept, List.tail_drop, List.drop_append_of_le_length (by omega)]

theorem Sent.tail (h : Sent r history) : r.base + r.kept.length = history.length := by
  have hbase := h.base
  rw [h.kept, List.length_drop]
  omega

theorem Sent.recv_kept (h : Sent r history) {pos : Nat} (hle : history.length ≤ pos + r.cap) :
    r.recv pos = (history[pos]?).map fun v => (.value v, pos + 1) := by
  have hbase := h.base
  have hge : r.base ≤ pos := by omega
  rw [recv, if_neg (Nat.not_lt.mpr hge), h.kept, List.getElem?_drop, Nat.add_sub_cancel' hge]

theorem Sent.recv_late (h : Sent r history) {pos : Nat} (hlt : pos + r.cap < history.length) :
    r.recv pos = some (.lagged (history.length - r.cap - pos), history.length - r.cap) := by
  have hbase := h.base
  rw [recv, if_pos (by omega), hbase]

end Ring

/-- The library over rings in memory. -/
def rings {α : Type} : Broadcast α where
  Ring := Ring α
  channel cap := ⟨cap, 0, []⟩
  capacity := Ring.cap
  tail r := r.base + r.kept.length
  send := Ring.send
  recv := Ring.recv
  Sent := Ring.Sent
  capacity_channel _ := rfl
  capacity_send := Ring.cap_send
  sent_channel cap := ⟨(Nat.zero_sub cap).symm, rfl⟩
  sent_send v h hcap := h.send hcap v
  tail_sent h := h.tail
  recv_kept h := h.recv_kept
  recv_late h := h.recv_late

/-! ## What a receiver has read -/

variable {history : List α}

/-- Reading from position `pos` of a history up to position `stop`: the values
    in order, with every stretch that was lost counted in its place. -/
inductive Follows (history : List α) : Nat → List (Received α) → Nat → Prop where
  | nil (pos : Nat) : Follows history pos [] pos
  | value {pos stop : Nat} {v : α} {rest : List (Received α)}
      (hv : history[pos]? = some v) (h : Follows history (pos + 1) rest stop) :
      Follows history pos (.value v :: rest) stop
  | lagged {pos n stop : Nat} {rest : List (Received α)} (hn : 0 < n)
      (hroom : pos + n ≤ history.length) (h : Follows history (pos + n) rest stop) :
      Follows history pos (.lagged n :: rest) stop

/-- The values among what was received. -/
def values : List (Received α) → List α
  | [] => []
  | .value v :: rest => v :: values rest
  | .lagged _ :: rest => values rest

/-- How many values were lost. -/
def lost : List (Received α) → Nat
  | [] => 0
  | .value _ :: rest => lost rest
  | .lagged n :: rest => n + lost rest

@[simp] theorem values_append (xs ys : List (Received α)) :
    values (xs ++ ys) = values xs ++ values ys := by
  induction xs with
  | nil => rfl
  | cons x rest ih =>
      cases x with
      | value v => exact congrArg (v :: ·) ih
      | lagged n => exact ih

@[simp] theorem lost_append (xs ys : List (Received α)) :
    lost (xs ++ ys) = lost xs + lost ys := by
  induction xs with
  | nil => exact (Nat.zero_add _).symm
  | cons x rest ih =>
      cases x with
      | value v => exact ih
      | lagged n =>
          show n + lost (rest ++ ys) = n + lost rest + lost ys
          rw [ih, Nat.add_assoc]

theorem Follows.append {pos mid stop : Nat} {xs ys : List (Received α)}
    (h : Follows history pos xs mid) (h' : Follows history mid ys stop) :
    Follows history pos (xs ++ ys) stop := by
  induction h with
  | nil => exact h'
  | value hv _ ih => exact .value hv (ih h')
  | lagged hn hroom _ ih => exact .lagged hn hroom (ih h')

/-- What was read first ends where the rest begins. -/
theorem Follows.append_inv {pos stop : Nat} {xs ys : List (Received α)}
    (h : Follows history pos (xs ++ ys) stop) :
    ∃ mid, Follows history pos xs mid ∧ Follows history mid ys stop := by
  induction xs generalizing pos with
  | nil => exact ⟨pos, .nil pos, h⟩
  | cons x rest ih =>
      cases h with
      | value hv hrest =>
          obtain ⟨mid, hxs, hys⟩ := ih hrest
          exact ⟨mid, .value hv hxs, hys⟩
      | lagged hn hroom hrest =>
          obtain ⟨mid, hxs, hys⟩ := ih hrest
          exact ⟨mid, .lagged hn hroom hxs, hys⟩

/-- What was read stays read when the history grows. -/
theorem Follows.mono {pos stop : Nat} {xs : List (Received α)}
    (h : Follows history pos xs stop) (more : List α) :
    Follows (history ++ more) pos xs stop := by
  induction h with
  | nil => exact .nil _
  | @value pos stop v rest hv _ ih =>
      have hlt : pos < history.length := (List.getElem?_eq_some_iff.mp hv).1
      refine .value ?_ ih
      rw [List.getElem?_append_left hlt]
      exact hv
  | lagged hn hroom _ ih =>
      refine .lagged hn ?_ ih
      rw [List.length_append]
      omega

theorem Follows.le {pos stop : Nat} {xs : List (Received α)}
    (h : Follows history pos xs stop) (hle : pos ≤ history.length) :
    pos ≤ stop ∧ stop ≤ history.length := by
  induction h with
  | nil => exact ⟨Nat.le_refl _, hle⟩
  | value hv _ ih =>
      have hlt := (List.getElem?_eq_some_iff.mp hv).1
      have := ih hlt
      omega
  | lagged hn hroom _ ih =>
      have := ih hroom
      omega

/-- **Every value is read or counted.**  What was read and what was lost add up
    to the stretch of the history gone past. -/
theorem Follows.accounts {pos stop : Nat} {xs : List (Received α)}
    (h : Follows history pos xs stop) : pos + (values xs).length + lost xs = stop := by
  induction h with
  | nil => rfl
  | @value pos stop v rest _ _ ih =>
      simp only [values, lost, List.length_cons]
      omega
  | @lagged pos n stop rest _ _ _ ih =>
      simp only [values, lost]
      omega

/-- **In order, none twice.** -/
theorem Follows.sublist {pos stop : Nat} {xs : List (Received α)}
    (h : Follows history pos xs stop) :
    (values xs).Sublist ((history.drop pos).take (stop - pos)) := by
  induction h with
  | nil => exact List.nil_sublist _
  | @value pos stop v rest hv hrest ih =>
      obtain ⟨hlt, hget⟩ := List.getElem?_eq_some_iff.mp hv
      have hacc := hrest.accounts
      rw [← List.getElem_cons_drop hlt, hget,
        show stop - pos = stop - (pos + 1) + 1 by omega, List.take_succ_cons]
      exact ih.cons_cons v
  | @lagged pos n stop rest _ _ hrest ih =>
      have hacc := hrest.accounts
      refine ih.trans ?_
      rw [show stop - pos = n + (stop - (pos + n)) by omega, List.take_add, List.drop_drop]
      exact List.sublist_append_right _ _

/-- **Nothing lost, nothing missing.** -/
theorem Follows.values_eq {pos stop : Nat} {xs : List (Received α)}
    (h : Follows history pos xs stop) (hlost : lost xs = 0) (hle : stop ≤ history.length) :
    values xs = (history.drop pos).take (stop - pos) := by
  have hacc := h.accounts
  refine h.sublist.eq_of_length ?_
  rw [List.length_take, List.length_drop]
  omega

end BroadcastRing
