import Neve.ConfigProofs
import Neve.RunProofs

/-! # Idle connections — every silent socket is reaped in time

    Each accepted socket is wrapped so that a read or a write which finds nothing
    to do also looks at the connection's deadline, and bytes moving in either
    direction push it out.  A timer only fires while it is registered, and only a
    poll registers it: the server is run with any number of connections, time
    passing freely for every one of them whose timer is not registered. -/

namespace NeveIdleTimeout

open NeveConfig

/-! ## The wrapper -/

/-- The armed idle deadline, the interval it resets to, and whether a timer will
    wake the connection's task when it passes. -/
structure Reaper where
  interval : Nat
  deadline : Nat
  registered : Bool

/-- `none` disables reaping. -/
structure IdleTimeout where
  reaper : Option Reaper

/-- What polling the wrapped socket gives. -/
inductive Inner where
  | pending
  | ready
  | failed

/-- What the driver of the connection sees. -/
inductive Polled where
  | pending
  | ready
  | failed
  | timedOut
  deriving DecidableEq

/-- Poll the deadline's timer: it has expired, or it is registered. -/
def Reaper.poll (r : Reaper) (now : Nat) : Bool × Reaper :=
  if r.deadline ≤ now then (true, { r with registered := false })
  else (false, { r with registered := true })

namespace IdleTimeout

def new (idle : Option Nat) (now : Nat) : IdleTimeout :=
  ⟨idle.map fun interval => ⟨interval, now + interval, false⟩⟩

/-- Push the deadline out to one interval from now, and register its timer. -/
def resetTimeout (s : IdleTimeout) (now : Nat) : IdleTimeout :=
  ⟨s.reaper.map fun r =>
    (Reaper.poll { r with deadline := now + r.interval, registered := false } now).2⟩

/-- Poll the deadline; with reaping disabled it never expires. -/
def idleExpired (s : IdleTimeout) (now : Nat) : Bool × IdleTimeout :=
  match s.reaper with
  | none => (false, s)
  | some r => ((r.poll now).1, ⟨some (r.poll now).2⟩)

/-- Read: bytes reset the deadline, and having none lets it expire. -/
def pollRead (s : IdleTimeout) (now : Nat) : Inner → Polled × IdleTimeout
  | .ready => (.ready, s.resetTimeout now)
  | .failed => (.failed, s)
  | .pending => (if (s.idleExpired now).1 then .timedOut else .pending, (s.idleExpired now).2)

/-- Write: the same, so that a peer which does not drain is no activity. -/
def pollWrite (s : IdleTimeout) (now : Nat) : Inner → Polled × IdleTimeout := s.pollRead now

end IdleTimeout

/-! ## The server's connections -/

/-- How a connection stands: open, reaped at an instant, or gone for another
    reason. -/
inductive Fate where
  | alive
  | reaped (instant : Nat)
  | gone
  deriving DecidableEq

/-- A connection, when bytes last moved on it (or when it was accepted), and
    whether its task has run yet. -/
structure Connection where
  io : IdleTimeout
  lastActivity : Nat
  polled : Bool
  fate : Fate

structure Listener where
  now : Nat
  connections : List Connection

inductive Direction where
  | read
  | write

/-- A socket is accepted, time passes, a connection's task polls its socket, a
    connection ends for another reason. -/
inductive Action where
  | accept
  | wait (instant : Nat)
  | poll (i : Nat) (direction : Direction) (inner : Inner)
  | hangUp (i : Nat)

/-- Can time pass to an instant, as far as this connection goes?  A task that has
    not run yet runs first, and so does one whose timer fires on the way. -/
def Connection.sleepsUntil (c : Connection) (instant : Nat) : Prop :=
  c.fate = .alive → c.polled = true ∧
    ∀ r, c.io.reaper = some r → r.registered = true → instant ≤ r.deadline

instance (c : Connection) (instant : Nat) : Decidable (c.sleepsUntil instant) := by
  unfold Connection.sleepsUntil
  exact inferInstanceAs (Decidable (_ → _ ∧ _))

/-- One poll of an open connection's socket. -/
def Connection.poll (c : Connection) (now : Nat) (direction : Direction) (inner : Inner) :
    Connection :=
  let out := match direction with
    | .read => c.io.pollRead now inner
    | .write => c.io.pollWrite now inner
  match out.1 with
  | .pending => { c with io := out.2, polled := true }
  | .ready => { c with io := out.2, polled := true, lastActivity := now }
  | .failed => { c with io := out.2, polled := true, fate := .gone }
  | .timedOut => { c with io := out.2, polled := true, fate := .reaped now }

def step (srv : Server) (l : Listener) : Action → Option Listener
  | .accept =>
      some { l with connections := l.connections ++
        [⟨IdleTimeout.new srv.idleTimeout l.now, l.now, false, .alive⟩] }
  | .wait instant =>
      if l.now ≤ instant ∧ ∀ c ∈ l.connections, c.sleepsUntil instant then
        some { l with now := instant }
      else none
  | .poll i direction inner =>
      match l.connections[i]? with
      | none => none
      | some c =>
          if c.fate = .alive then
            some { l with connections := l.connections.set i (c.poll l.now direction inner) }
          else none
  | .hangUp i =>
      match l.connections[i]? with
      | none => none
      | some c =>
          if c.fate = .alive then
            some { l with connections := l.connections.set i { c with fate := .gone } }
          else none

def Listener.start (now : Nat) : Listener := ⟨now, []⟩

/-! ## Every connection is on time -/

/-- What a connection can be like at an instant: just accepted, never reaped,
    armed from its last activity with the timer registered, or over. -/
inductive Timed (idle : Option Nat) (now : Nat) : Connection → Prop where
  | fresh : Timed idle now ⟨IdleTimeout.new idle now, now, false, .alive⟩
  | unlimited (last : Nat) (h : idle = none) :
      Timed idle now ⟨⟨none⟩, last, true, .alive⟩
  | armed {interval last : Nat} (h : idle = some interval)
      (hin : now ≤ last + interval) :
      Timed idle now ⟨⟨some ⟨interval, last + interval, true⟩⟩, last, true, .alive⟩
  | reaped {interval : Nat} {c : Connection} (h : idle = some interval)
      (hfate : c.fate = .reaped (c.lastActivity + interval)) : Timed idle now c
  | gone {c : Connection} (hfate : c.fate = .gone) : Timed idle now c

section Connections

variable {idle : Option Nat} {now : Nat}

/-- An interval that has not passed leaves the timer registered. -/
theorem poll_registers {interval last : Nat} {b : Bool} (h : now < last + interval) :
    Reaper.poll ⟨interval, last + interval, b⟩ now
      = (false, ⟨interval, last + interval, true⟩) :=
  if_neg (Nat.not_le_of_lt h)

/-- Bytes arm the timer from now. -/
theorem resetTimeout_armed {interval deadline : Nat} {b : Bool} (hpos : 0 < interval) :
    IdleTimeout.resetTimeout ⟨some ⟨interval, deadline, b⟩⟩ now
      = ⟨some ⟨interval, now + interval, true⟩⟩ := by
  simp only [IdleTimeout.resetTimeout, Option.map_some]
  rw [poll_registers (Nat.lt_add_of_pos_right hpos)]

/-- A poll without bytes, before the deadline and at it. -/
theorem idleExpired_early {interval last : Nat} {b : Bool} (h : now < last + interval) :
    IdleTimeout.idleExpired ⟨some ⟨interval, last + interval, b⟩⟩ now
      = (false, ⟨some ⟨interval, last + interval, true⟩⟩) := by
  simp only [IdleTimeout.idleExpired]
  rw [poll_registers h]

theorem idleExpired_due {interval last : Nat} {b : Bool} (h : last + interval ≤ now) :
    (IdleTimeout.idleExpired ⟨some ⟨interval, last + interval, b⟩⟩ now).1 = true := by
  simp only [IdleTimeout.idleExpired, Reaper.poll]
  rw [if_pos h]

/-- A poll in either direction is the same poll. -/
theorem poll_eq_read (c : Connection) (now : Nat) (direction : Direction) (inner : Inner) :
    c.poll now direction inner = c.poll now .read inner := by
  cases direction <;> rfl

/-- A poll that found no bytes, on a connection that was armed. -/
theorem poll_silent {interval last : Nat} {b polled : Bool} (h : idle = some interval)
    (hin : now ≤ last + interval) :
    Timed idle now (Connection.poll
      ⟨⟨some ⟨interval, last + interval, b⟩⟩, last, polled, .alive⟩
      now .read .pending) := by
  by_cases hlt : now < last + interval
  · have heq : Connection.poll
        ⟨⟨some ⟨interval, last + interval, b⟩⟩, last, polled, .alive⟩
        now .read .pending
          = ⟨⟨some ⟨interval, last + interval, true⟩⟩, last, true, .alive⟩ := by
      simp only [Connection.poll, IdleTimeout.pollRead, idleExpired_early hlt,
        Bool.false_eq_true, if_false]
    rw [heq]
    exact .armed h hin
  · have hnow : now = last + interval := Nat.le_antisymm hin (Nat.le_of_not_lt hlt)
    refine .reaped h ?_
    simp only [Connection.poll, IdleTimeout.pollRead,
      idleExpired_due (Nat.le_of_not_lt hlt), if_true]
    rw [hnow]

/-- **Poll lemma.** -/
theorem Timed.poll {c : Connection} (h : Timed idle now c)
    (hpos : ∀ interval, idle = some interval → 0 < interval) (halive : c.fate = .alive)
    (direction : Direction) (inner : Inner) : Timed idle now (c.poll now direction inner) := by
  rw [poll_eq_read]
  cases h with
  | fresh =>
      cases hidle : idle with
      | none =>
          cases inner with
          | pending => exact .unlimited _ rfl
          | ready => exact .unlimited _ rfl
          | failed => exact .gone rfl
      | some interval =>
          cases inner with
          | pending => exact poll_silent rfl (Nat.le_add_right ..)
          | ready =>
              have heq : IdleTimeout.resetTimeout
                ⟨some ⟨interval, now + interval, false⟩⟩ now
                  = ⟨some ⟨interval, now + interval, true⟩⟩ :=
                resetTimeout_armed (hpos interval hidle)
              simp only [Connection.poll, IdleTimeout.pollRead, IdleTimeout.new, Option.map_some,
                heq]
              exact .armed rfl (Nat.le_add_right ..)
          | failed => exact .gone rfl
  | unlimited last hnone =>
      cases inner with
      | pending => exact .unlimited _ hnone
      | ready => exact .unlimited _ hnone
      | failed => exact .gone rfl
  | @armed interval last hidle hin =>
      cases inner with
      | pending => exact poll_silent hidle hin
      | ready =>
          have heq : IdleTimeout.resetTimeout ⟨some ⟨interval, last + interval, true⟩⟩ now
              = ⟨some ⟨interval, now + interval, true⟩⟩ :=
                resetTimeout_armed (hpos interval hidle)
          simp only [Connection.poll, IdleTimeout.pollRead, heq]
          exact .armed hidle (Nat.le_add_right ..)
      | failed => exact .gone rfl
  | reaped hidle hfate =>
      rw [hfate] at halive
      cases halive
  | gone hfate =>
      rw [hfate] at halive
      cases halive

/-- **Wait lemma.**  Time passes no further than the next registered deadline. -/
theorem Timed.wait {c : Connection} {instant : Nat} (h : Timed idle now c)
    (hsleep : c.sleepsUntil instant) : Timed idle instant c := by
  cases h with
  | fresh => cases (hsleep rfl).1
  | unlimited last hnone => exact .unlimited _ hnone
  | armed hidle hin => exact .armed hidle ((hsleep rfl).2 _ rfl rfl)
  | reaped hidle hfate => exact .reaped hidle hfate
  | gone hfate => exact .gone hfate

/-- A configured idle timeout is never zero. -/
theorem resolveServer_idle {file : Option ServerFile} {srv : Server}
    (h : resolveServer file = .ok srv) :
    ∀ interval, srv.idleTimeout = some interval → 0 < interval := by
  obtain ⟨-, -, -, -, -, hidle⟩ := resolveServer_ok h
  intro interval hsome
  rw [hidle] at hsome
  split at hsome
  · rename_i hpos
    rw [← Option.some.inj hsome]
    exact hpos
  · cases hsome

theorem timed_step {srv : Server} {l l' : Listener} {a : Action}
    (hpos : ∀ interval, srv.idleTimeout = some interval → 0 < interval)
    (h : ∀ c ∈ l.connections, Timed srv.idleTimeout l.now c)
    (hstep : step srv l a = some l') :
    ∀ c ∈ l'.connections, Timed srv.idleTimeout l'.now c := by
  intro c hc
  cases a with
  | accept =>
      rw [← Option.some.inj hstep] at hc ⊢
      rcases List.mem_append.mp hc with hold | hnew
      · exact h c hold
      · rw [List.mem_singleton.mp hnew]
        exact .fresh
  | wait instant =>
      simp only [step] at hstep
      split at hstep
      · rename_i hsleep
        rw [← Option.some.inj hstep] at hc ⊢
        exact (h c hc).wait (hsleep.2 c hc)
      · cases hstep
  | poll i direction inner =>
      simp only [step] at hstep
      split at hstep
      · cases hstep
      · rename_i c0 hi
        split at hstep
        · rename_i halive
          rw [← Option.some.inj hstep] at hc ⊢
          rcases List.mem_or_eq_of_mem_set hc with hold | rfl
          · exact h c hold
          · exact (h c0 (List.mem_of_getElem? hi)).poll hpos halive direction inner
        · cases hstep
  | hangUp i =>
      simp only [step] at hstep
      split at hstep
      · cases hstep
      · rename_i c0 hi
        split at hstep
        · rw [← Option.some.inj hstep] at hc ⊢
          rcases List.mem_or_eq_of_mem_set hc with hold | rfl
          · exact h c hold
          · exact .gone rfl
        · cases hstep

/-- In every run of the listener, with any number of connections whose bytes come
    and go in either direction: no connection is open once it has been silent for
    longer than the interval, and one that is reaped is reaped exactly then. -/
theorem silent_connections_reaped {file : Option ServerFile} {srv : Server}
    (hsrv : resolveServer file = .ok srv) {start : Nat} {as : List Action} {l : Listener}
    (hrun : Run.exec (step srv) (Listener.start start) as = some l) :
    ∀ c ∈ l.connections,
      (c.fate = .alive → ∀ interval, srv.idleTimeout = some interval →
        l.now ≤ c.lastActivity + interval) ∧
      ∀ instant, c.fate = .reaped instant →
        ∃ interval, srv.idleTimeout = some interval ∧ instant = c.lastActivity + interval := by
  have htimed : ∀ c ∈ l.connections, Timed srv.idleTimeout l.now c := by
    refine @Run.exec_invariant_all _ _ (step srv)
      (fun l => ∀ c ∈ l.connections, Timed srv.idleTimeout l.now c) ?_ as _ l
      (fun c hc => by cases hc) hrun
    intro l a l' h hstep
    exact timed_step (resolveServer_idle hsrv) h hstep
  intro c hc
  constructor
  · intro halive interval hidle
    cases htimed c hc with
    | fresh => exact Nat.le_add_right ..
    | unlimited last hnone =>
        rw [hidle] at hnone
        cases hnone
    | armed hidle' hin =>
        rw [← Option.some.inj (hidle'.symm.trans hidle)]
        exact hin
    | reaped hidle' hfate =>
        rw [hfate] at halive
        cases halive
    | gone hfate =>
        rw [hfate] at halive
        cases halive
  · intro instant hreaped
    cases htimed c hc with
    | fresh => cases hreaped
    | unlimited last hnone => cases hreaped
    | armed hidle' hin => cases hreaped
    | reaped hidle hfate =>
        rw [hfate] at hreaped
        exact ⟨_, hidle, (Fate.reaped.inj hreaped).symm⟩
    | gone hfate =>
        rw [hfate] at hreaped
        cases hreaped

/-- A connection of the default server that writes once and falls silent. -/
def quietRun : List Action :=
  [.accept, .poll 0 .read .pending, .wait 5, .poll 0 .write .ready, .wait (60 * 10 ^ 9 + 5),
    .poll 0 .read .pending]

theorem silent_connections_reaped_default :
    ∃ srv l, resolveServer none = .ok srv ∧
      Run.exec (step srv) (Listener.start 0) quietRun = some l ∧
      l.connections.map (·.fate) = [.reaped (60 * 10 ^ 9 + 5)] ∧
      ∀ c ∈ l.connections, ∀ instant, c.fate = .reaped instant →
        ∃ interval, srv.idleTimeout = some interval ∧ instant = c.lastActivity + interval := by
  obtain ⟨srv, hsrv, l, hrun, hfate⟩ : ∃ srv, resolveServer none = .ok srv ∧ ∃ l,
      Run.exec (step srv) (Listener.start 0) quietRun = some l ∧
      l.connections.map (·.fate) = [.reaped (60 * 10 ^ 9 + 5)] := ⟨_, rfl, _, rfl, rfl⟩
  exact ⟨srv, l, hsrv, hrun, hfate, fun c hc => (silent_connections_reaped hsrv hrun c hc).2⟩

end Connections

end NeveIdleTimeout
