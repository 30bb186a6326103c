import Neve.RunProofs
import Neve.RequestPacingProofs

/-! # Shutdown — the fatal channel, the triggers and the flush

    A chain's pipeline is a live loop that `main` drives and loops it has spawned.  A
    task that upstream throttles for longer than `max_wait` notifies the fatal channel
    and parks for good.  `main` selects among four triggers, then flushes the journal of
    every store and returns; the loops it drove are dropped at the selection, the spawned
    ones run on until the runtime goes. -/

namespace NeveShutdown

open NeveRequestPacing (tooLong)

variable {α : Type}

/-! ## The process -/

/-- Who polls a task: `main`, inside its `select!`, or the runtime. -/
inductive Driver where
  | awaited
  | spawned
  deriving DecidableEq

/-- A task writes to one store, by position. -/
structure Task where
  store : Nat
  driver : Driver
  maxWait : Nat
  parked : Bool

/-- The key-value store under an index: what the program calls, and what it relies on.
    `batches` are those that were committed, oldest first, and `durable` what is sure to be
    there after a power failure. -/
structure Fjall (α : Type) where
  Keyspace : Type
  create : Keyspace
  commit : Keyspace → α → Keyspace
  /-- Sync everything to disk, which may fail. -/
  persist : Keyspace → Bool → Keyspace
  batches : Keyspace → List α
  durable : Keyspace → List α
  batches_commit : ∀ ks batch, batches (commit ks batch) = batches ks ++ [batch]
  batches_persist : ∀ ks ok, batches (persist ks ok) = batches ks
  /-- What is durable stays so. -/
  durable_commit : ∀ ks batch, durable ks <+: durable (commit ks batch)
  durable_persist : ∀ ks ok, durable ks <+: durable (persist ks ok)
  /-- A sync that succeeds makes durable all there is. -/
  durable_synced : ∀ ks, durable (persist ks true) = batches ks

/-- The journal of a store. -/
structure Journal (α : Type) where
  fjall : Fjall α
  keyspace : fjall.Keyspace

namespace Journal

def create (fjall : Fjall α) : Journal α := ⟨fjall, fjall.create⟩

def batches (j : Journal α) : List α := j.fjall.batches j.keyspace

def durable (j : Journal α) : List α := j.fjall.durable j.keyspace

def commit (j : Journal α) (batch : α) : Journal α :=
  ⟨j.fjall, j.fjall.commit j.keyspace batch⟩

def persist (j : Journal α) (ok : Bool) : Journal α :=
  ⟨j.fjall, j.fjall.persist j.keyspace ok⟩

@[simp] theorem batches_commit (j : Journal α) (batch : α) :
    (j.commit batch).batches = j.batches ++ [batch] := j.fjall.batches_commit j.keyspace batch

@[simp] theorem batches_persist (j : Journal α) (ok : Bool) :
    (j.persist ok).batches = j.batches := j.fjall.batches_persist j.keyspace ok

theorem durable_commit (j : Journal α) (batch : α) : j.durable <+: (j.commit batch).durable :=
  j.fjall.durable_commit j.keyspace batch

theorem durable_persist (j : Journal α) (ok : Bool) : j.durable <+: (j.persist ok).durable :=
  j.fjall.durable_persist j.keyspace ok

theorem durable_synced (j : Journal α) : (j.persist true).durable = j.batches :=
  j.fjall.durable_synced j.keyspace

end Journal

/-- What ends the run. -/
inductive Trigger where
  | ingestReturned (r : Except String Unit)
  | stopTime
  | signal
  | fatal

/-- The outcome of the run a trigger stands for. -/
def Trigger.outcome : Trigger → Except String Unit
  | .ingestReturned r => r
  | .stopTime => .ok ()
  | .signal => .ok ()
  | .fatal => .error "fatal upstream condition; see prior ERROR log"

/-- Where `run_until_shutdown` stands: selecting, flushing from a store on, or returned. -/
inductive Supervisor where
  | selecting
  | flushing (outcome : Except String Unit) (next : Nat)
  | returned (outcome : Except String Unit)

/-- The process: the permit of the fatal channel, and the stores that were flushed with
    whether it succeeded, oldest first. -/
structure Process (α : Type) where
  tasks : List Task
  journals : List (Journal α)
  fatal : Bool
  stopTime : Option Nat
  supervisor : Supervisor
  flushed : List (Nat × Bool)

inductive Action (α : Type) where
  | request (i : Nat)
  | write (i : Nat) (batch : α)
  | throttled (i : Nat) (retryAfter : Option Nat)
  | select (t : Trigger)
  | persist (ok : Bool)
  | finish

namespace Process

/-- A process whose pipelines have just been spawned. -/
def start (fjall : Fjall α) (tasks : List Task) (stopTime : Option Nat) (stores : Nat) :
    Process α :=
  ⟨tasks.map fun t => { t with parked := false }, List.replicate stores (.create fjall), false,
    stopTime, .selecting, []⟩

/-- Whether a task of this driver is still polled. -/
def polls (p : Process α) (d : Driver) : Bool :=
  match p.supervisor with
  | .selecting => true
  | .flushing .. => decide (d = .spawned)
  | .returned _ => false

/-- The task, if it can go on. -/
def running (p : Process α) (i : Nat) : Option Task :=
  (p.tasks[i]?).filter fun t => !t.parked && p.polls t.driver

/-- The process after a batch was committed to a store. -/
def commit (p : Process α) (store : Nat) (batch : α) : Process α :=
  { p with journals := p.journals.modify store (·.commit batch) }

/-- A task that is parked for good, having notified. -/
def park (p : Process α) (i : Nat) (t : Task) : Process α :=
  { p with tasks := p.tasks.set i { t with parked := true }, fatal := true }

/-- Whether a trigger can fire.  A parked loop never returns, so all of them do only
    while none is parked. -/
def fires (p : Process α) : Trigger → Bool
  | .ingestReturned (.ok _) => p.tasks.all fun t => t.driver = .spawned || !t.parked
  | .ingestReturned (.error _) => p.tasks.any fun t => t.driver = .awaited && !t.parked
  | .stopTime => p.stopTime.isSome
  | .signal => true
  | .fatal => p.fatal

/-- The process once a trigger was taken; the fatal one takes the permit. -/
def trigger (p : Process α) (t : Trigger) : Process α :=
  { p with
    supervisor := .flushing t.outcome 0
    fatal := match t with | .fatal => false | _ => p.fatal }

/-- One store was flushed; a failure is logged and the next one is next. -/
def persist (p : Process α) (outcome : Except String Unit) (next : Nat) (ok : Bool) : Process α :=
  { p with
    journals := p.journals.modify next (·.persist ok)
    supervisor := .flushing outcome (next + 1)
    flushed := p.flushed ++ [(next, ok)] }

end Process

def step (p : Process α) : Action α → Option (Process α)
  | .request i => (p.running i).map fun _ => p
  | .write i batch => (p.running i).map fun t => p.commit t.store batch
  | .throttled i retryAfter =>
      (p.running i).map fun t => if tooLong t.maxWait retryAfter then p.park i t else p
  | .select t =>
      match p.supervisor with
      | .selecting => if p.fires t then some (p.trigger t) else none
      | _ => none
  | .persist ok =>
      match p.supervisor with
      | .flushing outcome next =>
          if next < p.journals.length then some (p.persist outcome next ok) else none
      | _ => none
  | .finish =>
      match p.supervisor with
      | .flushing outcome next =>
          if next < p.journals.length then none
          else some { p with supervisor := .returned outcome }
      | _ => none

/-! ## What a step can do -/

/-- Everything a step can do. -/
inductive Stepped (p : Process α) : Action α → Process α → Prop where
  | request (i : Nat) (t : Task) (hrun : p.running i = some t) : Stepped p (.request i) p
  | write (i : Nat) (batch : α) (t : Task) (hrun : p.running i = some t) :
      Stepped p (.write i batch) (p.commit t.store batch)
  | waited (i : Nat) (retryAfter : Option Nat) (t : Task) (hrun : p.running i = some t)
      (hshort : tooLong t.maxWait retryAfter = false) : Stepped p (.throttled i retryAfter) p
  | parked (i : Nat) (retryAfter : Option Nat) (t : Task) (hrun : p.running i = some t)
      (hlong : tooLong t.maxWait retryAfter = true) :
      Stepped p (.throttled i retryAfter) (p.park i t)
  | select (t : Trigger) (hsel : p.supervisor = .selecting) (hfires : p.fires t = true) :
      Stepped p (.select t) (p.trigger t)
  | persist (ok : Bool) (outcome : Except String Unit) (next : Nat)
      (hsup : p.supervisor = .flushing outcome next) (hlt : next < p.journals.length) :
      Stepped p (.persist ok) (p.persist outcome next ok)
  | finish (outcome : Except String Unit) (next : Nat)
      (hsup : p.supervisor = .flushing outcome next) (hge : ¬ next < p.journals.length) :
      Stepped p .finish { p with supervisor := .returned outcome }

theorem step_stepped {p p' : Process α} {a : Action α} (h : step p a = some p') :
    Stepped p a p' := by
  cases a with
  | request i =>
      obtain ⟨t, hrun, heq⟩ := Option.map_eq_some_iff.mp h
      rw [← heq]
      exact .request i t hrun
  | write i batch =>
      obtain ⟨t, hrun, heq⟩ := Option.map_eq_some_iff.mp h
      rw [← heq]
      exact .write i batch t hrun
  | throttled i retryAfter =>
      obtain ⟨t, hrun, heq⟩ := Option.map_eq_some_iff.mp h
      cases hlong : tooLong t.maxWait retryAfter with
      | true =>
          rw [if_pos hlong] at heq
          rw [← heq]
          exact .parked i retryAfter t hrun hlong
      | false =>
          rw [hlong, if_neg Bool.false_ne_true] at heq
          rw [← heq]
          exact .waited i retryAfter t hrun hlong
  | select t =>
      simp only [step] at h
      cases hsup : p.supervisor with
      | selecting =>
          simp only [hsup] at h
          by_cases hfires : p.fires t = true
          · rw [if_pos hfires] at h
            rw [← Option.some.inj h]
            exact .select t hsup hfires
          · rw [if_neg hfires] at h
            cases h
      | flushing outcome next =>
          simp only [hsup] at h
          cases h
      | returned outcome =>
          simp only [hsup] at h
          cases h
  | persist ok =>
      simp only [step] at h
      cases hsup : p.supervisor with
      | selecting =>
          simp only [hsup] at h
          cases h
      | flushing outcome next =>
          simp only [hsup] at h
          by_cases hlt : next < p.journals.length
          · rw [if_pos hlt] at h
            rw [← Option.some.inj h]
            exact .persist ok outcome next hsup hlt
          · rw [if_neg hlt] at h
            cases h
      | returned outcome =>
          simp only [hsup] at h
          cases h
  | finish =>
      simp only [step] at h
      cases hsup : p.supervisor with
      | selecting =>
          simp only [hsup] at h
          cases h
      | flushing outcome next =>
          simp only [hsup] at h
          by_cases hlt : next < p.journals.length
          · rw [if_pos hlt] at h
            cases h
          · rw [if_neg hlt] at h
            rw [← Option.some.inj h]
            exact .finish outcome next hsup hlt
      | returned outcome =>
          simp only [hsup] at h
          cases h

/-! ## Parked lines -/

/-- A task that is parked. -/
def Parked (p : Process α) (i : Nat) : Prop := ∃ t, p.tasks[i]? = some t ∧ t.parked = true

/-- The task an action is of. -/
def Action.task : Action α → Option Nat
  | .request i => some i
  | .write i _ => some i
  | .throttled i _ => some i
  | _ => none

theorem park_parked {p : Process α} {i : Nat} {t : Task} (h : p.running i = some t) :
    Parked (p.park i t) i := by
  have hmem : p.tasks[i]? = some t := (Option.filter_eq_some_iff.mp h).1
  obtain ⟨hlt, -⟩ := List.getElem?_eq_some_iff.mp hmem
  exact ⟨{ t with parked := true }, List.getElem?_set_self hlt, rfl⟩

/-- A parked task stays parked. -/
theorem Parked.kept {p p' : Process α} {a : Action α} {i : Nat} (h : Parked p i)
    (hstep : Stepped p a p') : Parked p' i := by
  cases hstep with
  | parked k retryAfter t hrun hlong =>
      by_cases hik : k = i
      · subst hik
        exact park_parked hrun
      · obtain ⟨u, hu, hparked⟩ := h
        exact ⟨u, (List.getElem?_set_ne hik).trans hu, hparked⟩
  | request => exact h
  | write => exact h
  | waited => exact h
  | select => exact h
  | persist => exact h
  | finish => exact h

/-- An action of a task is only taken by one that is running. -/
theorem Stepped.running {p p' : Process α} {a : Action α} {i : Nat} (hstep : Stepped p a p')
    (ha : a.task = some i) : ∃ t, p.running i = some t := by
  cases hstep with
  | request k t hrun => exact ⟨t, Option.some.inj ha ▸ hrun⟩
  | write k batch t hrun => exact ⟨t, Option.some.inj ha ▸ hrun⟩
  | waited k retryAfter t hrun => exact ⟨t, Option.some.inj ha ▸ hrun⟩
  | parked k retryAfter t hrun => exact ⟨t, Option.some.inj ha ▸ hrun⟩
  | select => cases ha
  | persist => cases ha
  | finish => cases ha

/-- What holds of every process that can be reached: while `main` selects, a parked task
    has left its permit; and the stores before the next one have been flushed, in order. -/
structure Sound (stores : Nat) (p : Process α) : Prop where
  count : p.journals.length = stores
  permit : p.supervisor = .selecting → ∀ i, Parked p i → p.fatal = true
  selecting : p.supervisor = .selecting → p.flushed = []
  flushing : ∀ outcome next, p.supervisor = .flushing outcome next →
    next ≤ stores ∧ p.flushed.map Prod.fst = List.range next
  returned : ∀ outcome, p.supervisor = .returned outcome →
    p.flushed.map Prod.fst = List.range stores

/-- **The step lemma.** -/
theorem Sound.kept {stores : Nat} {p p' : Process α} {a : Action α} (h : Sound stores p)
    (hstep : Stepped p a p') : Sound stores p' := by
  cases hstep with
  | request => exact h
  | waited => exact h
  | write i batch t hrun =>
      exact {
        count := (List.length_modify ..).trans h.count
        permit := h.permit
        selecting := h.selecting
        flushing := h.flushing
        returned := h.returned }
  | parked i retryAfter t hrun hlong =>
      exact {
        count := h.count
        permit := fun _ _ _ => rfl
        selecting := h.selecting
        flushing := h.flushing
        returned := h.returned }
  | select t hsel hfires =>
      have hnone := h.selecting hsel
      exact {
        count := h.count
        permit := by
          intro hsup
          cases hsup
        selecting := by
          intro hsup
          cases hsup
        flushing := by
          intro outcome next hsup
          have hnext : 0 = next := (Supervisor.flushing.inj hsup).2
          subst hnext
          exact ⟨Nat.zero_le _, congrArg (List.map Prod.fst) hnone⟩
        returned := by
          intro outcome hsup
          cases hsup }
  | persist ok outcome next hsup hlt =>
      obtain ⟨-, hflushed⟩ := h.flushing outcome next hsup
      rw [h.count] at hlt
      exact {
        count := (List.length_modify ..).trans h.count
        permit := by
          intro hsup'
          cases hsup'
        selecting := by
          intro hsup'
          cases hsup'
        flushing := by
          intro outcome' next' hsup'
          have hnext : next + 1 = next' := (Supervisor.flushing.inj hsup').2
          subst hnext
          refine ⟨hlt, ?_⟩
          show (p.flushed ++ [(next, ok)]).map Prod.fst = _
          rw [List.map_append, hflushed, List.range_succ]
          rfl
        returned := by
          intro outcome' hsup'
          cases hsup' }
  | finish outcome next hsup hge =>
      obtain ⟨hle, hflushed⟩ := h.flushing outcome next hsup
      rw [h.count] at hge
      exact {
        count := h.count
        permit := by
          intro hsup'
          cases hsup'
        selecting := by
          intro hsup'
          cases hsup'
        flushing := by
          intro outcome' next' hsup'
          cases hsup'
        returned := by
          intro outcome' _
          rw [show stores = next by omega]
          exact hflushed }

theorem Sound.run {stores : Nat} {p q : Process α} {as : List (Action α)} (h : Sound stores p)
    (hrun : Run.exec step p as = some q) : Sound stores q :=
  Run.exec_invariant_all (fun _ _ _ hs hstep => hs.kept (step_stepped hstep)) h hrun

/-! ## From the trigger on -/

/-- What was committed when the trigger fired, and what of it the flush has put on disk. -/
structure Flushing (trigger : Trigger) (base : List (List α)) (p : Process α) : Prop where
  outcome : (∃ next, p.supervisor = .flushing trigger.outcome next) ∨
    p.supervisor = .returned trigger.outcome
  count : p.journals.length = base.length
  kept : ∀ (k : Nat) (batches : List α) (j : Journal α), base[k]? = some batches →
    p.journals[k]? = some j →
    batches <+: j.batches ∧ ((k, true) ∈ p.flushed → batches <+: j.durable)

theorem Flushing.outcome_of_flushing {trigger : Trigger} {base : List (List α)} {p : Process α}
    (h : Flushing trigger base p) {outcome : Except String Unit} {next : Nat}
    (hsup : p.supervisor = .flushing outcome next) : outcome = trigger.outcome := by
  rcases h.outcome with ⟨next', hsup'⟩ | hsup'
  · exact (Supervisor.flushing.inj (hsup.symm.trans hsup')).1
  · rw [hsup] at hsup'
    cases hsup'

theorem Flushing.kept_step {trigger : Trigger} {base : List (List α)} {p p' : Process α}
    {a : Action α} (h : Flushing trigger base p) (hstep : Stepped p a p') :
    Flushing trigger base p' := by
  cases hstep with
  | request => exact h
  | waited => exact h
  | parked => exact ⟨h.outcome, h.count, h.kept⟩
  | select t hsel hfires =>
      rcases h.outcome with ⟨next, hsup⟩ | hsup
      · rw [hsel] at hsup
        cases hsup
      · rw [hsel] at hsup
        cases hsup
  | write i batch t hrun =>
      refine ⟨h.outcome, (List.length_modify ..).trans h.count, ?_⟩
      intro k batches j hbase hj
      simp only [Process.commit, List.getElem?_modify] at hj
      obtain ⟨j', hj', heq⟩ := Option.map_eq_some_iff.mp hj
      obtain ⟨hpre, hdurable⟩ := h.kept k batches j' hbase hj'
      by_cases hk : t.store = k
      · rw [if_pos hk] at heq
        rw [← heq]
        refine ⟨?_, fun hflushed => (hdurable hflushed).trans (j'.durable_commit batch)⟩
        rw [Journal.batches_commit]
        exact hpre.trans (List.prefix_append ..)
      · rw [if_neg hk] at heq
        rw [← heq]
        exact ⟨hpre, hdurable⟩
  | persist ok outcome next hsup hlt =>
      have houtcome := h.outcome_of_flushing hsup
      have hnew : ∀ k, (k, true) ∈ p.flushed ++ [(next, ok)] →
          (k, true) ∈ p.flushed ∨ k = next ∧ ok = true := by
        intro k hmem
        rcases List.mem_append.mp hmem with hold | hlast
        · exact Or.inl hold
        · have heq := List.mem_singleton.mp hlast
          exact Or.inr ⟨congrArg Prod.fst heq, (congrArg Prod.snd heq).symm⟩
      refine ⟨Or.inl ⟨next + 1, congrArg (Supervisor.flushing · (next + 1)) houtcome⟩,
        (List.length_modify ..).trans h.count, ?_⟩
      intro k batches j hbase hj
      simp only [Process.persist, List.getElem?_modify] at hj
      obtain ⟨j', hj', heq⟩ := Option.map_eq_some_iff.mp hj
      obtain ⟨hpre, hdurable⟩ := h.kept k batches j' hbase hj'
      by_cases hk : next = k
      · rw [if_pos hk] at heq
        rw [← heq]
        refine ⟨(j'.batches_persist ok).symm ▸ hpre, ?_⟩
        intro hflushed
        rcases hnew k hflushed with hold | ⟨-, rfl⟩
        · exact (hdurable hold).trans (j'.durable_persist ok)
        · -- the store that is flushed: all of its batches are on disk
          rw [j'.durable_synced]
          exact hpre
      · rw [if_neg hk] at heq
        rw [← heq]
        refine ⟨hpre, ?_⟩
        intro hflushed
        rcases hnew k hflushed with hold | ⟨hnext, -⟩
        · exact hdurable hold
        · exact absurd hnext.symm hk
  | finish outcome next hsup hge =>
      have houtcome := h.outcome_of_flushing hsup
      exact ⟨Or.inr (congrArg Supervisor.returned houtcome), h.count, h.kept⟩

theorem Flushing.start {stores : Nat} {p : Process α} (hsound : Sound stores p)
    (hsel : p.supervisor = .selecting) (t : Trigger) :
    Flushing t (p.journals.map Journal.batches) (p.trigger t) where
  outcome := Or.inl ⟨0, rfl⟩
  count := (List.length_map _).symm
  kept := by
    intro k batches j hbase hj
    have hj' : p.journals[k]? = some j := hj
    rw [List.getElem?_map, hj'] at hbase
    rw [← Option.some.inj hbase]
    refine ⟨List.prefix_rfl, ?_⟩
    intro hflushed
    have hnone : (p.trigger t).flushed = [] := hsound.selecting hsel
    rw [hnone] at hflushed
    cases hflushed

theorem Flushing.run {trigger : Trigger} {base : List (List α)} {p q : Process α}
    {as : List (Action α)} (h : Flushing trigger base p) (hrun : Run.exec step p as = some q) :
    Flushing trigger base q :=
  Run.exec_invariant_all (fun _ _ _ hf hstep => hf.kept_step (step_stepped hstep)) h hrun

end NeveShutdown
