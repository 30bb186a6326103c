import Neve.EthIngestProofs
import Neve.JoinBufferProofs
import Neve.JsonTextProofs

/-! # Tip reads — the store first, then the join buffer

    A reader looks in the store and, finding nothing, in the join buffer: two
    steps, between which the writer may move.  The writer takes the block half
    out of the buffer and only then writes it.  So a reader can find the store
    too early and the buffer too late, and after a failed write neither has the
    block.  Where no half is taken from under a reader, no reader starts while
    the write of its height is in flight, and no such write fails, an announced
    block is always found (`announced_never_missed`). -/

namespace NeveTipRead

open JsonValue ByteText NeveRecord NeveStorage NeveJoinBuffer

/-- A reader that found nothing in the store and has yet to look in the buffer.
    `promised` says that the block was announced when it started and that the
    buffer was not flushed since. -/
structure Wait where
  height : Nat
  promised : Bool
  deriving DecidableEq

/-- The join buffer with its store, and the readers.  `owed` are the heights
    whose block was buffered since the last flush, `announced` those whose
    `on_block` has returned `Buffered` too, `missed` the heights for which a
    promised reader came back with nothing. -/
structure State where
  sys : System
  owed : List Nat
  announced : List Nat
  waiting : List Wait
  missed : List Nat

/-- Everything that can happen: a step of the join buffer, another writer's put,
    and the two halves of a read. -/
inductive Event where
  | join (ev : NeveJoinBuffer.Event)
  | otherPut (fault : Fault) (height : Nat) (hash : Bytes32) (txHashes : List Bytes32)
      (elements : List Bytes)
  | readStore (height : Nat)
  | readBuffer (reader : Nat)

def State.new (storage : Storage) (maxEntries : Nat) : State :=
  ⟨System.new storage maxEntries, [], [], [], []⟩

/-- The bookkeeping of a locked section: a buffered block is owed, an overflow
    releases every promise. -/
def State.entered (t : State) (sys : System) (call : Call) (act : WriteAct) : State :=
  match act, call with
  | .buffered, .block height _ _ _ => { t with sys := sys, owed := height :: t.owed }
  | .deferred, _ =>
      { t with
        sys := sys
        owed := []
        announced := []
        waiting := t.waiting.map fun w => { w with promised := false } }
  | _, _ => { t with sys := sys }

/-- The bookkeeping of a return: a buffered block is announced. -/
def State.returned (t : State) (sys : System) (e : Arrival) : State :=
  match e.act, e.call with
  | .buffered, .block height _ _ _ =>
      if height ∈ t.owed then { t with sys := sys, announced := height :: t.announced }
      else { t with sys := sys }
  | _, _ => { t with sys := sys }

def step (J : Codec) (t : State) : Event → Option State
  | .join (.enter call now) =>
      (NeveJoinBuffer.step t.sys (.enter call now)).map fun sys =>
        t.entered sys call (locked t.sys.maxEntries t.sys.pending now call).1
  | .join (.finish pos fault) =>
      (NeveJoinBuffer.step t.sys (.finish pos fault)).map fun sys =>
        match arrivalAt t.sys.history pos with
        | none => { t with sys := sys }
        | some e => t.returned sys e
  | .otherPut fault height hash txHashes elements =>
      some { t with sys := { t.sys with
        storage := (t.sys.storage.put fault height hash txHashes elements).2 } }
  | .readStore height =>
      match t.sys.storage.getByHeight J height with
      | .ok none =>
          some { t with waiting := ⟨height, decide (height ∈ t.announced)⟩ :: t.waiting }
      | _ => some t
  | .readBuffer reader =>
      (t.waiting[reader]?).map fun w =>
        let missed :=
          match bufferedBlock t.sys.pending w.height with
          | some _ => t.missed
          | none => if w.promised then w.height :: t.missed else t.missed
        { t with waiting := t.waiting.eraseIdx reader, missed := missed }

/-- A write of `height` was decided and has not been carried out. -/
def InFlight (sys : System) (height : Nat) : Prop :=
  ∃ pos ∈ sys.inFlight, ∃ e, arrivalAt sys.history pos = some e ∧
    e.act.isWrite = true ∧ e.call.height = height

/-- The three things that must not happen: logs taking a block half from under a
    reader, a write that fails before the block is stored, and a read that
    starts while the write of its height is in flight. -/
def Undisturbed (t : State) : Event → Prop
  | .join (.enter call _) =>
      call.half = .Log → (bufferedBlock t.sys.pending call.height).isSome →
        ∀ w ∈ t.waiting, w.height ≠ call.height
  | .join (.finish pos fault) =>
      ∀ e hash txHashes blockBytes logs first since,
        arrivalAt t.sys.history pos = some e →
        e.act = .write hash txHashes blockBytes logs first since →
        t.sys.storage.Writable fault e.call.height [blockBytes, logs]
  | .otherPut .. => True
  | .readStore height => ¬ InFlight t.sys height
  | .readBuffer _ => True

/-- What the conditions keep: an owed block is in the buffer, on its way to the
    store, or stored, and a promised reader's block is still in the buffer. -/
structure Kept (t : State) : Prop where
  owed : ∀ height ∈ t.owed, (bufferedBlock t.sys.pending height).isSome ∨
    InFlight t.sys height ∨ (t.sys.storage.rawAt height).isSome
  announced : ∀ height ∈ t.announced, height ∈ t.owed
  waiting : ∀ w ∈ t.waiting, w.promised = true →
    (bufferedBlock t.sys.pending w.height).isSome
  missed : t.missed = []

/-! ## The buffer under a locked section -/

section Buffer

variable {maxEntries now height : Nat} {pending : PendingMap} {call : Call}

theorem bufferedBlock_isSome_iff :
    (bufferedBlock pending height).isSome ↔ ∃ b, pending.lookup height = some (.block b) := by
  simp only [bufferedBlock]
  rcases pending.lookup height with _ | held
  · simp
  · cases held <;> simp

theorem bufferedBlock_congr {pending' : PendingMap}
    (h : pending'.lookup height = pending.lookup height) :
    bufferedBlock pending' height = bufferedBlock pending height := by
  simp only [bufferedBlock, h]

theorem lookup_insert_erase_ne {p : Pending} (h : call.height ≠ height) :
    ((pending.erase call.height).insert call.height p).lookup height
      = pending.lookup height :=
  (AList.lookup_insert_ne (Ne.symm h)).trans (AList.lookup_erase_ne (Ne.symm h))

/-- What a locked section does to the block half of a height: an overflow drops
    it, logs for the height complete it, everything else leaves one there. -/
theorem bufferedBlock_locked (maxEntries now : Nat) (call : Call)
    (h : (bufferedBlock pending height).isSome) :
    (locked maxEntries pending now call).1 = .deferred ∨
    ((locked maxEntries pending now call).1.isWrite = true ∧ call.height = height ∧
      call.half = .Log) ∨
    (bufferedBlock (locked maxEntries pending now call).2 height).isSome := by
  obtain ⟨b, hb⟩ := bufferedBlock_isSome_iff.mp h
  -- the call completes a pair, replaces its own half, resets a full map, or is new
  rcases locked_cases maxEntries now pending call with
    ⟨held, act, hl, hc, heq⟩ | ⟨held, hl, hc, heq⟩ | ⟨hl, hfull, heq⟩ |
      ⟨hl, hroom, heq⟩
  · rw [heq]
    by_cases hk : call.height = height
    · rw [hk, hb] at hl
      rw [← Option.some.inj hl] at hc
      -- a block does not complete a block: these are the logs it waited for
      cases call with
      | block _ _ _ _ => cases hc
      | logs _ _ =>
          rw [← Option.some.inj hc]
          exact Or.inr (Or.inl ⟨rfl, hk, rfl⟩)
    · refine Or.inr (Or.inr ?_)
      rw [bufferedBlock_congr (AList.lookup_erase_ne (Ne.symm hk))]
      exact h
  · rw [heq]
    refine Or.inr (Or.inr ?_)
    by_cases hk : call.height = height
    · rw [hk, hb] at hl
      rw [← Option.some.inj hl] at hc
      cases call with
      | block _ hash txHashes blockBytes =>
          rw [← hk]
          exact bufferedBlock_isSome_iff.mpr ⟨_, AList.lookup_insert _⟩
      | logs _ _ => cases hc
    · rw [bufferedBlock_congr (lookup_insert_erase_ne hk)]
      exact h
  · rw [heq]
    exact Or.inl rfl
  · rw [heq]
    refine Or.inr (Or.inr ?_)
    -- a new half is not at the height that is held
    have hk : call.height ≠ height := by
      intro hk
      rw [hk, hb] at hl
      cases hl
    rw [bufferedBlock_congr (lookup_insert_erase_ne hk)]
    exact h

/-- A buffered block call leaves its block in the buffer. -/
theorem bufferedBlock_of_buffered {hash : Bytes32} {txHashes : List Bytes32}
    {blockBytes : Bytes}
    (h : (locked maxEntries pending now (.block height hash txHashes blockBytes)).1
      = .buffered) :
    (bufferedBlock (locked maxEntries pending now
      (.block height hash txHashes blockBytes)).2 height).isSome := by
  refine bufferedBlock_isSome_iff.mpr ?_
  rcases locked_cases maxEntries now pending (.block height hash txHashes blockBytes) with
    ⟨held, act, hl, hc, heq⟩ | ⟨held, hl, hc, heq⟩ | ⟨hl, hfull, heq⟩ |
      ⟨hl, hroom, heq⟩
  · rw [heq] at h
    obtain rfl : act = .buffered := h
    cases held with
    | block _ => cases hc
    | logs _ => cases hc
  · rw [heq]
    exact ⟨_, AList.lookup_insert _⟩
  · rw [heq] at h
    cases h
  · rw [heq]
    exact ⟨_, AList.lookup_insert _⟩

end Buffer

/-! ## One step -/

section Step

variable {J : Codec} {t t' : State}

/-- The new call of a locked section is in flight if it decided on a write. -/
theorem inFlight_enter {sys : System} {call : Call} {now : Nat} {sys' : System}
    (hstep : NeveJoinBuffer.step sys (.enter call now) = some sys')
    (hw : (locked sys.maxEntries sys.pending now call).1.isWrite = true) :
    InFlight sys' call.height := by
  rw [← Option.some.inj hstep]
  refine ⟨sys.history.length, List.mem_cons_self ..,
    ⟨call, now, (locked sys.maxEntries sys.pending now call).1⟩, ?_, hw, rfl⟩
  simp [arrivalAt]

theorem InFlight.enter {sys : System} {call : Call} {now height : Nat} {sys' : System}
    (h : InFlight sys height)
    (hstep : NeveJoinBuffer.step sys (.enter call now) = some sys') :
    InFlight sys' height := by
  obtain ⟨pos, hpos, e, hat, hw, hh⟩ := h
  rw [← Option.some.inj hstep]
  exact ⟨pos, List.mem_cons_of_mem _ hpos, e, arrivalAt_cons _ hat, hw, hh⟩

theorem Kept.enter {call : Call} {now : Nat} {sys : System} (h : Kept t)
    (hcond : Undisturbed t (.join (.enter call now)))
    (hstep : NeveJoinBuffer.step t.sys (.enter call now) = some sys) :
    Kept (t.entered sys call (locked t.sys.maxEntries t.sys.pending now call).1) := by
  have hsys := Option.some.inj hstep
  have hpending : sys.pending = (locked t.sys.maxEntries t.sys.pending now call).2 := by
    rw [← hsys]
  have hstorage : sys.storage = t.sys.storage := by rw [← hsys]
  -- without an overflow, every debt is still covered
  have howed : (locked t.sys.maxEntries t.sys.pending now call).1 ≠ .deferred →
      ∀ height ∈ t.owed, (bufferedBlock sys.pending height).isSome ∨
        InFlight sys height ∨ (sys.storage.rawAt height).isSome := by
    intro hne height hh
    rcases h.owed height hh with hb | hf | hs
    · rcases bufferedBlock_locked t.sys.maxEntries now call hb with hd | ⟨hw, hk, -⟩ | hb'
      · exact absurd hd hne
      · exact Or.inr (Or.inl (hk ▸ inFlight_enter hstep hw))
      · exact Or.inl (hpending.symm ▸ hb')
    · exact Or.inr (Or.inl (hf.enter hstep))
    · exact Or.inr (Or.inr (hstorage.symm ▸ hs))
  have hwaiting : (locked t.sys.maxEntries t.sys.pending now call).1 ≠ .deferred →
      ∀ w ∈ t.waiting, w.promised = true → (bufferedBlock sys.pending w.height).isSome := by
    intro hne w hw hp
    have hb := h.waiting w hw hp
    rcases bufferedBlock_locked t.sys.maxEntries now call hb with hd | ⟨-, hk, hlog⟩ | hb'
    · exact absurd hd hne
    · exact absurd hk.symm (hcond hlog (hk.symm ▸ hb) w hw)
    · exact hpending.symm ▸ hb'
  cases hact : (locked t.sys.maxEntries t.sys.pending now call).1 with
  | deferred =>
      refine ⟨fun _ hh => (nomatch hh), fun _ hh => (nomatch hh), ?_, h.missed⟩
      intro w hw hp
      obtain ⟨w', -, rfl⟩ := List.mem_map.mp hw
      cases hp
  | write hash txHashes blockBytes logs first since =>
      have hne : (locked t.sys.maxEntries t.sys.pending now call).1 ≠ .deferred := by
        rw [hact]
        exact fun hh => nomatch hh
      exact ⟨howed hne, h.announced, hwaiting hne, h.missed⟩
  | buffered =>
      have hne : (locked t.sys.maxEntries t.sys.pending now call).1 ≠ .deferred := by
        rw [hact]
        exact fun hh => nomatch hh
      cases call with
      | logs height logsBytes => exact ⟨howed hne, h.announced, hwaiting hne, h.missed⟩
      | block height hash txHashes blockBytes =>
          refine ⟨?_, ?_, hwaiting hne, h.missed⟩
          · intro k hk
            rcases List.mem_cons.mp hk with rfl | hold
            · exact Or.inl (hpending.symm ▸ bufferedBlock_of_buffered hact)
            · exact howed hne k hold
          · intro k hk
            exact List.mem_cons_of_mem _ (h.announced k hk)

/-- What carrying out one decision does to the store: nothing is lost, and an
    undisturbed write is there. -/
theorem rawAt_apply_mono (s : Storage) (fault : Fault) (height : Nat) (act : WriteAct)
    {k : Nat} (h : (s.rawAt k).isSome) : ((apply s fault height act).2.rawAt k).isSome := by
  cases act with
  | buffered => exact h
  | deferred => exact h
  | write hash txHashes blockBytes logs first since =>
      rw [apply_write_state]
      exact s.rawAt_put_mono fault height hash txHashes [blockBytes, logs] h

theorem rawAt_apply_write {s : Storage} {fault : Fault} {height : Nat}
    {blockBytes logs : Bytes} (h : s.Writable fault height [blockBytes, logs])
    (hash : Bytes32) (txHashes : List Bytes32) (first : Half) (since : Nat) :
    ((apply s fault height (.write hash txHashes blockBytes logs first since)).2.rawAt
      height).isSome := by
  rw [apply_write_state]
  exact Storage.rawAt_put_of_writable h hash txHashes

/-- A step of the buffer that carries a decision out. -/
theorem finish_eq_some {sys sys' : System} {pos : Nat} {fault : Fault}
    (hstep : NeveJoinBuffer.step sys (.finish pos fault) = some sys') :
    ∃ e, arrivalAt sys.history pos = some e ∧ sys'.pending = sys.pending ∧
      sys'.history = sys.history ∧ sys'.inFlight = sys.inFlight.erase pos ∧
      sys'.storage = (apply sys.storage fault e.call.height e.act).2 := by
  simp only [NeveJoinBuffer.step] at hstep
  by_cases hin : pos ∈ sys.inFlight
  · rw [if_pos hin] at hstep
    obtain ⟨e, hat, rfl⟩ := Option.map_eq_some_iff.mp hstep
    exact ⟨e, hat, rfl, rfl, rfl, rfl⟩
  · rw [if_neg hin] at hstep
    cases hstep

theorem Kept.finish {pos : Nat} {fault : Fault} {sys : System} (h : Kept t)
    (hcond : Undisturbed t (.join (.finish pos fault)))
    (hstep : NeveJoinBuffer.step t.sys (.finish pos fault) = some sys) :
    Kept { t with sys := sys } := by
  obtain ⟨e, hat, hpending, hhistory, hinFlight, hstorage⟩ := finish_eq_some hstep
  refine ⟨?_, h.announced, ?_, h.missed⟩
  · intro height hh
    rcases h.owed height hh with hb | ⟨pos', hpos', e', hat', hw', rfl⟩ | hs
    · exact Or.inl (hpending.symm ▸ hb)
    · by_cases heq : pos' = pos
      · -- this very write: it ends in the store
        rw [heq] at hat'
        obtain rfl : e' = e := Option.some.inj (hat'.symm.trans hat)
        refine Or.inr (Or.inr ?_)
        cases hact : e'.act with
        | buffered => rw [hact] at hw'; cases hw'
        | deferred => rw [hact] at hw'; cases hw'
        | write hash txHashes blockBytes logs first since =>
            have hwritable := hcond e' hash txHashes blockBytes logs first since hat hact
            simp only [hstorage, hact]
            exact rawAt_apply_write hwritable hash txHashes first since
      · refine Or.inr (Or.inl ⟨pos', ?_, e', hhistory.symm ▸ hat', hw', rfl⟩)
        rw [hinFlight]
        exact (List.mem_erase_of_ne heq).mpr hpos'
    · refine Or.inr (Or.inr ?_)
      simp only [hstorage]
      exact rawAt_apply_mono _ _ _ _ hs
  · intro w hw hp
    simp only [hpending]
    exact h.waiting w hw hp

/-- **The step lemma**: every undisturbed step keeps the debts covered. -/
theorem Kept.step {ev : Event} (h : Kept t) (hcond : Undisturbed t ev)
    (hstep : step J t ev = some t') : Kept t' := by
  cases ev with
  | join ev =>
      cases ev with
      | enter call now =>
          simp only [NeveTipRead.step] at hstep
          obtain ⟨sys, hsys, rfl⟩ := Option.map_eq_some_iff.mp hstep
          exact h.enter hcond hsys
      | finish pos fault =>
          simp only [NeveTipRead.step] at hstep
          obtain ⟨sys, hsys, rfl⟩ := Option.map_eq_some_iff.mp hstep
          have hkept := h.finish hcond hsys
          cases arrivalAt t.sys.history pos with
          | none => exact hkept
          | some e =>
              simp only [State.returned]
              split
              · rename_i height _ _ _ _ _
                by_cases hin : height ∈ t.owed
                · rw [if_pos hin]
                  refine ⟨hkept.owed, ?_, hkept.waiting, hkept.missed⟩
                  intro k hk
                  rcases List.mem_cons.mp hk with rfl | hold
                  · exact hin
                  · exact h.announced k hold
                · rw [if_neg hin]
                  exact hkept
              · exact hkept
  | otherPut fault height hash txHashes elements =>
      rw [← Option.some.inj hstep]
      refine ⟨?_, h.announced, h.waiting, h.missed⟩
      intro k hk
      rcases h.owed k hk with hb | hf | hs
      · exact Or.inl hb
      · exact Or.inr (Or.inl hf)
      · exact Or.inr (Or.inr (Storage.rawAt_put_mono _ _ _ _ _ _ hs))
  | readStore height =>
      simp only [NeveTipRead.step] at hstep
      split at hstep
      · rename_i hread
        rw [← Option.some.inj hstep]
        refine ⟨h.owed, h.announced, ?_, h.missed⟩
        intro w hw hp
        rcases List.mem_cons.mp hw with rfl | hold
        · -- nothing stored and nothing in flight: the block is in the buffer
          have hann : height ∈ t.announced := of_decide_eq_true hp
          have hnone := (Storage.getByHeight_eq_none_iff J _ height).mp hread
          rcases h.owed height (h.announced height hann) with hb | hf | hs
          · exact hb
          · exact absurd hf hcond
          · rw [hnone] at hs
            cases hs
        · exact h.waiting w hold hp
      · rw [← Option.some.inj hstep]
        exact h
  | readBuffer reader =>
      obtain ⟨w, hw, rfl⟩ := Option.map_eq_some_iff.mp hstep
      refine ⟨h.owed, h.announced, ?_, ?_⟩
      · intro w' hw' hp
        exact h.waiting w' (List.mem_of_mem_eraseIdx hw') hp
      · dsimp only
        cases hb : bufferedBlock t.sys.pending w.height with
        | some raw => exact h.missed
        | none =>
            dsimp only
            by_cases hp : w.promised = true
            · have hsome := h.waiting w (List.mem_of_getElem? hw) hp
              rw [hb] at hsome
              cases hsome
            · rw [if_neg hp]
              exact h.missed

end Step

/-- **An announced block is never missed** in a run in which no half is taken
    from under a reader, no read starts during the write of its height and no
    such write fails. -/
theorem announced_never_missed (J : Codec) (storage : Storage) (maxEntries : Nat)
    (events : List Event) (t : State)
    (hcond : Run.Meets (step J) Undisturbed (State.new storage maxEntries) events)
    (hrun : Run.exec (step J) (State.new storage maxEntries) events = some t) :
    t.missed = [] := by
  have hinit : Kept (State.new storage maxEntries) :=
    ⟨fun _ h => (nomatch h), fun _ h => (nomatch h), fun _ h => (nomatch h), rfl⟩
  exact (Run.exec_invariant Undisturbed (fun _ _ _ hi hc hs => hi.step hc hs)
    hinit hcond hrun).missed

/-! ## One height, two schedules -/

/-- The block of height 1 is buffered and announced. -/
def announceEvents : List Event :=
  [.join (.enter (.block 1 (Vector.replicate 32 0) [] [123, 125]) 10),
    .join (.finish 0 .none)]

/-- A read that runs before the logs arrive. -/
def quietEvents : List Event :=
  announceEvents ++ [.readStore 1, .readBuffer 0,
    .join (.enter (.logs 1 [91, 93]) 11), .join (.finish 1 .none)]

/-- A read between the removal of the half and its write. -/
def racingEvents : List Event :=
  announceEvents ++ [.join (.enter (.logs 1 [91, 93]) 11), .readStore 1, .readBuffer 0]

theorem announced_never_missed_quiet :
    ∃ t, Run.exec (step JsonText.codec) (State.new (Storage.fresh memory .C none) 1) quietEvents
        = some t ∧ t.announced = [1] ∧ t.missed = [] := by
  refine ⟨_, rfl, rfl, announced_never_missed JsonText.codec (Storage.fresh memory .C none) 1
    quietEvents _ ?_ rfl⟩
  refine Run.meets_cons ?_ rfl (Run.meets_cons ?_ rfl (Run.meets_cons ?_ rfl
    (Run.meets_cons trivial rfl (Run.meets_cons ?_ rfl (Run.meets_cons ?_ rfl trivial)))))
  · intro hlog
    cases hlog
  · intro e hash txHashes blockBytes logs first since hat hact
    rw [← Option.some.inj hat] at hact
    cases hact
  · rintro ⟨pos, hpos, -⟩
    cases hpos
  · intro _ _ w hw
    cases hw
  · intro e hash txHashes blockBytes logs first since hat hact
    obtain rfl := Option.some.inj hat
    exact ⟨rfl, fun h => (nomatch h), fun h => (nomatch h), Nat.le_refl 1⟩

/-- The half is out of the buffer and not yet in the store: the read of an
    announced block comes back empty. -/
theorem announced_missed_racing :
    ¬ ∀ (J : Codec) (storage : Storage) (maxEntries : Nat) (events : List Event)
      (t : State), 1 ≤ maxEntries →
      Run.exec (step J) (State.new storage maxEntries) events = some t → t.missed = [] := by
  intro hall
  have hmissed := hall JsonText.codec (Storage.fresh memory .C none) 1 racingEvents _
    (Nat.le_refl 1) rfl
  cases hmissed

end NeveTipRead
