import Neve.FrontierProofs
import Neve.StorageMapProofs

/-! # Range replay — streaming stored heights to a subscriber

    `subscribe::serve_range` reads the minimum height, the contiguous tip and
    whether the store is empty, at three different moments, and decides; then it
    streams one height after the other, each read at its own moment again, while
    writers go on.  The handler is a state machine over these reads, run in any
    interleaving with puts. -/

namespace NeveRangeReplay

open JsonValue ByteText FirstGap NeveRecord NeveStorage NeveStorageMap NeveFrontier

/-! ## The handler -/

/-- The two subscription kinds that replay storage. -/
inductive ReplayKind where
  | oldBlocks
  | oldRecords
  deriving DecidableEq

def ReplayKind.asStr : ReplayKind → String
  | .oldBlocks => "oldBlocks"
  | .oldRecords => "oldRecords"

/-- What a subscriber asked for; without an end the replay follows the
    contiguous tip. -/
structure Request where
  kind : ReplayKind
  fromHeight : Option Nat
  toHeight : Option Nat

/-- Why a stream ended.  The subscriber sees the same close in every case. -/
inductive Close where
  | caughtUp
  | missing
  | unreadable

/-- Where the handler stands: before one of its reads, or at an end. -/
inductive Phase where
  | readMin
  | readContig
  | readEmpty
  | readTarget
  | readBlock
  | rejected (reason : String)
  | closed (cause : Close)

/-- The handler's locals, and what it has sent. -/
structure Handler where
  phase : Phase
  min : Nat
  contig : Nat
  h : Nat
  sent : List Bytes

/-- A request that has just arrived. -/
def Handler.start (req : Request) : Handler :=
  match req.fromHeight with
  | none => ⟨.rejected s!"{req.kind.asStr} requires a 'from' block number", 0, 0, 0, []⟩
  | some start => ⟨.readMin, 0, 0, start, []⟩

/-- Refuse what cannot be satisfied gaplessly. -/
def decideRange (start : Nat) (toHeight : Option Nat) (min contig : Nat) : Phase :=
  if start < min then .rejected s!"start {start} before earliest stored block {min}"
  else match toHeight with
    | none => .readTarget
    | some e =>
        if e < start then .rejected s!"end {e} before start {start}"
        else if contig < e then .rejected s!"end {e} beyond contiguous tip {contig}"
        else .readTarget

section Handler

variable (J : Codec)

/-- What one height contributes: its block, or its whole record. -/
def readStored (kind : ReplayKind) (s : Storage) (height : Nat) :
    Except String (Option Bytes) :=
  match kind with
  | .oldBlocks => s.getByHeight J height
  | .oldRecords => .ok (s.getRecord height)

/-- The handler's next read, on the store as it is at that moment. -/
def handlerStep (req : Request) (s : Storage) (hd : Handler) : Handler :=
  match hd.phase with
  | .readMin => { hd with phase := .readContig, min := s.minHeight }
  | .readContig => { hd with phase := .readEmpty, contig := s.maxContiguousHeight }
  | .readEmpty =>
      { hd with phase :=
          if s.isEmpty then .rejected "no blocks stored yet"
          else decideRange hd.h req.toHeight hd.min hd.contig }
  | .readTarget =>
      { hd with phase :=
          if req.toHeight.getD s.maxContiguousHeight < hd.h then .closed .caughtUp
          else .readBlock }
  | .readBlock =>
      match readStored J req.kind s hd.h with
      | .error _ => { hd with phase := .closed .unreadable }
      | .ok none => { hd with phase := .closed .missing }
      | .ok (some bytes) =>
          match J.rawValue bytes with
          | none => { hd with phase := .closed .unreadable }
          | some msg =>
              { hd with
                phase := .readTarget
                h := saturatingAdd hd.h 1
                sent := hd.sent ++ [msg] }
  | .rejected _ => hd
  | .closed _ => hd

end Handler

/-! ## Interleavings -/

structure System where
  storage : Storage
  handler : Handler

/-- The handler's next read, or some other task's put. -/
inductive Action where
  | handler
  | put (p : Put)

def System.start (s : Storage) (req : Request) : System := ⟨s, Handler.start req⟩

def step (J : Codec) (req : Request) (sys : System) : Action → Option System
  | .handler => some { sys with handler := handlerStep J req sys.storage sys.handler }
  | .put p =>
      some { sys with
        storage := (sys.storage.put p.fault p.height p.hash p.txHashes p.elements).2 }

/-- A put as the ingest tasks make them: JSON values, at a height below the last
    one there is. -/
def LawfulPut {J : Codec} (R : RawReader J) (p : Put) : Prop :=
  (∀ e ∈ p.elements, R.IsValue e) ∧ p.height < u64Max

/-! ## Stores -/

/-- A store as the ingest tasks leave it. -/
structure LawfulStore {J : Codec} (R : RawReader J) (s : Storage) : Prop where
  readable : Readable R s
  bounded : ∀ k, s.Has k → k < u64Max

section Stores

variable {J : Codec} {R : RawReader J}

theorem LawfulStore.put {s : Storage} {p : Put} (h : LawfulStore R s) (hp : LawfulPut R p) :
    LawfulStore R (s.put p.fault p.height p.hash p.txHashes p.elements).2 where
  readable := h.readable.put hp.1
  bounded k hk := by
    rcases has_put hk with rfl | hold
    · exact hp.2
    · exact h.bounded k hold

/-- The height gives the stream a message, and is not the last there is. -/
def Deliverable (J : Codec) (kind : ReplayKind) (s : Storage) (height : Nat) : Prop :=
  height < u64Max ∧ ∃ msg, readStored J kind s height = .ok (some msg) ∧
    J.rawValue msg = some msg

/-- A stored height always gives its block. -/
theorem LawfulStore.deliverable_block {s : Storage} {height : Nat} (h : LawfulStore R s)
    (hhas : s.Has height) : Deliverable J .oldBlocks s height := by
  refine ⟨h.bounded height hhas, ?_⟩
  obtain ⟨M, hM⟩ := h.readable
  obtain ⟨raw, hraw⟩ := Storage.has_iff_rawAt.mp hhas
  have hget := hM.getElement height BLOCK
  have hk := hM height
  simp only [RecordMap.element] at hget
  rw [hraw] at hk
  generalize M height = elements at hk hget
  cases hk with
  | legacy _ e hl => exact ⟨e, hget, R.rawValue_self hl.1⟩
  | combined es hlen hval =>
      cases es with
      | nil => exact absurd hlen (by decide)
      | cons e rest => exact ⟨e, hget, R.rawValue_self (hval e (List.mem_cons_self ..))⟩

/-- What a height gives is a value. -/
theorem LawfulStore.isValue_block {s : Storage} {height : Nat} {e : Bytes}
    (h : LawfulStore R s) (hget : s.getByHeight J height = .ok (some e)) : R.IsValue e := by
  obtain ⟨M, hM⟩ := h.readable
  have hread := hM.getElement height BLOCK
  have hk := hM height
  simp only [RecordMap.element] at hread
  rw [show s.getElement J height BLOCK = .ok (some e) from hget, Except.ok.injEq] at hread
  generalize s.rawAt height = stored at hk
  generalize M height = elements at hk hread
  cases hk with
  | missing => cases hread
  | legacy raw e' hl =>
      rw [Option.some.inj hread]
      exact hl.1
  | combined es hlen hval => exact hval e (List.mem_of_getElem? hread.symm)

/-- Everything from the floor to the contiguous tip is stored, once there is
    anything at the floor or the height is not zero. -/
theorem has_of_le_maxContiguous {s : Storage} {st : Store} {k : Nat}
    (hst : s.store = some st) (hlo : st.minHeight ≤ k) (hhi : k ≤ s.maxContiguousHeight)
    (hpos : 0 < k ∨ 0 < st.firstHole) : s.Has k := by
  simp only [Storage.maxContiguousHeight, hst, Option.map_some, Option.getD_some] at hhi
  rcases Nat.eq_zero_or_pos k with rfl | hk
  · exact ⟨st, hst, st.isFirstGap_firstHole.filled 0 hlo (hpos.resolve_left (Nat.lt_irrefl 0))⟩
  · exact ⟨st, hst, st.isFirstGap_frontier.filled k (by omega) (by omega)⟩

end Stores

/-! ## The replay invariant -/

/-- What the stores a handler meets must guarantee for it to go through: some
    `Valid` while it validates, giving `Servable` when it accepts, under which
    every height it asks for is deliverable. -/
structure Discipline (J : Codec) (req : Request) (start : Nat) (lawful : Put → Prop)
    (Valid : Handler → Storage → Prop) (Servable : Storage → Prop) : Prop where
  valid_put : ∀ hd s p, Valid hd s → lawful p →
    Valid hd (s.put p.fault p.height p.hash p.txHashes p.elements).2
  valid_min : ∀ hd s, Valid hd s → hd.phase = .readMin →
    Valid { hd with phase := .readContig, min := s.minHeight } s
  valid_contig : ∀ hd s, Valid hd s → hd.phase = .readContig →
    Valid { hd with phase := .readEmpty, contig := s.maxContiguousHeight } s
  accept : ∀ hd s, Valid hd s → hd.phase = .readEmpty → s.isEmpty = false →
    hd.min ≤ start → (∀ e, req.toHeight = some e → start ≤ e ∧ e ≤ hd.contig) →
      Servable s
  servable_put : ∀ s p, Servable s → lawful p →
    Servable (s.put p.fault p.height p.hash p.txHashes p.elements).2
  servable_read : ∀ s h, Servable s → start ≤ h →
    h ≤ req.toHeight.getD s.maxContiguousHeight → Deliverable J req.kind s h

/-- The invariant of a replay that never meets a height it cannot deliver. -/
def Replaying (req : Request) (start : Nat) (Valid : Handler → Storage → Prop)
    (Servable : Storage → Prop) (hd : Handler) (s : Storage) : Prop :=
  match hd.phase with
  | .readMin => Valid hd s ∧ hd.h = start ∧ hd.sent = []
  | .readContig => Valid hd s ∧ hd.h = start ∧ hd.sent = []
  | .readEmpty => Valid hd s ∧ hd.h = start ∧ hd.sent = []
  | .readTarget => Servable s ∧ hd.h = start + hd.sent.length ∧
      ∀ e, req.toHeight = some e → hd.h ≤ e + 1
  | .readBlock => Servable s ∧ hd.h = start + hd.sent.length ∧
      hd.h ≤ req.toHeight.getD s.maxContiguousHeight
  | .rejected _ => hd.sent = []
  | .closed cause => cause = .caughtUp ∧ hd.h = start + hd.sent.length ∧
      ∀ e, req.toHeight = some e → hd.h = e + 1

section Replay

variable {J : Codec} {req : Request} {start : Nat} {lawful : Put → Prop}
  {Valid : Handler → Storage → Prop} {Servable : Storage → Prop}

/-- What `decideRange` lets through. -/
theorem decideRange_cases (start : Nat) (toHeight : Option Nat) (min contig : Nat) :
    (decideRange start toHeight min contig = .readTarget ∧ min ≤ start ∧
      ∀ e, toHeight = some e → start ≤ e ∧ e ≤ contig) ∨
    ((∃ reason, decideRange start toHeight min contig = .rejected reason) ∧
      (start < min ∨ ∃ e, toHeight = some e ∧ (e < start ∨ contig < e))) := by
  simp only [decideRange]
  by_cases hmin : start < min
  · rw [if_pos hmin]
    exact Or.inr ⟨⟨_, rfl⟩, Or.inl hmin⟩
  rw [if_neg hmin]
  cases toHeight with
  | none => exact Or.inl ⟨rfl, by omega, fun e he => by cases he⟩
  | some e =>
      dsimp only
      by_cases hlt : e < start
      · rw [if_pos hlt]
        exact Or.inr ⟨⟨_, rfl⟩, Or.inr ⟨e, rfl, Or.inl hlt⟩⟩
      rw [if_neg hlt]
      by_cases hgt : contig < e
      · rw [if_pos hgt]
        exact Or.inr ⟨⟨_, rfl⟩, Or.inr ⟨e, rfl, Or.inr hgt⟩⟩
      · rw [if_neg hgt]
        refine Or.inl ⟨rfl, by omega, ?_⟩
        intro e' he'
        have := Option.some.inj he'
        omega

theorem saturatingAdd_one {h : Nat} (hlt : h < u64Max) : saturatingAdd h 1 = h + 1 := by
  simp only [saturatingAdd]
  omega

/-- Everything one turn of the handler can do. -/
inductive Turn (J : Codec) (req : Request) (s : Storage) (hd : Handler) : Handler → Prop where
  | min : hd.phase = .readMin →
      Turn J req s hd { hd with phase := .readContig, min := s.minHeight }
  | contig : hd.phase = .readContig →
      Turn J req s hd { hd with phase := .readEmpty, contig := s.maxContiguousHeight }
  | empty : hd.phase = .readEmpty → s.isEmpty = true →
      Turn J req s hd { hd with phase := .rejected "no blocks stored yet" }
  | refuse (reason : String) : hd.phase = .readEmpty → s.isEmpty = false →
      (hd.h < hd.min ∨ ∃ e, req.toHeight = some e ∧ (e < hd.h ∨ hd.contig < e)) →
      Turn J req s hd { hd with phase := .rejected reason }
  | accept : hd.phase = .readEmpty → s.isEmpty = false → hd.min ≤ hd.h →
      (∀ e, req.toHeight = some e → hd.h ≤ e ∧ e ≤ hd.contig) →
      Turn J req s hd { hd with phase := .readTarget }
  | caughtUp : hd.phase = .readTarget →
      req.toHeight.getD s.maxContiguousHeight < hd.h →
      Turn J req s hd { hd with phase := .closed .caughtUp }
  | next : hd.phase = .readTarget → hd.h ≤ req.toHeight.getD s.maxContiguousHeight →
      Turn J req s hd { hd with phase := .readBlock }
  | unreadable : hd.phase = .readBlock →
      (∀ bytes msg, readStored J req.kind s hd.h = .ok (some bytes) →
        J.rawValue bytes ≠ some msg) →
      Turn J req s hd { hd with phase := .closed .unreadable }
  | missing : hd.phase = .readBlock → readStored J req.kind s hd.h = .ok none →
      Turn J req s hd { hd with phase := .closed .missing }
  | send (bytes msg : Bytes) : hd.phase = .readBlock →
      readStored J req.kind s hd.h = .ok (some bytes) → J.rawValue bytes = some msg →
      Turn J req s hd { hd with
        phase := .readTarget
        h := saturatingAdd hd.h 1
        sent := hd.sent ++ [msg] }
  | rejected (reason : String) : hd.phase = .rejected reason → Turn J req s hd hd
  | closed (cause : Close) : hd.phase = .closed cause → Turn J req s hd hd

/-- **The spec of a turn.** -/
theorem handlerStep_turn (J : Codec) (req : Request) (s : Storage) (hd : Handler) :
    Turn J req s hd (handlerStep J req s hd) := by
  simp only [handlerStep]
  cases hp : hd.phase with
  | readMin => exact .min hp
  | readContig => exact .contig hp
  | readEmpty =>
      dsimp only
      by_cases hempty : s.isEmpty = true
      · rw [if_pos hempty]
        exact .empty hp hempty
      · have hnot : s.isEmpty = false := Bool.not_eq_true _ ▸ hempty
        rw [if_neg hempty]
        -- the range is decided from what the three turns before have read
        rcases decideRange_cases hd.h req.toHeight hd.min hd.contig with
          ⟨heq, hmin, hto⟩ | ⟨⟨reason, heq⟩, hwhy⟩
        · rw [heq]
          exact .accept hp hnot hmin hto
        · rw [heq]
          exact .refuse reason hp hnot hwhy
  | readTarget =>
      dsimp only
      by_cases hlt : req.toHeight.getD s.maxContiguousHeight < hd.h
      · rw [if_pos hlt]
        exact .caughtUp hp hlt
      · rw [if_neg hlt]
        exact .next hp (Nat.le_of_not_lt hlt)
  | readBlock =>
      dsimp only
      cases hr : readStored J req.kind s hd.h with
      | error e =>
          refine .unreadable hp ?_
          intro bytes msg hb
          rw [hr] at hb
          cases hb
      | ok found =>
          cases found with
          | none => exact .missing hp hr
          | some bytes =>
              dsimp only
              cases hv : J.rawValue bytes with
              | none =>
                  refine .unreadable hp ?_
                  -- the stored bytes are no JSON text, so there is nothing to send
                  intro bytes' msg hb
                  rw [hr] at hb
                  rw [← Option.some.inj (Except.ok.inj hb), hv]
                  intro h
                  cases h
              | some msg => exact .send bytes msg hp hr hv
  | rejected reason => exact .rejected reason hp
  | closed cause => exact .closed cause hp

/-- The handler's own step. -/
theorem Replaying.handler (D : Discipline J req start lawful Valid Servable) {hd : Handler}
    {s : Storage} (h : Replaying req start Valid Servable hd s) :
    Replaying req start Valid Servable (handlerStep J req s hd) s := by
  have hturn := handlerStep_turn J req s hd
  generalize handlerStep J req s hd = hd' at hturn
  cases hturn with
  | min hp =>
      simp only [Replaying, hp] at h
      exact ⟨D.valid_min hd s h.1 hp, h.2⟩
  | contig hp =>
      simp only [Replaying, hp] at h
      exact ⟨D.valid_contig hd s h.1 hp, h.2⟩
  | empty hp _ =>
      simp only [Replaying, hp] at h
      exact h.2.2
  | refuse reason hp _ _ =>
      simp only [Replaying, hp] at h
      exact h.2.2
  | accept hp hnot hmin hto =>
      simp only [Replaying, hp] at h
      obtain ⟨hv, hh, hsent⟩ := h
      rw [hh] at hmin hto
      -- accepted: nothing is sent yet, and the range starts at or below what it asks for
      refine ⟨D.accept hd s hv hp hnot hmin hto, ?_, ?_⟩
      · show hd.h = start + hd.sent.length
        rw [hh, hsent]
        rfl
      · intro e he
        have := (hto e he).1
        show hd.h ≤ e + 1
        omega
  | caughtUp hp hlt =>
      simp only [Replaying, hp] at h
      obtain ⟨hs, hcur, hto⟩ := h
      -- past the target with every height before it sent
      refine ⟨rfl, hcur, ?_⟩
      intro e he
      have hle := hto e he
      rw [he, Option.getD_some] at hlt
      show hd.h = e + 1
      omega
  | next hp hle =>
      simp only [Replaying, hp] at h
      exact ⟨h.1, h.2.1, hle⟩
  | unreadable hp hno =>
      simp only [Replaying, hp] at h
      obtain ⟨hs, hcur, hle⟩ := h
      -- a height at or below the target is served, so it can be read
      obtain ⟨-, msg, hread, hraw⟩ := D.servable_read s hd.h hs (by omega) hle
      exact absurd hraw (hno msg msg hread)
  | missing hp hnone =>
      simp only [Replaying, hp] at h
      obtain ⟨hs, hcur, hle⟩ := h
      obtain ⟨-, msg, hread, -⟩ := D.servable_read s hd.h hs (by omega) hle
      rw [hread] at hnone
      cases hnone
  | send bytes msg hp hread hraw =>
      simp only [Replaying, hp] at h
      obtain ⟨hs, hcur, hle⟩ := h
      obtain ⟨hlt, -⟩ := D.servable_read s hd.h hs (by omega) hle
      -- one more height sent, and the cursor on the next
      rw [saturatingAdd_one hlt]
      refine ⟨hs, ?_, ?_⟩
      · show hd.h + 1 = start + (hd.sent ++ [msg]).length
        rw [List.length_append, List.length_singleton]
        omega
      · intro e he
        rw [he, Option.getD_some] at hle
        show hd.h + 1 ≤ e + 1
        omega
  | rejected _ _ => exact h
  | closed _ _ => exact h

/-- A lawful put beside the handler. -/
theorem Replaying.put (D : Discipline J req start lawful Valid Servable) {hd : Handler}
    {s : Storage} {p : Put} (h : Replaying req start Valid Servable hd s) (hp : lawful p) :
    Replaying req start Valid Servable hd
      (s.put p.fault p.height p.hash p.txHashes p.elements).2 := by
  simp only [Replaying] at h ⊢
  cases hphase : hd.phase with
  | readMin =>
      rw [hphase] at h
      exact ⟨D.valid_put hd s p h.1 hp, h.2⟩
  | readContig =>
      rw [hphase] at h
      exact ⟨D.valid_put hd s p h.1 hp, h.2⟩
  | readEmpty =>
      rw [hphase] at h
      exact ⟨D.valid_put hd s p h.1 hp, h.2⟩
  | readTarget =>
      rw [hphase] at h
      exact ⟨D.servable_put s p h.1 hp, h.2⟩
  | readBlock =>
      rw [hphase] at h
      obtain ⟨hs, hcur, hle⟩ := h
      refine ⟨D.servable_put s p hs hp, hcur, ?_⟩
      -- the tip the cursor was held against only moves up
      have hgrow := (put_grows s p.fault p.height p.hash p.txHashes
        p.elements).maxContiguousHeight_le
      cases ht : req.toHeight with
      | none =>
          rw [ht, Option.getD_none] at hle
          exact Nat.le_trans hle hgrow
      | some e =>
          rw [ht, Option.getD_some] at hle
          exact hle
  | rejected reason =>
      rw [hphase] at h
      exact h
  | closed cause =>
      rw [hphase] at h
      exact h

/-- The actions of a run whose puts are all lawful. -/
def ActionOk (lawful : Put → Prop) : Action → Prop
  | .handler => True
  | .put p => lawful p

/-- **The run lemma.** -/
theorem Replaying.run (D : Discipline J req start lawful Valid Servable) {as : List Action}
    {sys sys' : System} (h : Replaying req start Valid Servable sys.handler sys.storage)
    (hlawful : ∀ a ∈ as, ActionOk lawful a) (hrun : Run.exec (step J req) sys as = some sys') :
    Replaying req start Valid Servable sys'.handler sys'.storage := by
  have hstep : ∀ sys1 a sys2, Replaying req start Valid Servable sys1.handler sys1.storage →
      ActionOk lawful a → step J req sys1 a = some sys2 →
      Replaying req start Valid Servable sys2.handler sys2.storage := by
    intro sys1 a sys2 h1 hok heq
    cases a with
    | handler =>
        rw [← Option.some.inj heq]
        exact h1.handler D
    | put p =>
        rw [← Option.some.inj heq]
        exact h1.put D hok
  exact Run.exec_invariant (fun _ a => ActionOk lawful a) hstep h
    (Run.meets_of_forall hlawful sys) hrun

/-! ## Progress -/

def Phase.finished : Phase → Bool
  | .rejected _ => true
  | .closed _ => true
  | _ => false

def Action.isHandler : Action → Bool
  | .handler => true
  | .put _ => false

/-- How many reads a handler that has not finished has made, at least. -/
def Handler.turns (hd : Handler) : Nat :=
  match hd.phase with
  | .readMin => 0
  | .readContig => 1
  | .readEmpty => 2
  | .readTarget => 3 + 2 * hd.sent.length
  | .readBlock => 4 + 2 * hd.sent.length
  | .rejected _ => 0
  | .closed _ => 0

/-- A handler that has finished stays as it is. -/
theorem handlerStep_finished {hd : Handler} (s : Storage) (h : hd.phase.finished = true) :
    handlerStep J req s hd = hd := by
  simp only [handlerStep]
  cases hp : hd.phase with
  | rejected reason => rfl
  | closed cause => rfl
  | _ =>
      rw [hp] at h
      cases h

/-- A turn counts, unless it is the last one. -/
theorem turns_handlerStep (s : Storage) (hd : Handler) :
    (handlerStep J req s hd).phase.finished = true ∨
      hd.turns + 1 ≤ (handlerStep J req s hd).turns := by
  have hturn := handlerStep_turn J req s hd
  generalize handlerStep J req s hd = hd' at hturn
  simp only [Handler.turns]
  cases hturn with
  | min hp => exact Or.inr (by rw [hp])
  | contig hp => exact Or.inr (by rw [hp])
  | accept hp _ _ _ => exact Or.inr (by rw [hp]; dsimp only; omega)
  | next hp _ => exact Or.inr (by rw [hp]; dsimp only; omega)
  | send _ _ hp _ _ =>
      refine Or.inr ?_
      rw [hp]
      dsimp only
      rw [List.length_append, List.length_singleton]
      omega
  | rejected _ hp => exact Or.inl (by rw [hp]; rfl)
  | closed _ hp => exact Or.inl (by rw [hp]; rfl)
  | _ => exact Or.inl rfl

/-- In a run the handler finishes, or it makes every read it is given. -/
theorem turns_run {as : List Action} {sys sys' : System}
    (hrun : Run.exec (step J req) sys as = some sys') :
    sys'.handler.phase.finished = true ∨ as.countP Action.isHandler ≤ sys'.handler.turns := by
  have hdone : ∀ (s1 : System) (a : Action) (s2 : System),
      s1.handler.phase.finished = true → step J req s1 a = some s2 →
      s2.handler.phase.finished = true := by
    intro s1 a s2 hfin heq
    cases a with
    | put p =>
        rw [← Option.some.inj heq]
        exact hfin
    | handler =>
        rw [← Option.some.inj heq]
        dsimp only
        rw [handlerStep_finished _ hfin]
        exact hfin
  have hstep : ∀ (s1 : System) (a : Action) (s2 : System), step J req s1 a = some s2 →
      s2.handler.phase.finished = true ∨
        s1.handler.turns + (if a.isHandler then 1 else 0) ≤ s2.handler.turns := by
    intro s1 a s2 heq
    cases a with
    | put p =>
        rw [← Option.some.inj heq]
        exact Or.inr (Nat.le_refl _)
    | handler =>
        rw [← Option.some.inj heq]
        exact turns_handlerStep s1.storage s1.handler
  have hend := Run.exec_progress hdone hstep (n := 0) (Or.inr (Nat.zero_le _)) hrun
  rw [Nat.zero_add] at hend
  exact hend

/-- Every action is always possible. -/
theorem exec_total (J : Codec) (req : Request) (sys : System) (as : List Action) :
    ∃ sys', Run.exec (step J req) sys as = some sys' := by
  refine Run.exec_total ?_ sys as
  intro s a
  cases a with
  | handler => exact ⟨_, rfl⟩
  | put p => exact ⟨_, rfl⟩

/-- A replay with an explicit end finishes once it is given enough turns. -/
theorem Replaying.finished {hd : Handler} {s : Storage} {e : Nat}
    (h : Replaying req start Valid Servable hd s) (hto : req.toHeight = some e)
    (hturns : hd.phase.finished = true ∨ 2 * (e + 1 - start) + 4 ≤ hd.turns) :
    hd.phase.finished = true := by
  rcases hturns with hfin | hle
  · exact hfin
  simp only [Replaying] at h
  simp only [Handler.turns] at hle
  cases hphase : hd.phase with
  | readMin => rw [hphase] at hle; dsimp only at hle; omega
  | readContig => rw [hphase] at hle; dsimp only at hle; omega
  | readEmpty => rw [hphase] at hle; dsimp only at hle; omega
  | readTarget =>
      rw [hphase] at h hle
      dsimp only at h hle
      have := h.2.2 e hto
      omega
  | readBlock =>
      rw [hphase] at h hle
      dsimp only at h hle
      rw [hto, Option.getD_some] at h
      omega
  | rejected reason => rfl
  | closed cause => rfl

/-! ## Moments -/

/-- A turn adds at most one message, and it is the one stored at the cursor. -/
theorem handlerStep_sent (s : Storage) (hd : Handler) :
    (handlerStep J req s hd).sent = hd.sent ∨
      (hd.phase = .readBlock ∧ ∃ bytes msg, readStored J req.kind s hd.h = .ok (some bytes) ∧
        J.rawValue bytes = some msg ∧ (handlerStep J req s hd).sent = hd.sent ++ [msg]) := by
  have hturn := handlerStep_turn J req s hd
  generalize handlerStep J req s hd = hd' at hturn
  cases hturn with
  | send bytes msg hp hread hraw => exact Or.inr ⟨hp, bytes, msg, hread, hraw, rfl⟩
  | _ => exact Or.inl rfl

/-- Every message was read at some moment, when those before it had been sent. -/
theorem sent_moment {as : List Action} {sys sys' : System}
    (hrun : Run.exec (step J req) sys as = some sys') (hnone : sys.handler.sent = [])
    {i : Nat} {msg : Bytes} (hi : sys'.handler.sent[i]? = some msg) :
    ∃ before after mid, as = before ++ Action.handler :: after ∧
      Run.exec (step J req) sys before = some mid ∧ mid.handler.phase = .readBlock ∧
      mid.handler.sent.length = i ∧ ∃ bytes,
        readStored J req.kind mid.storage mid.handler.h = .ok (some bytes) ∧
        J.rawValue bytes = some msg := by
  have hstep : ∀ (s1 : System) (a : Action) (s2 : System), step J req s1 a = some s2 →
      s2.handler.sent = s1.handler.sent ∨
        ∃ b, s2.handler.sent = s1.handler.sent ++ [b] ∧ a = .handler ∧
          s1.handler.phase = .readBlock ∧
          ∃ bytes, readStored J req.kind s1.storage s1.handler.h = .ok (some bytes) ∧
            J.rawValue bytes = some b := by
    intro s1 a s2 heq
    cases a with
    | put p =>
        rw [← Option.some.inj heq]
        exact Or.inl rfl
    | handler =>
        rw [← Option.some.inj heq]
        rcases handlerStep_sent s1.storage s1.handler with
          hsame | ⟨hphase, bytes, m, hread, hraw, hnew⟩
        · exact Or.inl hsame
        · exact Or.inr ⟨m, hnew, rfl, hphase, bytes, hread, hraw⟩
  obtain ⟨before, a, after, mid, rfl, hmid, hlen, rfl, hphase, hread⟩ :=
    Run.exec_appended hstep hrun hnone hi
  exact ⟨before, after, mid, rfl, hmid, hphase, hlen, hread⟩

/-- The tip a handler has read, if it has. -/
def Handler.tipRead (hd : Handler) : List Nat :=
  match hd.phase with
  | .readMin => []
  | .readContig => []
  | _ => [hd.contig]

/-- A turn keeps the tip it knows, or reads it. -/
theorem handlerStep_tipRead (s : Storage) (hd : Handler) :
    ∀ b ∈ (handlerStep J req s hd).tipRead, b ∈ hd.tipRead ∨ s.maxContiguousHeight = b := by
  intro b hb
  have hturn := handlerStep_turn J req s hd
  generalize handlerStep J req s hd = hd' at hb hturn
  cases hturn with
  | min _ => cases hb
  | contig _ => exact Or.inr (List.mem_singleton.mp hb).symm
  | rejected _ _ => exact Or.inl hb
  | closed _ _ => exact Or.inl hb
  | empty hp _ => exact Or.inl (by simp only [Handler.tipRead, hp]; exact hb)
  | refuse _ hp _ _ => exact Or.inl (by simp only [Handler.tipRead, hp]; exact hb)
  | accept hp _ _ _ => exact Or.inl (by simp only [Handler.tipRead, hp]; exact hb)
  | caughtUp hp _ => exact Or.inl (by simp only [Handler.tipRead, hp]; exact hb)
  | next hp _ => exact Or.inl (by simp only [Handler.tipRead, hp]; exact hb)
  | unreadable hp _ => exact Or.inl (by simp only [Handler.tipRead, hp]; exact hb)
  | missing hp _ => exact Or.inl (by simp only [Handler.tipRead, hp]; exact hb)
  | send _ _ hp _ _ => exact Or.inl (by simp only [Handler.tipRead, hp]; exact hb)

/-- The tip the decision was made on was the store's at some moment. -/
theorem tip_moment {as : List Action} {sys sys' : System}
    (hrun : Run.exec (step J req) sys as = some sys') (hnone : sys.handler.tipRead = [])
    {tip : Nat} (htip : tip ∈ sys'.handler.tipRead) :
    ∃ before after mid, as = before ++ Action.handler :: after ∧
      Run.exec (step J req) sys before = some mid ∧
      mid.storage.maxContiguousHeight = tip := by
  have hstep : ∀ (s1 : System) (a : Action) (s2 : System), step J req s1 a = some s2 →
      ∀ b ∈ s2.handler.tipRead, b ∈ s1.handler.tipRead ∨
        (a = .handler ∧ s1.storage.maxContiguousHeight = b) := by
    intro s1 a s2 heq b hb
    cases a with
    | put p =>
        rw [← Option.some.inj heq] at hb
        exact Or.inl hb
    | handler =>
        rw [← Option.some.inj heq] at hb
        rcases handlerStep_tipRead s1.storage s1.handler b hb with hold | hnew
        · exact Or.inl hold
        · exact Or.inr ⟨rfl, hnew⟩
  rcases Run.exec_moment hstep hrun htip with hold | ⟨before, a, after, mid, rfl, hmid, hfresh⟩
  · rw [hnone] at hold
    cases hold
  · obtain ⟨rfl, htip⟩ := hfresh
    exact ⟨before, after, mid, rfl, hmid, htip⟩

/-- What a stream that caught up had sent when it did. -/
def Handler.caughtUp (hd : Handler) : List (List Bytes) :=
  match hd.phase with
  | .closed .caughtUp => [hd.sent]
  | _ => []

/-- A turn leaves an ended stream as it is, or ends it at a tip below the
    cursor. -/
theorem handlerStep_caughtUp (s : Storage) (hd : Handler) :
    ∀ b ∈ (handlerStep J req s hd).caughtUp, b ∈ hd.caughtUp ∨
      (hd.sent = b ∧ hd.phase = .readTarget ∧
        req.toHeight.getD s.maxContiguousHeight < hd.h) := by
  intro b hb
  have hturn := handlerStep_turn J req s hd
  generalize handlerStep J req s hd = hd' at hb hturn
  cases hturn with
  | caughtUp hp hlt => exact Or.inr ⟨(List.mem_singleton.mp hb).symm, hp, hlt⟩
  | rejected _ _ => exact Or.inl hb
  | closed _ _ => exact Or.inl hb
  | _ => cases hb

/-- A stream that caught up did so at a moment when its cursor was past its
    target. -/
theorem caughtUp_moment {as : List Action} {sys sys' : System}
    (hrun : Run.exec (step J req) sys as = some sys') (hnone : sys.handler.caughtUp = [])
    (hend : sys'.handler.phase = .closed .caughtUp) :
    ∃ before after mid, as = before ++ Action.handler :: after ∧
      Run.exec (step J req) sys before = some mid ∧
      mid.handler.sent = sys'.handler.sent ∧ mid.handler.phase = .readTarget ∧
      req.toHeight.getD mid.storage.maxContiguousHeight < mid.handler.h := by
  have hstep : ∀ (s1 : System) (a : Action) (s2 : System), step J req s1 a = some s2 →
      ∀ b ∈ s2.handler.caughtUp, b ∈ s1.handler.caughtUp ∨
        (a = .handler ∧ s1.handler.sent = b ∧ s1.handler.phase = .readTarget ∧
          req.toHeight.getD s1.storage.maxContiguousHeight < s1.handler.h) := by
    intro s1 a s2 heq b hb
    cases a with
    | put p =>
        rw [← Option.some.inj heq] at hb
        exact Or.inl hb
    | handler =>
        rw [← Option.some.inj heq] at hb
        rcases handlerStep_caughtUp s1.storage s1.handler b hb with hold | hnew
        · exact Or.inl hold
        · exact Or.inr ⟨rfl, hnew⟩
  have hmem : sys'.handler.sent ∈ sys'.handler.caughtUp := by
    simp only [Handler.caughtUp, hend]
    exact List.mem_singleton_self _
  rcases Run.exec_moment hstep hrun hmem with hold | ⟨before, a, after, mid, rfl, hmid, hfresh⟩
  · rw [hnone] at hold
    cases hold
  · obtain ⟨rfl, hsent, hphase, hlt⟩ := hfresh
    exact ⟨before, after, mid, rfl, hmid, hsent, hphase, hlt⟩

end Replay

/-! ## Ranges a store covers -/

/-- Whatever a replay of the range will ask for is stored: all of a fixed range,
    or everything from the start to a tip that is one. -/
def Covers (req : Request) (start : Nat) (s : Storage) : Prop :=
  match req.toHeight with
  | some e => ∀ k, start ≤ k → k ≤ e → s.Has k
  | none => ∃ st, s.store = some st ∧ st.minHeight ≤ start ∧
      (0 < start ∨ 0 < st.firstHole)

section Coverage

variable {J : Codec} {R : RawReader J} {req : Request} {start : Nat} {s s' : Storage}

theorem Covers.grows (h : Covers req start s) (hg : Grows s s') : Covers req start s' := by
  simp only [Covers] at h ⊢
  cases ht : req.toHeight with
  | some e =>
      rw [ht] at h
      exact fun k hlo hhi => hg.has k (h k hlo hhi)
  | none =>
      rw [ht] at h
      obtain ⟨st, hst, hmin, hpos⟩ := h
      obtain ⟨st', hst', hmin', hle⟩ := hg.firstHole_le hst
      exact ⟨st', hst', by omega, by omega⟩

theorem Covers.has (h : Covers req start s) {k : Nat} (hlo : start ≤ k)
    (hhi : k ≤ req.toHeight.getD s.maxContiguousHeight) : s.Has k := by
  simp only [Covers] at h
  cases ht : req.toHeight with
  | some e =>
      rw [ht] at h hhi
      exact h k hlo hhi
  | none =>
      rw [ht] at h hhi
      obtain ⟨st, hst, hmin, hpos⟩ := h
      exact has_of_le_maxContiguous hst (by omega) hhi (by omega)

/-- A replay goes through wherever stored heights are deliverable and acceptance
    implies coverage. -/
theorem discipline_of_covers {Valid : Handler → Storage → Prop} {Sound : Storage → Prop}
    {lawful : Put → Prop}
    (sound_put : ∀ s p, Sound s → lawful p →
      Sound (s.put p.fault p.height p.hash p.txHashes p.elements).2)
    (sound_read : ∀ s k, Sound s → s.Has k → Deliverable J req.kind s k)
    (valid_put : ∀ hd s p, Valid hd s → lawful p →
      Valid hd (s.put p.fault p.height p.hash p.txHashes p.elements).2)
    (valid_min : ∀ hd s, Valid hd s → hd.phase = .readMin →
      Valid { hd with phase := .readContig, min := s.minHeight } s)
    (valid_contig : ∀ hd s, Valid hd s → hd.phase = .readContig →
      Valid { hd with phase := .readEmpty, contig := s.maxContiguousHeight } s)
    (accept : ∀ hd s, Valid hd s → hd.phase = .readEmpty → s.isEmpty = false →
      hd.min ≤ start → (∀ e, req.toHeight = some e → start ≤ e ∧ e ≤ hd.contig) →
      Sound s ∧ Covers req start s) :
    Discipline J req start lawful Valid (fun s => Sound s ∧ Covers req start s) where
  valid_put := valid_put
  valid_min := valid_min
  valid_contig := valid_contig
  accept := accept
  servable_put s p h hp := ⟨sound_put s p h.1 hp, h.2.grows (put_grows s _ _ _ _ _)⟩
  servable_read s k h hlo hhi := sound_read s k h.1 (h.2.has hlo hhi)

end Coverage

/-! ## Replaying blocks over a store with its floor -/

/-- A request that is to be refused, given the minimum height and the tip. -/
def Unservable (req : Request) (min contig : Nat) : Prop :=
  req.fromHeight = none ∨ ∃ start, req.fromHeight = some start ∧
    (start < min ∨ ∃ e, req.toHeight = some e ∧ (e < start ∨ contig < e))

def Phase.decided : Phase → Bool
  | .readMin => false
  | .readContig => false
  | .readEmpty => false
  | _ => true

def Phase.isRejected : Phase → Bool
  | .rejected _ => true
  | _ => false

/-- What a subscriber may count on. -/
structure GaplessReplay (J : Codec) (s : Storage) (req : Request) (as : List Action)
    (sys : System) : Prop where
  /-- Message `i` is the block of height `from + i`, read when the `i` before it
      had been sent. -/
  in_order : ∀ i msg, sys.handler.sent[i]? = some msg →
    ∃ start before after mid, req.fromHeight = some start ∧
      as = before ++ Action.handler :: after ∧
      Run.exec (step J req) (System.start s req) before = some mid ∧
      mid.handler.sent.length = i ∧ mid.storage.getByHeight J (start + i) = .ok (some msg)
  /-- The decision is the one on the floor and on the tip it read. -/
  rejects_iff : sys.handler.phase.decided = true →
    (sys.handler.phase.isRejected = true ↔ Unservable req s.minHeight sys.handler.contig)
  tip_read : req.fromHeight.isSome → sys.handler.phase.decided = true →
    ∃ before after mid, as = before ++ Action.handler :: after ∧
      Run.exec (step J req) (System.start s req) before = some mid ∧
      mid.storage.maxContiguousHeight = sys.handler.contig
  /-- A fixed range is delivered to its last height, and that does happen. -/
  complete : ∀ start e cause, req.fromHeight = some start → req.toHeight = some e →
    sys.handler.phase = .closed cause → sys.handler.sent.length = e + 1 - start
  finishes : ∀ start e, req.fromHeight = some start → req.toHeight = some e →
    2 * (e + 1 - start) + 4 ≤ as.countP Action.isHandler →
    sys.handler.phase.finished = true
  /-- An open range ends at a tip below its cursor. -/
  open_end : ∀ start cause, req.fromHeight = some start → req.toHeight = none →
    sys.handler.phase = .closed cause → ∃ before after mid,
      as = before ++ Action.handler :: after ∧
      Run.exec (step J req) (System.start s req) before = some mid ∧
      mid.handler.sent = sys.handler.sent ∧
      mid.storage.maxContiguousHeight < start + sys.handler.sent.length

section OldBlocks

variable {J : Codec} {R : RawReader J} {req : Request} {start : Nat}

/-- The store has a floor and its block, and what the handler read of it still
    holds. -/
def FloorStored (R : RawReader J) (hd : Handler) (s : Storage) : Prop :=
  LawfulStore R s ∧ ∃ st, s.store = some st ∧ st.Has st.minHeight ∧
    (hd.phase ≠ .readMin → hd.min = st.minHeight) ∧
    (hd.phase = .readEmpty → hd.contig ≤ s.maxContiguousHeight)

theorem firstHole_pos {st : Store} (h : st.Has st.minHeight) : 0 < st.firstHole := by
  have hgap := st.isFirstGap_firstHole
  rcases Nat.eq_or_lt_of_le hgap.le with heq | hlt
  · exact absurd (heq ▸ h) hgap.gap
  · omega

theorem discipline_floorStored (hkind : req.kind = .oldBlocks) :
    Discipline J req start (LawfulPut R) (FloorStored R)
      (fun s => LawfulStore R s ∧ Covers req start s) := by
  refine discipline_of_covers ?_ ?_ ?_ ?_ ?_ ?_
  · exact fun s p h hp => h.put hp
  · intro s k h hhas
    rw [hkind]
    exact h.deliverable_block hhas
  · rintro hd s p ⟨hl, st, hst, hhas, hmin, hcontig⟩ hp
    have hg := put_grows s p.fault p.height p.hash p.txHashes p.elements
    obtain ⟨st', hst', hmin'⟩ := hg.minHeight st hst
    obtain ⟨st'', hst'', hhas''⟩ := hg.has _ ⟨st, hst, hhas⟩
    rw [hst', Option.some.injEq] at hst''
    refine ⟨hl.put hp, st', hst', ?_, ?_, ?_⟩
    · rw [hmin', hst'']
      exact hhas''
    · rw [hmin']
      exact hmin
    · intro hphase
      exact Nat.le_trans (hcontig hphase) hg.maxContiguousHeight_le
  · rintro hd s ⟨hl, st, hst, hhas, -, -⟩ hphase
    refine ⟨hl, st, hst, hhas, ?_, ?_⟩
    · intro _
      simp only [Storage.minHeight, hst, Option.map_some, Option.getD_some]
    · intro h
      cases h
  · rintro hd s ⟨hl, st, hst, hhas, hmin, -⟩ hphase
    refine ⟨hl, st, hst, hhas, ?_, ?_⟩
    · intro _
      exact hmin (by rw [hphase]; intro h; cases h)
    · intro _
      exact Nat.le_refl _
  · rintro hd s ⟨hl, st, hst, hhas, hmin, hcontig⟩ hphase - hle hto
    rw [hmin (by rw [hphase]; intro h; cases h)] at hle
    refine ⟨hl, ?_⟩
    simp only [Covers]
    cases ht : req.toHeight with
    | none => exact ⟨st, hst, hle, Or.inr (firstHole_pos hhas)⟩
    | some e =>
        intro k hlo hhi
        have hbound := hcontig hphase
        have hpair := hto e ht
        exact has_of_le_maxContiguous hst (by omega) (by omega)
          (Or.inr (firstHole_pos hhas))

/-- The decision agrees with the floor and the tip that were read. -/
def Judged (req : Request) (start floor : Nat) (hd : Handler) : Prop :=
  match hd.phase with
  | .readMin => hd.h = start
  | .readContig => hd.h = start ∧ hd.min = floor
  | .readEmpty => hd.h = start ∧ hd.min = floor
  | .rejected _ => Unservable req floor hd.contig
  | _ => ¬ Unservable req floor hd.contig

theorem Judged.handler {floor : Nat} {hd : Handler} {s : Storage}
    (hfrom : req.fromHeight = some start) (h : Judged req start floor hd)
    (hcreated : s.isEmpty = false) (hfloor : s.minHeight = floor) :
    Judged req start floor (handlerStep J req s hd) := by
  have hturn := handlerStep_turn J req s hd
  generalize handlerStep J req s hd = hd' at hturn
  cases hturn with
  | min hp =>
      simp only [Judged, hp] at h
      exact ⟨h, hfloor⟩
  | contig hp =>
      simp only [Judged, hp] at h
      exact h
  | empty hp hempty =>
      rw [hcreated] at hempty
      cases hempty
  | refuse reason hp _ hwhy =>
      simp only [Judged, hp] at h
      rw [h.1, h.2] at hwhy
      exact Or.inr ⟨start, hfrom, hwhy⟩
  | accept hp _ hmin hto =>
      simp only [Judged, hp] at h
      rw [h.1] at hmin hto
      rw [h.2] at hmin
      rintro (hnone | ⟨start', hfrom', hwhy⟩)
      · rw [hfrom] at hnone
        cases hnone
      · rw [hfrom, Option.some.injEq] at hfrom'
        rcases hwhy with hlt | ⟨e, he, hwhy⟩
        · omega
        · have := hto e he
          dsimp only at hwhy
          omega
  | caughtUp hp _ => simp only [Judged, hp] at h; exact h
  | next hp _ => simp only [Judged, hp] at h; exact h
  | unreadable hp _ => simp only [Judged, hp] at h; exact h
  | missing hp _ => simp only [Judged, hp] at h; exact h
  | send _ _ hp _ _ => simp only [Judged, hp] at h; exact h
  | rejected _ _ => exact h
  | closed _ _ => exact h

theorem Judged.run {s : Storage} {as : List Action} {sys sys' : System}
    (hfrom : req.fromHeight = some start) (hcreated : s.isEmpty = false)
    (hgrow : Grows s sys.storage) (h : Judged req start s.minHeight sys.handler)
    (hrun : Run.exec (step J req) sys as = some sys') :
    Judged req start s.minHeight sys'.handler := by
  have hstep : ∀ sys1 a sys2,
      (Grows s sys1.storage ∧ Judged req start s.minHeight sys1.handler) →
      step J req sys1 a = some sys2 →
      Grows s sys2.storage ∧ Judged req start s.minHeight sys2.handler := by
    rintro sys1 a sys2 ⟨hg, hj⟩ heq
    cases a with
    | put p =>
        rw [← Option.some.inj heq]
        exact ⟨hg.trans (put_grows _ _ _ _ _ _), hj⟩
    | handler =>
        rw [← Option.some.inj heq]
        refine ⟨hg, hj.handler hfrom ?_ ?_⟩
        · exact hg.isEmpty_eq hcreated
        · exact hg.minHeight_eq hcreated
  exact (Run.exec_invariant_all hstep ⟨hgrow, h⟩ hrun).2

/-- A handler that has finished is not touched by the rest of the run. -/
theorem handler_of_finished {as : List Action} {sys sys' : System}
    (hfin : sys.handler.phase.finished = true)
    (hrun : Run.exec (step J req) sys as = some sys') : sys'.handler = sys.handler := by
  have hstep : ∀ sys1 a sys2, sys1.handler = sys.handler →
      step J req sys1 a = some sys2 → sys2.handler = sys.handler := by
    intro sys1 a sys2 h1 heq
    cases a with
    | put p =>
        rw [← Option.some.inj heq]
        exact h1
    | handler =>
        rw [← Option.some.inj heq]
        show handlerStep J req sys1.storage sys1.handler = sys.handler
        rw [h1, handlerStep_finished _ hfin]
  exact Run.exec_invariant_all hstep rfl hrun

/-- Without a start the request is refused at once. -/
theorem gapless_of_no_start {s : Storage} {as : List Action} {sys : System}
    (hfrom : req.fromHeight = none)
    (hrun : Run.exec (step J req) (System.start s req) as = some sys) :
    GaplessReplay J s req as sys := by
  obtain ⟨reason, hstart⟩ :
      ∃ reason, Handler.start req = ⟨.rejected reason, 0, 0, 0, []⟩ := by
    simp only [Handler.start, hfrom]
    exact ⟨_, rfl⟩
  have hfin : (System.start s req).handler.phase.finished = true := by
    simp only [System.start, hstart, Phase.finished]
  have hsame : sys.handler = ⟨.rejected reason, 0, 0, 0, []⟩ :=
    (handler_of_finished hfin hrun).trans hstart
  have hno : ∀ start, req.fromHeight ≠ some start := by
    intro start h
    rw [hfrom] at h
    cases h
  refine ⟨?_, ?_, ?_, ?_, ?_, ?_⟩
  · intro i msg hi
    rw [hsame] at hi
    cases hi
  · intro _
    rw [hsame]
    exact ⟨fun _ => Or.inl hfrom, fun _ => rfl⟩
  · intro hsome
    rw [hfrom] at hsome
    cases hsome
  · intro start e cause h
    exact absurd h (hno start)
  · intro start e h
    exact absurd h (hno start)
  · intro start cause h
    exact absurd h (hno start)

/-- **Replaying blocks is gapless and ordered.** Whatever puts run beside it, a
    replay over a store that has its floor block sends the blocks of consecutive
    heights, refuses exactly what it cannot serve, delivers a fixed range to its
    end and an open one to the tip. -/
theorem oldBlocks_gapless (R : RawReader J) {s : Storage} (hstore : LawfulStore R s)
    (hfloor : s.Has s.minHeight) (hkind : req.kind = .oldBlocks) {as : List Action}
    (hputs : ∀ a ∈ as, ActionOk (LawfulPut R) a) {sys : System}
    (hrun : Run.exec (step J req) (System.start s req) as = some sys) :
    GaplessReplay J s req as sys := by
  cases hfrom : req.fromHeight with
  | none => exact gapless_of_no_start hfrom hrun
  | some start =>
  obtain ⟨st, hst, hhas⟩ := hfloor
  have hmin : s.minHeight = st.minHeight := by
    simp only [Storage.minHeight, hst, Option.map_some, Option.getD_some]
  have hcreated : s.isEmpty = false := by simp only [Storage.isEmpty, hst, Option.isNone_some]
  have hstart : Handler.start req = ⟨.readMin, 0, 0, start, []⟩ := by
    simp only [Handler.start, hfrom]
  have hinit : ∀ before mid, (∀ a ∈ before, ActionOk (LawfulPut R) a) →
      Run.exec (step J req) (System.start s req) before = some mid →
      Replaying req start (FloorStored R) (fun s => LawfulStore R s ∧ Covers req start s)
        mid.handler mid.storage := by
    intro before mid hok hmid
    refine Replaying.run (discipline_floorStored hkind) ?_ hok hmid
    simp only [System.start, hstart, Replaying]
    refine ⟨⟨hstore, st, hst, hmin ▸ hhas, ?_, ?_⟩, trivial, trivial⟩
    · intro h
      exact absurd rfl h
    · intro h
      cases h
  have hend := hinit as sys hputs hrun
  have hjudged : Judged req start s.minHeight sys.handler := by
    refine Judged.run hfrom hcreated (Grows.refl s) ?_ hrun
    simp only [System.start, hstart, Judged]
  have hsent : (System.start s req).handler.sent = [] := by
    simp only [System.start, hstart]
  refine ⟨?_, ?_, ?_, ?_, ?_, ?_⟩
  · intro i msg hi
    obtain ⟨before, after, mid, rfl, hmid, hphase, hlen, bytes, hread, hraw⟩ :=
      sent_moment hrun hsent hi
    have hmidInv := hinit before mid (fun a ha => hputs a (List.mem_append_left _ ha)) hmid
    simp only [Replaying, hphase] at hmidInv
    obtain ⟨hs, hcur, hle⟩ := hmidInv
    -- a lawful store gives its blocks back as they are
    obtain ⟨-, msg', hread', hraw'⟩ :=
      (discipline_floorStored hkind).servable_read mid.storage mid.handler.h hs (by omega) hle
    rw [hread, Except.ok.injEq, Option.some.injEq] at hread'
    rw [hread', hraw', Option.some.injEq] at hraw
    rw [hkind, hcur, hlen, hread', hraw] at hread
    exact ⟨start, before, after, mid, hfrom, rfl, hmid, hlen, hread⟩
  · intro hdec
    simp only [Judged] at hjudged
    cases hphase : sys.handler.phase with
    | readMin => rw [hphase] at hdec; cases hdec
    | readContig => rw [hphase] at hdec; cases hdec
    | readEmpty => rw [hphase] at hdec; cases hdec
    | rejected reason =>
        rw [hphase] at hjudged
        exact ⟨fun _ => hjudged, fun _ => rfl⟩
    | readTarget =>
        rw [hphase] at hjudged
        exact ⟨fun h => (by cases h), fun h => absurd h hjudged⟩
    | readBlock =>
        rw [hphase] at hjudged
        exact ⟨fun h => (by cases h), fun h => absurd h hjudged⟩
    | closed cause =>
        rw [hphase] at hjudged
        exact ⟨fun h => (by cases h), fun h => absurd h hjudged⟩
  · intro _ hdec
    have hnone : (System.start s req).handler.tipRead = [] := by
      simp only [System.start, hstart, Handler.tipRead]
    have hmem : sys.handler.contig ∈ sys.handler.tipRead := by
      simp only [Handler.tipRead]
      cases hphase : sys.handler.phase with
      | readMin => rw [hphase] at hdec; cases hdec
      | readContig => rw [hphase] at hdec; cases hdec
      | _ => exact List.mem_singleton_self _
    exact tip_moment hrun hnone hmem
  · intro start' e cause hfrom' hto hphase
    rw [hfrom, Option.some.injEq] at hfrom'
    simp only [Replaying, hphase] at hend
    obtain ⟨-, hcur, hall⟩ := hend
    have := hall e hto
    omega
  · intro start' e hfrom' hto hturns
    rw [hfrom, Option.some.injEq] at hfrom'
    have hrunTurns := turns_run hrun
    refine hend.finished hto ?_
    rcases hrunTurns with hfin | hle
    · exact Or.inl hfin
    · exact Or.inr (by omega)
  · intro start' cause hfrom' hto hphase
    rw [hfrom, Option.some.injEq] at hfrom'
    simp only [Replaying, hphase] at hend
    rw [hend.1] at hphase
    have hnone : (System.start s req).handler.caughtUp = [] := by
      simp only [System.start, hstart, Handler.caughtUp]
    obtain ⟨before, after, mid, rfl, hmid, hsame, hpm, hlt⟩ :=
      caughtUp_moment hrun hnone hphase
    have hmidInv := hinit before mid (fun a ha => hputs a (List.mem_append_left _ ha)) hmid
    simp only [Replaying, hpm] at hmidInv
    refine ⟨before, after, mid, rfl, hmid, hsame, ?_⟩
    rw [hto, Option.getD_none, hmidInv.2.1, hsame] at hlt
    omega

end OldBlocks

/-! ## A replay beside a writer -/

section Sample

variable {J : Codec} {R : RawReader J}

theorem lawfulStore_fresh (blockdb : Blockdb) (chain : Chain) (anchorFloor : Option Nat) :
    LawfulStore R (Storage.fresh blockdb chain anchorFloor) where
  readable := ⟨fun _ => none, fun _ => .missing⟩
  bounded := by
    rintro k ⟨st, hst, -⟩
    cases hst

/-- A deliverable height, read. -/
theorem handlerStep_deliverable {req : Request} {s : Storage} {hd : Handler}
    (hphase : hd.phase = .readBlock) (hdel : Deliverable J req.kind s hd.h) :
    ∃ msg, handlerStep J req s hd
      = ⟨.readTarget, hd.min, hd.contig, hd.h + 1, hd.sent ++ [msg]⟩ := by
  obtain ⟨hlt, msg, hread, hraw⟩ := hdel
  exact ⟨msg, by simp only [handlerStep, hphase, hread, hraw, saturatingAdd_one hlt]⟩

end Sample

/-- An empty block with no derived data, put at a height. -/
def samplePut (height : Nat) : Put :=
  ⟨.none, height, Vector.replicate 32 1, [], [[123, 125], EMPTY_ARRAY]⟩

theorem lawfulPut_sample {height : Nat} (h : height < u64Max) :
    LawfulPut JsonText.spacedReader (samplePut height) := by
  refine ⟨?_, h⟩
  intro e he
  rcases List.mem_cons.mp he with rfl | he
  · exact isPrinted_object
  · rw [List.mem_singleton.mp he]
    exact isPrinted_empty_array

/-- A store with one block, at height 5. -/
def sampleStore : Storage :=
  ((Storage.fresh memory .C none).put .none 5 (Vector.replicate 32 1) []
    [[123, 125], EMPTY_ARRAY]).2

theorem lawfulStore_sample : LawfulStore JsonText.spacedReader sampleStore :=
  (lawfulStore_fresh memory .C none).put (p := samplePut 5) (lawfulPut_sample (by decide))

/-- A request for heights 5 to 6. -/
def sampleRequest : Request := ⟨.oldBlocks, some 5, some 6⟩

/-- Height 6 is written while the request is being validated, then the handler
    runs to its end. -/
def sampleActions : List Action :=
  [.handler, .put (samplePut 6), .handler, .handler, .handler, .handler, .handler, .handler,
    .handler]

/-- Both heights are delivered. -/
theorem oldBlocks_gapless_sample :
    ∃ sys, Run.exec (step JsonText.spacedCodec sampleRequest)
        (System.start sampleStore sampleRequest) sampleActions = some sys ∧
      sys.handler.sent.length = 2 ∧
      GaplessReplay JsonText.spacedCodec sampleStore sampleRequest sampleActions sys := by
  have hputs : ∀ a ∈ sampleActions, ActionOk (LawfulPut JsonText.spacedReader) a := by
    intro a ha
    simp only [sampleActions, List.mem_cons, List.not_mem_nil, or_false] at ha
    rcases ha with rfl | rfl | rfl | rfl | rfl | rfl | rfl | rfl | rfl
    case inr.inl => exact lawfulPut_sample (by decide)
    all_goals exact trivial
  obtain ⟨s6, hs6⟩ : ∃ s6, (sampleStore.put .none 6 (Vector.replicate 32 1) []
      [[123, 125], EMPTY_ARRAY]).2 = s6 := ⟨_, rfl⟩
  have hlawful : LawfulStore JsonText.spacedReader s6 :=
    hs6 ▸ lawfulStore_sample.put (p := samplePut 6) (lawfulPut_sample (by decide))
  have hcontig : s6.maxContiguousHeight = 6 := by
    rw [← hs6]
    decide
  have hcreated : s6.isEmpty = false := by
    rw [← hs6]
    rfl
  have hfive : Deliverable JsonText.spacedCodec .oldBlocks s6 5 :=
    hlawful.deliverable_block (hs6 ▸ ⟨_, rfl, by decide⟩)
  have hsix : Deliverable JsonText.spacedCodec .oldBlocks s6 6 :=
    hlawful.deliverable_block (hs6 ▸ ⟨_, rfl, by decide⟩)
  obtain ⟨m5, h5⟩ : ∃ m5, handlerStep JsonText.spacedCodec sampleRequest s6
      ⟨.readBlock, 5, 6, 5, []⟩ = ⟨.readTarget, 5, 6, 6, [m5]⟩ :=
    handlerStep_deliverable rfl hfive
  obtain ⟨m6, h6⟩ : ∃ m6, handlerStep JsonText.spacedCodec sampleRequest s6
      ⟨.readBlock, 5, 6, 6, [m5]⟩ = ⟨.readTarget, 5, 6, 7, [m5, m6]⟩ :=
    handlerStep_deliverable rfl hsix
  have hrun : Run.exec (step JsonText.spacedCodec sampleRequest)
      (System.start sampleStore sampleRequest) sampleActions
      = some ⟨s6, .closed .caughtUp, 5, 6, 7, [m5, m6]⟩ := by
    have hfirst : step JsonText.spacedCodec sampleRequest
        ⟨s6, .readTarget, 5, 6, 5, []⟩ .handler
        = some ⟨s6, .readBlock, 5, 6, 5, []⟩ := rfl
    have hsend5 : step JsonText.spacedCodec sampleRequest ⟨s6, .readBlock, 5, 6, 5, []⟩ .handler
        = some ⟨s6, .readTarget, 5, 6, 6, [m5]⟩ := by
      simp only [step, h5]
    have hsecond : step JsonText.spacedCodec sampleRequest ⟨s6, .readTarget, 5, 6, 6, [m5]⟩
        .handler = some ⟨s6, .readBlock, 5, 6, 6, [m5]⟩ := rfl
    have hsend6 : step JsonText.spacedCodec sampleRequest ⟨s6, .readBlock, 5, 6, 6, [m5]⟩
        .handler = some ⟨s6, .readTarget, 5, 6, 7, [m5, m6]⟩ := by
      simp only [step, h6]
    have hclose : step JsonText.spacedCodec sampleRequest ⟨s6, .readTarget, 5, 6, 7, [m5, m6]⟩
        .handler = some ⟨s6, .closed .caughtUp, 5, 6, 7, [m5, m6]⟩ := rfl
    have hput : step JsonText.spacedCodec sampleRequest
        ⟨sampleStore, .readContig, 5, 0, 5, []⟩ (.put (samplePut 6))
        = some ⟨s6, .readContig, 5, 0, 5, []⟩ := by
      rw [← hs6]
      rfl
    have hempty : step JsonText.spacedCodec sampleRequest ⟨s6, .readEmpty, 5, 6, 5, []⟩ .handler
        = some ⟨s6, .readTarget, 5, 6, 5, []⟩ := by
      simp only [step, handlerStep, hcreated]
      rfl
    have hread : step JsonText.spacedCodec sampleRequest ⟨s6, .readContig, 5, 0, 5, []⟩ .handler
        = some ⟨s6, .readEmpty, 5, 6, 5, []⟩ := by
      simp only [step, handlerStep, hcontig]
    exact Run.exec_step rfl (Run.exec_step hput (Run.exec_step hread (Run.exec_step hempty
      (Run.exec_step hfirst (Run.exec_step hsend5 (Run.exec_step hsecond
        (Run.exec_step hsend6 (Run.exec_step hclose rfl))))))))
  exact ⟨_, hrun, rfl, oldBlocks_gapless JsonText.spacedReader lawfulStore_sample
    ⟨_, rfl, by decide⟩ rfl hputs hrun⟩

end NeveRangeReplay
