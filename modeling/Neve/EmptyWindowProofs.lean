import Neve.BulkProofs
import Neve.OldRecordsProofs

/-! # Range requests over a store with no servable window

    A store that was never created reads as height zero everywhere, a store whose
    floor block is missing has a tip below its floor, and the handlers read the
    floor, the tip and the emptiness at different moments.  What can go wrong is
    decided by the floors the store has or may be created at:

    * a handler that read the floor before the store was created accepts heights
      below the floor the first put then gives it;
    * over a floor of zero the tip starts at zero and moves on over height one
      whether the genesis is stored or not, so a range from the genesis is accepted
      where it is not stored; the bulk export does not even ask whether the store
      exists.

    Everything else is refused or delivered whole (`delivers_iff`). -/

namespace NeveEmptyWindow

open JsonValue ByteText FirstGap NeveRecord NeveStorage NeveStorageMap NeveFrontier
open NeveOldRecords (IsBare deliverable_record getRecord_of_not_has)
open NeveRangeReplay (LawfulStore LawfulPut Deliverable ReplayKind readStored Close
  has_of_le_maxContiguous lawfulStore_fresh)

/-! ## Stores without a window -/

/-- A floor the store has, or one its first put may create it at. -/
def FloorOf (s : Storage) (floor : Nat) : Prop :=
  match s.store with
  | some st => floor = st.minHeight
  | none => ∃ height, height < u64Max ∧ floor = s.anchor height

/-- Nothing is stored at the floor: the store was never created, or its first
    block is still missing.  Heights have 64 bits. -/
structure Windowless {J : Codec} (R : RawReader J) (s : Storage) : Prop where
  lawful : LawfulStore R s
  no_floor : ¬ s.Has s.minHeight
  floor_le : s.minHeight ≤ u64Max

section Stores

variable {J : Codec} {R : RawReader J} {s s' : Storage}

theorem isEmpty_eq_false {st : Store} (hst : s.store = some st) : s.isEmpty = false := by
  simp only [Storage.isEmpty, hst, Option.isNone_some]

theorem store_of_isEmpty (h : s.isEmpty = false) : ∃ st, s.store = some st :=
  Option.isSome_iff_exists.mp (Option.isNone_eq_false_iff.mp h)

/-- A put adds no floor to those that are possible. -/
theorem floorOf_put {p : Put} {floor : Nat} (hp : p.height < u64Max)
    (h : FloorOf (s.put p.fault p.height p.hash p.txHashes p.elements).2 floor) :
    FloorOf s floor := by
  have hg := put_grows s p.fault p.height p.hash p.txHashes p.elements
  generalize hs' : (s.put p.fault p.height p.hash p.txHashes p.elements).2 = s' at h hg
  simp only [FloorOf] at h ⊢
  cases hst : s.store with
  | some st =>
      obtain ⟨st', hst', hmin⟩ := hg.minHeight st hst
      rw [hst'] at h
      exact h.trans hmin
  | none =>
      cases hst' : s'.store with
      | some st' =>
          rw [hst'] at h
          refine ⟨p.height, hp, h.trans ?_⟩
          exact put_created hst (hs' ▸ hst')
      | none =>
          rw [hst'] at h
          obtain ⟨height, hlt, heq⟩ := h
          refine ⟨height, hlt, heq.trans ?_⟩
          simp only [Storage.anchor, hg.anchorFloor]

/-- The floor stays below the last height there is. -/
theorem minHeight_put_le {p : Put} (h : s.minHeight ≤ u64Max) (hp : p.height < u64Max) :
    (s.put p.fault p.height p.hash p.txHashes p.elements).2.minHeight ≤ u64Max := by
  have hg := put_grows s p.fault p.height p.hash p.txHashes p.elements
  generalize hs' : (s.put p.fault p.height p.hash p.txHashes p.elements).2 = s' at hg ⊢
  cases hst : s.store with
  | some st => exact (hg.minHeight_eq (isEmpty_eq_false hst)).trans_le h
  | none =>
      cases hst' : s'.store with
      | none =>
          simp only [Storage.minHeight, hst']
          exact Nat.zero_le _
      | some st' =>
          rw [Storage.minHeight_of_store hst', put_created hst (hs' ▸ hst')]
          have := s.anchor_le p.height
          omega

/-- The tip is below the last height there is. -/
theorem tip_lt (h : LawfulStore R s) (hfloor : s.minHeight ≤ u64Max) :
    s.maxContiguousHeight < u64Max := by
  cases hst : s.store with
  | none =>
      rw [Storage.maxContiguousHeight_of_none hst]
      decide
  | some st =>
      have hgap := st.isFirstGap_frontier
      rw [Storage.minHeight_of_store hst] at hfloor
      rw [Storage.maxContiguousHeight_of_store hst]
      rcases Nat.lt_or_ge (st.minHeight - 1) st.maxContiguousHeight with hlt | hge
      · exact h.bounded _ ⟨st, hst, hgap.filled _ (by omega) (Nat.lt_succ_self _)⟩
      · have : 0 < u64Max := by decide
        omega

/-- Where a range is safe from what the floor may be: at every floor that is possible it
    starts below the floor of a store that exists, or from the floor on and above the
    genesis. -/
def FloorSafe (s : Storage) (start : Nat) : Prop :=
  ∀ floor, FloorOf s floor → (s.isEmpty = false ∧ start < floor) ∨
    (floor ≤ start ∧ 0 < start)

end Stores

/-! ## Subscriptions -/

section Subscribe

open NeveRangeReplay (Request Handler System Action ActionOk step Covers Discipline Replaying
  discipline_of_covers)

/-- A subscription is refused, or it does not close before it has delivered what
    it accepted, whatever is written beside it. -/
def SubscribeDelivers {J : Codec} (R : RawReader J) (s : Storage) (req : Request) : Prop :=
  ∀ as sys, (∀ a ∈ as, ActionOk (LawfulPut R) a) →
    Run.exec (step J req) (System.start s req) as = some sys →
    ∀ cause, sys.handler.phase = .closed cause → cause = .caughtUp ∧
      ∀ start e, req.fromHeight = some start → req.toHeight = some e →
        start + sys.handler.sent.length = e + 1

/-- Where a subscription is safe: its end is one no tip reaches or lies before its
    start; or it is safe from what the floor may be. -/
def SubscribeSafe (s : Storage) (start : Nat) (toHeight : Option Nat) : Prop :=
  (∃ e, toHeight = some e ∧ (e < start ∨ u64Max ≤ e)) ∨ FloorSafe s start

/-- Every stored height gives the kind of message asked for. -/
structure Sound {J : Codec} (R : RawReader J) (kind : ReplayKind) (s : Storage) : Prop where
  lawful : LawfulStore R s
  records : kind = .oldRecords → ∀ k, ¬ IsBare s k

/-- What is known while a subscription over `s` is being validated. -/
structure Validating {J : Codec} (R : RawReader J) (kind : ReplayKind) (s : Storage)
    (hd : Handler) (s' : Storage) : Prop where
  sound : Sound R kind s'
  floor_le : s'.minHeight ≤ u64Max
  floors : ∀ floor, FloorOf s' floor → FloorOf s floor
  grown : Grows s s'
  min_read : hd.phase ≠ .readMin → s.isEmpty = false → hd.min = s.minHeight
  tip_read : hd.phase = .readEmpty → hd.contig ≤ s'.maxContiguousHeight

variable {J : Codec} {R : RawReader J} {s : Storage} {req : Request} {start : Nat}

theorem Sound.put {kind : ReplayKind} {s : Storage} {p : Put} (h : Sound R kind s)
    (hp : LawfulPut R p) :
    Sound R kind (s.put p.fault p.height p.hash p.txHashes p.elements).2 where
  lawful := h.lawful.put hp
  records := by
    rintro hkind k ⟨raw, hraw, hbare⟩
    rcases Storage.rawAt_put_cases hraw with hold | ⟨-, rfl⟩
    · exact h.records hkind k ⟨raw, hold, hbare⟩
    · rw [not_isBareBlock_encode] at hbare
      cases hbare

theorem Sound.deliverable {kind : ReplayKind} {s : Storage} (h : Sound R kind s) {k : Nat}
    (hhas : s.Has k) : Deliverable J kind s k := by
  cases kind with
  | oldBlocks => exact h.lawful.deliverable_block hhas
  | oldRecords => exact deliverable_record h.lawful hhas (h.records rfl k)

theorem Validating.put {kind : ReplayKind} {hd : Handler} {s' : Storage} {p : Put}
    (h : Validating R kind s hd s') (hp : LawfulPut R p) :
    Validating R kind s hd (s'.put p.fault p.height p.hash p.txHashes p.elements).2 where
  sound := h.sound.put hp
  floor_le := minHeight_put_le h.floor_le hp.2
  floors floor hf := h.floors floor (floorOf_put hp.2 hf)
  grown := h.grown.trans (put_grows s' _ _ _ _ _)
  min_read := h.min_read
  tip_read hphase := (h.tip_read hphase).trans (put_grows s' _ _ _ _ _).maxContiguousHeight_le

/-- A safe subscription that is accepted is covered. -/
theorem Validating.covers {hd : Handler} {s' : Storage}
    (h : Validating R req.kind s hd s') (hsafe : SubscribeSafe s start req.toHeight)
    (hphase : hd.phase = .readEmpty) (hcreated : s'.isEmpty = false) (hmin : hd.min ≤ start)
    (hto : ∀ e, req.toHeight = some e → start ≤ e ∧ e ≤ hd.contig) :
    Covers req start s' := by
  obtain ⟨st, hst⟩ := store_of_isEmpty hcreated
  have htip := h.tip_read hphase
  have hlast := tip_lt h.sound.lawful h.floor_le
  have hfloor : FloorOf s' st.minHeight := by simp only [FloorOf, hst]
  rcases hsafe with ⟨e, he, hwhy⟩ | hsafe
  · have := hto e he
    omega
  rcases hsafe _ (h.floors _ hfloor) with ⟨hold, hlt⟩ | ⟨hle, hpos⟩
  · -- the floor that was read is the one of the store that existed already
    have hread := h.min_read (by rw [hphase]; intro hp; cases hp) hold
    have hsame := h.grown.minHeight_eq hold
    rw [Storage.minHeight_of_store hst] at hsame
    omega
  · simp only [Covers]
    cases ht : req.toHeight with
    | none => exact ⟨st, hst, hle, Or.inl hpos⟩
    | some e =>
        have hpair := hto e ht
        intro k hlo hhi
        exact has_of_le_maxContiguous hst (by omega) (by omega) (Or.inl (by omega))

theorem discipline_validating (hsafe : SubscribeSafe s start req.toHeight) :
    Discipline J req start (LawfulPut R) (Validating R req.kind s)
      (fun s' => Sound R req.kind s' ∧ Covers req start s') := by
  refine discipline_of_covers (fun s p h hp => h.put hp) (fun s k h hhas => h.deliverable hhas)
    (fun hd s' p h hp => h.put hp) ?_ ?_ ?_
  · intro hd s' h _
    refine ⟨h.sound, h.floor_le, h.floors, h.grown, ?_, fun hp => (by cases hp)⟩
    exact fun _ hold => h.grown.minHeight_eq hold
  · intro hd s' h hphase
    refine ⟨h.sound, h.floor_le, h.floors, h.grown, ?_, fun _ => Nat.le_refl _⟩
    exact fun _ => h.min_read (by rw [hphase]; intro hp; cases hp)
  · intro hd s' h hphase hcreated hmin hto
    exact ⟨h.sound, h.covers hsafe hphase hcreated hmin hto⟩

/-- A safe subscription delivers what it accepts. -/
theorem subscribeDelivers_of_safe (h : Windowless R s) (hsound : Sound R req.kind s)
    (hsafe : ∀ start, req.fromHeight = some start → SubscribeSafe s start req.toHeight) :
    SubscribeDelivers R s req := by
  intro as sys hputs hrun cause hphase
  cases hfrom : req.fromHeight with
  | none =>
      have hstart : (System.start s req).handler.phase.finished = true := by
        simp only [System.start, Handler.start, hfrom, NeveRangeReplay.Phase.finished]
      have hsame := NeveRangeReplay.handler_of_finished hstart hrun
      rw [hsame] at hphase
      simp only [System.start, Handler.start, hfrom] at hphase
      cases hphase
  | some start =>
      have hinit : Replaying req start (Validating R req.kind s)
          (fun s' => Sound R req.kind s' ∧ Covers req start s')
          (System.start s req).handler (System.start s req).storage := by
        simp only [System.start, Handler.start, hfrom, Replaying]
        refine ⟨⟨hsound, h.floor_le, fun _ hf => hf, Grows.refl s, ?_, ?_⟩,
          trivial, trivial⟩
        · intro hp
          exact absurd rfl hp
        · intro hp
          cases hp
      have hend := Replaying.run (discipline_validating (hsafe start hfrom)) hinit hputs hrun
      simp only [Replaying, hphase] at hend
      obtain ⟨hcause, hcur, hall⟩ := hend
      refine ⟨hcause, ?_⟩
      intro start' e hfrom' hto
      rw [Option.some.injEq] at hfrom'
      have := hall e hto
      omega

end Subscribe

/-! ## Bulk exports -/

section Bulk

open NeveBulk (Range Service Handler System Action ActionOk step Names Window Stored Discipline
  Request framesOf decideWindow window_of_decideWindow discipline_of_stored start_of_not_names)

/-- An export is refused, or its body is not missing a height of the range it
    accepted, whatever is written beside it. -/
def BulkDelivers {J : Codec} (R : RawReader J) (svc : Service) (storage : Chain → Storage)
    (query : List Char) : Prop :=
  ∀ as sys, (∀ a ∈ as, ActionOk (LawfulPut R) a) →
    Run.exec (step J svc) (System.start svc storage query) as = some sys →
    ∀ cause, sys.handler.phase = .ended cause →
      ∃ lines, sys.handler.frames = framesOf lines ∧
        sys.handler.range.fromHeight + lines.length = sys.handler.stop + 1

/-- Where an export is safe: no block is allowed, its end is before its start, too
    far from it or one no tip reaches; or it is safe from what the floor may be. -/
def BulkSafe (maxBlocks : Nat) (s : Storage) (range : Range) : Prop :=
  maxBlocks = 0 ∨
  (∃ e, range.toHeight = some e ∧
    (e < range.fromHeight ∨ u64Max ≤ e ∨ maxBlocks < e - range.fromHeight + 1)) ∨
  FloorSafe s range.fromHeight

/-- What is known while an export over `s` is being validated. -/
structure Checking {J : Codec} (R : RawReader J) (s : Storage) (hd : Handler)
    (s' : Storage) : Prop where
  lawful : LawfulStore R s'
  floor_le : s'.minHeight ≤ u64Max
  floors : ∀ floor, FloorOf s' floor → FloorOf s floor
  grown : Grows s s'
  min_read : hd.phase = .readContiguous → s.isEmpty = false → hd.min = s.minHeight

variable {J : Codec} {R : RawReader J} {s : Storage} {svc : Service} {range : Range}
  {storage : Chain → Storage} {query : List Char}

theorem Checking.put {hd : Handler} {s' : Storage} {p : Put} (h : Checking R s hd s')
    (hp : LawfulPut R p) :
    Checking R s hd (s'.put p.fault p.height p.hash p.txHashes p.elements).2 where
  lawful := h.lawful.put hp
  floor_le := minHeight_put_le h.floor_le hp.2
  floors floor hf := h.floors floor (floorOf_put hp.2 hf)
  grown := h.grown.trans (put_grows s' _ _ _ _ _)
  min_read := h.min_read

/-- A safe window that is accepted is stored. -/
theorem Checking.stored {maxBlocks : Nat} {hd : Handler} {s' : Storage} {stop : Nat}
    (h : Checking R s hd s') (hsafe : BulkSafe maxBlocks s range)
    (hphase : hd.phase = .readContiguous)
    (hw : Window maxBlocks range hd.min s'.maxContiguousHeight stop) :
    Stored R range stop s' := by
  have hlast := tip_lt h.lawful h.floor_le
  obtain ⟨hlo, hle, htip, hcount, hstop⟩ := hw
  refine ⟨h.lawful, ?_⟩
  rcases hsafe with hmax | ⟨e, he, hwhy⟩ | hfloors
  · omega
  · rw [he, Option.getD_some] at hstop
    omega
  have hexists : s'.isEmpty = false := by
    cases hst : s'.store with
    | some st => exact isEmpty_eq_false hst
    | none =>
        -- a tip of zero leaves the genesis alone, which is safe only where the store exists
        rw [Storage.maxContiguousHeight_of_none hst] at htip
        have hfloor : FloorOf s' (s'.anchor 0) := by
          simp only [FloorOf, hst]
          exact ⟨0, by decide, rfl⟩
        rcases hfloors _ (h.floors _ hfloor) with ⟨hold, -⟩ | ⟨-, hpos⟩
        · exact h.grown.isEmpty_eq hold
        · omega
  obtain ⟨st, hst⟩ := store_of_isEmpty hexists
  have hfloor : FloorOf s' st.minHeight := by simp only [FloorOf, hst]
  intro k hlok hhik
  rcases hfloors _ (h.floors _ hfloor) with ⟨hold, hlt⟩ | ⟨hle', hpos⟩
  · -- the floor that was read is the one of the store that existed already
    have hread := h.min_read hphase hold
    have hsame := h.grown.minHeight_eq hold
    rw [Storage.minHeight_of_store hst] at hsame
    omega
  · exact has_of_le_maxContiguous hst (by omega) (by omega) (Or.inl (by omega))

theorem discipline_checking {maxBlocks : Nat} (hsafe : BulkSafe maxBlocks s range) :
    Discipline J maxBlocks range (LawfulPut R) (Checking R s) (Stored R range) := by
  refine discipline_of_stored (fun hd s' p h hp => h.put hp) ?_ ?_
  · intro hd s' h _
    exact ⟨h.lawful, h.floor_le, h.floors, h.grown, fun _ hold => h.grown.minHeight_eq hold⟩
  · intro hd s' stop h hphase hwin
    have hlast := tip_lt h.lawful h.floor_le
    exact ⟨hlast, h.stored hsafe hphase (window_of_decideWindow hlast hwin)⟩

/-- A safe export delivers what it accepts. -/
theorem bulkDelivers_of_safe
    (h : ∀ range chain, Names svc query range chain → Windowless R (storage chain))
    (hsafe : ∀ range chain, Names svc query range chain →
      BulkSafe svc.maxBlocks (storage chain) range) :
    BulkDelivers R svc storage query := by
  intro as sys hputs hrun cause hphase
  by_cases hany : ∃ range chain, Names svc query range chain
  · obtain ⟨range, chain, hnames⟩ := hany
    have hw := h range chain hnames
    have hinit : Request chain range (Checking R (storage chain)) (Stored R range)
        (System.start svc storage query) := by
      simp only [System.start, hnames.start]
      refine ⟨rfl, rfl, ⟨hw.lawful, hw.floor_le, fun _ hf => hf, Grows.refl _, ?_⟩, rfl⟩
      intro hp
      cases hp
    obtain ⟨-, hrange, hserve⟩ :=
      Request.run (discipline_checking (hsafe range chain hnames)) hinit hputs hrun
    simp only [NeveBulk.Serving, hphase] at hserve
    rw [hrange]
    exact hserve.2
  · have hnone : ∀ range chain, ¬ Names svc query range chain :=
      fun range chain hn => hany ⟨range, chain, hn⟩
    obtain ⟨message, hstart⟩ := start_of_not_names hnone
    have hfin : (System.start svc storage query).handler.phase.finished = true := by
      simp only [System.start, hstart, NeveBulk.refusing, NeveBulk.Phase.finished]
    rw [NeveBulk.handler_of_finished hfin hrun] at hphase
    simp only [System.start, hstart, NeveBulk.refusing] at hphase
    cases hphase

end Bulk

/-! ## Writers that spoil a request -/

/-- A block with no derived data, at a height. -/
def fillPut (chain : Chain) (height : Nat) : Put :=
  ⟨.none, height, Vector.replicate 32 0, [], List.replicate (arity chain) EMPTY_ARRAY⟩

/-- A first put whose block write fails: it leaves the store created. -/
def openPut (chain : Chain) (height : Nat) : Put :=
  { fillPut chain height with fault := .write }

/-- The store after some puts. -/
def writeAll (s : Storage) (puts : List Put) : Storage :=
  puts.foldl (fun s p => (s.put p.fault p.height p.hash p.txHashes p.elements).2) s

section Writers

variable {J : Codec} {R : RawReader J} {s : Storage}

theorem isValue_replicate (R : RawReader J) (n : Nat) :
    ∀ e ∈ List.replicate n EMPTY_ARRAY, R.IsValue e := by
  intro e he
  rw [(List.mem_replicate.mp he).2]
  have hnone : ∀ e ∈ ([] : List Bytes), R.IsValue e := fun e he => (by cases he)
  exact R.isValue_join hnone

theorem lawfulPut_fill (R : RawReader J) (chain : Chain) {height : Nat} (h : height < u64Max) :
    LawfulPut R (fillPut chain height) := ⟨isValue_replicate R _, h⟩

theorem lawfulPut_open (R : RawReader J) (chain : Chain) {height : Nat} (h : height < u64Max) :
    LawfulPut R (openPut chain height) := ⟨isValue_replicate R _, h⟩

/-- A first put that fails to write creates the store at its anchor. -/
theorem writeAll_open (hnone : s.store = none) (height : Nat) :
    writeAll s [openPut s.chain height]
      = { s with store := some (Store.create s.blockdb (s.anchor height)) } := by
  have hlen : ¬ (List.replicate (arity s.chain) EMPTY_ARRAY).length ≠ arity s.chain := by
    rw [List.length_replicate]
    exact not_not.mpr rfl
  show (s.put .write height _ [] (List.replicate (arity s.chain) EMPTY_ARRAY)).2 = _
  simp only [Storage.put]
  rw [if_neg hlen]
  simp only [Storage.putBlock, hnone, Storage.openStore, Option.isNone_none, Option.getD_none]
  rfl

theorem writeAll_append (s : Storage) (ps qs : List Put) :
    writeAll s (ps ++ qs) = writeAll (writeAll s ps) qs := List.foldl_append ..

theorem lawfulStore_writeAll {puts : List Put} (h : LawfulStore R s)
    (hputs : ∀ p ∈ puts, LawfulPut R p) : LawfulStore R (writeAll s puts) := by
  induction puts generalizing s with
  | nil => exact h
  | cons p rest ih =>
      exact ih (h.put (hputs p (List.mem_cons_self ..)))
        fun q hq => hputs q (List.mem_cons_of_mem _ hq)

theorem minHeight_writeAll_le {puts : List Put} (h : s.minHeight ≤ u64Max)
    (hputs : ∀ p ∈ puts, LawfulPut R p) : (writeAll s puts).minHeight ≤ u64Max := by
  induction puts generalizing s with
  | nil => exact h
  | cons p rest ih =>
      exact ih (minHeight_put_le h (hputs p (List.mem_cons_self ..)).2)
        fun q hq => hputs q (List.mem_cons_of_mem _ hq)

/-- Puts store the heights they are asked for, and no others. -/
theorem has_writeAll {heights : List Nat} {chain : Chain} {k : Nat}
    (h : (writeAll s (heights.map (fillPut chain))).Has k) : k ∈ heights ∨ s.Has k := by
  induction heights generalizing s with
  | nil => exact Or.inr h
  | cons height rest ih =>
      rcases ih h with hrest | hfirst
      · exact Or.inl (List.mem_cons_of_mem _ hrest)
      · rcases has_put hfirst with rfl | hold
        · exact Or.inl (List.mem_cons_self ..)
        · exact Or.inr hold

/-- Filling heights from the floor on stores each of them. -/
theorem writeAll_fill {st : Store} (hst : s.store = some st) {heights : List Nat}
    (h : ∀ k ∈ heights, st.minHeight ≤ k) :
    Grows s (writeAll s (heights.map (fillPut s.chain))) ∧
      ∀ k ∈ heights, (writeAll s (heights.map (fillPut s.chain))).Has k := by
  induction heights generalizing s st with
  | nil => exact ⟨Grows.refl s, fun k hk => (by cases hk)⟩
  | cons height rest ih =>
      have hg := put_grows s .none height (Vector.replicate 32 0) []
        (List.replicate (arity s.chain) EMPTY_ARRAY)
      have hhas : (s.put .none height (Vector.replicate 32 0) []
          (List.replicate (arity s.chain) EMPTY_ARRAY)).2.Has height := by
        rw [Storage.has_iff_rawAt, ← Option.isSome_iff_exists]
        refine Storage.rawAt_put_of_writable ⟨List.length_replicate, ?_, ?_, ?_⟩ _ _
        · intro hf
          cases hf
        · intro hf
          cases hf
        · simp only [Storage.openStore, hst, Option.getD_some]
          exact h height (List.mem_cons_self ..)
      obtain ⟨st', hst', hmin⟩ := hg.minHeight st hst
      have hrest := ih hst' fun k hk => hmin.trans_le (h k (List.mem_cons_of_mem _ hk))
      rw [hg.chain] at hrest
      obtain ⟨hgrow, hall⟩ := hrest
      refine ⟨hg.trans hgrow, ?_⟩
      intro k hk
      rcases List.mem_cons.mp hk with rfl | hk
      · exact hgrow.has _ hhas
      · exact hall k hk

/-- With everything from the floor, or from height one, to a height stored, the tip is
    there. -/
theorem le_tip_of_filled {st : Store} {e : Nat} (hst : s.store = some st)
    (h : ∀ k, max 1 st.minHeight ≤ k → k ≤ e → s.Has k) :
    e ≤ s.maxContiguousHeight := by
  have hgap := st.isFirstGap_frontier
  have hle := hgap.le
  rw [Storage.maxContiguousHeight_of_store hst]
  by_contra hlt
  obtain ⟨st', hst', hhas⟩ := h (st.maxContiguousHeight + 1) (by omega) (by omega)
  rw [hst, Option.some.injEq] at hst'
  exact hgap.gap (hst' ▸ hhas)

/-- A store that exists can be filled up to any height without the genesis. -/
theorem exists_fill (R : RawReader J) {st : Store} (hst : s.store = some st) {e : Nat}
    (he : e < u64Max) :
    ∃ puts, (∀ p ∈ puts, LawfulPut R p) ∧ Grows s (writeAll s puts) ∧
      e ≤ (writeAll s puts).maxContiguousHeight ∧
      ∀ k, (writeAll s puts).Has k → 0 < k ∨ s.Has k := by
  have hfrom : ∀ k ∈ List.range' (max 1 st.minHeight) (e + 1 - max 1 st.minHeight),
      st.minHeight ≤ k := by
    intro k hk
    have := List.mem_range'_1.mp hk
    omega
  obtain ⟨hgrow, hall⟩ := writeAll_fill hst hfrom
  refine ⟨_, ?_, hgrow, ?_, ?_⟩
  · intro p hp
    obtain ⟨k, hk, rfl⟩ := List.mem_map.mp hp
    have := List.mem_range'_1.mp hk
    exact lawfulPut_fill R s.chain (by omega)
  · obtain ⟨st', hst', hmin⟩ := hgrow.minHeight _ hst
    refine le_tip_of_filled hst' ?_
    intro k hlo hhi
    rw [hmin] at hlo
    exact hall k (List.mem_range'_1.mpr (by omega))
  · intro k hk
    rcases has_writeAll hk with hmem | hold
    · have := List.mem_range'_1.mp hmem
      exact Or.inl (by omega)
    · exact Or.inr hold

/-- A store that was never created can be created at any floor a first put gives
    it, and filled up to any height without the genesis. -/
theorem exists_writers (R : RawReader J) (hnone : s.store = none) {height e : Nat}
    (hheight : height < u64Max) (he : e < u64Max) :
    ∃ puts, (∀ p ∈ puts, LawfulPut R p) ∧ (writeAll s puts).isEmpty = false ∧
      e ≤ (writeAll s puts).maxContiguousHeight ∧
      ∀ k, (writeAll s puts).Has k → 0 < k ∧ s.anchor height ≤ k := by
  have hopen := writeAll_open hnone height
  generalize hs1 : writeAll s [openPut s.chain height] = s1 at hopen
  have hst1 : s1.store = some (Store.create s.blockdb (s.anchor height)) := by rw [hopen]
  obtain ⟨puts, hputs, hgrow, htip, hhas⟩ := exists_fill R hst1 he
  refine ⟨openPut s.chain height :: puts, ?_⟩
  rw [← List.singleton_append, writeAll_append, hs1]
  have hcreated := isEmpty_eq_false hst1
  refine ⟨?_, hgrow.isEmpty_eq hcreated, htip, ?_⟩
  · intro p hp
    rcases List.mem_cons.mp hp with rfl | hp
    · exact lawfulPut_open R s.chain hheight
    · exact hputs p hp
  · intro k hk
    refine ⟨?_, ?_⟩
    · refine (hhas k hk).resolve_right ?_
      rintro ⟨st, hst, hold⟩
      rw [hst1, Option.some.injEq] at hst
      exact Store.not_has_create _ _ _ (hst ▸ hold)
    · obtain ⟨st, hst, hmin⟩ := hgrow.minHeight _ hst1
      obtain ⟨st', hst', hk'⟩ := hk
      rw [hst, Option.some.injEq] at hst'
      have := Store.min_le_of_has (hst' ▸ hk')
      rwa [hmin, Store.minHeight_create] at this

/-- **Writers that spoil a range that is not safe**: the floor that is read is not above
    its start, then the store is filled up to any height, and its start stays missing. -/
theorem exists_missing (h : Windowless R s) {start : Nat} (hnot : ¬ FloorSafe s start) :
    s.minHeight ≤ start ∧ start < u64Max ∧ ∀ e, e < u64Max →
      ∃ puts, (∀ p ∈ puts, LawfulPut R p) ∧ (writeAll s puts).isEmpty = false ∧
        e ≤ (writeAll s puts).maxContiguousHeight ∧ ¬ (writeAll s puts).Has start := by
  obtain ⟨floor, hfloor, hbad⟩ : ∃ floor, FloorOf s floor ∧
      ¬ ((s.isEmpty = false ∧ start < floor) ∨ (floor ≤ start ∧ 0 < start)) := by
    by_contra hnone
    exact hnot fun floor hf => by_contra fun hb => hnone ⟨floor, hf, hb⟩
  obtain ⟨hexists, hgenesis⟩ := not_or.mp hbad
  cases hst : s.store with
  | some st =>
      -- the genesis, asked for of a store whose floor it is
      have hcreated := isEmpty_eq_false hst
      simp only [FloorOf, hst] at hfloor
      have hmin := Storage.minHeight_of_store hst
      have hle : floor ≤ start := Nat.le_of_not_lt fun hlt => hexists ⟨hcreated, hlt⟩
      have hzero : start = 0 := Nat.eq_zero_of_not_pos fun hpos => hgenesis ⟨hle, hpos⟩
      have hnot : ¬ s.Has 0 := by
        have hno := h.no_floor
        rwa [show s.minHeight = 0 by omega] at hno
      refine ⟨by omega, by rw [hzero]; decide, ?_⟩
      intro e he
      obtain ⟨puts, hputs, hgrow, htip, hhas⟩ := exists_fill R hst he
      refine ⟨puts, hputs, hgrow.isEmpty_eq hcreated, htip, ?_⟩
      rw [hzero]
      exact fun h0 => (hhas 0 h0).elim (Nat.lt_irrefl 0) hnot
  | none =>
      simp only [FloorOf, hst] at hfloor
      obtain ⟨height, hheight, rfl⟩ := hfloor
      have hanchor := s.anchor_le height
      have hmin : s.minHeight = 0 := by
        simp only [Storage.minHeight, hst, Option.map_none, Option.getD_none]
      refine ⟨by omega, ?_, ?_⟩
      · by_contra hge
        exact hgenesis ⟨by omega, by omega⟩
      · intro e he
        obtain ⟨puts, hputs, hcreated, htip, hhas⟩ := exists_writers R hst hheight he
        refine ⟨puts, hputs, hcreated, htip, ?_⟩
        intro hstart
        obtain ⟨hpos, hle⟩ := hhas start hstart
        exact hgenesis ⟨hle, hpos⟩

end Writers

/-! ## What is not safe goes wrong -/

section SubscribeConverse

open NeveRangeReplay (Request Handler System Action ActionOk step handlerStep)

variable {J : Codec} {R : RawReader J} {s : Storage} {req : Request} {start : Nat}

theorem exec_puts (J : Codec) (req : Request) (s : Storage) (hd : Handler) (puts : List Put) :
    Run.exec (step J req) ⟨s, hd⟩ (puts.map .put) = some ⟨writeAll s puts, hd⟩ := by
  induction puts generalizing s with
  | nil => rfl
  | cons p rest ih => exact ih _

theorem readStored_of_not_has (J : Codec) (kind : ReplayKind) {k : Nat} (h : ¬ s.Has k) :
    readStored J kind s k = .ok none := by
  cases kind with
  | oldBlocks =>
      refine (s.getByHeight_eq_none_iff J k).mpr ?_
      rw [← Option.not_isSome_iff_eq_none, Option.isSome_iff_exists]
      exact fun hraw => h (Storage.has_iff_rawAt.mpr hraw)
  | oldRecords => exact congrArg Except.ok (getRecord_of_not_has h)

/-- A handler that read a floor it should not trust accepts, and closes on its
    first height. -/
theorem exec_accept_missing {min contig : Nat} (hcreated : s.isEmpty = false)
    (hmin : min ≤ start) (htip : start ≤ req.toHeight.getD s.maxContiguousHeight)
    (hto : ∀ e, req.toHeight = some e → e ≤ s.maxContiguousHeight) (hno : ¬ s.Has start) :
    Run.exec (step J req) ⟨s, .readContig, min, contig, start, []⟩ (List.replicate 4 .handler)
      = some ⟨s, .closed .missing, min, s.maxContiguousHeight, start, []⟩ := by
  have hdecide : NeveRangeReplay.decideRange start req.toHeight min s.maxContiguousHeight
      = .readTarget := by
    rcases NeveRangeReplay.decideRange_cases start req.toHeight min s.maxContiguousHeight with
      ⟨heq, -, -⟩ | ⟨-, hlt | ⟨e, he, hwhy⟩⟩
    · exact heq
    · omega
    · have := hto e he
      rw [he, Option.getD_some] at htip
      omega
  have hempty : step J req ⟨s, .readEmpty, min, s.maxContiguousHeight, start, []⟩ .handler
      = some ⟨s, .readTarget, min, s.maxContiguousHeight, start, []⟩ := by
    simp only [step, handlerStep, hcreated, if_neg Bool.false_ne_true, hdecide]
  have htarget : step J req ⟨s, .readTarget, min, s.maxContiguousHeight, start, []⟩ .handler
      = some ⟨s, .readBlock, min, s.maxContiguousHeight, start, []⟩ := by
    simp only [step, handlerStep, if_neg (Nat.not_lt.mpr htip)]
  have hblock : step J req ⟨s, .readBlock, min, s.maxContiguousHeight, start, []⟩ .handler
      = some ⟨s, .closed .missing, min, s.maxContiguousHeight, start, []⟩ := by
    simp only [step, handlerStep, readStored_of_not_has J req.kind hno]
  exact Run.exec_step rfl (Run.exec_step hempty (Run.exec_step htarget
    (Run.exec_step hblock (Run.exec_nil _))))

theorem actionOk_puts {puts : List Put} (h : ∀ p ∈ puts, LawfulPut R p) :
    ∀ a ∈ puts.map Action.put, ActionOk (LawfulPut R) a := by
  intro a ha
  obtain ⟨p, hp, rfl⟩ := List.mem_map.mp ha
  exact h p hp

/-- A subscription that ends on a missing height does not deliver. -/
theorem not_delivers_of_run {as : List Action} {s' : Storage} {min contig : Nat}
    (hok : ∀ a ∈ as, ActionOk (LawfulPut R) a)
    (hrun : Run.exec (step J req) (System.start s req) as
      = some ⟨s', .readContig, min, contig, start, []⟩)
    (hcreated : s'.isEmpty = false) (hmin : min ≤ start)
    (htip : start ≤ req.toHeight.getD s'.maxContiguousHeight)
    (hto : ∀ e, req.toHeight = some e → e ≤ s'.maxContiguousHeight)
    (hno : ¬ s'.Has start) : ¬ SubscribeDelivers R s req := by
  intro hdel
  have hend := Run.exec_trans hrun
    (exec_accept_missing hcreated hmin htip hto hno)
  have hall : ∀ a ∈ as ++ List.replicate 4 Action.handler, ActionOk (LawfulPut R) a := by
    intro a ha
    rcases List.mem_append.mp ha with ha | ha
    · exact hok a ha
    · rw [(List.mem_replicate.mp ha).2]
      exact trivial
  have hcause := (hdel _ _ hall hend .missing rfl).1
  cases hcause

/-- A subscription that is not safe does not always deliver. -/
theorem safe_of_subscribeDelivers (h : Windowless R s) (hdel : SubscribeDelivers R s req)
    (hfrom : req.fromHeight = some start) : SubscribeSafe s start req.toHeight := by
  have hstart : System.start s req = ⟨s, .readMin, 0, 0, start, []⟩ := by
    simp only [System.start, Handler.start, hfrom]
  by_contra hnot
  obtain ⟨hends, hfloors⟩ := not_or.mp hnot
  have hends : ∀ e, req.toHeight = some e → start ≤ e ∧ e < u64Max := by
    intro e he
    by_contra hwhy
    exact hends ⟨e, he, by omega⟩
  have hasked : req.toHeight.getD start < u64Max := by
    cases ht : req.toHeight with
    | none => exact (exists_missing h hfloors).2.1
    | some e => exact (hends e ht).2
  -- the floor is read first, the tip once the store is filled
  obtain ⟨hmin, -, hfill⟩ := exists_missing h hfloors
  obtain ⟨puts, hputs, hcreated, htip, hno⟩ := hfill _ hasked
  have hrun : Run.exec (step J req) (System.start s req) (.handler :: puts.map .put)
      = some ⟨writeAll s puts, .readContig, s.minHeight, 0, start, []⟩ := by
    rw [hstart]
    exact Run.exec_step rfl (exec_puts J req s _ puts)
  refine not_delivers_of_run ?_ hrun hcreated hmin ?_ ?_ hno hdel
  · intro a ha
    rcases List.mem_cons.mp ha with rfl | ha
    · exact trivial
    · exact actionOk_puts hputs a ha
  · cases ht : req.toHeight with
    | none =>
        rw [ht, Option.getD_none] at htip
        exact htip
    | some e => exact (hends e ht).1
  · intro e he
    rw [he, Option.getD_some] at htip
    exact htip

end SubscribeConverse

section BulkConverse

open NeveBulk (Range Service Handler System Action ActionOk step handlerStep Names Window framesOf
  decideWindow decideWindow_of_window)

variable {J : Codec} {R : RawReader J} {svc : Service} {range : Range} {chain : Chain}
  {storage : Chain → Storage} {query : List Char}

theorem exec_bulk_puts (J : Codec) (svc : Service) (storage : Chain → Storage) (hd : Handler)
    (chain : Chain) (puts : List Put) :
    Run.exec (step J svc) ⟨storage, hd⟩ (puts.map (.put chain))
      = some ⟨Function.update storage chain (writeAll (storage chain) puts), hd⟩ := by
  induction puts generalizing storage with
  | nil =>
      show some _ = some (System.mk (Function.update storage chain (storage chain)) hd)
      rw [Function.update_eq_self]
  | cons p rest ih =>
      have hrest := ih (Function.update storage chain
        ((storage chain).put p.fault p.height p.hash p.txHashes p.elements).2)
      rw [Function.update_self, Function.update_idem] at hrest
      exact hrest

/-- An export that read a floor it should not trust accepts, and truncates on its
    first height. -/
theorem exec_window_missing {min stop : Nat} {contiguous height last : Nat}
    (hbound : (storage chain).maxContiguousHeight < u64Max)
    (hw : Window svc.maxBlocks range min (storage chain).maxContiguousHeight stop)
    (hno : ¬ (storage chain).Has range.fromHeight) :
    Run.exec (step J svc)
        ⟨storage, .readContiguous, chain, range, min, contiguous, height, last, []⟩
        [.handler, .handler]
      = some ⟨storage, .ended .missing, chain, range, min,
          (storage chain).maxContiguousHeight, range.fromHeight, stop, []⟩ := by
  have haccept : step J svc
      ⟨storage, .readContiguous, chain, range, min, contiguous, height, last, []⟩ .handler
      = some ⟨storage, .block, chain, range, min, (storage chain).maxContiguousHeight,
          range.fromHeight, stop, []⟩ := by
    simp only [step, handlerStep, decideWindow_of_window hbound hw]
  have hread : (storage chain).getByHeight J range.fromHeight = .ok none :=
    readStored_of_not_has J .oldBlocks hno
  have hblock : step J svc ⟨storage, .block, chain, range, min,
      (storage chain).maxContiguousHeight, range.fromHeight, stop, []⟩ .handler
      = some ⟨storage, .ended .missing, chain, range, min,
          (storage chain).maxContiguousHeight, range.fromHeight, stop, []⟩ := by
    simp only [step, handlerStep, if_neg (Nat.not_lt.mpr hw.le_stop), hread]
  exact Run.exec_step haccept (Run.exec_step hblock (Run.exec_nil _))

/-- An export that is truncated at once does not deliver. -/
theorem not_bulkDelivers_of_run {as : List Action} {storage' : Chain → Storage}
    {min stop contiguous height last : Nat} (hok : ∀ a ∈ as, ActionOk (LawfulPut R) a)
    (hrun : Run.exec (step J svc) (System.start svc storage query) as
      = some ⟨storage', .readContiguous, chain, range, min, contiguous, height, last, []⟩)
    (hbound : (storage' chain).maxContiguousHeight < u64Max)
    (hw : Window svc.maxBlocks range min (storage' chain).maxContiguousHeight stop)
    (hno : ¬ (storage' chain).Has range.fromHeight) : ¬ BulkDelivers R svc storage query := by
  intro hdel
  have hend := Run.exec_trans hrun (exec_window_missing hbound hw hno)
  have hall : ∀ a ∈ as ++ [Action.handler, .handler], ActionOk (LawfulPut R) a := by
    intro a ha
    rcases List.mem_append.mp ha with ha | ha
    · exact hok a ha
    · rw [List.mem_pair] at ha
      rcases ha with rfl | rfl
      · exact trivial
      · exact trivial
  obtain ⟨lines, hframes, hlen⟩ := hdel _ _ hall hend .missing rfl
  have hnil : lines = [] := by
    cases lines with
    | nil => rfl
    | cons line rest => cases hframes
  rw [hnil, List.length_nil] at hlen
  have := hw.le_stop
  dsimp only at hlen
  omega

/-- A window a request not refused by its own numbers gets over a given tip. -/
theorem window_of_tip {maxBlocks lowest tip : Nat} (hmax : maxBlocks ≠ 0)
    (hends : ∀ e, range.toHeight = some e →
      range.fromHeight ≤ e ∧ e - range.fromHeight + 1 ≤ maxBlocks)
    (hlo : lowest ≤ range.fromHeight) (htip : range.toHeight.getD range.fromHeight ≤ tip) :
    ∃ stop, Window maxBlocks range lowest tip stop := by
  cases ht : range.toHeight with
  | none =>
      rw [ht, Option.getD_none] at htip
      refine ⟨min (range.fromHeight + maxBlocks - 1) tip, hlo, ?_, ?_, ?_, by rw [ht]; rfl⟩
      · omega
      · omega
      · omega
  | some e =>
      rw [ht, Option.getD_some] at htip
      obtain ⟨hle, hcount⟩ := hends e ht
      exact ⟨e, hlo, hle, htip, hcount, by rw [ht]; rfl⟩

/-- An export that is not safe does not always deliver. -/
theorem safe_of_bulkDelivers (hnames : Names svc query range chain)
    (h : Windowless R (storage chain)) (hdel : BulkDelivers R svc storage query) :
    BulkSafe svc.maxBlocks (storage chain) range := by
  have hstart : System.start svc storage query
      = ⟨storage, .readMin, chain, range, 0, 0, 0, 0, []⟩ := by
    simp only [System.start, hnames.start]
  by_contra hnot
  obtain ⟨hmax, hrest⟩ := not_or.mp hnot
  obtain ⟨hends, hrest⟩ := not_or.mp hrest
  have hends : ∀ e, range.toHeight = some e → range.fromHeight ≤ e ∧ e < u64Max ∧
      e - range.fromHeight + 1 ≤ svc.maxBlocks := by
    intro e he
    by_contra hwhy
    exact hends ⟨e, he, by omega⟩
  have hshort : ∀ e, range.toHeight = some e →
      range.fromHeight ≤ e ∧ e - range.fromHeight + 1 ≤ svc.maxBlocks :=
    fun e he => ⟨(hends e he).1, (hends e he).2.2⟩
  have hasked : range.toHeight.getD range.fromHeight < u64Max := by
    cases ht : range.toHeight with
    | none => exact (exists_missing h hrest).2.1
    | some e => exact (hends e ht).2.1
  -- the floor is read first, the tip once the store is filled
  obtain ⟨hmin, -, hfill⟩ := exists_missing h hrest
  obtain ⟨puts, hputs, -, htip, hno⟩ := hfill _ hasked
  have hlawful := lawfulStore_writeAll h.lawful hputs
  have hrun : Run.exec (step J svc) (System.start svc storage query)
      (.handler :: puts.map (.put chain))
      = some ⟨Function.update storage chain (writeAll (storage chain) puts),
          .readContiguous, chain, range, (storage chain).minHeight, 0, 0, 0, []⟩ := by
    rw [hstart]
    exact Run.exec_step rfl (exec_bulk_puts J svc storage _ chain puts)
  obtain ⟨stop, hw⟩ := window_of_tip hmax hshort hmin htip
  have hself : Function.update storage chain (writeAll (storage chain) puts) chain
      = writeAll (storage chain) puts := Function.update_self ..
  refine not_bulkDelivers_of_run ?_ hrun ?_ (hself.symm ▸ hw) (hself.symm ▸ hno) hdel
  · intro a ha
    rcases List.mem_cons.mp ha with rfl | ha
    · exact trivial
    · obtain ⟨p, hp, rfl⟩ := List.mem_map.mp ha
      exact hputs p hp
  · rw [hself]
    exact tip_lt hlawful (minHeight_writeAll_le h.floor_le hputs)

end BulkConverse

/-! ## Exactly where range requests are safe -/

section Exact

variable {J : Codec}

/-- **A range request over a store with no window delivers what it accepts exactly
    where it is safe**, over both endpoints and every interleaving with puts. -/
theorem delivers_iff (R : RawReader J) :
    (∀ s req, Windowless R s →
      (req.kind = .oldRecords → ∀ k, ¬ IsBare s k) →
      (SubscribeDelivers R s req ↔
        ∀ start, req.fromHeight = some start → SubscribeSafe s start req.toHeight)) ∧
    (∀ svc storage query,
      (∀ range chain, NeveBulk.Names svc query range chain → Windowless R (storage chain)) →
      (BulkDelivers R svc storage query ↔
        ∀ range chain, NeveBulk.Names svc query range chain →
          BulkSafe svc.maxBlocks (storage chain) range)) := by
  refine ⟨?_, ?_⟩
  · intro s req h hrecords
    constructor
    · intro hdel start hfrom
      exact safe_of_subscribeDelivers h hdel hfrom
    · exact subscribeDelivers_of_safe h ⟨h.lawful, hrecords⟩
  · intro svc storage query h
    constructor
    · intro hdel range chain hnames
      exact safe_of_bulkDelivers hnames (h range chain hnames) hdel
    · exact bulkDelivers_of_safe h

end Exact

theorem windowless_fresh {J : Codec} (R : RawReader J) (blockdb : Blockdb) (chain : Chain)
    (anchorFloor : Option Nat) : Windowless R (Storage.fresh blockdb chain anchorFloor) where
  lawful := lawfulStore_fresh blockdb chain anchorFloor
  no_floor := by
    rintro ⟨st, hst, -⟩
    cases hst
  floor_le := Nat.zero_le _

/-- Anchored at height 3, a subscription from height 5 on is safe before anything
    is stored; an export of the genesis is not. -/
theorem delivers_iff_anchored :
    SubscribeDelivers JsonText.spacedReader (Storage.fresh memory .C (some 3))
        ⟨.oldBlocks, some 5, some 10⟩ ∧
      ¬ BulkDelivers JsonText.spacedReader ⟨[.C], 10⟩
        (fun _ => Storage.fresh memory .C (some 3)) "from=0".toList := by
  obtain ⟨hsubscribe, hbulk⟩ := delivers_iff JsonText.spacedReader
  constructor
  · refine (hsubscribe _ _ (windowless_fresh _ _ _ _) (fun hk => (by cases hk))).mpr ?_
    intro start hfrom
    obtain rfl := Option.some.inj hfrom
    refine Or.inr ?_
    rintro floor ⟨height, -, rfl⟩
    refine Or.inr ⟨?_, by decide⟩
    simp only [Storage.anchor, Storage.fresh]
    by_cases hle : 3 ≤ height
    · rw [Option.filter_some, if_pos (decide_eq_true hle), Option.getD_some]
      decide
    · rw [Option.filter_some, if_neg (by simpa using hle), Option.getD_none]
      omega
  · intro hdel
    have hsafe := (hbulk _ _ _ fun _ _ _ => windowless_fresh _ _ _ _).mp hdel
      ⟨0, none, none⟩ .C ⟨rfl, rfl⟩
    rcases hsafe with hmax | ⟨e, he, -⟩ | hfloors
    · cases hmax
    · cases he
    · rcases hfloors _ ⟨0, by decide, rfl⟩ with ⟨hcreated, -⟩ | ⟨-, hpos⟩
      · cases hcreated
      · cases hpos

/-- Before anything is stored, an export from height 0 answers 200 with an empty
    body; and a subscription for the genesis that reads the floor and the tip
    before a first block is stored at height 100 closes with nothing sent. -/
theorem delivers_fails_uncreated :
    ¬ BulkDelivers JsonText.spacedReader ⟨[.C], 10⟩ (fun _ => Storage.fresh memory .C none)
        "from=0".toList ∧
      ¬ SubscribeDelivers JsonText.spacedReader (Storage.fresh memory .C none)
        ⟨.oldBlocks, some 0, some 0⟩ := by
  constructor
  · intro hdel
    have hok : ∀ a ∈ List.replicate 3 NeveBulk.Action.handler,
        NeveBulk.ActionOk (LawfulPut JsonText.spacedReader) a := by
      intro a ha
      rw [(List.mem_replicate.mp ha).2]
      exact trivial
    obtain ⟨lines, hframes, hlen⟩ := hdel _ _ hok rfl .missing rfl
    have hnil : lines = [] := by
      cases lines with
      | nil => rfl
      | cons line rest => cases hframes
    rw [hnil] at hlen
    cases hlen
  · intro hdel
    have hok : ∀ a ∈ [NeveRangeReplay.Action.handler, .handler,
        .put (NeveRangeReplay.samplePut 100), .handler, .handler, .handler],
        NeveRangeReplay.ActionOk (LawfulPut JsonText.spacedReader) a := by
      intro a ha
      simp only [List.mem_cons, List.not_mem_nil, or_false] at ha
      rcases ha with rfl | rfl | rfl | rfl | rfl | rfl
      case inr.inr.inl => exact NeveRangeReplay.lawfulPut_sample (by decide)
      all_goals exact trivial
    have hcause := (hdel _ _ hok rfl .missing rfl).1
    cases hcause

end NeveEmptyWindow
