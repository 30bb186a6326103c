import Neve.RangeReplayProofs

/-! # Replaying records — contiguity is not enough

    A request for whole records is validated like one for blocks, on the
    contiguous tip.  A height of the old layout counts there and has no record,
    so an accepted range that holds one ends early, and the subscriber cannot
    tell.  The other height that counts and has no record is a genesis that was
    never stored: the tip of a store with a minimum of zero starts at zero and
    moves on over height one without it.  Over a store at rest, a fixed range is
    refused or delivered whole exactly when each height of a range that would be
    accepted holds a combined record (`servesRecords_iff`). -/

namespace NeveOldRecords

open JsonValue ByteText FirstGap NeveRecord NeveStorage NeveStorageMap NeveFrontier
open NeveRangeReplay

/-- A request for the whole records of a fixed range. -/
def recordsRequest (start e : Nat) : Request := ⟨.oldRecords, some start, some e⟩

/-- The request is refused, or every record of its range is delivered, once the
    handler has had enough turns. -/
def ServesRecords (J : Codec) (s : Storage) (start e : Nat) : Prop :=
  ∀ n sys, 2 * (e + 1 - start) + 4 ≤ n →
    Run.exec (step J (recordsRequest start e)) (System.start s (recordsRequest start e))
      (List.replicate n .handler) = some sys →
    sys.handler.phase.isRejected = true ∨
      (sys.handler.phase = .closed .caughtUp ∧
        (List.range' start (e + 1 - start)).map s.getRecord = sys.handler.sent.map some)

/-- Height `k` is a block of the old layout. -/
def IsBare (s : Storage) (k : Nat) : Prop :=
  ∃ raw, s.rawAt k = some raw ∧ isBareBlock raw = true

/-- Where the range is one the handler accepts, each of its heights holds a combined
    record: it is stored, and not as a bare block. -/
def AllRecords (s : Storage) (start e : Nat) : Prop :=
  s.isEmpty = false → s.minHeight ≤ start → start ≤ e → e ≤ s.maxContiguousHeight →
    ∀ k, start ≤ k → k ≤ e → s.Has k ∧ ¬ IsBare s k

section Lemmas

variable {J : Codec} {R : RawReader J} {s : Storage} {start e : Nat}

/-- A height of the combined layout always gives its record. -/
theorem deliverable_record (h : LawfulStore R s) {k : Nat} (hhas : s.Has k)
    (hbare : ¬ IsBare s k) : Deliverable J .oldRecords s k := by
  refine ⟨h.bounded k hhas, ?_⟩
  obtain ⟨M, hM⟩ := h.readable
  obtain ⟨raw, hraw⟩ := Storage.has_iff_rawAt.mp hhas
  have hk := hM k
  rw [hraw] at hk
  generalize M k = elements at hk
  cases hk with
  | legacy _ e hl => exact absurd ⟨raw, hraw, isBareBlock_of_legacy hl⟩ hbare
  | combined es hlen hval =>
      refine ⟨encode es, ?_, R.rawValue_self (R.isValue_join hval)⟩
      show Except.ok (s.getRecord k) = _
      rw [Storage.getRecord_eq, hraw]
      rfl

theorem getRecord_of_bare {k : Nat} (h : IsBare s k) : s.getRecord k = none := by
  obtain ⟨raw, hraw, hbare⟩ := h
  rw [Storage.getRecord_eq, hraw, Option.filter_some, isCombinedRecord, hbare]
  rfl

theorem getRecord_of_not_has {k : Nat} (h : ¬ s.Has k) : s.getRecord k = none := by
  have hnone : s.rawAt k = none := by
    rw [← Option.not_isSome_iff_eq_none, Option.isSome_iff_exists]
    exact fun hraw => h (Storage.has_iff_rawAt.mpr hraw)
  rw [Storage.getRecord_eq, hnone]
  rfl

/-- The store is at rest, and what the handler read of it is still so. -/
def AtRest (s : Storage) (hd : Handler) (s' : Storage) : Prop :=
  s' = s ∧ (hd.phase ≠ .readMin → hd.min = s.minHeight) ∧
    (hd.phase = .readEmpty → hd.contig = s.maxContiguousHeight)

/-- Under the condition, the discipline of a replay over a store at rest. -/
theorem discipline_atRest (h : LawfulStore R s) (hall : AllRecords s start e) :
    Discipline J (recordsRequest start e) start (fun _ => False) (AtRest s)
      (fun s' => s' = s ∧ ∀ k, start ≤ k → k ≤ e → Deliverable J .oldRecords s k) where
  valid_put _ _ _ _ hno := hno.elim
  servable_put _ _ _ hno := hno.elim
  valid_min hd s' hv _ := by
    obtain ⟨rfl, -, -⟩ := hv
    exact ⟨rfl, fun _ => rfl, fun hp => (by cases hp)⟩
  valid_contig hd s' hv hphase := by
    obtain ⟨rfl, hmin, -⟩ := hv
    exact ⟨rfl, fun _ => hmin (by rw [hphase]; intro hp; cases hp), fun _ => rfl⟩
  accept hd s' hv hphase hcreated hle hto := by
    obtain ⟨rfl, hmin, hcontig⟩ := hv
    rw [hmin (by rw [hphase]; intro hp; cases hp)] at hle
    obtain ⟨hse, hec⟩ := hto e rfl
    rw [hcontig hphase] at hec
    refine ⟨rfl, ?_⟩
    intro k hlo hhi
    obtain ⟨hhas, hbare⟩ := hall hcreated hle hse hec k hlo hhi
    exact deliverable_record h hhas hbare
  servable_read s' k hs hlo hhi := by
    obtain ⟨rfl, hdel⟩ := hs
    exact hdel k hlo hhi

theorem actionOk_alone (lawful : Put → Prop) (n : Nat) :
    ∀ a ∈ List.replicate n Action.handler, ActionOk lawful a := by
  intro a ha
  rw [List.eq_of_mem_replicate ha]
  exact trivial

/-- Under the condition, the invariant of a handler running alone. -/
theorem replaying_alone (h : LawfulStore R s) (hall : AllRecords s start e) {n : Nat}
    {sys : System} (hrun : Run.exec (step J (recordsRequest start e))
      (System.start s (recordsRequest start e)) (List.replicate n .handler) = some sys) :
    Replaying (recordsRequest start e) start (AtRest s)
      (fun s' => s' = s ∧ ∀ k, start ≤ k → k ≤ e → Deliverable J .oldRecords s k)
      sys.handler sys.storage := by
  refine Replaying.run (discipline_atRest h hall) ?_ (actionOk_alone _ n) hrun
  exact ⟨⟨rfl, fun hp => absurd rfl hp, fun hp => (by cases hp)⟩, rfl, rfl⟩

/-- Message `i` is the record of height `start + i`. -/
theorem getRecord_of_sent (h : LawfulStore R s) (hall : AllRecords s start e) {n : Nat}
    {sys : System} (hrun : Run.exec (step J (recordsRequest start e))
      (System.start s (recordsRequest start e)) (List.replicate n .handler) = some sys)
    {i : Nat} {msg : Bytes} (hmsg : sys.handler.sent[i]? = some msg) :
    s.getRecord (start + i) = some msg := by
  obtain ⟨before, after, mid, hsplit, hmid, hp, hlen, bytes, hread, hraw⟩ :=
    sent_moment hrun rfl hmsg
  -- the handler ran alone up to that moment too
  obtain ⟨m, rfl⟩ : ∃ m, before = List.replicate m .handler := by
    refine ⟨before.length, List.eq_replicate_iff.mpr ⟨rfl, ?_⟩⟩
    intro a ha
    have hmem : a ∈ List.replicate n Action.handler := by
      rw [hsplit]
      exact List.mem_append_left _ ha
    exact List.eq_of_mem_replicate hmem
  have hmidInv := replaying_alone h hall hmid
  simp only [Replaying, hp] at hmidInv
  obtain ⟨⟨hsame, hdel⟩, hcur, hle⟩ := hmidInv
  obtain ⟨-, msg', hread', hraw'⟩ := hdel mid.handler.h (by omega) hle
  have hread : readStored J .oldRecords mid.storage mid.handler.h = .ok (some bytes) := hread
  rw [hsame, hread', Except.ok.injEq, Option.some.injEq] at hread
  rw [← hread, hraw', Option.some.injEq] at hraw
  have hget : s.getRecord mid.handler.h = some msg' := Except.ok.inj hread'
  rw [← hraw, ← hget, hcur, hlen]

/-- Where the condition holds the records go out whole. -/
theorem servesRecords_of_allRecords (h : LawfulStore R s) (hall : AllRecords s start e) :
    ServesRecords J s start e := by
  intro n sys hn hrun
  have hend := replaying_alone h hall hrun
  have hfin : sys.handler.phase.finished = true := by
    refine hend.finished (e := e) rfl ?_
    rcases turns_run hrun with hfin | hle
    · exact Or.inl hfin
    · rw [List.countP_replicate, if_pos (show Action.handler.isHandler = true from rfl)] at hle
      exact Or.inr (by omega)
  cases hphase : sys.handler.phase with
  | rejected reason => exact Or.inl rfl
  | closed cause =>
      simp only [Replaying, hphase] at hend
      obtain ⟨rfl, hcur, hto⟩ := hend
      have hlast := hto e rfl
      refine Or.inr ⟨rfl, List.ext_getElem? ?_⟩
      intro i
      rw [List.getElem?_map, List.getElem?_map]
      by_cases hi : i < e + 1 - start
      · obtain ⟨msg, hmsg⟩ : ∃ msg, sys.handler.sent[i]? = some msg :=
          ⟨_, List.getElem?_eq_getElem (by omega)⟩
        rw [List.getElem?_range' (by omega), hmsg, Nat.one_mul]
        exact congrArg some (getRecord_of_sent h hall hrun hmsg)
      · rw [List.getElem?_eq_none_iff.mpr (by rw [List.length_range']; omega),
          List.getElem?_eq_none_iff.mpr (by omega)]
        rfl
  | readMin => rw [hphase] at hfin; cases hfin
  | readContig => rw [hphase] at hfin; cases hfin
  | readEmpty => rw [hphase] at hfin; cases hfin
  | readTarget => rw [hphase] at hfin; cases hfin
  | readBlock => rw [hphase] at hfin; cases hfin

/-! ## Where the condition fails -/

/-- A request once accepted is never rejected. -/
theorem not_isRejected_of_accepted {req : Request} {as : List Action} {sys sys' : System}
    (h : sys.handler.phase.decided = true ∧ sys.handler.phase.isRejected = false)
    (hrun : Run.exec (step J req) sys as = some sys') :
    sys'.handler.phase.decided = true ∧ sys'.handler.phase.isRejected = false := by
  have hstep : ∀ sys1 a sys2,
      (sys1.handler.phase.decided = true ∧ sys1.handler.phase.isRejected = false) →
      step J req sys1 a = some sys2 →
      sys2.handler.phase.decided = true ∧ sys2.handler.phase.isRejected = false := by
    rintro sys1 a sys2 ⟨hdec, hrej⟩ heq
    cases a with
    | put p =>
        rw [← Option.some.inj heq]
        exact ⟨hdec, hrej⟩
    | handler =>
        rw [← Option.some.inj heq]
        dsimp only
        have hturn := handlerStep_turn J req sys1.storage sys1.handler
        generalize handlerStep J req sys1.storage sys1.handler = hd at hturn
        cases hturn with
        | min hp => rw [hp] at hdec; cases hdec
        | contig hp => rw [hp] at hdec; cases hdec
        | empty hp _ => rw [hp] at hdec; cases hdec
        | refuse _ hp _ _ => rw [hp] at hdec; cases hdec
        | accept hp _ _ _ => rw [hp] at hdec; cases hdec
        | rejected _ _ => exact ⟨hdec, hrej⟩
        | closed _ _ => exact ⟨hdec, hrej⟩
        | _ => exact ⟨rfl, rfl⟩
  exact Run.exec_invariant_all hstep h hrun

/-- The three reads of the validation, over a store at rest that passes it. -/
theorem exec_accept (hcreated : s.isEmpty = false) (hmin : s.minHeight ≤ start)
    (hse : start ≤ e) (htip : e ≤ s.maxContiguousHeight) :
    Run.exec (step J (recordsRequest start e)) (System.start s (recordsRequest start e))
      (List.replicate 3 .handler)
      = some ⟨s, .readTarget, s.minHeight, s.maxContiguousHeight, start, []⟩ := by
  have hdecide : decideRange start (some e) s.minHeight s.maxContiguousHeight = .readTarget := by
    simp only [decideRange]
    rw [if_neg (by omega), if_neg (by omega), if_neg (by omega)]
  have hlast : handlerStep J (recordsRequest start e) s
      ⟨.readEmpty, s.minHeight, s.maxContiguousHeight, start, []⟩
      = ⟨.readTarget, s.minHeight, s.maxContiguousHeight, start, []⟩ := by
    simp only [handlerStep, recordsRequest, hcreated, hdecide]
    rfl
  show some (System.mk s (handlerStep J (recordsRequest start e) s
    ⟨.readEmpty, s.minHeight, s.maxContiguousHeight, start, []⟩)) = _
  rw [hlast]

/-- A served range that was accepted has a record at each of its heights. -/
theorem getRecord_isSome_of_serves (h : ServesRecords J s start e)
    (hcreated : s.isEmpty = false) (hmin : s.minHeight ≤ start) (hse : start ≤ e)
    (htip : e ≤ s.maxContiguousHeight) {k : Nat} (hlo : start ≤ k) (hhi : k ≤ e) :
    (s.getRecord k).isSome := by
  obtain ⟨sys, hrun⟩ := exec_total J (recordsRequest start e)
    ⟨s, .readTarget, s.minHeight, s.maxContiguousHeight, start, []⟩
    (List.replicate (2 * (e + 1 - start) + 1) .handler)
  have hnot := not_isRejected_of_accepted ⟨rfl, rfl⟩ hrun
  have hwhole := Run.exec_trans (exec_accept hcreated hmin hse htip) hrun
  rw [List.replicate_append_replicate] at hwhole
  rcases h _ sys (by omega) hwhole with hrej | ⟨-, hall⟩
  · rw [hnot.2] at hrej
    cases hrej
  · have hmem : s.getRecord k ∈ sys.handler.sent.map some := by
      rw [← hall]
      exact List.mem_map.mpr ⟨k, List.mem_range'_1.mpr (by omega), rfl⟩
    obtain ⟨msg, -, hmsg⟩ := List.mem_map.mp hmem
    rw [← hmsg]
    rfl

theorem allRecords_of_servesRecords (h : ServesRecords J s start e) : AllRecords s start e := by
  intro hcreated hmin hse htip k hlo hhi
  have hsome := getRecord_isSome_of_serves h hcreated hmin hse htip hlo hhi
  constructor
  · by_contra hmiss
    rw [getRecord_of_not_has hmiss] at hsome
    cases hsome
  · intro hbare
    rw [getRecord_of_bare hbare] at hsome
    cases hsome

end Lemmas

/-- **When a replay of records is complete.** Over every store of either chain
    and of either layout or both, a request for a fixed range is refused or
    delivers every record exactly when each height of a range that would be
    accepted holds a combined record. -/
theorem servesRecords_iff {J : Codec} (R : RawReader J) {s : Storage}
    (hstore : LawfulStore R s) (start e : Nat) :
    ServesRecords J s start e ↔ AllRecords s start e :=
  ⟨allRecords_of_servesRecords, servesRecords_of_allRecords hstore⟩

/-- The one height of the old-layout sample is a bare block. -/
theorem isBare_legacySample : IsBare legacySample 100 := ⟨_, rfl, rfl⟩

theorem lawfulStore_legacySample : LawfulStore JsonText.spacedReader legacySample where
  readable := ⟨legacySampleMap, refines_of_holdsLegacy holdsLegacy_sample⟩
  bounded := by
    rintro k ⟨st, hst, hk⟩
    rw [← Option.some.inj hst] at hk
    rw [List.mem_singleton.mp (Store.has_holding_iff.mp hk)]
    decide

/-- A store of combined records. -/
theorem servesRecords_sampleStore :
    LawfulStore JsonText.spacedReader sampleStore ∧ AllRecords sampleStore 5 5 ∧
      ServesRecords JsonText.spacedCodec sampleStore 5 5 := by
  have hall : AllRecords sampleStore 5 5 := by
    intro _ _ _ _ k hlo hhi
    rw [show k = 5 by omega]
    refine ⟨⟨_, rfl, by decide⟩, ?_⟩
    rintro ⟨raw, hraw, hbare⟩
    have hraw : some (encode [[123, 125], EMPTY_ARRAY]) = some raw := hraw
    rw [← Option.some.inj hraw] at hbare
    cases hbare
  exact ⟨lawfulStore_sample, hall,
    (servesRecords_iff JsonText.spacedReader lawfulStore_sample 5 5).mpr hall⟩

/-- An adopted store with one bare block: the request for it is accepted and
    closes with nothing sent. -/
theorem servesRecords_fails_bare_block :
    ¬ ∀ (J : Codec) (R : RawReader J) (s : Storage), LawfulStore R s →
      ∀ start e, ServesRecords J s start e := by
  intro hall
  have hserves := hall JsonText.spacedCodec JsonText.spacedReader legacySample
    lawfulStore_legacySample 100 100
  obtain ⟨-, hbare⟩ := allRecords_of_servesRecords hserves rfl (by decide) (by decide)
    (by decide) 100 (by decide) (by decide)
  exact hbare isBare_legacySample

end NeveOldRecords
