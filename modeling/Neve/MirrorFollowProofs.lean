import Neve.MirrorProofs

/-! # Following a P-chain upstream — when a mirror has no gaps

    A mirror that follows its upstream relies on one thing: each record that
    reaches it is at most one above everything it holds.  The replayed range
    starts where the mirror's store ends; the live records continue it when the
    upstream announces every height it stores after the range was measured.  So
    the queue between the two is a run of consecutive heights that starts where
    the mirror's store ends and stops where the upstream will announce next. -/

namespace NeveMirrorFollow

open JsonValue ByteText FirstGap NeveRecord NeveStorage NevePlatformIngest NeveFrontier
open NevePlatformCodec NeveRecordConsistency NeveMirror

/-! ## Stores that are filled from below -/

/-- A write at any height up to `b` leaves no gap below it. -/
def Reaches (b : Nat) (s : Storage) : Prop :=
  match s.store with
  | some st => b ≤ st.firstHole
  | none => ∀ floor, s.anchorFloor = some floor → b ≤ floor

/-- Everything from the store's minimum to `h` is stored. -/
def Covered (h : Nat) (s : Storage) : Prop := ∃ st, s.store = some st ∧ h < st.firstHole

section Stores

variable {s s' : Storage} {b h : Nat}

theorem Reaches.anti {b' : Nat} (hr : Reaches b s) (hle : b' ≤ b) : Reaches b' s := by
  simp only [Reaches] at hr ⊢
  split at hr
  · exact Nat.le_trans hle hr
  · intro floor hfloor
    exact Nat.le_trans hle (hr floor hfloor)

theorem Covered.grows (hc : Covered h s) (hg : Grows s s') : Covered h s' := by
  obtain ⟨st, hst, hlt⟩ := hc
  obtain ⟨st', hst', -, hle⟩ := hg.firstHole_le hst
  exact ⟨st', hst', Nat.lt_of_lt_of_le hlt hle⟩

theorem Covered.has (hc : Covered h s) {k : Nat} (hlo : s.minHeight ≤ k) (hhi : k ≤ h) :
    s.Has k := by
  obtain ⟨st, hst, hlt⟩ := hc
  have hmin : s.minHeight = st.minHeight := by simp [Storage.minHeight, hst]
  exact ⟨st, hst, st.isFirstGap_firstHole.filled k (hmin ▸ hlo) (by omega)⟩

/-- The first write of a store that reaches `b` becomes its minimum. -/
theorem anchor_eq (hnone : s.store = none) (hr : Reaches b s) (hle : h ≤ b) :
    s.anchor h = h := by
  simp only [Reaches, hnone] at hr
  simp only [Storage.anchor]
  cases hf : s.anchorFloor with
  | none => rfl
  | some floor =>
      have hb := hr floor hf
      by_cases hfloor : floor ≤ h
      · rw [Option.filter_some, if_pos (by simpa using hfloor), Option.getD_some]
        omega
      · rw [Option.filter_some, if_neg (by simpa using hfloor), Option.getD_none]

/-- Storing the height a store reaches extends it by one. -/
theorem Reaches.wrote (hr : Reaches h s) (hw : Wrote h s s') (hhas : s'.Has h) :
    Reaches (h + 1) s' := by
  obtain ⟨st', hst', hk⟩ := hhas
  simp only [Reaches, hst']
  have hgap := st'.isFirstGap_firstHole
  have hle : h ≤ st'.firstHole := by
    cases hs : s.store with
    | none =>
        have hmin := hw.created hs hst'
        rw [anchor_eq hs hr (Nat.le_refl h)] at hmin
        exact hmin ▸ hgap.le
    | some st =>
        obtain ⟨st'', hst'', -, hmono⟩ := hw.grows.firstHole_le hs
        rw [Option.some.inj (hst'.symm.trans hst'')]
        simp only [Reaches, hs] at hr
        exact Nat.le_trans hr hmono
  rcases Nat.lt_or_eq_of_le hle with hlt | heq
  · exact hlt
  · exact absurd (heq ▸ hk) hgap.gap

/-- So does a put there, unless it fails before the block is written. -/
theorem Reaches.put {fault : Fault} {elements : List Bytes} (hr : Reaches h s)
    (hlen : elements.length = arity s.chain) (hcreate : fault ≠ .create)
    (hwrite : fault ≠ .write) (hash : Bytes32) (txHashes : List Bytes32) :
    Reaches (h + 1) (s.put fault h hash txHashes elements).2 := by
  have hw : Wrote h s (s.put fault h hash txHashes elements).2 := Or.inr ⟨_, _, _, _, rfl⟩
  by_cases hmin : (s.openStore h).minHeight ≤ h
  · refine hr.wrote hw ?_
    have hraw := Storage.rawAt_put_of_writable ⟨hlen, hcreate, hwrite, hmin⟩ hash txHashes
    rw [Storage.has_iff_rawAt, ← Option.isSome_iff_exists]
    exact hraw
  · -- refused below the minimum, where nothing is missing
    cases hs : s.store with
    | none =>
        refine absurd ?_ hmin
        simp only [Storage.openStore, hs, Option.getD_none, Store.minHeight_create]
        rw [anchor_eq hs hr (Nat.le_refl h)]
    | some st =>
        obtain ⟨st', hst', -, hmono⟩ := hw.grows.firstHole_le hs
        simp only [Reaches, hst']
        have hle := st.isFirstGap_firstHole.le
        simp only [Storage.openStore, hs, Option.getD_some] at hmin
        omega

end Stores

/-! ## Records on the wire -/

section Records

variable {J : Codec} {sha256 : Bytes → Bytes32}

/-- A streamed record whose halves agree at a height. -/
def RecordOf (sha256 : Bytes → Bytes32) (height : Nat) (record : Value) : Prop :=
  ∃ jsonValue bytesValue rewards b, record = .array [jsonValue, bytesValue, rewards] ∧
    HalvesAgree sha256 jsonValue bytesValue height b

/-- Records of consecutive heights from `b` on. -/
def Consecutive (sha256 : Bytes → Bytes32) : Nat → List Value → Prop
  | _, [] => True
  | b, record :: rest => RecordOf sha256 b record ∧ Consecutive sha256 (b + 1) rest

theorem Consecutive.concat {b : Nat} {records : List Value} {record : Value}
    (h : Consecutive sha256 b records) (hr : RecordOf sha256 (b + records.length) record) :
    Consecutive sha256 b (records ++ [record]) := by
  induction records generalizing b with
  | nil => exact ⟨hr, trivial⟩
  | cons first rest ih =>
      refine ⟨h.1, ih h.2 ?_⟩
      rw [List.length_cons] at hr
      rwa [show b + 1 + rest.length = b + (rest.length + 1) by omega]

/-- A record of agreeing halves, printed and read back. -/
theorem recordOf_fromSlice {jsonValue bytesValue : Value} {height : Nat} {b : Bytes}
    (h : HalvesAgree sha256 jsonValue bytesValue height b) (rewards : Value) :
    ∃ record, J.fromSlice (encode ([jsonValue, bytesValue, rewards].map J.toVec))
        = some record ∧ RecordOf sha256 height record :=
  ⟨_, J.fromSlice_arrayText _, _, _, _, b, rfl, halvesAgree_reread h J.refloat⟩

/-- Every record a consistent store replays is a record of its height. -/
theorem recordOf_getRecord {good : Nat → Prop} {s : Storage} {height : Nat} {record : Value}
    (h : Consistent J sha256 good s)
    (hget : (s.getRecord height).bind J.fromSlice = some record) :
    RecordOf sha256 height record := by
  obtain ⟨raw, hraw, hrecord⟩ := Option.bind_eq_some_iff.mp hget
  have hat : s.rawAt height = some raw := by
    rw [Storage.getRecord_eq] at hraw
    exact (Option.filter_eq_some_iff.mp hraw).1
  obtain ⟨jsonValue, bytesValue, rewards, b, rfl, hagree, -⟩ := h height raw hat
  obtain ⟨v, hv, hof⟩ := recordOf_fromSlice (J := J) hagree rewards
  rw [← Option.some.inj (hv.symm.trans hrecord)]
  exact hof

/-- What is announced of a verified block is a record of its height. -/
theorem recordOf_announce {fetched : FetchedBlock} {rewards : Bytes}
    (hver : Verified J sha256 fetched) (hrewards : ∃ v, rewards = J.toVec v) :
    ∃ update record, announce J true fetched.json
        [fetched.json, fetched.bytesJson, rewards] = some update ∧
      update.record = some record ∧ RecordOf sha256 fetched.height record := by
  obtain ⟨bytesValue, jsonValue, expectHeight, hv⟩ := hver
  obtain ⟨b, hagree, -, heq⟩ := verify_ok hv
  obtain ⟨v, rfl⟩ := hrewards
  obtain ⟨record, hread, hof⟩ := recordOf_fromSlice (J := J) hagree v
  have hjson : fetched.json = J.toVec jsonValue := by rw [heq]
  have hbytes : fetched.bytesJson = J.toVec bytesValue := by rw [heq]
  simp only [announce, hjson, hbytes, J.fromSlice_toVec, Bool.not_true, Bool.false_eq_true,
    if_false, Option.map_some]
  exact ⟨_, record, rfl, hread, hof⟩

/-- The mirror's write of a record is the write of a block of its height. -/
theorem persistRecord_recordOf {height : Nat} {record : Value}
    (h : RecordOf sha256 height record) (s : Storage) (fault : Nat → Fault) :
    ∃ fetched rewards, fetched.height = height ∧
      persistRecord J sha256 s fault record = storeBlock s (fault height) fetched rewards := by
  obtain ⟨jsonValue, bytesValue, rewards, b, rfl, hagree⟩ := h
  obtain ⟨fetched, hv, rfl⟩ : ∃ fetched, verifyRecord J sha256 bytesValue jsonValue
      = .ok fetched ∧ fetched.height = height :=
    ⟨_, verify_of_agree J hagree none (fun _ heq => nomatch heq), rfl⟩
  refine ⟨fetched, J.toVec rewards, rfl, ?_⟩
  simp only [persistRecord, Value.asArray, hv]

/-- **The mirror's write of the next record**: stored, the store reaches one
    further; and it does so in any case unless the write failed before the block
    was stored. -/
theorem persistRecord_spec {s s' : Storage} {height : Nat} {record : Value} {fault : Fault}
    {stored : Option Nat} (hrecord : RecordOf sha256 height record) (hr : Reaches height s)
    (hchain : s.chain = .P)
    (h : persistRecord J sha256 s (fun _ => fault) record = (stored, s')) :
    Grows s s' ∧
      (∀ k, stored = some k → k = height ∧ Reaches (height + 1) s' ∧ Covered height s') ∧
      (fault ≠ .create → fault ≠ .write → Reaches (height + 1) s') := by
  obtain ⟨fetched, rewards, hheight, heq⟩ :=
    persistRecord_recordOf (J := J) hrecord s fun _ => fault
  rw [h] at heq
  have hw := storeBlock_wrote s fault fetched rewards
  rw [← heq, hheight] at hw
  refine ⟨hw.grows, ?_, ?_⟩
  · rintro k rfl
    have hhas := storeBlock_some heq.symm
    rw [hheight] at hhas
    have hreach := hr.wrote hw hhas
    refine ⟨(storeBlock_height heq.symm).trans hheight, hreach, ?_⟩
    obtain ⟨st, hst, -⟩ := hhas
    simp only [Reaches, hst] at hreach
    exact ⟨st, hst, hreach⟩
  · intro hcreate hwrite
    have hstate := storeBlock_state s fault fetched rewards
    rw [← heq, hheight] at hstate
    rw [show s' = _ from hstate]
    refine hr.put ?_ hcreate hwrite _ _
    rw [hchain]
    rfl

end Records

/-! ## The upstream's frontier -/

/-- Nothing is stored above the first hole.  (A store that lacks its genesis is
    left out: its loop never goes back for it.) -/
def Gapless (s : Storage) : Prop :=
  ∀ st, s.store = some st → 0 < st.firstHole → ∀ k, st.Has k → k < st.firstHole

/-- `e` is the height the upstream has to store next. -/
def Aligned (s : Storage) (e : Nat) : Prop :=
  match s.store with
  | none => Reaches e s
  | some st => 0 < e ∧ (0 < st.firstHole → e = st.firstHole)

section Frontier

variable {s s' : Storage} {e : Nat}

/-- Where the first hole is after a write at the frontier. -/
theorem firstHole_wrote {st' : Store} (hgapless : Gapless s) (hal : Aligned s e)
    (hw : Wrote e s s') (hst' : s'.store = some st') (hpos : 0 < st'.firstHole) :
    (∀ k, st'.Has k → k < st'.firstHole) ∧ (st'.Has e → st'.firstHole = e + 1) := by
  have hgap := st'.isFirstGap_firstHole
  have hold : ∀ k, st'.Has k → k = e ∨ s.Has k := fun k hk => hw.has ⟨st', hst', hk⟩
  -- once the store reaches `e` and holds nothing above it
  have hfinish : e ≤ st'.firstHole → (∀ k, s.Has k → k < e) →
      (∀ k, st'.Has k → k < st'.firstHole) ∧ (st'.Has e → st'.firstHole = e + 1) := by
    intro hle hbelow
    have hne : st'.Has e → e < st'.firstHole := by
      intro hk
      rcases Nat.lt_or_eq_of_le hle with hlt | heq
      · exact hlt
      · exact absurd (heq ▸ hk) hgap.gap
    refine ⟨?_, ?_⟩
    · intro k hk
      rcases hold k hk with rfl | hk'
      · exact hne hk
      · exact Nat.lt_of_lt_of_le (hbelow k hk') hle
    · intro hk
      have hlt := hne hk
      by_contra hmore
      have hmin := Store.min_le_of_has hk
      rcases hold (e + 1) (hgap.filled (e + 1) (by omega) (by omega)) with heq | hk'
      · omega
      · have := hbelow (e + 1) hk'
        omega
  cases hs : s.store with
  | none =>
      simp only [Aligned, hs] at hal
      have hmin := hw.created hs hst'
      rw [anchor_eq hs hal (Nat.le_refl e)] at hmin
      refine hfinish (hmin ▸ hgap.le) ?_
      rintro k ⟨st, hst, -⟩
      rw [hs] at hst
      cases hst
  | some st =>
      simp only [Aligned, hs] at hal
      obtain ⟨st'', hst'', hmin, hmono⟩ := hw.grows.firstHole_le hs
      obtain rfl : st' = st'' := Option.some.inj (hst'.symm.trans hst'')
      have hgap0 := st.isFirstGap_firstHole
      have hst : ∀ k, s.Has k → st.Has k := by
        rintro k ⟨st1, hst1, hk⟩
        rwa [Option.some.inj (hs.symm.trans hst1)]
      rcases Nat.eq_zero_or_pos st.firstHole with hzero | hpos0
      · -- the genesis is missing and is not what is written
        have hle := hgap0.le
        rcases hold 0 (hgap.filled 0 (by omega) hpos) with heq | hk
        · have := hal.1
          omega
        · exact absurd (hzero ▸ hst 0 hk) hgap0.gap
      · have heq := hal.2 hpos0
        refine hfinish (heq ▸ hmono) ?_
        intro k hk
        rw [heq]
        exact hgapless st hs hpos0 k (hst k hk)

theorem Gapless.wrote (hgapless : Gapless s) (hal : Aligned s e) (hw : Wrote e s s') :
    Gapless s' := by
  intro st' hst' hpos
  exact (firstHole_wrote hgapless hal hw hst' hpos).1

theorem Aligned.wrote (hal : Aligned s e) (hgapless : Gapless s) (hw : Wrote e s s')
    (hhas : s'.Has e) : Aligned s' (e + 1) := by
  obtain ⟨st', hst', hk⟩ := hhas
  simp only [Aligned, hst']
  refine ⟨Nat.succ_pos e, ?_⟩
  intro hpos
  exact ((firstHole_wrote hgapless hal hw hst' hpos).2 hk).symm

/-- The height a pass starts from. -/
theorem aligned_nextHeight {floor : Option Nat} (tip : Nat) (hfloor : s.anchorFloor = floor)
    (hroom : s.maxContiguousHeight < u64Max) :
    Aligned s (nextHeight s.isEmpty s.maxContiguousHeight floor tip) := by
  cases hs : s.store with
  | none =>
      simp only [Aligned, hs, Reaches]
      intro f hf
      rw [hfloor] at hf
      simp [nextHeight, Storage.isEmpty, hs, hf]
  | some st =>
      rw [Storage.maxContiguousHeight_of_store hs] at hroom ⊢
      simp only [Aligned, hs, nextHeight, Storage.isEmpty, Option.isNone_some,
        Bool.false_eq_true, if_false]
      simp only [u64Max] at hroom ⊢
      refine ⟨by omega, fun hpos => ?_⟩
      rw [← Store.maxContiguousHeight_succ hpos]
      omega

/-- A write that fails, other than at the index batch, moves nothing. -/
theorem storeBlock_failed {st : Store} {fault : Fault} {fetched : FetchedBlock}
    {rewards : Bytes} (hs : s.store = some st) (hfault : fault ≠ .commit)
    (h : storeBlock s fault fetched rewards = (none, s')) :
    ∃ st', s'.store = some st' ∧ st'.firstHole = st.firstHole := by
  have hw := storeBlock_wrote s fault fetched rewards
  rw [h] at hw
  obtain ⟨st', hst', hmin, hmono⟩ := hw.grows.firstHole_le hs
  refine ⟨st', hst', Nat.le_antisymm ?_ hmono⟩
  have heff := s.put_effect fault fetched.height fetched.id fetched.txIds
    [fetched.json, fetched.bytesJson, rewards]
  simp only [storeBlock] at h
  generalize s.put fault fetched.height fetched.id fetched.txIds
    [fetched.json, fetched.bytesJson, rewards] = out at heff h
  obtain ⟨result, s1⟩ := out
  cases heff with
  | unindexed e _ hcommit _ _ _ => exact absurd hcommit hfault
  | done s2 _ _ _ => cases h
  | refused e _ _ hraw =>
      have hs1 : s1 = s' := (Prod.mk.inj h).2
      have hhas : ∀ k, st'.Has k → st.Has k := by
        intro k hk
        have hk' := Storage.has_iff_rawAt.mp ⟨st', hst', hk⟩
        rw [← hs1, hraw k] at hk'
        obtain ⟨st1, hst1, hk1⟩ := Storage.has_iff_rawAt.mpr hk'
        rwa [Option.some.inj (hs.symm.trans hst1)]
      have hgap := st'.isFirstGap_firstHole
      rw [hmin] at hgap
      exact hgap.mono hhas st.isFirstGap_firstHole

end Frontier

/-! ## The upstream's run -/

section Upstream

variable {J : Codec} {sha256 : Bytes → Bytes32} {floor : Option Nat}

/-- A block on its way through a run at `cursor`: the one at the cursor, or the
    proposal before it with the block that resolved it. -/
def Queued (J : Codec) (sha256 : Bytes → Bytes32) (cursor : Nat) (fetched : FetchedBlock)
    (resolver : Option FetchedBlock) : Prop :=
  Verified J sha256 fetched ∧
    match resolver with
    | none => fetched.height = cursor
    | some block => fetched.height + 1 = cursor ∧ Verified J sha256 block ∧
      block.height = cursor

/-- A run stores its heights in order, from the upstream's frontier on. -/
def StageOk (J : Codec) (sha256 : Bytes → Bytes32) (s : Storage) (run : FillRun) : Prop :=
  match run.stage with
  | .fetching none => Aligned s run.cursor
  | .fetching (some proposal) =>
      Verified J sha256 proposal ∧ proposal.height + 1 = run.cursor ∧ Aligned s proposal.height
  | .storing fetched rewards resolver =>
      Queued J sha256 run.cursor fetched resolver ∧ (∃ v, rewards = J.toVec v) ∧
        Aligned s fetched.height
  | .announcing fetched rewards resolver =>
      Queued J sha256 run.cursor fetched resolver ∧ (∃ v, rewards = J.toVec v) ∧
        Aligned s (fetched.height + 1)

/-- A run at a stage that is in order and announces nothing. -/
def Going (J : Codec) (sha256 : Bytes → Bytes32) (s : Storage) (run : Option FillRun) : Prop :=
  ∀ run', run = some run' → StageOk J sha256 s run' ∧ run'.announcing = false

theorem going_none (s : Storage) : Going J sha256 s none := fun _ h => nomatch h

theorem going_advance {s : Storage} {run : FillRun} (hal : Aligned s (run.cursor + 1)) :
    Going J sha256 s (run.advance none) := by
  intro run' h
  simp only [FillRun.advance] at h
  split at h
  · rw [← Option.some.inj h]
    exact ⟨hal, rfl⟩
  · cases h

theorem going_proceed {s : Storage} {run : FillRun} {fetched : FetchedBlock}
    (hver : Verified J sha256 fetched) (hheight : fetched.height = run.cursor)
    (hal : Aligned s run.cursor) : Going J sha256 s (run.proceed fetched) := by
  intro run' h
  simp only [FillRun.proceed] at h
  split at h
  · -- a reward proposal is held
    simp only [FillRun.advance] at h
    split at h
    · rw [← Option.some.inj h]
      exact ⟨⟨hver, congrArg (· + 1) hheight, hheight ▸ hal⟩, rfl⟩
    · cases h
  · rw [← Option.some.inj h]
    exact ⟨⟨⟨hver, hheight⟩, ⟨.array [], J.toVec_nil.symm⟩, hheight ▸ hal⟩, rfl⟩

theorem going_resume {s : Storage} {fetched : FetchedBlock}
    {resolver : Option FetchedBlock} (run : FillRun)
    (hq : Queued J sha256 run.cursor fetched resolver)
    (hal : Aligned s (fetched.height + 1)) : Going J sha256 s (run.resume resolver) := by
  cases resolver with
  | none =>
      have hheight : fetched.height = run.cursor := hq.2
      exact going_advance (hheight ▸ hal)
  | some block =>
      obtain ⟨-, hheight, hver, hblock⟩ := hq
      exact going_proceed hver hblock (hheight ▸ hal)

theorem going_handle {s : Storage} {stop cursor : Nat} {pending : Option FetchedBlock}
    {fetched : FetchedBlock} {utxos : String → Option Value}
    (hok : StageOk J sha256 s ⟨stop, cursor, .fetching pending⟩)
    (hver : Verified J sha256 fetched) (hheight : fetched.height = cursor) :
    Going J sha256 s
      (FillRun.handle J ⟨stop, cursor, .fetching pending⟩ pending fetched utxos) := by
  cases pending with
  | none => exact going_proceed hver hheight hok
  | some proposal =>
      obtain ⟨hprop, hnext, hal⟩ := hok
      intro run' h
      obtain ⟨rewards, hrewards, rfl⟩ := Option.map_eq_some_iff.mp h
      exact ⟨⟨⟨hprop, hnext, hver, hheight⟩, resolveReward_eq_some hrewards, hal⟩, rfl⟩

/-- What holds of the upstream at every step. -/
structure UpstreamOk (J : Codec) (sha256 : Bytes → Bytes32) (floor : Option Nat)
    (u : Upstream) : Prop where
  consistent : Consistent J sha256 (fun _ => False) u.storage
  gapless : Gapless u.storage
  anchorFloor : u.storage.anchorFloor = floor
  run : ∀ run, u.run = some run → StageOk J sha256 u.storage run

/-- The height the upstream will announce next. -/
def nextAnnounced (u : Upstream) (st : Store) : Nat :=
  if u.announcing then st.firstHole - 1 else st.firstHole

theorem nextAnnounced_going {u : Upstream} (h : Going J sha256 u.storage u.run) (st : Store) :
    nextAnnounced u st = st.firstHole := by
  have hnot : u.announcing = false := by
    simp only [Upstream.announcing]
    cases hr : u.run with
    | none => rfl
    | some run => exact (h run hr).2
  simp only [nextAnnounced, hnot, Bool.false_eq_true, if_false]

/-- A step that keeps the store and leaves a run in order. -/
theorem UpstreamOk.going {u u' : Upstream} (hu : UpstreamOk J sha256 floor u)
    (hs : u'.storage = u.storage) (hrun : Going J sha256 u.storage u'.run) :
    UpstreamOk J sha256 floor u' where
  consistent := hs ▸ hu.consistent
  gapless := hs ▸ hu.gapless
  anchorFloor := hs ▸ hu.anchorFloor
  run := fun run h => hs ▸ (hrun run h).1

/-- The side conditions of an upstream step: a pass has room above the frontier;
    and while a mirror follows, each height written is at or above the tip the
    pass read, and its index batch does not fail. -/
def UpstreamCond (following : Bool) (u : Upstream) : UpstreamAction → Prop
  | .pass _ _ => u.storage.maxContiguousHeight < u64Max
  | .store fault =>
      following = true → ∀ stop cursor fetched rewards resolver,
        u.run = some ⟨stop, cursor, .storing fetched rewards resolver⟩ →
        u.tip ≤ fetched.height ∧ fault ≠ .commit
  | _ => True

/-- Everything an upstream step can do: measure or fetch, write, announce. -/
theorem upstreamStep_cases {listening : Bool} {u u' : Upstream} {a : UpstreamAction}
    {sent : Option LiveUpdate} (hu : UpstreamOk J sha256 floor u)
    (hcond : UpstreamCond listening u a)
    (h : upstreamStep J sha256 floor listening u a = some (u', sent)) :
    (u'.storage = u.storage ∧ Going J sha256 u.storage u'.run ∧ u.announcing = false ∧
      sent = none) ∨
    (∃ fault stop cursor fetched rewards resolver stored, a = .store fault ∧
      u.run = some ⟨stop, cursor, .storing fetched rewards resolver⟩ ∧ sent = none ∧
      storeBlock u.storage fault fetched rewards = (stored, u'.storage) ∧
      (stored = none → u'.run = none) ∧
      (∀ k, stored = some k → u'.run = if u.tip ≤ fetched.height
        then some ⟨stop, cursor, .announcing fetched rewards resolver⟩
        else FillRun.resume ⟨stop, cursor, .announcing fetched rewards resolver⟩ resolver)) ∨
    (∃ stop cursor fetched rewards resolver, a = .announce ∧
      u.run = some ⟨stop, cursor, .announcing fetched rewards resolver⟩ ∧
      u'.storage = u.storage ∧
      u'.run = FillRun.resume ⟨stop, cursor, .announcing fetched rewards resolver⟩ resolver ∧
      sent = announce J listening fetched.json [fetched.json, fetched.bytesJson, rewards]) := by
  cases upstreamStep_turn h with
  -- a pass opens a run or not; it neither writes nor announces
  | unpolled elapsed polled hrun =>
      have hquiet : u.announcing = false := by simp [Upstream.announcing, hrun]
      exact Or.inl ⟨rfl, going_none _, hquiet, rfl⟩
  | decided elapsed polled tip hrun htip =>
      have hquiet : u.announcing = false := by simp [Upstream.announcing, hrun]
      simp only [Upstream.decide]
      split
      · exact Or.inl ⟨rfl, hrun ▸ going_none _, hquiet, trivial⟩
      · refine Or.inl ⟨rfl, ?_, hquiet, trivial⟩
        intro run' heq
        rw [← Option.some.inj heq]
        exact ⟨aligned_nextHeight tip hu.anchorFloor hcond, rfl⟩
  -- a fetch settles, holds or ends the run
  | failed reply stop cursor pending hrun hfetch =>
      have hquiet : u.announcing = false := by
        simp [Upstream.announcing, hrun, FillRun.announcing]
      exact Or.inl ⟨rfl, going_none _, hquiet, rfl⟩
  | fetched reply stop cursor pending fetched hrun hfetch =>
      have hquiet : u.announcing = false := by
        simp [Upstream.announcing, hrun, FillRun.announcing]
      exact Or.inl ⟨rfl, going_handle (hu.run _ hrun) (fetchBlock_verified hfetch)
        (fetchBlock_height hfetch), hquiet, rfl⟩
  | unstored fault stop cursor fetched rewards resolver s' hrun hstore =>
      exact Or.inr (Or.inl ⟨fault, stop, cursor, fetched, rewards, resolver, none, rfl, hrun, rfl,
        hstore, fun _ => rfl, by simp⟩)
  | stored fault stop cursor fetched rewards resolver height s' hrun hstore =>
      exact Or.inr (Or.inl ⟨fault, stop, cursor, fetched, rewards, resolver, some height, rfl,
        hrun, rfl, hstore, by simp, fun _ _ => rfl⟩)
  | announced stop cursor fetched rewards resolver hrun =>
      exact Or.inr (Or.inr ⟨stop, cursor, fetched, rewards, resolver, rfl, hrun, rfl, rfl, rfl⟩)

/-- The upstream's invariant is kept by every step. -/
theorem UpstreamOk.step {listening : Bool} {u u' : Upstream} {a : UpstreamAction}
    {sent : Option LiveUpdate} (hu : UpstreamOk J sha256 floor u)
    (hcond : UpstreamCond listening u a)
    (h : upstreamStep J sha256 floor listening u a = some (u', sent)) :
    UpstreamOk J sha256 floor u' := by
  rcases upstreamStep_cases hu hcond h with ⟨hs, hgoing, -, -⟩ |
    ⟨fault, stop, cursor, fetched, rewards, resolver, stored, -, hrun, -, hstore, hnone,
      hsome⟩ |
    ⟨stop, cursor, fetched, rewards, resolver, -, hrun, hs, hrun', -⟩
  · exact hu.going hs hgoing
  · obtain ⟨hq, ⟨v, rfl⟩, hal⟩ := hu.run _ hrun
    have hw := storeBlock_wrote u.storage fault fetched (J.toVec v)
    have hcons : Consistent J sha256 (fun _ => False)
        (storeBlock u.storage fault fetched (J.toVec v)).2 :=
      hu.consistent.storeBlock hq.1 (fun hf => hf.elim) v
    rw [hstore] at hw hcons
    refine ⟨hcons, hu.gapless.wrote hal hw, hw.grows.anchorFloor.trans hu.anchorFloor, ?_⟩
    intro run' heq
    cases stored with
    | none =>
        rw [hnone rfl] at heq
        cases heq
    | some k =>
        have hal' := hal.wrote hu.gapless hw (storeBlock_some hstore)
        rw [hsome k rfl] at heq
        split at heq
        · rw [← Option.some.inj heq]
          exact ⟨hq, ⟨v, rfl⟩, hal'⟩
        · exact (going_resume ⟨stop, cursor, .announcing fetched (J.toVec v) resolver⟩ hq hal'
            run' heq).1
  · obtain ⟨hq, -, hal⟩ := hu.run _ hrun
    refine hu.going hs ?_
    rw [hrun']
    exact going_resume ⟨stop, cursor, .announcing fetched rewards resolver⟩ hq hal

/-- **The upstream while a mirror follows**: a step either announces nothing and
    leaves the next height to announce where it is, or announces a record of just
    that height. -/
theorem upstream_follow {u u' : Upstream} {a : UpstreamAction} {sent : Option LiveUpdate}
    {st : Store} (hu : UpstreamOk J sha256 floor u) (hcond : UpstreamCond true u a)
    (hst : u.storage.store = some st) (hpos : 0 < st.firstHole)
    (h : upstreamStep J sha256 floor true u a = some (u', sent)) :
    ∃ st', u'.storage.store = some st' ∧ 0 < st'.firstHole ∧
      ((sent = none ∧ nextAnnounced u' st' = nextAnnounced u st) ∨
        ∃ update record, sent = some update ∧ update.record = some record ∧
          RecordOf sha256 (nextAnnounced u st) record ∧
          nextAnnounced u' st' = nextAnnounced u st + 1) := by
  rcases upstreamStep_cases hu hcond h with ⟨hs, hgoing, hquiet, rfl⟩ |
    ⟨fault, stop, cursor, fetched, rewards, resolver, stored, rfl, hrun, rfl, hstore, hnone,
      hsome⟩ |
    ⟨stop, cursor, fetched, rewards, resolver, -, hrun, hs, hrun', rfl⟩
  · refine ⟨st, hs ▸ hst, hpos, Or.inl ⟨rfl, ?_⟩⟩
    rw [nextAnnounced_going (hs ▸ hgoing)]
    simp only [nextAnnounced, hquiet, Bool.false_eq_true, if_false]
  · obtain ⟨hq, hrewards, hal⟩ := hu.run _ hrun
    obtain ⟨htip, hcommit⟩ := hcond rfl stop cursor fetched rewards resolver hrun
    have hbefore : nextAnnounced u st = st.firstHole := by
      simp [nextAnnounced, Upstream.announcing, hrun, FillRun.announcing]
    cases stored with
    | none =>
        obtain ⟨st', hst', hhole⟩ := storeBlock_failed hst hcommit hstore
        refine ⟨st', hst', hhole ▸ hpos, Or.inl ⟨rfl, ?_⟩⟩
        rw [hbefore, ← hhole]
        simp [nextAnnounced, Upstream.announcing, hnone rfl]
    | some k =>
        have hw := storeBlock_wrote u.storage fault fetched rewards
        rw [hstore] at hw
        dsimp only at hw
        have hal' := hal.wrote hu.gapless hw (storeBlock_some hstore)
        obtain ⟨st', hst', -, hmono⟩ := hw.grows.firstHole_le hst
        have hpos' : 0 < st'.firstHole := Nat.lt_of_lt_of_le hpos hmono
        simp only [Aligned, hst] at hal
        simp only [Aligned, hst'] at hal'
        have hat := hal.2 hpos
        have hnext := hal'.2 hpos'
        -- the height just stored is still to be announced
        rw [if_pos htip] at hsome
        refine ⟨st', hst', hpos', Or.inl ⟨rfl, ?_⟩⟩
        rw [hbefore, ← hat]
        simp only [nextAnnounced, Upstream.announcing, hsome k rfl, Option.any_some,
          FillRun.announcing, if_true]
        omega
  · obtain ⟨hq, hrewards, hal⟩ := hu.run _ hrun
    have hal' := hal
    simp only [Aligned, hst] at hal'
    have hnext := hal'.2 hpos
    have hbefore : nextAnnounced u st = fetched.height := by
      simp only [nextAnnounced, Upstream.announcing, hrun, Option.any_some,
        FillRun.announcing, if_true]
      omega
    obtain ⟨update, record, hsent, hrecord, hof⟩ := recordOf_announce hq.1 hrewards
    have hgoing : Going J sha256 u'.storage u'.run := by
      rw [hrun', hs]
      exact going_resume ⟨stop, cursor, .announcing fetched rewards resolver⟩ hq hal
    refine ⟨st, hs ▸ hst, hpos,
      Or.inr ⟨update, record, hsent, hrecord, hbefore ▸ hof, ?_⟩⟩
    rw [nextAnnounced_going hgoing, hbefore]
    exact hnext.symm

end Upstream

/-! ## The system -/

/-- Records sent or announced that the mirror has not read. -/
def inFlight (socket : List Value) (ring : List LiveUpdate) : List Value :=
  socket ++ ring.filterMap LiveUpdate.record

/-- What is under way reaches the mirror in the order of heights, from where its
    store ends; once it follows, up to where the upstream announces next. -/
def SessionOk (sha256 : Bytes → Bytes32) (u : Upstream) (m : Mirror) : Prop :=
  match m.session with
  | .idle => True
  | .requesting start _ => Reaches start m.storage
  | .streaming _ cursor socket =>
      ∃ b, Reaches b m.storage ∧ Consecutive sha256 b socket ∧ b + socket.length = cursor
  | .bootstrapped target => Reaches (target + 1) m.storage
  | .following socket ring =>
      ∃ st b, u.storage.store = some st ∧ 0 < st.firstHole ∧ Reaches b m.storage ∧
        Consecutive sha256 b (inFlight socket ring) ∧
        b + (inFlight socket ring).length = nextAnnounced u st

/-- The invariant of the two together. -/
structure FollowOk (J : Codec) (sha256 : Bytes → Bytes32) (floors : Floors)
    (sys : System) : Prop where
  upstream : UpstreamOk J sha256 floors.upstream sys.upstream
  chain : sys.mirror.storage.chain = .P
  anchorFloor : sys.mirror.storage.anchorFloor = floors.mirror
  mirrored : ∀ h ∈ sys.mirror.mirrored, Covered h sys.mirror.storage
  session : SessionOk sha256 sys.upstream sys.mirror

/-- The side condition of a step.  Beside the upstream's own: its ring has room
    for an announcement; a session starts from a mirror that is empty or holds
    its minimum height, if that is zero; when the mirror subscribes, what the
    upstream announces next is not past the height after the target; and the
    write of a live record does not fail before the record is stored. -/
def FollowCond (sys : System) : Action → Prop
  | .upstream a =>
      UpstreamCond sys.mirror.session.isFollowing sys.upstream a ∧
        (a = .announce → ∀ socket ring, sys.mirror.session = .following socket ring →
          ring.length < LIVE_CHANNEL_CAP)
  | .mirror .bootstrap => ∀ st, sys.mirror.storage.store = some st → 0 < st.firstHole
  | .mirror .subscribe =>
      ∀ target, sys.mirror.session = .bootstrapped target →
        ∃ st, sys.upstream.storage.store = some st ∧ target < st.firstHole ∧
          nextAnnounced sys.upstream st ≤ target + 1
  | .mirror (.receive fault) =>
      sys.mirror.session.isFollowing = true → fault ≠ .create ∧ fault ≠ .write
  | .mirror _ => True

section System

variable {J : Codec} {sha256 : Bytes → Bytes32} {floors : Floors} {sys sys' : System}

/-- With no live subscription the upstream's steps do not concern the session. -/
theorem SessionOk.upstream {u u' : Upstream} {m : Mirror} (h : SessionOk sha256 u m)
    (hnot : m.session.isFollowing = false) : SessionOk sha256 u' m := by
  simp only [SessionOk] at h ⊢
  cases hs : m.session with
  | idle => trivial
  | requesting start target => rw [hs] at h; exact h
  | streaming target cursor socket => rw [hs] at h; exact h
  | bootstrapped target => rw [hs] at h; exact h
  | following socket ring =>
      rw [hs] at hnot
      cases hnot

/-- Nobody hears an upstream with no live subscription. -/
theorem upstreamStep_silent {u u' : Upstream} {a : UpstreamAction}
    {sent : Option LiveUpdate} {floor : Option Nat} (hu : UpstreamOk J sha256 floor u)
    (hcond : UpstreamCond false u a)
    (h : upstreamStep J sha256 floor false u a = some (u', sent)) : sent = none := by
  rcases upstreamStep_cases hu hcond h with ⟨-, -, -, hsent⟩ |
    ⟨_, _, _, _, _, _, _, -, -, hsent, -⟩ | ⟨_, _, _, _, _, -, -, -, -, hsent⟩
  · exact hsent
  · exact hsent
  · exact hsent

/-- A step of the upstream keeps the invariant. -/
theorem FollowOk.upstream_step {a : UpstreamAction} (hok : FollowOk J sha256 floors sys)
    (hcond : FollowCond sys (.upstream a))
    (h : step J sha256 floors sys (.upstream a) = some sys') :
    FollowOk J sha256 floors sys' := by
  obtain ⟨hup, hroom⟩ := hcond
  obtain ⟨⟨u', sent⟩, hstep, rfl⟩ := Option.map_eq_some_iff.mp h
  have hu' := hok.upstream.step hup hstep
  have hsession := hok.session
  cases hf : sys.mirror.session.isFollowing with
  | false =>
      rw [hf] at hstep hup
      obtain rfl := upstreamStep_silent hok.upstream hup hstep
      exact ⟨hu', hok.chain, hok.anchorFloor, hok.mirrored, hsession.upstream hf⟩
  | true =>
      rw [hf] at hstep hup
      cases hs : sys.mirror.session with
      | following socket ring =>
          simp only [SessionOk, hs] at hsession
          obtain ⟨st, b, hst, hpos, hreach, hcons, hlen⟩ := hsession
          obtain ⟨st', hst', hpos', hquiet |
            ⟨update, record, hsent, hrecord, hof, hnext⟩⟩ :=
            upstream_follow hok.upstream hup hst hpos hstep
          · obtain ⟨rfl, hnext⟩ := hquiet
            refine ⟨hu', hok.chain, hok.anchorFloor, hok.mirrored, ?_⟩
            simp only [SessionOk, Option.elim_none, hs]
            exact ⟨st', b, hst', hpos', hreach, hcons, hlen.trans hnext.symm⟩
          · -- the announced record goes to the end of the ring, which has room
            have hannounce : a = .announce := by
              rcases upstreamStep_cases hok.upstream hup hstep with ⟨-, -, -, hnone⟩ |
                ⟨_, _, _, _, _, _, _, -, -, hnone, -⟩ | ⟨_, _, _, _, _, heq, -⟩
              · rw [hsent] at hnone
                cases hnone
              · rw [hsent] at hnone
                cases hnone
              · exact heq
            have hlt := hroom hannounce socket ring hs
            have hdrop : ring.length + 1 - LIVE_CHANNEL_CAP = 0 := by omega
            have hqueue : inFlight socket (ring ++ [update])
                = inFlight socket ring ++ [record] := by
              simp [inFlight, List.filterMap_append, hrecord]
            subst hsent
            simp only [Option.elim_some, Mirror.deliver, hs, hdrop, List.drop_zero]
            refine ⟨hu', hok.chain, hok.anchorFloor, hok.mirrored, ?_⟩
            simp only [SessionOk, hqueue]
            refine ⟨st', b, hst', hpos', hreach, hcons.concat (hlen ▸ hof), ?_⟩
            rw [List.length_append, List.length_singleton, hnext, ← hlen]
            omega
      | _ => rw [hs] at hf; cases hf

/-- The start of a session. -/
theorem reaches_bootstrapStart {s : Storage} {floor : Option Nat}
    (hfloor : s.anchorFloor = floor) (hpos : ∀ st, s.store = some st → 0 < st.firstHole) :
    Reaches (bootstrapStart s floor) s := by
  cases hs : s.store with
  | none =>
      simp only [Reaches, hs, bootstrapStart, Storage.isEmpty, Option.isNone_none, if_true]
      intro f hf
      rw [hfloor] at hf
      simp [hf]
  | some st =>
      have hsucc := Store.maxContiguousHeight_succ (hpos st hs)
      simp only [Reaches, hs, bootstrapStart, Storage.isEmpty, Option.isNone_some,
        Bool.false_eq_true, if_false, Storage.maxContiguousHeight, Option.map_some,
        Option.getD_some, saturatingAdd]
      omega

/-- A step of the mirror keeps the invariant. -/
theorem FollowOk.mirror_step {a : MirrorAction} (hok : FollowOk J sha256 floors sys)
    (hcond : FollowCond sys (.mirror a))
    (h : step J sha256 floors sys (.mirror a) = some sys') :
    FollowOk J sha256 floors sys' := by
  obtain ⟨m', hstep, rfl⟩ := Option.map_eq_some_iff.mp h
  have hsession := hok.session
  simp only [SessionOk] at hsession
  -- most steps leave the store and the mirrored heights alone
  have hkeep : ∀ session, SessionOk sha256 sys.upstream { sys.mirror with session := session } →
      FollowOk J sha256 floors { sys with mirror := { sys.mirror with session := session } } :=
    fun session hs => ⟨hok.upstream, hok.chain, hok.anchorFloor, hok.mirrored, hs⟩
  cases a with
  | bootstrap =>
      simp only [mirrorStep] at hstep
      split at hstep
      · split at hstep
        · rw [← Option.some.inj hstep]
          exact hok
        · rename_i target _
          have hreach := reaches_bootstrapStart hok.anchorFloor hcond
          rw [← Option.some.inj hstep]
          refine hkeep _ ?_
          by_cases hcurrent : target < bootstrapStart sys.mirror.storage floors.mirror
          · rw [if_pos hcurrent]
            exact hreach.anti hcurrent
          · rw [if_neg hcurrent]
            exact hreach
      · cases hstep
  | request =>
      simp only [mirrorStep] at hstep
      split at hstep
      · rename_i start target hs
        rw [hs] at hsession
        rw [← Option.some.inj hstep]
        refine hkeep _ ?_
        by_cases haccept : acceptsRange sys.upstream.storage start target = true
        · rw [if_pos haccept]
          exact ⟨start, hsession, trivial, rfl⟩
        · rw [if_neg haccept]
          trivial
      · cases hstep
  | replay =>
      simp only [mirrorStep] at hstep
      split at hstep
      · rename_i target cursor socket hs
        rw [hs] at hsession
        obtain ⟨b, hreach, hcons, hlen⟩ := hsession
        split at hstep
        · cases hstep
        · obtain ⟨record, hrecord, rfl⟩ := Option.map_eq_some_iff.mp hstep
          have hof := recordOf_getRecord hok.upstream.consistent hrecord
          refine hkeep _ ⟨b, hreach, hcons.concat (hlen ▸ hof), ?_⟩
          rw [List.length_append, List.length_singleton]
          omega
      · cases hstep
  | receive fault =>
      simp only [mirrorStep] at hstep
      split at hstep
      · rename_i target cursor record socket hs
        rw [hs] at hsession
        obtain ⟨b, hreach, ⟨hof, hcons⟩, hlen⟩ := hsession
        split at hstep
        · rename_i s' hp
          obtain ⟨hgrows, -, -⟩ := persistRecord_spec hof hreach hok.chain hp
          rw [← Option.some.inj hstep]
          exact ⟨hok.upstream, hgrows.chain.trans hok.chain,
            hgrows.anchorFloor.trans hok.anchorFloor,
            fun h hh => (hok.mirrored h hh).grows hgrows, trivial⟩
        · rename_i height s' hp
          obtain ⟨hgrows, hstored, -⟩ := persistRecord_spec hof hreach hok.chain hp
          obtain ⟨rfl, hnext, -⟩ := hstored height rfl
          rw [← Option.some.inj hstep]
          refine ⟨hok.upstream, hgrows.chain.trans hok.chain,
            hgrows.anchorFloor.trans hok.anchorFloor,
            fun h hh => (hok.mirrored h hh).grows hgrows, ?_⟩
          by_cases hdone : target ≤ height
          · simp only [SessionOk, if_pos hdone]
            exact hnext.anti (by omega)
          · simp only [SessionOk, if_neg hdone]
            refine ⟨height + 1, hnext, hcons, ?_⟩
            rw [List.length_cons] at hlen
            omega
      · rename_i record socket ring hs
        rw [hs] at hsession
        obtain ⟨st, b, hst, hpos, hreach, ⟨hof, hcons⟩, hlen⟩ := hsession
        obtain ⟨hcreate, hwrite⟩ := hcond (by rw [hs]; rfl)
        -- the queue is one shorter and the mirror reaches one further
        have hrest : ∀ s', Reaches (b + 1) s' →
            ∃ st b, sys.upstream.storage.store = some st ∧ 0 < st.firstHole ∧ Reaches b s' ∧
              Consecutive sha256 b (inFlight socket ring) ∧
              b + (inFlight socket ring).length = nextAnnounced sys.upstream st := by
          intro s' hnext
          refine ⟨st, b + 1, hst, hpos, hnext, hcons, ?_⟩
          simp only [inFlight, List.cons_append, List.length_cons] at hlen ⊢
          omega
        split at hstep
        · rename_i s' hp
          obtain ⟨hgrows, -, hnext⟩ := persistRecord_spec hof hreach hok.chain hp
          rw [← Option.some.inj hstep]
          exact ⟨hok.upstream, hgrows.chain.trans hok.chain,
            hgrows.anchorFloor.trans hok.anchorFloor,
            fun h hh => (hok.mirrored h hh).grows hgrows, hrest s' (hnext hcreate hwrite)⟩
        · rename_i height s' hp
          obtain ⟨hgrows, hstored, -⟩ := persistRecord_spec hof hreach hok.chain hp
          obtain ⟨rfl, hnext, hcovered⟩ := hstored height rfl
          rw [← Option.some.inj hstep]
          refine ⟨hok.upstream, hgrows.chain.trans hok.chain,
            hgrows.anchorFloor.trans hok.anchorFloor, ?_, hrest s' hnext⟩
          intro h hh
          rcases List.mem_cons.mp hh with rfl | hh
          · exact hcovered
          · exact (hok.mirrored h hh).grows hgrows
      · cases hstep
  | subscribe =>
      simp only [mirrorStep] at hstep
      split at hstep
      · rename_i target hs
        rw [hs] at hsession
        obtain ⟨st, hst, htarget, hnext⟩ := hcond target hs
        rw [← Option.some.inj hstep]
        refine hkeep _ ⟨st, nextAnnounced sys.upstream st, hst, by omega, hsession.anti hnext,
          trivial, rfl⟩
      · cases hstep
  | forward =>
      simp only [mirrorStep] at hstep
      split at hstep
      · rename_i socket update ring hs
        rw [hs] at hsession
        obtain ⟨st, b, hst, hpos, hreach, hcons, hlen⟩ := hsession
        have hsame : inFlight (socket ++ update.record.toList) ring
            = inFlight socket (update :: ring) := by
          cases hr : update.record <;> simp [inFlight, hr]
        rw [← Option.some.inj hstep]
        refine hkeep _ ⟨st, b, hst, hpos, hreach, ?_, ?_⟩
        · rw [hsame]
          exact hcons
        · rw [hsame]
          exact hlen
      · cases hstep
  | disconnect =>
      rw [← Option.some.inj hstep]
      exact hkeep _ trivial

end System

/-! ## The mirror without gaps -/

/-- A P-chain store as the ingest loop leaves it: verified records, in order, over
    the configured floor. -/
structure Ingested (J : Codec) (sha256 : Bytes → Bytes32) (floor : Option Nat)
    (s : Storage) : Prop where
  consistent : Consistent J sha256 (fun _ => False) s
  gapless : Gapless s
  anchorFloor : s.anchorFloor = floor

/-- **A mirror follows without gaps**, in every run whose steps meet the
    condition: whenever it has stored a live record at `h`, everything from its
    minimum height to `h` is stored. -/
theorem mirror_follows_without_gaps (J : Codec) (sha256 : Bytes → Bytes32) (floors : Floors)
    (upstream mirror : Storage) (actions : List Action) (sys : System)
    (hupstream : Ingested J sha256 floors.upstream upstream) (hchain : mirror.chain = .P)
    (hfloor : mirror.anchorFloor = floors.mirror)
    (hcond : Run.Meets (step J sha256 floors) FollowCond (System.start upstream mirror) actions)
    (hrun : Run.exec (step J sha256 floors) (System.start upstream mirror) actions
      = some sys) :
    ∀ h ∈ sys.mirror.mirrored, ∀ k, sys.mirror.storage.minHeight ≤ k → k ≤ h →
      sys.mirror.storage.Has k := by
  have hinit : FollowOk J sha256 floors (System.start upstream mirror) :=
    ⟨⟨hupstream.consistent, hupstream.gapless, hupstream.anchorFloor,
      fun _ h => (nomatch h)⟩, hchain, hfloor, fun _ h => (nomatch h), trivial⟩
  have hstep : ∀ sys a sys', FollowOk J sha256 floors sys → FollowCond sys a →
      step J sha256 floors sys a = some sys' → FollowOk J sha256 floors sys' := by
    intro sys a sys' hok hc h
    cases a with
    | upstream a => exact hok.upstream_step hc h
    | mirror a => exact hok.mirror_step hc h
  have hok := Run.exec_invariant FollowCond hstep hinit hcond hrun
  intro h hh k hlo hhi
  exact (hok.mirrored h hh).has hlo hhi

/-! ## Runs at the tip -/

section Samples

variable (J : Codec) (sha256 : Bytes → Bytes32)

/-- A node's reply for the block with no bytes. -/
def emptyReply (height : UInt64) : HeightReply :=
  ⟨some (bytesHalf []), some (jsonHalf sha256 [] height []), fun _ => none⟩

theorem fetchBlock_emptyReply (height : UInt64) :
    ∃ fetched, fetchBlock J sha256 height.toNat (emptyReply sha256 height) = some fetched ∧
      fetched.rewardStakingTx.isSome = false := by
  obtain ⟨fetched, hv, hreward⟩ : ∃ fetched, verify J sha256 (bytesHalf [])
      (jsonHalf sha256 [] height []) (some height.toNat) = .ok fetched ∧
      fetched.rewardStakingTx.isSome = false :=
    ⟨_, verify_of_agree J (halvesAgree_jsonHalf sha256 [] height []) (some height.toNat)
      (fun want h => (Option.some.inj h).symm), rfl⟩
  refine ⟨fetched, ?_, hreward⟩
  simp only [fetchBlock, emptyReply, Option.bind_eq_bind, Option.bind_some, hv,
    Except.toOption]

/-- The upstream's store is filled up to `height`. -/
structure Holds (height : Nat) (s : Storage) : Prop where
  filled : ∃ st, s.store = some st ∧ st.firstHole = height + 1
  gapless : Gapless s
  chain : s.chain = .P

variable {J sha256}

/-- An undisturbed write. -/
theorem storeBlock_ok {s : Storage} {fetched : FetchedBlock} (rewards : Bytes)
    (hchain : s.chain = .P) (hmin : (s.openStore fetched.height).minHeight ≤ fetched.height) :
    ∃ s', storeBlock s .none fetched rewards = (some fetched.height, s') := by
  have hlen : [fetched.json, fetched.bytesJson, rewards].length = arity s.chain := by
    rw [hchain]
    rfl
  obtain ⟨st', hw⟩ := Store.writeBlock_eq_ok_iff.mpr hmin
  have hput := Storage.put_none fetched.id fetched.txIds hlen hw
  simp only [storeBlock, hput]
  exact ⟨_, rfl⟩

/-- An undisturbed write at the frontier. -/
theorem storeBlock_frontier {s : Storage} {fetched : FetchedBlock} (rewards : Bytes)
    (hr : Reaches fetched.height s) (hal : Aligned s fetched.height) (hgapless : Gapless s)
    (hchain : s.chain = .P) :
    ∃ s', storeBlock s .none fetched rewards = (some fetched.height, s') ∧
      Holds fetched.height s' := by
  have hmin : (s.openStore fetched.height).minHeight ≤ fetched.height := by
    cases hs : s.store with
    | none =>
        simp only [Storage.openStore, hs, Option.getD_none, Store.minHeight_create]
        rw [anchor_eq hs hr (Nat.le_refl _)]
    | some st =>
        simp only [Aligned, hs] at hal
        have hle := st.isFirstGap_firstHole.le
        simp only [Storage.openStore, hs, Option.getD_some]
        omega
  obtain ⟨s', hstore⟩ := storeBlock_ok rewards hchain hmin
  refine ⟨s', hstore, ?_⟩
  have hwrote := storeBlock_wrote s .none fetched rewards
  have hhas := storeBlock_some hstore
  rw [hstore] at hwrote
  dsimp only at hwrote
  have hreach := hr.wrote hwrote hhas
  have hnext := hal.wrote hgapless hwrote hhas
  refine ⟨?_, hgapless.wrote hal hwrote, hwrote.grows.chain.trans hchain⟩
  obtain ⟨st'', hst, -⟩ := hhas
  simp only [Reaches, hst] at hreach
  simp only [Aligned, hst] at hnext
  exact ⟨st'', hst, (hnext.2 (by omega)).symm⟩

/-- The upstream polls a tip one past its frontier, fetches it, stores it and
    announces it. -/
def takeTip (sha256 : Bytes → Bytes32) (height : UInt64) : List Action :=
  [.upstream (.pass true (some height)), .upstream (.fetch (emptyReply sha256 height)),
    .upstream (.store .none), .upstream .announce]

theorem through_takeTip (J : Codec) (floors : Floors) (sys : System) (height : UInt64)
    (hrun : sys.upstream.run = none)
    (hnext : nextHeight sys.upstream.storage.isEmpty sys.upstream.storage.maxContiguousHeight
      floors.upstream height.toNat = height.toNat)
    (hr : Reaches height.toNat sys.upstream.storage)
    (hal : Aligned sys.upstream.storage height.toNat) (hgapless : Gapless sys.upstream.storage)
    (hchain : sys.upstream.storage.chain = .P)
    (hroom : sys.upstream.storage.maxContiguousHeight < u64Max)
    (hring : ∀ socket ring, sys.mirror.session = .following socket ring →
      ring.length < LIVE_CHANNEL_CAP) :
    ∃ u' update record, update.record = some record ∧ RecordOf sha256 height.toNat record ∧
      u'.run = none ∧ Holds height.toNat u'.storage ∧
      Run.Through (step J sha256 floors) FollowCond sys (takeTip sha256 height)
        ⟨u', if sys.mirror.session.isFollowing then sys.mirror.deliver update
          else sys.mirror⟩ := by
  obtain ⟨fetched, hfetch, hfree⟩ := fetchBlock_emptyReply J sha256 height
  have hheight := fetchBlock_height hfetch
  have hrewards : ∃ v, EMPTY_ARRAY = J.toVec v := ⟨.array [], J.toVec_nil.symm⟩
  obtain ⟨update, record, hsent, hrecord, hof⟩ :=
    recordOf_announce (fetchBlock_verified hfetch) hrewards
  obtain ⟨s', hstore, hholds⟩ := storeBlock_frontier EMPTY_ARRAY (hheight ▸ hr)
    (hheight ▸ hal) hgapless hchain
  rw [hheight] at hof hholds
  have hlt := height.toNat_lt
  have hstop : min height.toNat (saturatingAdd height.toNat (FILL_CHUNK - 1))
      = height.toNat := by
    simp only [saturatingAdd, u64Max, FILL_CHUNK]
    omega
  refine ⟨⟨s', 0, height.toNat, true, none⟩, update, record, hrecord, hof, rfl, hholds, ?_⟩
  -- the states between the four steps
  refine Run.Through.cons ⟨⟨sys.upstream.storage, 1, height.toNat, true,
    some ⟨height.toNat, height.toNat, .fetching none⟩⟩, sys.mirror⟩
    ⟨hroom, by intro h; cases h⟩ ?_ ?_
  · simp [step, upstreamStep, hrun, Upstream.decide, hnext, hstop]
  refine Run.Through.cons ⟨⟨sys.upstream.storage, 1, height.toNat, true,
    some ⟨height.toNat, height.toNat, .storing fetched EMPTY_ARRAY none⟩⟩, sys.mirror⟩
    ⟨trivial, by intro h; cases h⟩ ?_ ?_
  · simp [step, upstreamStep, hfetch, FillRun.handle, FillRun.proceed, hfree]
  refine Run.Through.cons ⟨⟨s', 0, height.toNat, true,
    some ⟨height.toNat, height.toNat, .announcing fetched EMPTY_ARRAY none⟩⟩, sys.mirror⟩
    ⟨?_, by intro h; cases h⟩ ?_ ?_
  · intro _ stop cursor fetched' rewards resolver heq
    obtain ⟨-, -, rfl, -, -⟩ := by simpa using heq
    exact ⟨Nat.le_of_eq hheight.symm, by decide⟩
  · simp [step, upstreamStep, hstore, hheight]
  refine Run.Through.cons _ ⟨trivial, fun _ => hring⟩ ?_ (Run.Through.nil _)
  cases hf : sys.mirror.session.isFollowing with
  | false => simp [step, upstreamStep, FillRun.resume, FillRun.advance, hf, announce]
  | true => simp [step, upstreamStep, FillRun.resume, FillRun.advance, hf, hsent]

/-- The first tip of a store with no floor. -/
theorem through_firstTip (J : Codec) (sha256 : Bytes → Bytes32) (mirrorFloor : Option Nat)
    (m : Mirror) (height : UInt64) (hnot : m.session.isFollowing = false) :
    ∃ u', u'.run = none ∧ Holds height.toNat u'.storage ∧
      Run.Through (step J sha256 ⟨none, mirrorFloor⟩) FollowCond
        ⟨Upstream.start (Storage.fresh memory .P none), m⟩ (takeTip sha256 height)
          ⟨u', m⟩ := by
  have hreaches : Reaches height.toNat (Storage.fresh memory .P none) := fun _ h => nomatch h
  have hzero : (Storage.fresh memory .P none).maxContiguousHeight < u64Max := by decide
  obtain ⟨u', update, record, -, -, hrun, hholds, hthrough⟩ :=
    through_takeTip J ⟨none, mirrorFloor⟩
      ⟨Upstream.start (Storage.fresh memory .P none), m⟩ height
      rfl rfl hreaches hreaches (fun _ h => nomatch h) rfl hzero (by
        intro socket ring h
        rw [show m.session = .following socket ring from h] at hnot
        exact nomatch hnot)
  refine ⟨u', hrun, hholds, ?_⟩
  simpa [hnot] using hthrough

/-- The tip after the one the upstream holds. -/
theorem through_nextTip (J : Codec) (sha256 : Bytes → Bytes32) (floors : Floors)
    (sys : System) {held : Nat} {height : UInt64} (hrun : sys.upstream.run = none)
    (hholds : Holds held sys.upstream.storage) (hheight : height.toNat = held + 1)
    (hring : ∀ socket ring, sys.mirror.session = .following socket ring →
      ring.length < LIVE_CHANNEL_CAP) :
    ∃ u' update record, update.record = some record ∧ RecordOf sha256 height.toNat record ∧
      u'.run = none ∧ Holds height.toNat u'.storage ∧
      Run.Through (step J sha256 floors) FollowCond sys (takeTip sha256 height)
        ⟨u', if sys.mirror.session.isFollowing then sys.mirror.deliver update
          else sys.mirror⟩ := by
  obtain ⟨st, hst, hhole⟩ := hholds.filled
  have hlt := height.toNat_lt
  have hcontiguous : sys.upstream.storage.maxContiguousHeight = held := by
    rw [Storage.maxContiguousHeight_of_store hst, Store.maxContiguousHeight_of_firstHole hhole]
  refine through_takeTip J floors sys height hrun ?_ ?_ ?_ hholds.gapless hholds.chain ?_
    hring
  · simp only [nextHeight, Storage.isEmpty, hst, hcontiguous, Option.isNone_some,
      Bool.false_eq_true, if_false]
    omega
  · simp only [Reaches, hst]
    omega
  · simp only [Aligned, hst]
    omega
  · simp only [hcontiguous, u64Max]
    omega

/-- An announced record reaches an empty mirror with a floor of 8 and is stored. -/
theorem through_live (J : Codec) {sha256 : Bytes → Bytes32} (floors : Floors)
    (u : Upstream) (m : Mirror) {update : LiveUpdate} {record : Value} {height : Nat}
    (hrecord : update.record = some record) (hof : RecordOf sha256 height record)
    (hle : 8 ≤ height)
    (hm : m.storage = Storage.fresh memory .P (some 8)) (hs : m.session = .following [] [update]) :
    ∃ s', Wrote height (Storage.fresh memory .P (some 8)) s' ∧ s'.Has height ∧
      Run.Through (step J sha256 floors) FollowCond ⟨u, m⟩
        [.mirror .forward, .mirror (.receive .none)]
        ⟨u, s', 0, .following [] [], height :: m.mirrored⟩ := by
  obtain ⟨fetched, rewards, rfl, hpersist⟩ := persistRecord_recordOf (J := J) hof
    (Storage.fresh memory .P (some 8)) fun _ => .none
  have hmin : ((Storage.fresh memory .P (some 8)).openStore fetched.height).minHeight
      ≤ fetched.height := by
    change ((some 8).filter (· ≤ fetched.height)).getD fetched.height ≤ fetched.height
    rw [Option.filter_some, if_pos (by simpa using hle)]
    exact hle
  obtain ⟨s', hstore⟩ := storeBlock_ok rewards (s := Storage.fresh memory .P (some 8)) rfl hmin
  have hw := storeBlock_wrote (Storage.fresh memory .P (some 8)) .none fetched rewards
  rw [hstore] at hw
  rw [hstore] at hpersist
  refine ⟨s', hw, storeBlock_some hstore, ?_⟩
  refine Run.Through.cons ⟨u, { m with session := .following [record] [] }⟩ trivial ?_ ?_
  · simp [step, mirrorStep, hs, hrecord]
  refine Run.Through.cons _ (fun _ => ⟨fun h => (nomatch h), fun h => (nomatch h)⟩) ?_
    (Run.Through.nil _)
  simp [step, mirrorStep, hm, hpersist]

end Samples

/-- Both stores are new: the upstream starts at its tip, the mirror at height 8. -/
def newFloors : Floors := ⟨none, some 8⟩

def newSystem : System :=
  System.start (Storage.fresh memory .P none) (Storage.fresh memory .P (some 8))

/-- The mirror before it has stored anything. -/
def newMirror (session : Session) : Mirror := ⟨Storage.fresh memory .P (some 8), 0, session, []⟩

theorem ingested_fresh (J : Codec) (sha256 : Bytes → Bytes32) (blockdb : Blockdb)
    (floor : Option Nat) :
    Ingested J sha256 floor (Storage.fresh blockdb .P floor) :=
  ⟨consistent_fresh blockdb floor, fun _ h => (nomatch h), rfl⟩

/-- A bootstrap that finds the mirror's floor just above the upstream's tip. -/
theorem through_bootstrap (J : Codec) (sha256 : Bytes → Bytes32) {u : Upstream}
    (hholds : Holds 7 u.storage) :
    Run.Through (step J sha256 newFloors) FollowCond ⟨u, newMirror .idle⟩
      [.mirror .bootstrap] ⟨u, newMirror (.bootstrapped 7)⟩ := by
  obtain ⟨st, hst, hhole⟩ := hholds.filled
  refine Run.Through.cons _ (fun _ h => nomatch h) ?_ (Run.Through.nil _)
  have htarget : upstreamContiguous u.storage = some 7 := by
    rw [upstreamContiguous, Storage.maxContiguousHeight_of_store hst,
      Store.maxContiguousHeight_of_firstHole hhole]
    simp [Storage.isEmpty, hst]
  simp only [step, mirrorStep, newMirror, htarget]
  rfl

/-- A mirror that subscribed before the next height was stored. -/
theorem mirror_follows_height_eight :
    ∃ sys, Run.exec (step JsonText.codec sampleSha256 newFloors) newSystem
        (takeTip sampleSha256 7 ++ ([.mirror .bootstrap] ++ ([.mirror .subscribe] ++
          (takeTip sampleSha256 8 ++ [.mirror .forward, .mirror (.receive .none)]))))
        = some sys ∧
      sys.mirror.mirrored = [8] ∧
      ∀ k, sys.mirror.storage.minHeight ≤ k → k ≤ 8 → sys.mirror.storage.Has k := by
  obtain ⟨u1, hrun1, hholds1, hfirst⟩ :=
    through_firstTip JsonText.codec sampleSha256 (some 8) (newMirror .idle) 7 rfl
  have hseven : UInt64.toNat 7 = 7 := by decide
  have height8 : UInt64.toNat 8 = 8 := by decide
  rw [hseven] at hholds1
  have hboot := through_bootstrap JsonText.codec sampleSha256 hholds1
  have hsubscribe : Run.Through (step JsonText.codec sampleSha256 newFloors) FollowCond
      ⟨u1, newMirror (.bootstrapped 7)⟩ [.mirror .subscribe]
      ⟨u1, newMirror (.following [] [])⟩ := by
    refine Run.Through.cons _ ?_ rfl (Run.Through.nil _)
    rintro target htarget
    obtain rfl := Session.bootstrapped.inj htarget
    obtain ⟨st, hst, hhole⟩ := hholds1.filled
    refine ⟨st, hst, by omega, ?_⟩
    simp [nextAnnounced, Upstream.announcing, hrun1, hhole]
  obtain ⟨u2, update, record, hrecord, hof, -, -, hnext⟩ :=
    through_nextTip JsonText.codec sampleSha256 newFloors
      ⟨u1, newMirror (.following [] [])⟩ hrun1 hholds1 height8
      (by
        intro socket ring h
        rw [← (Session.following.inj h).2]
        decide)
  rw [height8] at hof
  obtain ⟨s', -, -, hlive⟩ := through_live JsonText.codec newFloors u2
    (newMirror (.following [] [update])) hrecord hof (Nat.le_refl 8)
    rfl rfl
  have hall := hfirst.append (hboot.append (hsubscribe.append (hnext.append hlive)))
  refine ⟨_, hall.exec, rfl, ?_⟩
  exact mirror_follows_without_gaps JsonText.codec sampleSha256 newFloors _ _ _ _
    (ingested_fresh _ _ _ _) rfl rfl hall.meets hall.exec 8 (List.mem_singleton_self 8)

/-- Height 8 is stored between the bootstrap and the subscription, so nobody
    announces it to the mirror; height 9 is announced, and the mirror stores it
    over the gap. -/
theorem mirror_skips_a_height :
    ¬ ∀ (J : Codec) (sha256 : Bytes → Bytes32) (floors : Floors) (upstream mirror : Storage)
      (actions : List Action) (sys : System),
      Ingested J sha256 floors.upstream upstream → mirror.chain = .P →
      mirror.anchorFloor = floors.mirror →
      Run.exec (step J sha256 floors) (System.start upstream mirror) actions = some sys →
      ∀ h ∈ sys.mirror.mirrored, ∀ k, sys.mirror.storage.minHeight ≤ k → k ≤ h →
        sys.mirror.storage.Has k := by
  intro hall
  obtain ⟨u1, hrun1, hholds1, hfirst⟩ :=
    through_firstTip JsonText.codec sampleSha256 (some 8) (newMirror .idle) 7 rfl
  have hseven : UInt64.toNat 7 = 7 := by decide
  have height8 : UInt64.toNat 8 = 8 := by decide
  have hnine : UInt64.toNat 9 = 9 := by decide
  rw [hseven] at hholds1
  have hboot := through_bootstrap JsonText.codec sampleSha256 hholds1
  obtain ⟨u2, _, _, -, -, hrun2, hholds2, hmissed⟩ :=
    through_nextTip JsonText.codec sampleSha256 newFloors
      ⟨u1, newMirror (.bootstrapped 7)⟩ hrun1 hholds1 height8
      (fun _ _ h => nomatch h)
  rw [height8] at hholds2
  have hsubscribe : Run.exec (step JsonText.codec sampleSha256 newFloors)
      ⟨u2, newMirror (.bootstrapped 7)⟩ [.mirror .subscribe]
      = some ⟨u2, newMirror (.following [] [])⟩ := rfl
  obtain ⟨u3, update, record, hrecord, hof, -, -, hnext⟩ :=
    through_nextTip JsonText.codec sampleSha256 newFloors
      ⟨u2, newMirror (.following [] [])⟩ hrun2 hholds2 hnine
      (by
        intro socket ring h
        rw [← (Session.following.inj h).2]
        decide)
  rw [hnine] at hof
  obtain ⟨s', hw, hhas, hlive⟩ := through_live JsonText.codec newFloors u3
    (newMirror (.following [] [update])) hrecord hof (by decide)
    rfl rfl
  have hrun := Run.exec_trans hfirst.exec (Run.exec_trans hboot.exec
    (Run.exec_trans hmissed.exec (Run.exec_trans hsubscribe
      (Run.exec_trans hnext.exec hlive.exec))))
  -- the mirror's store was created at its floor and holds height 9 alone
  have hmin : s'.minHeight = 8 := by
    obtain ⟨st, hst, -⟩ := hhas
    simp only [Storage.minHeight, hst, Option.map_some, Option.getD_some]
    exact hw.created rfl hst
  have height' := hall JsonText.codec sampleSha256 newFloors _ _ _ _
    (ingested_fresh _ _ _ _) rfl rfl hrun 9 (List.mem_singleton_self 9) 8
    (Nat.le_of_eq hmin) (by decide)
  rcases hw.has height' with heq | ⟨st, hst, -⟩
  · exact absurd heq (by decide)
  · cases hst

end NeveMirrorFollow
