import Neve.MirrorFollowProofs
import Neve.EthInstanceProofs

/-! # Mirror bootstraps — what success means

    Both bootstraps read one target, ask for everything from the first height they
    lack up to it, and read frames until a stored height is at or past the target.
    Nothing counts the heights in between: success says that every height of the
    range is stored exactly if the frames read up to that point, together with what
    was there before, have every height of it (`bootstrap_complete_iff`). -/

namespace NeveBootstrap

open JsonValue ByteText NeveRecord NeveStorage NevePlatformIngest NeveFrontier
open NeveMirror (bootstrapStart)
open NeveEthIngest (persistBackfilled)
open NeveEthInstance (classifyFrame)
open NeveRecordConsistency (persistRecord_some jsonHalf bytesHalf halvesAgree_jsonHalf)
open NevePlatformCodec (sampleSha256)
open NeveMirrorFollow (RecordOf persistRecord_recordOf storeBlock_ok)

/-! ## The loop -/

/-- What the frame reader gives next: a frame (with what becomes of its write), the
    end of the stream, or nothing within the idle timeout. -/
inductive StreamEvent where
  | frame (v : Value) (fault : Fault)
  | ended
  | idle

/-- What became of one frame. -/
inductive Handled where
  | skipped
  | failed (message : String) (s : Storage)
  | stored (height : Nat) (s : Storage)

inductive Outcome where
  | ok
  | failed (message : String)
  | waiting

/-- What tells the two bootstraps apart: how a frame is handled, and the words of
    their errors. -/
structure Stream where
  handle : Storage → Value → Fault → Handled
  kind : String
  label : String

/-- Read frames until a stored height is at or past the target. -/
def streamLoop (st : Stream) (idleSecs target : Nat) :
    Storage → List StreamEvent → Outcome × Storage
  | s, [] => (.waiting, s)
  | s, .ended :: _ =>
      (.failed s!"{st.kind} stream ended before reaching target {target}", s)
  | s, .idle :: _ =>
      (.failed s!"{st.label} idle for {idleSecs}s before reaching target {target}", s)
  | s, .frame v fault :: rest =>
      match st.handle s v fault with
      | .skipped => streamLoop st idleSecs target s rest
      | .failed message s' => (.failed message, s')
      | .stored height s' =>
          if target ≤ height then (.ok, s') else streamLoop st idleSecs target s' rest

/-- Catch up from `start` to the upstream's contiguous tip. -/
def catchUp (st : Stream) (idleSecs start : Nat) (s : Storage)
    (health : Except String UInt64) (connect : Except String Unit)
    (events : List StreamEvent) : Outcome × Storage :=
  match health with
  | .error message => (.failed message, s)
  | .ok target =>
      if target.toNat < start then (.ok, s)
      else match connect with
        | .error message => (.failed message, s)
        | .ok () => streamLoop st idleSecs target.toNat s events

/-! ## The two bootstraps -/

/-- The payload of a `platform.subscription` notification; any other frame has
    none. -/
def notificationPayload (v : Value) : Option Value := do
  let method ← (v.get "method").bind Value.asStr
  if method ≠ "platform.subscription" then none
  else (v.get "params").bind (·.get "result")

section Bootstraps

variable (J : Codec) (sha256 : Bytes → Bytes32)

/-- One frame of the P-chain's `oldRecords` stream. -/
def handleRecord (s : Storage) (v : Value) (fault : Fault) : Handled :=
  match notificationPayload v with
  | none => .skipped
  | some record =>
      match persistRecord J sha256 s (fun _ => fault) record with
      | (none, s') =>
          .failed "mirror bootstrap: upstream sent a record that failed verification" s'
      | (some height, s') => .stored height s'

/-- One frame of the C-chain's `oldBlocks` stream: whole blocks are stored with an
    empty logs half, anything else is ignored. -/
def handleBlock (s : Storage) (v : Value) (fault : Fault) : Handled :=
  match classifyFrame v with
  | some (.NewBlock height _ block) =>
      match persistBackfilled J s fault height block EMPTY_ARRAY with
      | (.error message, s') => .failed message s'
      | (.ok (), s') => .stored height s'
  | _ => .skipped

def recordStream : Stream := ⟨handleRecord J sha256, "oldRecords", "mirror bootstrap"⟩

def blockStream : Stream := ⟨handleBlock J, "oldBlocks", "oldBlocks bootstrap"⟩

/-- `platform::mirror::bootstrap`. -/
def bootstrap (idleSecs : Nat) (backfillFloor : Option Nat) (s : Storage)
    (health : Except String UInt64) (connect : Except String Unit)
    (events : List StreamEvent) : Outcome × Storage :=
  catchUp (recordStream J sha256) idleSecs (bootstrapStart s backfillFloor) s health connect
    events

/-- `eth::ingest::bootstrap_via_oldblocks`. -/
def bootstrapViaOldblocks (idleSecs : Nat) (backfillFloor : Option Nat) (s : Storage)
    (health : Except String UInt64) (connect : Except String Unit)
    (events : List StreamEvent) : Outcome × Storage :=
  catchUp (blockStream J) idleSecs (bootstrapFrom s.maxContiguousHeight backfillFloor) s health
    connect events

/-- The height of the record a frame carries, if it carries one that verifies. -/
def recordHeight (v : Value) : Option Nat :=
  (notificationPayload v).bind fun record =>
    match record.asArray with
    | some [blockJson, bytesJson, _] =>
        (verifyRecord J sha256 bytesJson blockJson).toOption.map (·.height)
    | _ => none

end Bootstraps

/-- The height of the block a frame carries, if it carries one. -/
def blockHeight (v : Value) : Option Nat :=
  match classifyFrame v with
  | some (.NewBlock height _ _) => some height
  | _ => none

/-- The heights of the frames read up to the first one at or past the target. -/
def received (heightOf : Value → Option Nat) (target : Nat) : List StreamEvent → List Nat
  | [] => []
  | .ended :: _ => []
  | .idle :: _ => []
  | .frame v _ :: rest =>
      match heightOf v with
      | none => received heightOf target rest
      | some height => height :: if target ≤ height then [] else received heightOf target rest

/-! ## What the loop stores -/

/-- A frame is skipped only if it has no height, and stored at the one it has,
    which is all that changes. -/
structure Faithful (handle : Storage → Value → Fault → Handled)
    (heightOf : Value → Option Nat) : Prop where
  skipped : ∀ {s v fault}, handle s v fault = .skipped → heightOf v = none
  stored : ∀ {s v fault height s'}, handle s v fault = .stored height s' →
    heightOf v = some height ∧ ∀ k, s'.Has k ↔ k = height ∨ s.Has k

section Loop

variable {st : Stream} {heightOf : Value → Option Nat} {idleSecs target : Nat}

/-- **The loop on success**: what is stored was there before or was received. -/
theorem streamLoop_ok (hst : Faithful st.handle heightOf) {s s' : Storage}
    {events : List StreamEvent} (h : streamLoop st idleSecs target s events = (.ok, s')) :
    ∀ k, s'.Has k ↔ s.Has k ∨ k ∈ received heightOf target events := by
  induction events generalizing s with
  | nil => cases h
  | cons event rest ih =>
      intro k
      cases event with
      | ended => cases h
      | idle => cases h
      | frame v fault =>
          simp only [streamLoop] at h
          simp only [received]
          cases hv : st.handle s v fault with
          | skipped =>
              rw [hv] at h
              rw [hst.skipped hv]
              exact ih h k
          | failed message s1 =>
              rw [hv] at h
              cases h
          | stored height s1 =>
              obtain ⟨hheight, hhas⟩ := hst.stored hv
              rw [hv] at h
              rw [hheight]
              dsimp only at h ⊢
              by_cases htarget : target ≤ height
              · rw [if_pos htarget] at h ⊢
                rw [← (Prod.mk.inj h).2, hhas k, List.mem_singleton, or_comm]
              · rw [if_neg htarget] at h ⊢
                rw [ih h k, hhas k, List.mem_cons]
                constructor
                · rintro ((heq | hold) | hmem)
                  · exact Or.inr (Or.inl heq)
                  · exact Or.inl hold
                  · exact Or.inr (Or.inr hmem)
                · rintro (hold | heq | hmem)
                  · exact Or.inl (Or.inr hold)
                  · exact Or.inl (Or.inl heq)
                  · exact Or.inr hmem

/-- Every height of the range is stored. -/
def Present (s : Storage) (start target : Nat) : Prop :=
  ∀ k, start ≤ k → k ≤ target → s.Has k

/-- Every height of the range is stored already, or among the frames read. -/
def Supplied (heightOf : Value → Option Nat) (s : Storage) (start target : Nat)
    (events : List StreamEvent) : Prop :=
  ∀ k, start ≤ k → k ≤ target → s.Has k ∨ k ∈ received heightOf target events

theorem catchUp_ok (hst : Faithful st.handle heightOf) {start : Nat} {s s' : Storage}
    {target : UInt64} {connect : Except String Unit} {events : List StreamEvent}
    (h : catchUp st idleSecs start s (.ok target) connect events = (.ok, s')) :
    Present s' start target.toNat ↔ Supplied heightOf s start target.toNat events := by
  simp only [catchUp] at h
  by_cases hlt : target.toNat < start
  · -- nothing is missing of an empty range
    constructor
    · intro _ k hlo hhi
      omega
    · intro _ k hlo hhi
      omega
  rw [if_neg hlt] at h
  cases connect with
  | error message => cases h
  | ok u =>
      have hhas := streamLoop_ok hst h
      constructor
      · intro hall k hlo hhi
        exact (hhas k).mp (hall k hlo hhi)
      · intro hall k hlo hhi
        exact (hhas k).mpr (hall k hlo hhi)

end Loop

/-- A write that succeeded added its height and no other. -/
theorem has_iff_of_wrote {height : Nat} {s s' : Storage} (hw : Wrote height s s')
    (hhas : s'.Has height) (k : Nat) : s'.Has k ↔ k = height ∨ s.Has k := by
  constructor
  · exact hw.has
  · rintro (rfl | hold)
    · exact hhas
    · exact hw.grows.has k hold

section Handlers

variable {J : Codec} {sha256 : Bytes → Bytes32}

theorem faithful_record : Faithful (handleRecord J sha256) (recordHeight J sha256) where
  skipped {s v fault} h := by
    simp only [handleRecord] at h
    simp only [recordHeight]
    cases hp : notificationPayload v with
    | none => rfl
    | some record =>
        rw [hp] at h
        dsimp only at h
        cases hpersist : persistRecord J sha256 s (fun _ => fault) record with
        | mk stored s1 =>
            rw [hpersist] at h
            cases stored with
            | none => cases h
            | some height => cases h
  stored {s v fault height s'} h := by
    simp only [handleRecord] at h
    simp only [recordHeight]
    cases hp : notificationPayload v with
    | none => rw [hp] at h; cases h
    | some record =>
        rw [hp] at h
        dsimp only at h
        cases hpersist : persistRecord J sha256 s (fun _ => fault) record with
        | mk stored s1 =>
            rw [hpersist] at h
            cases stored with
            | none => cases h
            | some height' =>
                obtain ⟨rfl, rfl⟩ := Handled.stored.inj h
                obtain ⟨blockJson, bytesJson, rewards, fetched, hparts, hv, rfl, hstore⟩ :=
                  persistRecord_some hpersist
                refine ⟨?_, ?_⟩
                · simp only [Option.bind_some, hparts, hv, Except.toOption, Option.map_some]
                · have hw := storeBlock_wrote s fault fetched (J.toVec rewards)
                  rw [hstore] at hw
                  exact has_iff_of_wrote hw (storeBlock_some hstore)

theorem faithful_block : Faithful (handleBlock J) blockHeight where
  skipped {s v fault} h := by
    simp only [handleBlock] at h
    simp only [blockHeight]
    cases hc : classifyFrame v with
    | none => rfl
    | some event =>
        rw [hc] at h
        cases event with
        | Subscribed => rfl
        | NewHead height hash => rfl
        | NewBlock height hash block =>
            dsimp only at h
            cases hpersist : persistBackfilled J s fault height block EMPTY_ARRAY with
            | mk result s1 =>
                rw [hpersist] at h
                cases result with
                | error message => cases h
                | ok u => cases h
  stored {s v fault height s'} h := by
    simp only [handleBlock] at h
    simp only [blockHeight]
    cases hc : classifyFrame v with
    | none => rw [hc] at h; cases h
    | some event =>
        rw [hc] at h
        cases event with
        | Subscribed => cases h
        | NewHead height' hash => cases h
        | NewBlock height' hash block =>
            dsimp only at h
            have hw := persistBackfilled_wrote J s fault height' block EMPTY_ARRAY
            cases hpersist : persistBackfilled J s fault height' block EMPTY_ARRAY with
            | mk result s1 =>
                rw [hpersist] at h hw
                cases result with
                | error message => cases h
                | ok u =>
                    obtain ⟨rfl, rfl⟩ := Handled.stored.inj h
                    exact ⟨rfl, has_iff_of_wrote hw (persistBackfilled_ok hpersist)⟩

end Handlers

/-! ## Success and completeness -/

/-- **What success means.** A bootstrap that returns with success has every height
    from the first it asked for to its target exactly if each of them was stored
    before or is the height of one of the frames it read. -/
theorem bootstrap_complete_iff (J : Codec) (sha256 : Bytes → Bytes32) (idleSecs : Nat)
    (backfillFloor : Option Nat) (s : Storage) (target : UInt64)
    (connect : Except String Unit) (events : List StreamEvent) (s' : Storage) :
    (bootstrap J sha256 idleSecs backfillFloor s (.ok target) connect events = (.ok, s') →
      (Present s' (bootstrapStart s backfillFloor) target.toNat ↔
        Supplied (recordHeight J sha256) s (bootstrapStart s backfillFloor) target.toNat
          events)) ∧
    (bootstrapViaOldblocks J idleSecs backfillFloor s (.ok target) connect events = (.ok, s') →
      (Present s' (bootstrapFrom s.maxContiguousHeight backfillFloor) target.toNat ↔
        Supplied blockHeight s (bootstrapFrom s.maxContiguousHeight backfillFloor) target.toNat
          events)) :=
  ⟨catchUp_ok faithful_record, catchUp_ok faithful_block⟩

/-! ## Short streams -/

/-- An empty block, as the stream carries it. -/
def blockFrame (number : String) : Value :=
  .object [("method", .string "eth_subscription"), ("params", .object [("result", .object
    [("number", .string number),
      ("hash", .string ("0x" ++ String.ofList (List.replicate 64 '0'))),
      ("transactions", .array [])])])]

/-- The record of an empty block, as the stream carries it. -/
def recordFrame (sha256 : Bytes → Bytes32) (height : UInt64) : Value :=
  .object [("method", .string "platform.subscription"), ("params", .object [("result",
    .array [jsonHalf sha256 [] height [], bytesHalf [], .array []])])]

section Frames

variable (st : Stream) {heightOf : Value → Option Nat} (idleSecs : Nat)

/-- A stream of one frame that is stored at the target. -/
theorem streamLoop_one {target : Nat} (hst : Faithful st.handle heightOf) {s s' : Storage}
    {v : Value} (hnone : ∀ k, ¬ s.Has k) (h : st.handle s v .none = .stored target s') :
    streamLoop st idleSecs target s [.frame v .none] = (.ok, s') ∧
      ∀ k, s'.Has k ↔ k = target := by
  constructor
  · simp only [streamLoop, h]
    rw [if_pos (Nat.le_refl _)]
  · intro k
    rw [(hst.stored h).2 k]
    constructor
    · rintro (heq | hold)
      · exact heq
      · exact absurd hold (hnone k)
    · exact Or.inl

/-- A stream of two frames, stored below the target and at it. -/
theorem streamLoop_two {first target : Nat} (hlt : first < target)
    (hst : Faithful st.handle heightOf) {s s1 s2 : Storage} {v w : Value}
    (hnone : ∀ k, ¬ s.Has k) (hv : st.handle s v .none = .stored first s1)
    (hw : st.handle s1 w .none = .stored target s2) :
    streamLoop st idleSecs target s [.frame v .none, .frame w .none] = (.ok, s2) ∧
      ∀ k, s2.Has k ↔ k = first ∨ k = target := by
  constructor
  · simp only [streamLoop, hv, hw]
    rw [if_neg (Nat.not_le.mpr hlt), if_pos (Nat.le_refl _)]
  · intro k
    rw [(hst.stored hw).2 k, (hst.stored hv).2 k]
    constructor
    · rintro (heq | heq | hold)
      · exact Or.inr heq
      · exact Or.inl heq
      · exact absurd hold (hnone k)
    · rintro (heq | heq)
      · exact Or.inr (Or.inl heq)
      · exact Or.inl heq

end Frames

theorem not_has_fresh (blockdb : Blockdb) (chain : Chain) (anchorFloor : Option Nat) (k : Nat) :
    ¬ (Storage.fresh blockdb chain anchorFloor).Has k := by
  rintro ⟨st, hst, -⟩
  cases hst

/-- A record at or above the minimum is stored. -/
theorem handleRecord_recordFrame (J : Codec) (sha256 : Bytes → Bytes32) {s : Storage}
    {height : UInt64} (hchain : s.chain = .P)
    (hmin : (s.openStore height.toNat).minHeight ≤ height.toNat) :
    ∃ s', (recordStream J sha256).handle s (recordFrame sha256 height) .none
        = .stored height.toNat s' ∧ s'.chain = .P := by
  have hof : RecordOf sha256 height.toNat
      (.array [jsonHalf sha256 [] height [], bytesHalf [], .array []]) :=
    ⟨_, _, _, [], rfl, halvesAgree_jsonHalf sha256 [] height []⟩
  obtain ⟨fetched, rewards, hheight, hpersist⟩ := persistRecord_recordOf (J := J) hof s
    fun _ => .none
  rw [← hheight] at hmin
  obtain ⟨s', hstore⟩ := storeBlock_ok rewards hchain hmin
  have hgrows := (storeBlock_wrote s .none fetched rewards).grows
  rw [hstore] at hgrows
  rw [hstore, hheight] at hpersist
  have hpayload : notificationPayload (recordFrame sha256 height)
      = some (.array [jsonHalf sha256 [] height [], bytesHalf [], .array []]) := rfl
  refine ⟨s', ?_, hgrows.chain.trans hchain⟩
  simp only [recordStream, handleRecord, hpayload, hpersist]

/-- A store begins at its anchor floor, if a height at or above that creates it. -/
theorem minHeight_openStore_fresh {floor height : Nat} (hle : floor ≤ height) :
    ((Storage.fresh memory .P (some floor)).openStore height).minHeight ≤ height := by
  change ((some floor).filter (· ≤ height)).getD height ≤ height
  rw [Option.filter_some, if_pos (by simpa using hle)]
  exact hle

/-- Of an empty store. -/
theorem handleRecord_fresh (J : Codec) (sha256 : Bytes → Bytes32) {floor : Nat} {height : UInt64}
    (hle : floor ≤ height.toNat) :
    ∃ s', (recordStream J sha256).handle (Storage.fresh memory .P (some floor))
      (recordFrame sha256 height) .none = .stored height.toNat s' ∧ s'.chain = .P :=
  handleRecord_recordFrame J sha256 rfl (minHeight_openStore_fresh hle)

/-- Two records in a row are stored. -/
theorem handleRecord_two (J : Codec) (sha256 : Bytes → Bytes32) {floor : Nat}
    {first second : UInt64} (hfloor : floor ≤ first.toNat) (hle : first.toNat ≤ second.toNat) :
    ∃ s1 s2, (recordStream J sha256).handle (Storage.fresh memory .P (some floor))
        (recordFrame sha256 first) .none = .stored first.toNat s1 ∧
      (recordStream J sha256).handle s1 (recordFrame sha256 second) .none
        = .stored second.toNat s2 := by
  obtain ⟨s1, hfirst, hchain⟩ := handleRecord_fresh J sha256 hfloor
  have hfaithful : Faithful (recordStream J sha256).handle (recordHeight J sha256) :=
    faithful_record
  -- the store the first write created begins no higher than that
  have hone : s1.Has first.toNat := ((hfaithful.stored hfirst).2 _).mpr (Or.inl rfl)
  obtain ⟨st, hst, hhas⟩ := hone
  have hmin : (s1.openStore second.toNat).minHeight ≤ second.toNat := by
    simp only [Storage.openStore, hst, Option.getD_some]
    exact (Store.min_le_of_has hhas).trans hle
  obtain ⟨s2, hsecond, -⟩ := handleRecord_recordFrame J sha256 hchain hmin
  exact ⟨s1, s2, hfirst, hsecond⟩

/-- The record is stored, and is all that the bootstrap waits for. -/
theorem bootstrap_one_record (J : Codec) (sha256 : Bytes → Bytes32) {floor : Nat}
    (hle : floor ≤ 7) :
    ∃ s', bootstrap J sha256 60 (some floor) (Storage.fresh memory .P (some floor)) (.ok 7)
        (.ok ()) [.frame (recordFrame sha256 7) .none] = (.ok, s') ∧
      ∀ k, s'.Has k ↔ k = 7 := by
  obtain ⟨s', hhandle, -⟩ := handleRecord_fresh J sha256
    (show floor ≤ UInt64.toNat 7 from hle)
  obtain ⟨hloop, hhas⟩ := streamLoop_one (recordStream J sha256) 60 faithful_record
    (not_has_fresh _ _ _) hhandle
  refine ⟨s', ?_, hhas⟩
  have hstart : ¬ UInt64.toNat 7 < bootstrapStart (Storage.fresh memory .P (some floor))
      (some floor) := Nat.not_lt.mpr hle
  simp only [bootstrap, catchUp]
  rw [if_neg hstart]
  exact hloop

/-- Both records are stored. -/
theorem bootstrap_two_records (J : Codec) (sha256 : Bytes → Bytes32) :
    ∃ s', bootstrap J sha256 60 (some 6) (Storage.fresh memory .P (some 6)) (.ok 7) (.ok ())
        [.frame (recordFrame sha256 6) .none, .frame (recordFrame sha256 7) .none] = (.ok, s') ∧
      ∀ k, s'.Has k ↔ k = 6 ∨ k = 7 := by
  obtain ⟨s1, s2, hfirst, hsecond⟩ := handleRecord_two J sha256
    (show 6 ≤ UInt64.toNat 6 by decide) (show UInt64.toNat 6 ≤ UInt64.toNat 7 by decide)
  obtain ⟨hloop, hhas⟩ := streamLoop_two (recordStream J sha256) 60
    (show UInt64.toNat 6 < UInt64.toNat 7 by decide) faithful_record (not_has_fresh _ _ _)
    hfirst hsecond
  refine ⟨s2, ?_, hhas⟩
  have hstart : ¬ UInt64.toNat 7 < bootstrapStart (Storage.fresh memory .P (some 6)) (some 6) :=
    Nat.not_lt.mpr (Nat.le_succ 6)
  simp only [bootstrap, catchUp]
  rw [if_neg hstart]
  exact hloop

/-- The block is stored, and is all that the bootstrap waits for. -/
theorem bootstrapViaOldblocks_one_block :
    ∃ s', bootstrapViaOldblocks JsonText.codec 60 (some 5)
        (Storage.fresh memory .C (some 5)) (.ok 7) (.ok ()) [.frame (blockFrame "0x7") .none]
          = (.ok, s') ∧
      ∀ k, s'.Has k ↔ k = 7 := by
  obtain ⟨s', hhandle⟩ : ∃ s', (blockStream JsonText.codec).handle
      (Storage.fresh memory .C (some 5)) (blockFrame "0x7") .none = .stored 7 s' := ⟨_, rfl⟩
  obtain ⟨hloop, hhas⟩ := streamLoop_one (blockStream JsonText.codec) 60 faithful_block
    (not_has_fresh _ _ _) hhandle
  refine ⟨s', ?_, hhas⟩
  have hstart : ¬ UInt64.toNat 7
      < bootstrapFrom (Storage.fresh memory .C (some 5)).maxContiguousHeight (some 5) := by
    decide
  simp only [bootstrapViaOldblocks, catchUp]
  rw [if_neg hstart]
  exact hloop

/-- Both blocks are stored. -/
theorem bootstrapViaOldblocks_two_blocks :
    ∃ s', bootstrapViaOldblocks JsonText.codec 60 (some 6)
        (Storage.fresh memory .C (some 6)) (.ok 7) (.ok ())
        [.frame (blockFrame "0x6") .none, .frame (blockFrame "0x7") .none] = (.ok, s') ∧
      ∀ k, s'.Has k ↔ k = 6 ∨ k = 7 := by
  obtain ⟨s1, s2, hfirst, hsecond⟩ : ∃ s1 s2, (blockStream JsonText.codec).handle
      (Storage.fresh memory .C (some 6)) (blockFrame "0x6") .none = .stored 6 s1 ∧
      (blockStream JsonText.codec).handle s1 (blockFrame "0x7") .none = .stored 7 s2 :=
    ⟨_, _, rfl, rfl⟩
  obtain ⟨hloop, hhas⟩ := streamLoop_two (blockStream JsonText.codec) 60 (Nat.lt_succ_self 6)
    faithful_block (not_has_fresh _ _ _) hfirst hsecond
  refine ⟨s2, ?_, hhas⟩
  have hstart : ¬ UInt64.toNat 7
      < bootstrapFrom (Storage.fresh memory .C (some 6)).maxContiguousHeight (some 6) := by
    decide
  simp only [bootstrapViaOldblocks, catchUp]
  rw [if_neg hstart]
  exact hloop

/-- Asked for heights 6 and 7, both bootstraps succeed with both stored. -/
theorem bootstrap_complete_iff_six_seven :
    (∃ s', bootstrap JsonText.codec sampleSha256 60 (some 6)
        (Storage.fresh memory .P (some 6)) (.ok 7) (.ok ())
        [.frame (recordFrame sampleSha256 6) .none, .frame (recordFrame sampleSha256 7) .none]
          = (.ok, s') ∧
      Supplied (recordHeight JsonText.codec sampleSha256)
        (Storage.fresh memory .P (some 6)) 6 7
        [.frame (recordFrame sampleSha256 6) .none,
          .frame (recordFrame sampleSha256 7) .none]) ∧
    (∃ s', bootstrapViaOldblocks JsonText.codec 60 (some 6)
        (Storage.fresh memory .C (some 6)) (.ok 7) (.ok ())
        [.frame (blockFrame "0x6") .none, .frame (blockFrame "0x7") .none] = (.ok, s') ∧
      Supplied blockHeight (Storage.fresh memory .C (some 6)) 6 7
        [.frame (blockFrame "0x6") .none, .frame (blockFrame "0x7") .none]) := by
  obtain ⟨sp, hp, hasp⟩ := bootstrap_two_records JsonText.codec sampleSha256
  obtain ⟨sc, hc, hasc⟩ := bootstrapViaOldblocks_two_blocks
  obtain ⟨hrecords, -⟩ := bootstrap_complete_iff JsonText.codec sampleSha256 60
    (some 6) (Storage.fresh memory .P (some 6)) 7 (.ok ())
    [.frame (recordFrame sampleSha256 6) .none, .frame (recordFrame sampleSha256 7) .none] sp
  obtain ⟨-, hblocks⟩ := bootstrap_complete_iff JsonText.codec sampleSha256 60
    (some 6) (Storage.fresh memory .C (some 6)) 7 (.ok ())
    [.frame (blockFrame "0x6") .none, .frame (blockFrame "0x7") .none] sc
  have htwo : ∀ k, 6 ≤ k → k ≤ 7 → k = 6 ∨ k = 7 := by
    intro k hlo hhi
    omega
  refine ⟨⟨sp, hp, (hrecords hp).mp ?_⟩, sc, hc, (hblocks hc).mp ?_⟩
  · intro k hlo hhi
    exact (hasp k).mpr (htwo k hlo hhi)
  · intro k hlo hhi
    exact (hasc k).mpr (htwo k hlo hhi)

/-- Asked for heights 5 to 7, both bootstraps take a stream of height 7 alone for
    the whole range. -/
theorem bootstrap_skips_heights :
    (∃ s', bootstrap JsonText.codec sampleSha256 60 (some 5)
        (Storage.fresh memory .P (some 5)) (.ok 7) (.ok ())
        [.frame (recordFrame sampleSha256 7) .none] = (.ok, s') ∧
      bootstrapStart (Storage.fresh memory .P (some 5)) (some 5) = 5 ∧ ¬ Present s' 5 7) ∧
    (∃ s', bootstrapViaOldblocks JsonText.codec 60 (some 5)
        (Storage.fresh memory .C (some 5)) (.ok 7) (.ok ()) [.frame (blockFrame "0x7") .none]
          = (.ok, s') ∧
      bootstrapFrom (Storage.fresh memory .C (some 5)).maxContiguousHeight (some 5) = 5 ∧
      ¬ Present s' 5 7) := by
  obtain ⟨sp, hp, hasp⟩ :=
    bootstrap_one_record JsonText.codec sampleSha256 (by decide : 5 ≤ 7)
  obtain ⟨sc, hc, hasc⟩ := bootstrapViaOldblocks_one_block
  refine ⟨⟨sp, hp, rfl, ?_⟩, sc, hc, by decide, ?_⟩
  · intro hall
    exact absurd ((hasp 5).mp (hall 5 (Nat.le_refl 5) (by decide))) (by decide)
  · intro hall
    exact absurd ((hasc 5).mp (hall 5 (Nat.le_refl 5) (by decide))) (by decide)

end NeveBootstrap
