import Neve.FillLoopProofs
import Neve.PlatformFillProofs
import Neve.MirrorFollowProofs
import Neve.EmptyWindowProofs

/-! # Catching up — how many passes the P-chain's fill takes

    A pass of the P-chain loop measures, fills at most one chunk of heights and measures
    again.  It may be cut short anywhere: the tip is not polled, a height is not answered,
    a write fails at any of its stages.  What it stored stays, and the next pass starts
    where the store ends, so a pass that is answered in full takes the store a chunk
    further whatever went wrong before it.  One height of the chunk may be held back, a
    reward proposal at its end.

    After as many such passes as there are chunks below a goal, in any order with any
    others, every height below the goal is stored (`ingest_catches_up`). -/

namespace NevePlatformCatchUp

open JsonValue ByteText FirstGap NeveRecord NeveStorage NevePlatformIngest NeveFillLoop
open NeveFrontier (saturatingAdd u64Max Grows storeBlock_wrote storeBlock_some)
open NeveMirrorFollow (storeBlock_ok)
open NeveRecordConsistency (storeBlock_state)
open NevePlatformCodec (sampleSha256)

/-! ## One write -/

section Writes

variable {s s' : Storage} {fetched : FetchedBlock} {rewards : Bytes} {fault : Fault}

/-- The block is there unless creating the blockstore or writing to it failed. -/
theorem storeBlock_there (rewards : Bytes) (hchain : s.chain = .P) (hcreate : fault ≠ .create)
    (hwrite : fault ≠ .write) (hmin : (s.openStore fetched.height).minHeight ≤ fetched.height) :
    (storeBlock s fault fetched rewards).2.Has fetched.height := by
  rw [storeBlock_state, Storage.has_iff_rawAt, ← Option.isSome_iff_exists]
  refine Storage.rawAt_put_of_writable ⟨?_, hcreate, hwrite, hmin⟩ _ _
  rw [hchain]
  rfl

/-- A blockstore that cannot be created is not. -/
theorem storeBlock_uncreated (fetched : FetchedBlock) (rewards : Bytes) (hchain : s.chain = .P)
    (hcreate : fault = .create) (hnone : s.store = none) :
    (storeBlock s fault fetched rewards).2.store = none := by
  rw [storeBlock_state]
  simp only [Storage.put, Storage.putBlock, hchain, hnone, hcreate, arity, Option.isNone_none,
    and_self, if_true, List.length_cons, List.length_nil, ne_eq, not_true_eq_false, if_false]

/-- A height the blockstore does not refuse, if it exists. -/
def Low (a : Nat) (s : Storage) : Prop := ∀ st, s.store = some st → st.minHeight ≤ a

theorem Low.openStore {a : Nat} (h : Low a s) : (s.openStore a).minHeight ≤ a := by
  cases hs : s.store with
  | none =>
      simp only [Storage.openStore, hs, Option.getD_none, Store.minHeight_create]
      exact s.anchor_le a
  | some st =>
      simp only [Storage.openStore, hs, Option.getD_some]
      exact h st hs

theorem Low.storeBlock {a : Nat} (h : Low a s) (hheight : fetched.height = a) :
    Low (a + 1) (storeBlock s fault fetched rewards).2 := by
  have hw := storeBlock_wrote s fault fetched rewards
  intro st' hst'
  cases hs : s.store with
  | none =>
      have hmin := hw.created hs hst'
      have hle := s.anchor_le fetched.height
      omega
  | some st =>
      obtain ⟨st1, hst1, hmin⟩ := hw.grows.minHeight st hs
      have hle := h st hs
      rw [Option.some.inj (hst'.symm.trans hst1), hmin]
      omega

end Writes

/-! ## The writes of a fill -/

section Performed

variable {fault : Nat → Fault} {s s' : Storage} {ws : List Write} {a : Nat}

theorem performed_grows (h : Performed fault s ws s') : Grows s s' := by
  induction h with
  | nil s => exact Grows.refl s
  | cons block rewards _ ih => exact (storeBlock_wrote _ _ block rewards).grows.trans ih

/-- Undisturbed writes of consecutive heights that the blockstore does not refuse all go
    through. -/
theorem performed_ok (h : Performed fault s ws s') (hchain : s.chain = .P)
    (hfault : ∀ k, fault k = .none) (hlow : Low a s)
    (hheights : ws.map (·.block.height) = List.range' a ws.length) :
    ∀ w ∈ ws, w.ok = true := by
  induction h generalizing a with
  | nil s =>
      intro w hw
      cases hw
  | @cons s s' ws block rewards rest ih =>
      rw [List.map_cons, List.length_cons, List.range'_succ] at hheights
      obtain ⟨hheight, htail⟩ := List.cons.inj hheights
      have hheight : block.height = a := hheight
      obtain ⟨s1, hok⟩ := storeBlock_ok rewards hchain (hheight ▸ hlow.openStore)
      intro w hw
      rcases List.mem_cons.mp hw with rfl | hmem
      · simp only [Write.of, hfault, hok, Option.isSome_some]
      · have hgrows := (storeBlock_wrote s (fault block.height) block rewards).grows
        exact ih (hgrows.chain.trans hchain) (hlow.storeBlock hheight) htail w hmem

/-- **The first write of a store**: when the writes leave a blockstore, the block of the
    first height is in it, unless writing that one failed. -/
theorem performed_first {ok : Bool} (h : Performed fault s ws s') (hchain : s.chain = .P)
    (hnone : s.store = none) (hupTo : UpTo ok ws)
    (hheights : ws.map (·.block.height) = List.range' a ws.length)
    (hwrite : fault a ≠ .write) {st : Store} (hst : s'.store = some st) : s'.Has a := by
  cases h with
  | nil =>
      rw [hnone] at hst
      cases hst
  | @cons _ _ ws block rewards rest =>
      rw [List.map_cons, List.length_cons, List.range'_succ] at hheights
      obtain ⟨rfl, -⟩ := List.cons.inj hheights
      have hlow : Low block.height s := by
        intro st hs
        rw [hnone] at hs
        cases hs
      by_cases hcreate : fault block.height = .create
      · -- then this was the last write, and there is no blockstore
        have hstill := storeBlock_uncreated block rewards hchain hcreate hnone
        obtain ⟨written, failed, heq, hdone, -, hone, -⟩ := hupTo
        cases written with
        | nil =>
            rw [List.nil_append] at heq
            rw [← heq, List.length_cons] at hone
            obtain rfl := List.length_eq_zero_iff.mp (Nat.le_zero.mp (Nat.le_of_succ_le_succ hone))
            cases rest
            rw [hstill] at hst
            cases hst
        | cons w written =>
            obtain ⟨rfl, -⟩ := List.cons.inj heq
            have hbad := hdone _ (List.mem_cons_self ..)
            obtain ⟨k, hk⟩ := Option.isSome_iff_exists.mp hbad
            obtain ⟨st1, hst1, -⟩ := storeBlock_some (Prod.ext hk rfl)
            rw [hstill] at hst1
            cases hst1
      · have hhas := storeBlock_there rewards hchain hcreate hwrite hlow.openStore
        exact (performed_grows rest).has _ hhas

end Performed

/-! ## One pass -/

/-- The store begins at `base` or below and has everything from there up to `n`; while there
    is no blockstore, it is going to begin at the floor. -/
structure Climbed (floor : Option Nat) (base n : Nat) (s : Storage) : Prop where
  chain : s.chain = .P
  anchorFloor : s.anchorFloor = floor
  empty : s.store = none → floor = some base ∧ n ≤ base
  filled : ∀ st, s.store = some st →
    st.minHeight ≤ base ∧ n ≤ st.firstHole ∧ 0 < st.firstHole

section Passes

variable {J : Codec} {sha256 : Bytes → Bytes32} {floor : Option Nat} {base n goal : Nat}
  {s s' : Storage} {l : PlatformLoop} {x : Pass} {p : Pipeline} {tip : Nat}

theorem Climbed.has (h : Climbed floor base n s) {k : Nat} (hlo : base ≤ k) (hhi : k < n) :
    s.Has k := by
  cases hs : s.store with
  | none =>
      have hle := (h.empty hs).2
      omega
  | some st =>
      obtain ⟨hmin, hn, -⟩ := h.filled st hs
      exact ⟨st, hs, st.isFirstGap_firstHole.filled k (by omega) (by omega)⟩

theorem Climbed.anti {m : Nat} (h : Climbed floor base n s) (hle : m ≤ n) :
    Climbed floor base m s := by
  refine ⟨h.chain, h.anchorFloor, ?_, ?_⟩
  · intro hnone
    obtain ⟨hfloor, hn⟩ := h.empty hnone
    exact ⟨hfloor, hle.trans hn⟩
  · intro st hst
    obtain ⟨hmin, hn, hpos⟩ := h.filled st hst
    exact ⟨hmin, hle.trans hn, hpos⟩

theorem Climbed.grows {st : Store} (h : Climbed floor base n s) (hs : s.store = some st)
    (hg : Grows s s') : Climbed floor base n s' := by
  obtain ⟨st', hst', hmin, hmono⟩ := hg.firstHole_le hs
  obtain ⟨hbase, hn, hpos⟩ := h.filled st hs
  refine ⟨hg.chain.trans h.chain, hg.anchorFloor.trans h.anchorFloor, ?_, ?_⟩
  · intro hnone
    rw [hst'] at hnone
    cases hnone
  · intro st1 hst1
    rw [Option.some.inj (hst1.symm.trans hst')]
    omega

/-- Further up, once the heights in between are stored too. -/
theorem Climbed.further {a e m : Nat} (h : Climbed floor base n s)
    (hcreated : ∀ st, s.store = some st → a ≤ st.firstHole)
    (hempty : s.store = none → a ≤ base)
    (hstored : ∀ k, a ≤ k → k < e → s.Has k) (hm : m ≤ e) : Climbed floor base m s := by
  refine ⟨h.chain, h.anchorFloor, ?_, ?_⟩
  · intro hnone
    refine ⟨(h.empty hnone).1, ?_⟩
    by_contra hlt
    have hle := hempty hnone
    obtain ⟨st, hst, -⟩ := hstored a (Nat.le_refl a) (by omega)
    rw [hnone] at hst
    cases hst
  · intro st hst
    obtain ⟨hmin, -, hpos⟩ := h.filled st hst
    refine ⟨hmin, ?_, hpos⟩
    by_contra hlt
    obtain ⟨st1, hst1, hk⟩ := hstored st.firstHole (hcreated st hst) (by omega)
    rw [← Option.some.inj (hst.symm.trans hst1)] at hk
    exact st.isFirstGap_firstHole.gap hk

/-- The start of a pass on a store that was never written. -/
theorem next_of_empty (h : Climbed floor base n l.pipeline.storage)
    (hnone : l.pipeline.storage.store = none) : l.next floor tip = base := by
  simp only [PlatformLoop.next, nextHeight, Storage.isEmpty, hnone, Option.isNone_none, if_true,
    (h.empty hnone).1, Option.getD_some]

/-- **A fill keeps what was climbed**, wherever it is cut short. -/
theorem Climbed.fill (J : Codec) (sha256 : Bytes → Bytes32)
    (h : Climbed floor base n l.pipeline.storage) (tip : Nat)
    (hp : p.storage = l.pipeline.storage) (hwrite : x.fault 0 ≠ .write) :
    Climbed floor base n (fillRange J sha256 x.listening x.fault tip p none
      (heightReplies x (l.next floor tip) (l.stop floor tip))).2.storage := by
  have hgrows := fillRange_grows J sha256 x.fault x.listening tip
    (heightReplies x (l.next floor tip) (l.stop floor tip)) p none
  rw [hp] at hgrows
  cases hs : l.pipeline.storage.store with
  | some st => exact h.grows hs hgrows
  | none =>
      obtain ⟨hfloor, hn⟩ := h.empty hs
      have hnext : l.next floor tip = base := next_of_empty h hs
      have hrun := fillRange_answers J sha256 x.listening x.fault tip x.replies p
        (l.next floor tip) (l.stop floor tip)
      refine ⟨hgrows.chain.trans h.chain, hgrows.anchorFloor.trans h.anchorFloor,
        fun _ => ⟨hfloor, hn⟩, ?_⟩
      intro st hst
      have hmin := fillRange_anchor hs (hp ▸ h.anchorFloor) (hp ▸ hs) hst
      have hgap := st.isFirstGap_firstHole
      have hle := hgap.le
      refine ⟨by omega, by omega, ?_⟩
      rcases Nat.eq_zero_or_pos base with rfl | hpos
      · -- the genesis was the first height written
        have hhas := performed_first hrun.performed (hp ▸ h.chain) (hp ▸ hs) hrun.upTo
          hrun.heights (hnext ▸ hwrite) hst
        obtain ⟨st1, hst1, hk⟩ := hhas
        rw [hnext, ← Option.some.inj (hst.symm.trans hst1)] at hk
        rcases Nat.eq_zero_or_pos st.firstHole with heq | hpos
        · exact absurd (heq ▸ hk) hgap.gap
        · exact hpos
      · omega

/-- A pass that goes well for a goal: it goes by a tip beyond which lies nothing below the
    goal, upstream answers its run in full, and its writes are undisturbed. -/
structure Healthy (J : Codec) (sha256 : Bytes → Bytes32) (floor : Option Nat) (goal : Nat)
    (l : PlatformLoop) (x : Pass) : Prop where
  tip : ∃ tip, l.passTip x = some tip ∧ goal ≤ writtenEnd x tip
  answered : ∀ tip, l.passTip x = some tip →
    Answered J sha256 x.replies (l.next floor tip) (l.stop floor tip)
  undisturbed : ∀ k, x.fault k = .none

theorem writtenEnd_le (x : Pass) (stop : Nat) : writtenEnd x stop ≤ stop + 1 := by
  simp only [writtenEnd]
  split <;> omega

theorem le_writtenEnd (x : Pass) (stop : Nat) : stop ≤ writtenEnd x stop := by
  simp only [writtenEnd]
  split <;> omega

/-- A run that is answered in full and written undisturbed is not cut short. -/
theorem fillRange_healthy (h : Climbed floor base n l.pipeline.storage)
    (hp : p.storage = l.pipeline.storage) (hlow : Low (l.next floor tip) l.pipeline.storage)
    (hhealthy : Healthy J sha256 floor goal l x) (htip : l.passTip x = some tip) {out : Pipeline}
    {ok : Bool} (hout : fillRange J sha256 x.listening x.fault tip p none
      (heightReplies x (l.next floor tip) (l.stop floor tip)) = (ok, out)) : ok = true := by
  have hprefix := fill_range_prefix J sha256 x.listening x.fault tip x.replies p
    (l.next floor tip) (l.stop floor tip)
  obtain ⟨hperformed, hheights, -, -, -, hdone⟩ := hprefix
  have hok := performed_ok hperformed (hp ▸ h.chain) hhealthy.undisturbed (hp ▸ hlow) hheights
  have htrue := (hdone (hhealthy.answered tip htip) hok).1
  rw [show answers x.replies (l.next floor tip) (l.stop floor tip)
    = heightReplies x (l.next floor tip) (l.stop floor tip) from rfl, hout] at htrue
  exact htrue

/-- How far a run that completes gets: to the goal, or a chunk on with its last height
    perhaps held. -/
theorem le_writtenEnd_stop (hn : n ≤ l.next floor tip) (hgoal : goal ≤ writtenEnd x tip)
    (hbound : tip ≤ u64Max) :
    min goal (n + (FILL_CHUNK - 1)) ≤ writtenEnd x (l.stop floor tip) := by
  by_cases hlast : tip ≤ saturatingAdd (l.next floor tip) (FILL_CHUNK - 1)
  · have hstop : l.stop floor tip = tip := Nat.min_eq_left hlast
    rw [hstop]
    exact Nat.le_trans (Nat.min_le_left _ _) hgoal
  · have hend := le_writtenEnd x (l.stop floor tip)
    simp only [PlatformLoop.stop, saturatingAdd] at hend hlast ⊢
    omega

/-- What a pass does to the store: nothing, when it goes by no tip or by one it has reached;
    otherwise it fills. -/
theorem pass_storage (J : Codec) (sha256 : Bytes → Bytes32) (floor : Option Nat)
    (l : PlatformLoop) (x : Pass) :
    ((∀ tip, l.passTip x = some tip → tip < l.next floor tip) ∧
        (pass J sha256 floor l x).pipeline.storage = l.pipeline.storage) ∨
      ∃ tip p ok out, l.passTip x = some tip ∧ l.next floor tip ≤ tip ∧
        p.storage = l.pipeline.storage ∧
        fillRange J sha256 x.listening x.fault tip p none
          (heightReplies x (l.next floor tip) (l.stop floor tip)) = (ok, out) ∧
        (pass J sha256 floor l x).pipeline.storage = out.storage := by
  simp only [NeveFillLoop.pass]
  cases htip : l.passTip x with
  | none =>
      refine Or.inl ⟨?_, rfl⟩
      intro tip h
      cases h
  | some tip =>
      dsimp only
      by_cases hcaught : tip < l.next floor tip
      · rw [if_pos hcaught]
        refine Or.inl ⟨?_, rfl⟩
        intro tip' h
        rw [← Option.some.inj h]
        exact hcaught
      · rw [if_neg hcaught]
        exact Or.inr ⟨tip, { l.pipeline with behindTip := tip - l.next floor tip + 1 }, _, _, rfl,
          Nat.le_of_not_lt hcaught, rfl, rfl, rfl⟩

theorem pass_grows (J : Codec) (sha256 : Bytes → Bytes32) (floor : Option Nat)
    (l : PlatformLoop) (x : Pass) :
    Grows l.pipeline.storage (pass J sha256 floor l x).pipeline.storage := by
  rcases pass_storage J sha256 floor l x with ⟨-, hsame⟩ |
    ⟨tip, p, ok, out, -, -, hp, hout, hstorage⟩
  · rw [hsame]
    exact Grows.refl _
  · have hgrows := fillRange_grows J sha256 x.fault x.listening tip
      (heightReplies x (l.next floor tip) (l.stop floor tip)) p none
    rw [hout, hp] at hgrows
    rw [hstorage]
    exact hgrows

/-- **Any pass** keeps what was climbed. -/
theorem Climbed.after (J : Codec) (sha256 : Bytes → Bytes32)
    (h : Climbed floor base n l.pipeline.storage) (hwrite : x.fault 0 ≠ .write) :
    Climbed floor base n (pass J sha256 floor l x).pipeline.storage := by
  rcases pass_storage J sha256 floor l x with ⟨-, hsame⟩ |
    ⟨tip, p, ok, out, -, -, hp, hout, hstorage⟩
  · rw [hsame]
    exact h
  · rw [hstorage]
    have hfill := h.fill J sha256 tip hp hwrite
    rw [hout] at hfill
    exact hfill

/-- **A healthy pass** takes the store to the goal, or a chunk further with one height of it
    perhaps held. -/
theorem Climbed.after_healthy (h : Climbed floor base n l.pipeline.storage)
    (hbound : ∀ tip, l.passTip x = some tip → tip ≤ u64Max)
    (hhealthy : Healthy J sha256 floor goal l x) :
    Climbed floor base (min goal (n + (FILL_CHUNK - 1)))
      (pass J sha256 floor l x).pipeline.storage := by
  have hwrite : x.fault 0 ≠ .write := by
    rw [hhealthy.undisturbed 0]
    exact Fault.noConfusion
  have hafter := h.after J sha256 hwrite
  obtain ⟨tip, htip, hgoal⟩ := hhealthy.tip
  have hend := writtenEnd_le x tip
  have htipmax := hbound tip htip
  -- a store that has reached the goal already
  have hdone : (∀ st, (pass J sha256 floor l x).pipeline.storage.store = some st →
      goal ≤ st.firstHole) → ((pass J sha256 floor l x).pipeline.storage.store = none →
      goal ≤ base) → Climbed floor base (min goal (n + (FILL_CHUNK - 1)))
        (pass J sha256 floor l x).pipeline.storage := by
    intro hcreated hempty
    refine hafter.further hcreated hempty ?_ (Nat.min_le_left _ _)
    intro k hlo hhi
    omega
  cases hs : l.pipeline.storage.store with
  | none =>
      have hnext : l.next floor tip = base := next_of_empty h hs
      have hn := (h.empty hs).2
      rcases pass_storage J sha256 floor l x with ⟨hcaught, hsame⟩ |
        ⟨tip', p, ok, out, htip', hle, hp, hout, hstorage⟩
      · have hlt := hcaught tip htip
        refine hdone ?_ ?_
        · intro st hst
          rw [hsame, hs] at hst
          cases hst
        · intro _
          omega
      · obtain rfl : tip = tip' := Option.some.inj (htip.symm.trans htip')
        have hlow : Low (l.next floor tip) l.pipeline.storage := by
          intro st hst
          rw [hs] at hst
          cases hst
        obtain rfl := fillRange_healthy h hp hlow hhealthy htip hout
        rw [hstorage] at hafter ⊢
        refine hafter.further (a := l.next floor tip) ?_ ?_
          (fun k hlo hhi => fillRange_written hout hlo hhi)
          (le_writtenEnd_stop (by omega) hgoal htipmax)
        · intro st hst
          have hmin := fillRange_anchor hs (hp ▸ h.anchorFloor) (hp ▸ hs)
            (show (fillRange J sha256 x.listening x.fault tip p none
              (heightReplies x (l.next floor tip) (l.stop floor tip))).2.storage.store = some st by
              rw [hout]; exact hst)
          rw [← hmin]
          exact st.isFirstGap_firstHole.le
        · intro _
          exact Nat.le_of_eq hnext
  | some st =>
      obtain ⟨hbase, hn, hpos⟩ := h.filled st hs
      obtain ⟨st', hst', -, hmono⟩ := (pass_grows J sha256 floor l x).firstHole_le hs
      have hthere : (pass J sha256 floor l x).pipeline.storage.store = none → goal ≤ base := by
        intro hnone
        rw [hst'] at hnone
        cases hnone
      by_cases hreached : goal ≤ st.firstHole
      · refine hdone ?_ hthere
        intro st1 hst1
        rw [Option.some.inj (hst1.symm.trans hst')]
        omega
      · -- the frontier is within the heights there are
        have hnext : l.next floor tip = st.firstHole := by
          have hsucc := Store.maxContiguousHeight_succ hpos
          simp only [u64Max] at htipmax
          simp only [PlatformLoop.next, nextHeight, Storage.isEmpty, hs,
            Storage.maxContiguousHeight, Option.map_some, Option.getD_some,
            Option.isNone_some, Bool.false_eq_true, if_false]
          omega
        rcases pass_storage J sha256 floor l x with ⟨hcaught, hsame⟩ |
          ⟨tip', p, ok, out, htip', hle, hp, hout, hstorage⟩
        · have hlt := hcaught tip htip
          omega
        · obtain rfl : tip = tip' := Option.some.inj (htip.symm.trans htip')
          have hlow : Low (l.next floor tip) l.pipeline.storage := by
            intro st1 hst1
            rw [← Option.some.inj (hs.symm.trans hst1), hnext]
            exact st.isFirstGap_firstHole.le
          obtain rfl := fillRange_healthy h hp hlow hhealthy htip hout
          rw [hstorage] at hafter hst' ⊢
          refine hafter.further (a := l.next floor tip) ?_ ?_
            (fun k hlo hhi => fillRange_written hout hlo hhi)
            (le_writtenEnd_stop (by omega) hgoal htipmax)
          · intro st1 hst1
            rw [Option.some.inj (hst1.symm.trans hst')]
            omega
          · intro hnone
            rw [hst'] at hnone
            cases hnone

end Passes

/-! ## A run of passes -/

section Runs

variable {J : Codec} {sha256 : Bytes → Bytes32} {floor : Option Nat} {base goal : Nat}

/-- A pass of the run, with whether it is counted on. -/
def markedStep (J : Codec) (sha256 : Bytes → Bytes32) (floor : Option Nat)
    (l : PlatformLoop) (a : Pass × Bool) : Option PlatformLoop :=
  platformStep J sha256 floor l a.1

/-- A marked pass is healthy; of the others only a genesis that cannot be written to its
    blockstore is left out. -/
def Counted (J : Codec) (sha256 : Bytes → Bytes32) (floor : Option Nat) (goal : Nat)
    (l : PlatformLoop) (a : Pass × Bool) : Prop :=
  a.1.fault 0 ≠ .write ∧ (a.2 = true → Healthy J sha256 floor goal l a.1)

theorem passTip_le {l : PlatformLoop} {x : Pass} (h : l.tip ≤ u64Max) {tip : Nat}
    (htip : l.passTip x = some tip) : tip ≤ u64Max := by
  simp only [PlatformLoop.passTip] at htip
  split at htip
  · obtain ⟨polled, -, rfl⟩ := Option.map_eq_some_iff.mp htip
    exact Nat.le_pred_of_lt polled.toNat_lt
  · rw [← Option.some.inj htip]
    exact h

theorem pass_tip_le {l : PlatformLoop} (x : Pass) (h : l.tip ≤ u64Max) :
    (pass J sha256 floor l x).tip ≤ u64Max := by
  simp only [NeveFillLoop.pass]
  cases htip : l.passTip x with
  | none => exact h
  | some tip =>
      dsimp only
      split
      · exact passTip_le h htip
      · exact passTip_le h htip

/-- **A run**, by induction on its passes: each marked one adds a chunk, less one height. -/
theorem run_climbs {n : Nat} {passes : List (Pass × Bool)} {l l' : PlatformLoop}
    (h : Climbed floor base (min goal n) l.pipeline.storage) (htip : l.tip ≤ u64Max)
    (hcounted : Run.Meets (markedStep J sha256 floor) (Counted J sha256 floor goal) l passes)
    (hrun : Run.exec (markedStep J sha256 floor) l passes = some l') :
    Climbed floor base (min goal (n + passes.countP (·.2) * (FILL_CHUNK - 1)))
      l'.pipeline.storage := by
  induction passes generalizing l n with
  | nil =>
      rw [← Option.some.inj hrun, List.countP_nil, Nat.zero_mul, Nat.add_zero]
      exact h
  | cons a rest ih =>
      obtain ⟨l1, hstep, hrest⟩ := Run.exec_cons hrun
      have hmeets := hcounted.2 l1 hstep
      have hl1 : pass J sha256 floor l a.1 = l1 := Option.some.inj hstep
      have htip1 : l1.tip ≤ u64Max := hl1 ▸ pass_tip_le a.1 htip
      cases hmark : a.2 with
      | false =>
          have hafter := h.after J sha256 hcounted.1.1
          rw [hl1] at hafter
          rw [List.countP_cons_of_neg (by rw [hmark]; exact Bool.noConfusion)]
          exact ih hafter htip1 hmeets hrest
      | true =>
          have hafter := h.after_healthy (fun tip ht => passTip_le htip ht)
            (hcounted.1.2 hmark)
          rw [hl1] at hafter
          rw [List.countP_cons_of_pos (p := fun b : Pass × Bool => b.2) hmark, Nat.succ_mul]
          have hnext : Climbed floor base (min goal (n + (FILL_CHUNK - 1)))
              l1.pipeline.storage := hafter.anti (by omega)
          have hend := ih hnext htip1 hmeets hrest
          exact hend.anti (by omega)

end Runs

/-- **The fill catches up.**  From a store that was never written and begins at the floor, or
    one that is filled up to `base`, in every run of passes with as many healthy ones as there
    are chunks up to the goal, whatever goes wrong in the others: every height from the base
    to the goal is stored. -/
theorem ingest_catches_up {J : Codec} {sha256 : Bytes → Bytes32} {floor : Option Nat}
    {base goal : Nat} {pipeline : Pipeline} (hstart : Climbed floor base base pipeline.storage)
    {passes : List (Pass × Bool)} {l : PlatformLoop}
    (hcounted : Run.Meets (markedStep J sha256 floor) (Counted J sha256 floor goal)
      (.start pipeline) passes)
    (hrun : Run.exec (markedStep J sha256 floor) (.start pipeline) passes = some l)
    (henough : goal ≤ base + passes.countP (·.2) * (FILL_CHUNK - 1)) :
    ∀ k, base ≤ k → k < goal → l.pipeline.storage.Has k := by
  have hfirst : Climbed floor base (min goal base) pipeline.storage :=
    hstart.anti (Nat.min_le_right _ _)
  have hend := run_climbs hfirst (Nat.zero_le u64Max) hcounted hrun
  intro k hlo hhi
  exact hend.has hlo (by omega)

/-- A P-chain store that was never written, to begin at height 7. -/
def fromSeven : Pipeline := ⟨Storage.fresh memory .P (some 7), 0, []⟩

theorem climbed_fromSeven : Climbed (some 7) 7 7 fromSeven.storage where
  chain := rfl
  anchorFloor := rfl
  empty := fun _ => ⟨rfl, Nat.le_refl 7⟩
  filled := fun _ hst => (nomatch hst)

/-- A pass whose tip is 8, with plain blocks up to it. -/
def passToEight (sha256 : Bytes → Bytes32) : Pass where
  elapsed := true
  polled := some 8
  listening := false
  replies := fun height => agreeingReply sha256 [] (UInt64.ofNat height) []
  fault := fun _ => .none

/-- From height 7 on it goes well for the goal 9. -/
theorem healthy_toEight {J : Codec} {sha256 : Bytes → Bytes32} {l : PlatformLoop}
    (hnext : l.next (some 7) 8 = 7) :
    Healthy J sha256 (some 7) 9 l (passToEight sha256) := by
  have htip : l.passTip (passToEight sha256) = some 8 := by
    simp only [PlatformLoop.passTip, passToEight, Bool.or_true, if_true]
    rfl
  have hstop : l.stop (some 7) 8 = 8 := by
    rw [PlatformLoop.stop, hnext]
    rfl
  have hseven := fetchBlock_agreeing J sha256 [] 7 []
  refine ⟨⟨8, htip, Nat.le_refl 9⟩, ?_, fun _ => rfl⟩
  intro tip h
  obtain rfl : 8 = tip := Option.some.inj (htip.symm.trans h)
  rw [hnext, hstop]
  refine ⟨?_, ?_⟩
  · intro height hlo hhi
    obtain rfl | rfl : height = 7 ∨ height = 8 := by omega
    · exact Option.isSome_of_eq_some hseven
    · exact Option.isSome_of_eq_some (fetchBlock_agreeing J sha256 [] 8 [])
  · -- the block at height 7 is no reward proposal
    intro height hlo hhi proposal next stakingTx hproposal hreward
    obtain rfl : height = 7 := by omega
    rw [← Option.some.inj (hseven.symm.trans hproposal)] at hreward
    cases hreward

/-- A pass whose tip is not read, then one that goes well. -/
def unreadThenEight : List (Pass × Bool) :=
  [({ passToEight sampleSha256 with polled := none }, false), (passToEight sampleSha256, true)]

theorem ingest_catches_up_seven_eight :
    ∃ l, Run.exec (markedStep JsonText.codec sampleSha256 (some 7)) (.start fromSeven)
        unreadThenEight = some l ∧
      ∀ k, 7 ≤ k → k < 9 → l.pipeline.storage.Has k := by
  have hcounted : Run.Meets (markedStep JsonText.codec sampleSha256 (some 7))
      (Counted JsonText.codec sampleSha256 (some 7) 9) (.start fromSeven) unreadThenEight := by
    refine Run.meets_cons ⟨fun h => (nomatch h), fun h => (nomatch h)⟩ rfl ?_
    exact Run.meets_cons ⟨fun h => (nomatch h), fun _ => healthy_toEight rfl⟩ rfl trivial
  obtain ⟨l, hrun⟩ : ∃ l, Run.exec (markedStep JsonText.codec sampleSha256 (some 7))
      (.start fromSeven) unreadThenEight = some l := ⟨_, rfl⟩
  exact ⟨l, hrun, ingest_catches_up climbed_fromSeven hcounted hrun (by decide)⟩

end NevePlatformCatchUp
