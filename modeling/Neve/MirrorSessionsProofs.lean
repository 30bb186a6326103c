import Neve.ReplicationProofs
import Neve.CatchUpRunProofs

/-! # A mirror's sessions — what a reconnect takes up again

    A P-chain mirror is one loop: a session catches up on history, follows the tip
    and ends somewhere, and after a wait the next one begins.  The process may also be
    stopped in the middle of a session and started again.  All that is carried from
    one session to the next is the store.

    Whatever ends the sessions, the store holds the upstream's records and no others,
    every height below the next session's start is there, and over all sessions no
    height is replayed twice (`mirror_resumes`). -/

namespace NeveMirrorSessions

open JsonValue ByteText NeveRecord NeveStorage NevePlatformIngest NeveReplication NeveBootstrap
open NeveFrontier (saturatingAdd u64Max Wrote Grows storeBlock_wrote storeBlock_some)
open NeveMirror (bootstrapStart)
open NeveMirrorFollow (Reaches Covered anchor_eq reaches_bootstrapStart)
open NeveRecordConsistency (storeBlock_state)
open NevePlatformCatchUp (storeBlock_there storeBlock_uncreated)
open NevePlatformCodec (sampleSha256)

/-! ## A session -/

/-- What a session meets: the upstream's tip, the socket of the replay and what is read
    from it, then the socket of the live subscription and what is read from that. -/
structure Meeting where
  health : Except String UInt64
  connect : Except String Unit
  history : List StreamEvent
  subscribe : Except String Unit
  live : List StreamEvent

section Session

variable (J : Codec) (sha256 : Bytes → Bytes32)

/-- The loop of the live subscription: a record that verifies is stored, one that does
    not is passed over, as is any other frame. -/
def followLoop (idleSecs : Nat) : Storage → List StreamEvent → Outcome × Storage
  | s, [] => (.waiting, s)
  | s, .ended :: _ => (.ok, s)
  | s, .idle :: _ =>
      (.failed s!"no P-chain records within {idleSecs}s idle timeout; reconnecting", s)
  | s, .frame v fault :: rest =>
      match notificationPayload v with
      | none => followLoop idleSecs s rest
      | some record =>
          followLoop idleSecs (persistRecord J sha256 s (fun _ => fault) record).2 rest

/-- `platform::mirror::follow_tip`. -/
def followTip (idleSecs : Nat) (s : Storage) (subscribe : Except String Unit)
    (events : List StreamEvent) : Outcome × Storage :=
  match subscribe with
  | .error message => (.failed message, s)
  | .ok () => followLoop J sha256 idleSecs s events

/-- `platform::mirror::session`: catch up on history, then follow the tip. -/
def session (idleSecs : Nat) (backfillFloor : Option Nat) (s : Storage) (m : Meeting) :
    Outcome × Storage :=
  match bootstrap J sha256 idleSecs backfillFloor s m.health m.connect m.history with
  | (.ok, s') => followTip J sha256 idleSecs s' m.subscribe m.live
  | stopped => stopped

/-- The heights whose blocks the replay wrote, in order.  A block stays written when its
    index batch fails, which ends the session. -/
def replayLoop (target : Nat) : Storage → List StreamEvent → List Nat
  | s, .frame v fault :: rest =>
      match handleRecord J sha256 s v fault with
      | .skipped => replayLoop target s rest
      | .failed _ _ => if fault = .commit then (recordHeight J sha256 v).toList else []
      | .stored height s' =>
          height :: if target ≤ height then [] else replayLoop target s' rest
  | _, _ => []

/-- The heights that a session's replay wrote. -/
def replayed (backfillFloor : Option Nat) (s : Storage) (m : Meeting) : List Nat :=
  match m.health, m.connect with
  | .ok target, .ok () =>
      if target.toNat < bootstrapStart s backfillFloor then []
      else replayLoop J sha256 target.toNat s m.history
  | _, _ => []

/-- The target of a session's replay, when the session got that far. -/
def completed (idleSecs : Nat) (backfillFloor : Option Nat) (s : Storage) (m : Meeting) :
    Option Nat :=
  match m.health, bootstrap J sha256 idleSecs backfillFloor s m.health m.connect m.history with
  | .ok target, (.ok, _) =>
      if target.toNat < bootstrapStart s backfillFloor then none else some target.toNat
  | _, _ => none

end Session

/-! ## The loop -/

/-- Reconnect backoff cap. -/
def MAX_BACKOFF_MS : Nat := 30000

/-- The wait before the next session. -/
def backoffMs (attempt : Nat) : Nat := min (500 * 2 ^ min attempt 6) MAX_BACKOFF_MS

/-- The waits of `n` failures in a row. -/
def waits (n : Nat) : List Nat := (List.range' 1 n).map backoffMs

/-- The loop: the store and the floor it was opened with, the failures in a row, the
    reconnects counted and the waits between them; and, kept for what is said of them,
    the heights replayed so far and the targets reached. -/
structure Mirror where
  storage : Storage
  backfillFloor : Option Nat
  attempt : Nat
  reconnects : Nat
  slept : List Nat
  replayed : List Nat
  completed : List Nat

def Mirror.start (s : Storage) : Mirror := ⟨s, s.anchorFloor, 0, 0, [], [], []⟩

/-- A session comes to its end and the loop waits; or the process stops at some point of
    a session, and is started again with the floor it then resolves. -/
inductive Turn where
  | session (m : Meeting)
  | restart (m : Meeting) (floor : Option Nat)

section Loop

variable (J : Codec) (sha256 : Bytes → Bytes32) (idleSecs : Nat)

/-- After a session that left the store as `s`. -/
def Mirror.after (l : Mirror) (m : Meeting) (s : Storage) : Mirror :=
  { l with
    storage := s
    replayed := l.replayed ++ NeveMirrorSessions.replayed J sha256 l.backfillFloor l.storage m
    completed := l.completed ++
      (NeveMirrorSessions.completed J sha256 idleSecs l.backfillFloor l.storage m).toList }

def Mirror.reconnect (l : Mirror) (attempt : Nat) : Mirror :=
  { l with
    attempt := attempt
    reconnects := l.reconnects + 1
    slept := l.slept ++ [backoffMs attempt] }

/-- `platform::mirror::mirror`. -/
def mirrorStep (l : Mirror) : Turn → Option Mirror
  | .session m =>
      match session J sha256 idleSecs l.backfillFloor l.storage m with
      | (.waiting, _) => none
      | (.ok, s) => some ((l.after J sha256 idleSecs m s).reconnect 0)
      | (.failed _, s) =>
          some ((l.after J sha256 idleSecs m s).reconnect (min (l.attempt + 1) (2 ^ 32 - 1)))
  | .restart m floor =>
      let s := (session J sha256 idleSecs l.backfillFloor l.storage m).2
      some { l.after J sha256 idleSecs m s with
        storage := { s with anchorFloor := floor }
        backfillFloor := floor
        attempt := 0 }

end Loop

/-! ## One record -/

section Records

variable {J : Codec} {sha256 : Bytes → Bytes32} {upstream s s' : Storage}
  {floor : Option Nat} {n : Nat} {payload v : Value} {fault : Fault}

/-- `n` is a height the store can write next without leaving a gap. -/
structure Ready (n : Nat) (s : Storage) : Prop where
  reaches : Reaches n s
  above : (s.openStore n).minHeight ≤ n

/-- The height is stored, and so is everything from the store's minimum to it. -/
def Taken (k : Nat) (s : Storage) : Prop := Covered k s ∧ s.Has k

theorem Taken.grows {k : Nat} (h : Taken k s) (hg : Grows s s') : Taken k s' :=
  ⟨h.1.grows hg, hg.has k h.2⟩

/-- What every session keeps of the mirror's store: the blocks are the upstream's, and the
    store does not begin with a hole at the genesis, which no session would go back for. -/
structure Kept (upstream : Storage) (floor : Option Nat) (s : Storage) : Prop where
  chain : s.chain = .P
  anchorFloor : s.anchorFloor = floor
  copied : ∀ k raw, s.rawAt k = some raw → upstream.rawAt k = some raw
  genesis : ∀ st, s.store = some st → 0 < st.firstHole
  bounded : ∀ st, s.store = some st → st.minHeight < u64Max

/-- The upstream's heights leave one to ask for after each of them. -/
def Roomy (upstream : Storage) : Prop := ∀ k, upstream.Has k → k < u64Max

theorem has_of_isRecord {k : Nat} (h : IsRecord J sha256 upstream k payload) : upstream.Has k := by
  obtain ⟨raw, block, bytes, rewards, fetched, hraw, -, -⟩ := h
  exact Storage.has_iff_rawAt.mpr ⟨raw, hraw⟩

/-- A payload that is a record of the upstream has the height of that record. -/
theorem recordHeight_of_isRecord (hv : notificationPayload v = some payload)
    (h : IsRecord J sha256 upstream n payload) : recordHeight J sha256 v = some n := by
  obtain ⟨raw, block, bytes, rewards, fetched, -, hgenuine, rfl⟩ := h
  simp only [recordHeight, hv, Option.bind_some, Value.asArray, hgenuine.verified,
    Except.toOption, Option.map_some, hgenuine.height]

/-- What the write of an upstream's record does: only its height is touched, with the
    upstream's bytes; the block is there once the write is reported, and whenever neither
    creating the blockstore nor writing to it failed. -/
structure Persisted (upstream : Storage) (n : Nat) (fault : Fault) (s : Storage)
    (stored : Option Nat) (s' : Storage) : Prop where
  wrote : Wrote n s s'
  copied : ∀ k raw, s'.rawAt k = some raw → s.rawAt k = some raw ∨ upstream.rawAt k = some raw
  stored : ∀ k, stored = some k → k = n ∧ s'.Has n
  there : fault ≠ .create → fault ≠ .write → (s.openStore n).minHeight ≤ n → s'.Has n
  uncreated : fault = .create → s.store = none → s'.store = none

theorem persistRecord_isRecord {stored : Option Nat} (hchain : s.chain = .P)
    (hrecord : IsRecord J sha256 upstream n payload)
    (h : persistRecord J sha256 s (fun _ => fault) payload = (stored, s')) :
    Persisted upstream n fault s stored s' := by
  obtain ⟨raw, block, bytes, rewards, fetched, hraw, hgenuine, rfl⟩ := hrecord
  simp only [persistRecord, Value.asArray, hgenuine.verified] at h
  have hwrote := storeBlock_wrote s fault fetched (J.toVec rewards)
  have hstate := storeBlock_state s fault fetched (J.toVec rewards)
  rw [h, hgenuine.height] at hwrote hstate
  constructor
  · exact hwrote
  · intro k raw' hk
    rw [show s' = _ from hstate] at hk
    rcases Storage.rawAt_put_cases hk with hold | ⟨rfl, rfl⟩
    · exact Or.inl hold
    · rw [← hgenuine.elements]
      exact Or.inr hraw
  · rintro k rfl
    have hhas := storeBlock_some h
    rw [hgenuine.height] at hhas
    exact ⟨(storeBlock_height h).trans hgenuine.height, hhas⟩
  · intro hcreate hwrite hmin
    have hhas := storeBlock_there (J.toVec rewards) hchain hcreate hwrite
      (hgenuine.height.symm ▸ hmin)
    rw [h, hgenuine.height] at hhas
    exact hhas
  · intro hcreate hnone
    have hstill := storeBlock_uncreated fetched (J.toVec rewards) hchain hcreate hnone
    rw [h] at hstill
    exact hstill

/-- The write of the next height, when the block got there. -/
theorem Ready.wrote (h : Ready n s) (hw : Wrote n s s') (hhas : s'.Has n) :
    Ready (n + 1) s' ∧ Taken n s' := by
  have hreach := h.reaches.wrote hw hhas
  obtain ⟨st, hst, hk⟩ := hhas
  have hmin := Store.min_le_of_has hk
  refine ⟨⟨hreach, ?_⟩, ⟨st, hst, ?_⟩, st, hst, hk⟩
  · simp only [Storage.openStore, hst, Option.getD_some]
    omega
  · simp only [Reaches, hst] at hreach
    exact hreach

/-- **The write of an upstream's record** keeps the store, unless it is the genesis and
    fails in the blockstore.  The blockstore it may create begins at the genesis only for
    the genesis. -/
theorem Kept.persisted {stored : Option Nat} (h : Kept upstream floor s) (hroom : Roomy upstream)
    (hhas : upstream.Has n) (hgenesis : n = 0 → fault ≠ .write)
    (hanchor : s.store = none → s.anchor n = 0 → n = 0)
    (hp : Persisted upstream n fault s stored s') : Kept upstream floor s' ∧ Grows s s' := by
  have hgrows := hp.wrote.grows
  refine ⟨⟨hgrows.chain.trans h.chain, hgrows.anchorFloor.trans h.anchorFloor, ?_, ?_, ?_⟩,
    hgrows⟩
  · intro k raw hk
    rcases hp.copied k raw hk with hold | hnew
    · exact h.copied k raw hold
    · exact hnew
  · intro st' hst'
    have hgap := st'.isFirstGap_firstHole
    have hle := hgap.le
    cases hs : s.store with
    | some st =>
        obtain ⟨st1, hst1, -, hmono⟩ := hgrows.firstHole_le hs
        rw [Option.some.inj (hst'.symm.trans hst1)]
        exact Nat.lt_of_lt_of_le (h.genesis st hs) hmono
    | none =>
        have hmin := hp.wrote.created hs hst'
        by_cases hzero : s.anchor n = 0
        · -- the genesis itself: the blockstore was created, so it is there
          obtain rfl := hanchor hs hzero
          have hthere : s'.Has 0 := by
            refine hp.there ?_ (hgenesis rfl) ?_
            · intro hc
              rw [hp.uncreated hc hs] at hst'
              cases hst'
            · simp only [Storage.openStore, hs, Option.getD_none, Store.minHeight_create, hzero,
                Nat.le_refl]
          obtain ⟨st1, hst1, hk⟩ := hthere
          rw [← Option.some.inj (hst'.symm.trans hst1)] at hk
          rcases Nat.eq_zero_or_pos st'.firstHole with heq | hpos
          · exact absurd (heq ▸ hk) hgap.gap
          · exact hpos
        · omega
  · intro st' hst'
    cases hs : s.store with
    | some st =>
        obtain ⟨st1, hst1, hmin⟩ := hgrows.minHeight st hs
        rw [Option.some.inj (hst'.symm.trans hst1), hmin]
        exact h.bounded st hs
    | none =>
        rw [hp.wrote.created hs hst']
        exact Nat.lt_of_le_of_lt (s.anchor_le n) (hroom n hhas)

/-- **One frame of the replay**, carrying the upstream's record of the next height. -/
theorem handleRecord_isRecord (hroom : Roomy upstream) (hkept : Kept upstream floor s)
    (hready : Ready n s) (hv : notificationPayload v = some payload)
    (hrecord : IsRecord J sha256 upstream n payload) (hgenesis : n = 0 → fault ≠ .write) :
    (∃ message s1, handleRecord J sha256 s v fault = .failed message s1 ∧
        Kept upstream floor s1 ∧ Grows s s1 ∧ (fault = .commit → Taken n s1)) ∨
      ∃ s1, handleRecord J sha256 s v fault = .stored n s1 ∧
        Kept upstream floor s1 ∧ Grows s s1 ∧ Ready (n + 1) s1 ∧ Taken n s1 := by
  have hanchor : s.store = none → s.anchor n = 0 → n = 0 := by
    intro hnone hzero
    rw [anchor_eq hnone hready.reaches (Nat.le_refl n)] at hzero
    exact hzero
  simp only [handleRecord, hv]
  cases hpersist : persistRecord J sha256 s (fun _ => fault) payload with
  | mk stored s1 =>
      have hp := persistRecord_isRecord hkept.chain hrecord hpersist
      obtain ⟨hkept1, hgrows⟩ := hkept.persisted hroom (has_of_isRecord hrecord) hgenesis
        hanchor hp
      cases stored with
      | none =>
          refine Or.inl ⟨_, s1, rfl, hkept1, hgrows, ?_⟩
          -- the block is there, its index entries are not
          rintro rfl
          exact (hready.wrote hp.wrote
            (hp.there Fault.noConfusion Fault.noConfusion hready.above)).2
      | some height =>
          obtain ⟨rfl, hhas⟩ := hp.stored height rfl
          obtain ⟨hnext, htaken⟩ := hready.wrote hp.wrote hhas
          exact Or.inr ⟨s1, rfl, hkept1, hgrows, hnext, htaken⟩

/-! ## A replay -/

/-- What a replay from `n` on leaves: the heights it wrote are consecutive, and
    everything up to each of them is stored. -/
structure Replay (upstream : Storage) (floor : Option Nat) (n : Nat) (s s' : Storage)
    (heights : List Nat) : Prop where
  kept : Kept upstream floor s'
  grows : Grows s s'
  consecutive : heights = List.range' n heights.length
  taken : ∀ k ∈ heights, Taken k s'

theorem Replay.nothing (n : Nat) (h : Kept upstream floor s) (hg : Grows s' s) :
    Replay upstream floor n s' s [] := by
  refine ⟨h, hg, rfl, ?_⟩
  intro k hk
  cases hk

/-- A replay that breaks off with nothing read does not claim to have got to its target. -/
theorem Replay.unread {target : Nat} {ended outcome : Outcome} (hkept : Kept upstream floor s)
    (h : (ended, s) = (outcome, s')) (hended : ended ≠ .ok) :
    Replay upstream floor n s s' [] ∧ (outcome = .ok → target ∈ ([] : List Nat)) := by
  obtain ⟨rfl, rfl⟩ := Prod.mk.inj h
  exact ⟨.nothing n hkept (Grows.refl s), fun hok => absurd hok hended⟩

/-- One more height in front. -/
theorem Replay.cons {s1 : Storage} {heights : List Nat}
    (h : Replay upstream floor (n + 1) s1 s' heights) (hgrows : Grows s s1)
    (htaken : Taken n s1) : Replay upstream floor n s s' (n :: heights) := by
  refine ⟨h.kept, hgrows.trans h.grows, ?_, ?_⟩
  · rw [List.length_cons, List.range'_succ, ← h.consecutive]
  · intro k hk
    rcases List.mem_cons.mp hk with rfl | hmem
    · exact htaken.grows h.grows
    · exact h.taken k hmem

/-- No write of the genesis fails in a blockstore that was created. -/
def GenesisSafe (J : Codec) (sha256 : Bytes → Bytes32) (events : List StreamEvent) : Prop :=
  ∀ v fault, StreamEvent.frame v fault ∈ events →
    recordHeight J sha256 v = some 0 → fault ≠ .write

theorem GenesisSafe.tail {event : StreamEvent} {events : List StreamEvent}
    (h : GenesisSafe J sha256 (event :: events)) : GenesisSafe J sha256 events :=
  fun v fault hmem => h v fault (List.mem_cons_of_mem _ hmem)

/-- A frame with a payload comes first among the payloads. -/
theorem payloads_frame {events : List StreamEvent} (hv : notificationPayload v = some payload) :
    payloads (.frame v fault :: events) = payload :: payloads events :=
  List.filterMap_cons_some hv

theorem payloads_frame_none {events : List StreamEvent} (hv : notificationPayload v = none) :
    payloads (.frame v fault :: events) = payloads events :=
  List.filterMap_cons_none hv

/-- **A whole replay**, by induction on what is read: payload by payload the upstream's
    records from `n` on, whatever else comes and wherever it breaks off. -/
theorem replay_spec (hroom : Roomy upstream) {idleSecs target : Nat} {events : List StreamEvent}
    {outcome : Outcome} (hkept : Kept upstream floor s) (hready : Ready n s) (hle : n ≤ target)
    (hread : ∀ i payload, (payloads events)[i]? = some payload → n + i ≤ target →
      IsRecord J sha256 upstream (n + i) payload)
    (hgenesis : GenesisSafe J sha256 events)
    (hloop : streamLoop (recordStream J sha256) idleSecs target s events = (outcome, s')) :
    Replay upstream floor n s s' (replayLoop J sha256 target s events) ∧
      (outcome = .ok → target ∈ replayLoop J sha256 target s events) := by
  induction events generalizing s n with
  | nil => exact Replay.unread hkept hloop Outcome.noConfusion
  | cons event rest ih =>
      cases event with
      | ended => exact Replay.unread hkept hloop Outcome.noConfusion
      | idle => exact Replay.unread hkept hloop Outcome.noConfusion
      | frame v fault =>
          simp only [streamLoop, recordStream] at hloop
          simp only [replayLoop]
          cases hv : notificationPayload v with
          | none =>
              have hskip : handleRecord J sha256 s v fault = .skipped := by
                simp only [handleRecord, hv]
              rw [hskip] at hloop ⊢
              refine ih hkept hready hle ?_ hgenesis.tail hloop
              rw [payloads_frame_none hv] at hread
              exact hread
          | some payload =>
              rw [payloads_frame hv] at hread
              have hrecord : IsRecord J sha256 upstream n payload := hread 0 payload rfl hle
              have hheight := recordHeight_of_isRecord hv hrecord
              rcases handleRecord_isRecord hroom hkept hready hv hrecord
                (fun hn => hgenesis v fault (List.mem_cons_self ..) (hn ▸ hheight)) with
                ⟨message, s1, hfailed, hkept1, hgrows, htaken⟩ |
                ⟨s1, hstored, hkept1, hgrows, hnext, htaken⟩
              · rw [hfailed] at hloop ⊢
                obtain ⟨rfl, rfl⟩ := Prod.mk.inj hloop
                refine ⟨?_, Outcome.noConfusion⟩
                dsimp only
                by_cases hcommit : fault = .commit
                · rw [if_pos hcommit, hheight]
                  exact (Replay.nothing (n + 1) hkept1 (Grows.refl s1)).cons hgrows
                    (htaken hcommit)
                · rw [if_neg hcommit]
                  exact .nothing n hkept1 hgrows
              · rw [hstored] at hloop ⊢
                dsimp only at hloop ⊢
                by_cases htarget : target ≤ n
                · rw [if_pos htarget] at hloop ⊢
                  obtain ⟨rfl, rfl⟩ := Prod.mk.inj hloop
                  refine
                    ⟨(Replay.nothing (n + 1) hkept1 (Grows.refl s1)).cons hgrows htaken, ?_⟩
                  intro _
                  rw [Nat.le_antisymm hle htarget]
                  exact List.mem_cons_self ..
                · rw [if_neg htarget] at hloop ⊢
                  -- the payloads after this one are the records of the heights after it
                  have hlater : ∀ i payload, (payloads rest)[i]? = some payload →
                      n + 1 + i ≤ target → IsRecord J sha256 upstream (n + 1 + i) payload := by
                    intro i later hi hrange
                    have hshift : n + 1 + i = n + (i + 1) := by omega
                    rw [hshift] at hrange ⊢
                    exact hread (i + 1) later hi hrange
                  obtain ⟨hreplay, hok⟩ := ih hkept1 hnext (Nat.lt_of_not_le htarget) hlater
                    hgenesis.tail hloop
                  exact ⟨hreplay.cons hgrows htaken,
                    fun h => List.mem_cons_of_mem _ (hok h)⟩

/-! ## Following the tip -/

/-- **A whole live subscription**: any of the upstream's records, in any order and with any
    of them missing. -/
theorem follow_spec (hroom : Roomy upstream) {idleSecs : Nat} {events : List StreamEvent}
    {outcome : Outcome} (hkept : Kept upstream floor s)
    (hcold : s.store = none → 0 < floor.getD 0)
    (hlive : ∀ payload ∈ payloads events, ∃ k, IsRecord J sha256 upstream k payload)
    (hgenesis : GenesisSafe J sha256 events)
    (hloop : followLoop J sha256 idleSecs s events = (outcome, s')) :
    Kept upstream floor s' ∧ Grows s s' := by
  induction events generalizing s with
  | nil =>
      rw [← (Prod.mk.inj hloop).2]
      exact ⟨hkept, Grows.refl s⟩
  | cons event rest ih =>
      cases event with
      | ended =>
          rw [← (Prod.mk.inj hloop).2]
          exact ⟨hkept, Grows.refl s⟩
      | idle =>
          rw [← (Prod.mk.inj hloop).2]
          exact ⟨hkept, Grows.refl s⟩
      | frame v fault =>
          simp only [followLoop] at hloop
          cases hv : notificationPayload v with
          | none =>
              rw [hv] at hloop
              rw [payloads_frame_none hv] at hlive
              exact ih hkept hcold hlive hgenesis.tail hloop
          | some payload =>
              rw [hv] at hloop
              rw [payloads_frame hv] at hlive
              obtain ⟨n, hrecord⟩ := hlive payload (List.mem_cons_self ..)
              have hheight := recordHeight_of_isRecord hv hrecord
              -- an empty store has a floor above the genesis
              have hanchor : s.store = none → s.anchor n = 0 → n = 0 := by
                intro hnone hzero
                have hpos := hcold hnone
                rw [Storage.anchor, hkept.anchorFloor] at hzero
                cases floor with
                | none => exact hzero
                | some f =>
                    rw [Option.filter_some] at hzero
                    by_cases hf : f ≤ n
                    · rw [if_pos (by simpa using hf)] at hzero
                      exact absurd hpos (Nat.not_lt.mpr (Nat.le_of_eq hzero))
                    · rw [if_neg (by simpa using hf)] at hzero
                      exact hzero
              have hp := persistRecord_isRecord hkept.chain hrecord
                (Prod.mk.eta (p := persistRecord J sha256 s (fun _ => fault) payload)).symm
              obtain ⟨hkept1, hgrows⟩ := hkept.persisted hroom (has_of_isRecord hrecord)
                (fun hn => hgenesis v fault (List.mem_cons_self ..) (hn ▸ hheight)) hanchor hp
              have hcold1 : (persistRecord J sha256 s (fun _ => fault) payload).2.store = none →
                  0 < floor.getD 0 := by
                intro hnone
                refine hcold ?_
                cases hs : s.store with
                | none => rfl
                | some st =>
                    obtain ⟨st1, hst1, -⟩ := hgrows.minHeight st hs
                    rw [hnone] at hst1
                    cases hst1
              obtain ⟨hkept2, hgrows2⟩ := ih hkept1 hcold1
                (fun later hmem => hlive later (List.mem_cons_of_mem _ hmem))
                hgenesis.tail hloop
              exact ⟨hkept2, hgrows.trans hgrows2⟩

/-! ## A session, from where the store ends -/

/-- What comes after a replay keeps what it took. -/
theorem Replay.later {s1 : Storage} {heights : List Nat}
    (h : Replay upstream floor n s s1 heights) (hkept : Kept upstream floor s')
    (hgrows : Grows s1 s') : Replay upstream floor n s s' heights :=
  ⟨hkept, h.grows.trans hgrows, h.consecutive, fun k hk => (h.taken k hk).grows hgrows⟩

/-- What is stored is the upstream's. -/
theorem Kept.has {k : Nat} (h : Kept upstream floor s) (hhas : s.Has k) : upstream.Has k := by
  obtain ⟨raw, hraw⟩ := Storage.has_iff_rawAt.mp hhas
  exact Storage.has_iff_rawAt.mpr ⟨raw, h.copied k raw hraw⟩

/-- A session starts at the first hole. -/
theorem Kept.start_eq (hroom : Roomy upstream) (h : Kept upstream floor s) {st : Store}
    (hs : s.store = some st) : bootstrapStart s floor = st.firstHole := by
  have hpos := h.genesis st hs
  have hmin := h.bounded st hs
  have hle : st.firstHole ≤ u64Max := by
    by_contra hover
    -- then the last height of all is stored
    have hhas := h.has ⟨st, hs, st.isFirstGap_firstHole.filled u64Max hmin.le (by omega)⟩
    exact absurd (hroom u64Max hhas) (Nat.lt_irrefl u64Max)
  have hsucc := Store.maxContiguousHeight_succ hpos
  simp only [bootstrapStart, Storage.isEmpty, hs, Option.isNone_some, Bool.false_eq_true,
    if_false, Storage.maxContiguousHeight, Option.map_some, Option.getD_some, saturatingAdd]
  omega

theorem Kept.ready (hroom : Roomy upstream) (h : Kept upstream floor s) :
    Ready (bootstrapStart s floor) s := by
  have hreach := reaches_bootstrapStart h.anchorFloor h.genesis
  refine ⟨hreach, ?_⟩
  cases hs : s.store with
  | none =>
      simp only [Storage.openStore, hs, Option.getD_none, Store.minHeight_create]
      exact Nat.le_of_eq (anchor_eq hs hreach (Nat.le_refl _))
  | some st =>
      rw [h.start_eq hroom hs]
      simp only [Storage.openStore, hs, Option.getD_some]
      exact st.isFirstGap_firstHole.le

/-- What is taken lies below the start of the next session. -/
theorem Taken.lt_start {k : Nat} (h : Taken k s) (hroom : Roomy upstream)
    (hkept : Kept upstream floor s) : k < bootstrapStart s floor := by
  obtain ⟨⟨st, hst, hlt⟩, -⟩ := h
  rw [hkept.start_eq hroom hst]
  exact hlt

/-- What is read of a replay: an upstream serves the range from a store whose records came
    through `verify` and are the upstream's for good, and the messages are read as far as
    the session goes. -/
def Replays (wire : Wire J) (sha256 : Bytes → Bytes32) (upstream : Storage)
    (start target : Nat) (events : List StreamEvent) : Prop :=
  ∃ (served : Storage) (actions : List LinkAction) (link : Link),
    CameThroughVerify J sha256 served ∧ PutsBeside start target actions ∧
      Run.exec (linkStep wire (rangeRequest start target))
        (Link.start (rangeRequest start target) served) actions = some link ∧
      link.events = events ∧
      ∀ k raw, start ≤ k → k ≤ target → link.upstream.storage.rawAt k = some raw →
        upstream.rawAt k = some raw

/-- An upstream that a session can rely on: its replay is served as above, its live records
    are its own, in any order and with any of them missing; and no write of the genesis
    fails in a blockstore that was created. -/
structure Served (wire : Wire J) (sha256 : Bytes → Bytes32) (upstream : Storage)
    (start : Nat) (m : Meeting) : Prop where
  history : ∀ target, m.health = .ok target → start ≤ target.toNat →
    Replays wire sha256 upstream start target.toNat m.history
  live : ∀ payload ∈ payloads m.live, ∃ k, IsRecord J sha256 upstream k payload
  historySafe : GenesisSafe J sha256 m.history
  liveSafe : GenesisSafe J sha256 m.live

/-- The payloads of a replay are the upstream's records, one after the other. -/
theorem Replays.isRecord {wire : Wire J} {start : Nat} {target : UInt64}
    {events : List StreamEvent} (h : Replays wire sha256 upstream start target.toNat events)
    (hle : start ≤ target.toNat) {i : Nat} (hi : (payloads events)[i]? = some payload)
    (hrange : start + i ≤ target.toNat) : IsRecord J sha256 upstream (start + i) payload := by
  obtain ⟨served, actions, link, hverified, hputs, hrun, rfl, hkept⟩ := h
  have hbound : target.toNat ≤ u64Max := Nat.le_pred_of_lt target.toNat_lt
  obtain ⟨raw, block, bytes, rewards, fetched, hraw, hrest⟩ :=
    read_record wire hverified hbound hle hputs hrun hi hrange
  exact ⟨raw, block, bytes, rewards, fetched, hkept _ _ (Nat.le_add_right _ _) hrange hraw,
    hrest⟩

/-- After a replay that ran to its end, the tip is followed on a store that exists. -/
theorem followTip_spec (hroom : Roomy upstream) {idleSecs : Nat} {m : Meeting} {start : Nat}
    {wire : Wire J} (hserved : Served wire sha256 upstream start m) {outcome : Outcome}
    (hkept : Kept upstream floor s) (hcold : s.store = none → 0 < floor.getD 0)
    (h : followTip J sha256 idleSecs s m.subscribe m.live = (outcome, s')) :
    Kept upstream floor s' ∧ Grows s s' := by
  simp only [followTip] at h
  cases hsub : m.subscribe with
  | error message =>
      rw [hsub] at h
      rw [← (Prod.mk.inj h).2]
      exact ⟨hkept, Grows.refl s⟩
  | ok u =>
      rw [hsub] at h
      exact follow_spec hroom hkept hcold hserved.live hserved.liveSafe h

/-- **A session**: its replay takes consecutive heights from the start on, all of them when
    it runs to its end, and whatever follows keeps them. -/
theorem session_spec (hroom : Roomy upstream) {idleSecs : Nat} {m : Meeting} {wire : Wire J}
    (hkept : Kept upstream floor s)
    (hserved : Served wire sha256 upstream (bootstrapStart s floor) m) {outcome : Outcome}
    (h : session J sha256 idleSecs floor s m = (outcome, s')) :
    Replay upstream floor (bootstrapStart s floor) s s' (replayed J sha256 floor s m) ∧
      ∀ t ∈ completed J sha256 idleSecs floor s m, t ∈ replayed J sha256 floor s m := by
  simp only [session, bootstrap, catchUp] at h
  simp only [replayed, completed, bootstrap, catchUp]
  cases hhealth : m.health with
  | error message =>
      rw [hhealth] at h
      obtain ⟨rfl, rfl⟩ := Prod.mk.inj h
      exact ⟨.nothing _ hkept (Grows.refl s), fun t ht => by cases ht⟩
  | ok target =>
      rw [hhealth] at h
      dsimp only at h ⊢
      by_cases hcurrent : target.toNat < bootstrapStart s floor
      · -- nothing to catch up on
        rw [if_pos hcurrent] at h ⊢
        have hcold : s.store = none → 0 < floor.getD 0 := by
          intro hnone
          simp only [bootstrapStart, Storage.isEmpty, hnone, Option.isNone_none,
            if_true] at hcurrent
          omega
        obtain ⟨hkept', hgrows⟩ := followTip_spec hroom hserved hkept hcold h
        refine ⟨?_, ?_⟩
        · cases m.connect with
          | error message => exact .nothing _ hkept' hgrows
          | ok u =>
              dsimp only
              rw [if_pos hcurrent]
              exact .nothing _ hkept' hgrows
        · intro t ht
          simp only [if_pos hcurrent] at ht
          cases ht
      · rw [if_neg hcurrent] at h ⊢
        cases hconnect : m.connect with
        | error message =>
            rw [hconnect] at h
            obtain ⟨rfl, rfl⟩ := Prod.mk.inj h
            exact ⟨.nothing _ hkept (Grows.refl s), fun t ht => by cases ht⟩
        | ok u =>
            rw [hconnect] at h
            dsimp only at h ⊢
            rw [if_neg hcurrent]
            have hle := Nat.le_of_not_lt hcurrent
            have hreplays := hserved.history target hhealth hle
            cases hloop : streamLoop (recordStream J sha256) idleSecs target.toNat s m.history with
            | mk ended s1 =>
                obtain ⟨hreplay, hok⟩ := replay_spec hroom hkept (hkept.ready hroom) hle
                  (fun i payload hi hrange => hreplays.isRecord hle hi hrange)
                  hserved.historySafe hloop
                rw [hloop] at h
                cases ended with
                | ok =>
                    dsimp only at h ⊢
                    have htarget := hok rfl
                    have hcold : s1.store = none → 0 < floor.getD 0 := by
                      intro hnone
                      obtain ⟨-, st, hst, -⟩ := hreplay.taken _ htarget
                      rw [hnone] at hst
                      cases hst
                    obtain ⟨hkept', hgrows⟩ := followTip_spec hroom hserved hreplay.kept hcold h
                    refine ⟨hreplay.later hkept' hgrows, ?_⟩
                    intro t ht
                    rw [if_neg hcurrent] at ht
                    rw [← Option.some.inj ht]
                    exact htarget
                | failed message =>
                    rw [← (Prod.mk.inj h).2]
                    exact ⟨hreplay, fun t ht => by cases ht⟩
                | waiting =>
                    rw [← (Prod.mk.inj h).2]
                    exact ⟨hreplay, fun t ht => by cases ht⟩

end Records

/-! ## The loop, session after session -/

def Turn.meeting : Turn → Meeting
  | .session m => m
  | .restart m _ => m

/-- The waits so far: one for each reconnect, and the last of them the ladder of the
    failures in a row, which soon stands at the cap. -/
def Paced (l : Mirror) : Prop :=
  l.slept.length = l.reconnects ∧
    ∃ n before, l.attempt = min n (2 ^ 32 - 1) ∧ l.slept = before ++ waits n ∧
      n * MAX_BACKOFF_MS ≤ (waits n).sum + 119000

/-- What the mirror's sessions come to.  The blocks are the upstream's, byte for byte; all
    heights below the next session's start are stored; the heights replayed, over all
    sessions, only ever go up, and none of them is asked for again; a replay that ran to
    its end got to its target; and each reconnect was waited for. -/
structure Resumed (upstream : Storage) (l : Mirror) : Prop where
  copied : ∀ k raw, l.storage.rawAt k = some raw → upstream.rawAt k = some raw
  filled : ∀ k, l.storage.isEmpty = false → l.storage.minHeight ≤ k →
    k < bootstrapStart l.storage l.backfillFloor → l.storage.Has k
  once : l.replayed.Pairwise (· < ·)
  past : ∀ k ∈ l.replayed, l.storage.Has k ∧ k < bootstrapStart l.storage l.backfillFloor
  reached : ∀ t ∈ l.completed, t ∈ l.replayed
  paced : Paced l

section Runs

variable {J : Codec} {sha256 : Bytes → Bytes32} {upstream : Storage} {idleSecs : Nat}
  {l l' : Mirror} {m : Meeting} {wire : Wire J}

/-- The invariant of the loop. -/
structure Going (upstream : Storage) (l : Mirror) : Prop where
  kept : Kept upstream l.backfillFloor l.storage
  taken : ∀ k ∈ l.replayed, Taken k l.storage
  once : l.replayed.Pairwise (· < ·)
  reached : ∀ t ∈ l.completed, t ∈ l.replayed
  paced : Paced l

/-- **A session of the loop**, however it ends. -/
theorem Going.after (h : Going upstream l) (hroom : Roomy upstream)
    (hserved : Served wire sha256 upstream (bootstrapStart l.storage l.backfillFloor) m)
    {outcome : Outcome} {s : Storage}
    (hs : session J sha256 idleSecs l.backfillFloor l.storage m = (outcome, s)) :
    Going upstream (l.after J sha256 idleSecs m s) := by
  obtain ⟨hreplay, hreached⟩ := session_spec hroom h.kept hserved hs
  constructor
  · exact hreplay.kept
  · intro k hk
    rcases List.mem_append.mp hk with hold | hnew
    · exact (h.taken k hold).grows hreplay.grows
    · exact hreplay.taken k hnew
  · refine List.pairwise_append.mpr ⟨h.once, ?_, ?_⟩
    · rw [hreplay.consecutive]
      exact List.pairwise_lt_range'
    · -- what was replayed before lies below the start
      intro a ha b hb
      rw [hreplay.consecutive] at hb
      exact Nat.lt_of_lt_of_le ((h.taken a ha).lt_start hroom h.kept)
        (List.mem_range'_1.mp hb).1
  · intro t ht
    rcases List.mem_append.mp ht with hold | hnew
    · exact List.mem_append_left _ (h.reached t hold)
    · exact List.mem_append_right _ (hreached t (Option.mem_toList.mp hnew))
  · exact h.paced

/-- The counter's limit is beyond the ladder's. -/
theorem backoffMs_min (n : Nat) : backoffMs (min n (2 ^ 32 - 1)) = backoffMs n := by
  simp only [backoffMs]
  rw [show min (min n (2 ^ 32 - 1)) 6 = min n 6 by omega]

theorem waits_succ (n : Nat) : waits (n + 1) = waits n ++ [backoffMs (n + 1)] := by
  rw [waits, List.range'_concat, List.map_append, Nat.one_mul, Nat.add_comm 1 n]
  rfl

/-- From the sixth failure on each wait is the cap; the five before fall short of it by
    119 seconds together. -/
theorem waits_sum (n : Nat) : n * MAX_BACKOFF_MS ≤ (waits n).sum + 119000 := by
  have hcap : ∀ k, backoffMs (6 + k) = MAX_BACKOFF_MS := by
    intro k
    simp only [backoffMs]
    rw [show min (6 + k) 6 = 6 by omega]
    rfl
  by_cases hn : n ≤ 5
  · have hfive : ∀ k ≤ 5, k * MAX_BACKOFF_MS ≤ (waits k).sum + 119000 := by decide
    exact hfive n hn
  · obtain ⟨k, rfl⟩ := Nat.exists_eq_add_of_lt (Nat.lt_of_not_le hn)
    induction k with
    | zero => decide
    | succ k ih =>
        have hprev := ih (by omega)
        rw [show 5 + (k + 1) + 1 = (5 + k + 1) + 1 by omega, waits_succ, List.sum_append,
          List.sum_singleton, show 5 + k + 1 + 1 = 6 + (k + 1) by omega, hcap,
          show 6 + (k + 1) = (5 + k + 1) + 1 by omega, Nat.succ_mul]
        omega

theorem paced_clean (h : Paced l) : Paced (l.reconnect 0) := by
  refine ⟨?_, 0, l.slept ++ [backoffMs 0], rfl, (List.append_nil _).symm, waits_sum 0⟩
  show (l.slept ++ [backoffMs 0]).length = l.reconnects + 1
  rw [List.length_append, List.length_singleton, h.1]

theorem paced_failed (h : Paced l) :
    Paced (l.reconnect (min (l.attempt + 1) (2 ^ 32 - 1))) := by
  obtain ⟨hlen, n, before, hattempt, hslept, -⟩ := h
  have hnext : min (l.attempt + 1) (2 ^ 32 - 1) = min (n + 1) (2 ^ 32 - 1) := by omega
  rw [hnext]
  refine ⟨?_, n + 1, before, rfl, ?_, waits_sum (n + 1)⟩
  · show (l.slept ++ [_]).length = l.reconnects + 1
    rw [List.length_append, List.length_singleton, hlen]
  · show l.slept ++ [backoffMs (min (n + 1) (2 ^ 32 - 1))] = before ++ waits (n + 1)
    rw [hslept, backoffMs_min, waits_succ, List.append_assoc]

theorem Going.reconnect (h : Going upstream l) {attempt : Nat}
    (hpaced : Paced (l.reconnect attempt)) : Going upstream (l.reconnect attempt) :=
  ⟨h.kept, h.taken, h.once, h.reached, hpaced⟩

/-- **A turn of the loop**, or a restart in the middle of one. -/
theorem Going.step {t : Turn} (h : Going upstream l) (hroom : Roomy upstream)
    (hserved : Served wire sha256 upstream (bootstrapStart l.storage l.backfillFloor) t.meeting)
    (hstep : mirrorStep J sha256 idleSecs l t = some l') : Going upstream l' := by
  cases t with
  | session m =>
      simp only [mirrorStep] at hstep
      cases hs : session J sha256 idleSecs l.backfillFloor l.storage m with
      | mk outcome s =>
          have hafter := h.after hroom hserved hs
          rw [hs] at hstep
          cases outcome with
          | waiting => cases hstep
          | ok =>
              rw [← Option.some.inj hstep]
              exact hafter.reconnect (paced_clean hafter.paced)
          | failed message =>
              rw [← Option.some.inj hstep]
              exact hafter.reconnect (paced_failed hafter.paced)
  | restart m floor =>
      have hafter := h.after hroom hserved
        (Prod.mk.eta (p := session J sha256 idleSecs l.backfillFloor l.storage m)).symm
      rw [← Option.some.inj hstep]
      -- only the floor of an empty store changes
      refine ⟨?_, hafter.taken, hafter.once, hafter.reached, hafter.paced.1, 0, l.slept, rfl,
        (List.append_nil _).symm, waits_sum 0⟩
      exact ⟨hafter.kept.chain, rfl, hafter.kept.copied, hafter.kept.genesis,
        hafter.kept.bounded⟩

theorem Going.resumed (h : Going upstream l) (hroom : Roomy upstream) : Resumed upstream l := by
  refine ⟨h.kept.copied, ?_, h.once, ?_, h.reached, h.paced⟩
  · intro k hne hmin hlt
    obtain ⟨st, hst⟩ := Option.isSome_iff_exists.mp
      (Option.isNone_eq_false_iff.mp (show l.storage.store.isNone = false from hne))
    rw [h.kept.start_eq hroom hst] at hlt
    simp only [Storage.minHeight, hst, Option.map_some, Option.getD_some] at hmin
    exact ⟨st, hst, st.isFirstGap_firstHole.filled k hmin hlt⟩
  · intro k hk
    exact ⟨(h.taken k hk).2, (h.taken k hk).lt_start hroom h.kept⟩

end Runs

/-- **A mirror resumes.**  From an empty store, whatever ends its sessions (a tip that is not
    read, a socket that does not open, a stream that ends or falls silent, a write that fails
    at any of its stages) and wherever the process is stopped and started again, with each
    session's replay served by an upstream that keeps its records. -/
theorem mirror_resumes {J : Codec} (wire : Wire J) {sha256 : Bytes → Bytes32}
    {upstream : Storage} (hroom : Roomy upstream) (idleSecs : Nat) (blockdb : Blockdb)
    (floor : Option Nat) {turns : List Turn} {l : Mirror}
    (hserved : Run.Meets (mirrorStep J sha256 idleSecs)
      (fun l t => Served wire sha256 upstream (bootstrapStart l.storage l.backfillFloor) t.meeting)
      (.start (Storage.fresh blockdb .P floor)) turns)
    (hrun : Run.exec (mirrorStep J sha256 idleSecs) (.start (Storage.fresh blockdb .P floor))
      turns = some l) : Resumed upstream l := by
  have hstart : Going upstream (Mirror.start (Storage.fresh blockdb .P floor)) := by
    refine ⟨⟨rfl, rfl, ?_, ?_, ?_⟩, ?_, List.Pairwise.nil, ?_, rfl, 0, [], rfl, rfl,
      waits_sum 0⟩
    · intro k raw hraw
      cases hraw
    · intro st hst
      cases hst
    · intro st hst
      cases hst
    · intro k hk
      cases hk
    · intro t ht
      cases ht
  refine Going.resumed ?_ hroom
  exact Run.exec_invariant
    (fun l t => Served wire sha256 upstream (bootstrapStart l.storage l.backfillFloor) t.meeting)
    (fun l t l' hl hs hstep => hl.step hroom hs hstep) hstart hserved hrun

/-! ## A refused connection, then a session -/

theorem roomy_twoRecords : Roomy twoRecords := by
  rintro k ⟨st, hst, hk⟩
  rw [← Option.some.inj hst] at hk
  rcases List.mem_cons.mp (Store.has_holding_iff.mp hk) with rfl | hmem
  · decide
  · rw [List.mem_singleton.mp hmem]
    decide

/-- Nothing is read of a replay that was refused. -/
theorem replays_nothing : Replays textWire sampleSha256 twoRecords 6 7 [] := by
  refine ⟨twoRecords, [], _, cameThroughVerify_twoRecords, ?_, rfl, rfl, fun _ _ _ _ h => h⟩
  intro p hp
  cases hp

/-- The replay of both records. -/
theorem replays_both : Replays textWire sampleSha256 twoRecords 6 7
    [.frame (recordFrame sampleSha256 6) .none, .frame (recordFrame sampleSha256 7) .none] := by
  obtain ⟨link, hrun, hevents⟩ := two_run lt_latePut
  have hputs := putsBeside_twoActions lt_latePut
  have hserving := (serving_start twoRecords (Nat.le_of_ble_eq_true rfl)).run hputs
    (upstream_run textWire hrun)
  refine ⟨twoRecords, _, link, cameThroughVerify_twoRecords, hputs, hrun, hevents, ?_⟩
  intro k raw hlo hhi hraw
  rw [hserving.range k hlo hhi] at hraw
  exact hraw

def refusedMeeting : Meeting := ⟨.ok 7, .error "refused", [], .ok (), []⟩

def replayMeeting : Meeting :=
  ⟨.ok 7, .ok (), [.frame (recordFrame sampleSha256 6) .none,
    .frame (recordFrame sampleSha256 7) .none], .ok (), [.ended]⟩

theorem served_twoRecords {m : Meeting} (hm : m = refusedMeeting ∨ m = replayMeeting) :
    Served textWire sampleSha256 twoRecords 6 m := by
  have htarget : ∀ target, m.health = .ok target → target.toNat = 7 := by
    intro target h
    rcases hm with rfl | rfl
    · rw [← Except.ok.inj h]
      rfl
    · rw [← Except.ok.inj h]
      rfl
  -- no frame of the replay is one whose genesis write failed
  have hnone : ∀ v fault, StreamEvent.frame v fault ∈ replayMeeting.history →
      fault = .none := by
    intro v fault hmem
    rcases List.mem_cons.mp hmem with heq | hmem
    · exact (StreamEvent.frame.inj heq).2
    · exact (StreamEvent.frame.inj (List.mem_singleton.mp hmem)).2
  constructor
  · intro target h _
    rw [htarget target h]
    rcases hm with rfl | rfl
    · exact replays_nothing
    · exact replays_both
  · intro payload hp
    rcases hm with rfl | rfl
    · cases hp
    · cases hp
  · rintro v fault hmem - rfl
    rcases hm with rfl | rfl
    · cases hmem
    · cases hnone v _ hmem
  · intro v fault hmem
    rcases hm with rfl | rfl
    · cases hmem
    · cases List.mem_singleton.mp hmem

/-- The first session is refused and waited a second for, the second replays both heights. -/
theorem mirror_resumes_six_seven :
    ∃ l, Run.exec (mirrorStep JsonText.codec sampleSha256 60)
        (.start (Storage.fresh memory .P (some 6)))
        [.session refusedMeeting, .session replayMeeting] = some l ∧
      l.slept = [1000, 500] ∧ l.replayed = [6, 7] ∧ l.completed = [7] ∧
      Resumed twoRecords l := by
  obtain ⟨s1, s2, hsix, hseven⟩ := handleRecord_two JsonText.codec sampleSha256
    (show 6 ≤ UInt64.toNat 6 by decide) (show UInt64.toNat 6 ≤ UInt64.toNat 7 by decide)
  obtain ⟨s', hboot, -⟩ := bootstrap_two_records JsonText.codec sampleSha256
  have hcurrent : ¬ UInt64.toNat 7 < bootstrapStart (Storage.fresh memory .P (some 6)) (some 6) :=
    Nat.not_lt.mpr (Nat.le_succ 6)
  have hsession : session JsonText.codec sampleSha256 60 (some 6)
      (Storage.fresh memory .P (some 6)) replayMeeting = (.ok, s') := by
    simp only [session, replayMeeting, hboot]
    rfl
  have hreplayed : replayed JsonText.codec sampleSha256 (some 6)
      (Storage.fresh memory .P (some 6)) replayMeeting = [6, 7] := by
    simp only [recordStream] at hsix hseven
    simp only [replayed, replayMeeting]
    rw [if_neg hcurrent]
    simp only [replayLoop, hsix, hseven]
    rw [if_neg (show ¬ UInt64.toNat 7 ≤ UInt64.toNat 6 by decide),
      if_pos (Nat.le_refl (UInt64.toNat 7))]
    rfl
  have hcompleted : completed JsonText.codec sampleSha256 60 (some 6)
      (Storage.fresh memory .P (some 6)) replayMeeting = some 7 := by
    simp only [completed, replayMeeting, hboot]
    rw [if_neg hcurrent]
    rfl
  have hfirst : mirrorStep JsonText.codec sampleSha256 60
      (.start (Storage.fresh memory .P (some 6))) (.session refusedMeeting)
      = some ⟨Storage.fresh memory .P (some 6), some 6, 1, 1, [1000], [], []⟩ := by
    have hrefused : session JsonText.codec sampleSha256 60 (some 6)
        (Storage.fresh memory .P (some 6)) refusedMeeting
        = (.failed "refused", Storage.fresh memory .P (some 6)) := rfl
    have hstart : Mirror.start (Storage.fresh memory .P (some 6))
        = ⟨Storage.fresh memory .P (some 6), some 6, 0, 0, [], [], []⟩ := rfl
    simp only [hstart, mirrorStep, hrefused]
    rfl
  have hsecond : mirrorStep JsonText.codec sampleSha256 60
      ⟨Storage.fresh memory .P (some 6), some 6, 1, 1, [1000], [], []⟩ (.session replayMeeting)
      = some ⟨s', some 6, 0, 2, [1000, 500], [6, 7], [7]⟩ := by
    simp only [mirrorStep, Mirror.after, Mirror.reconnect, hsession, hreplayed, hcompleted]
    rfl
  have hrun := Run.exec_step hfirst (Run.exec_step hsecond (Run.exec_nil _))
  refine ⟨_, hrun, rfl, rfl, rfl, ?_⟩
  refine mirror_resumes textWire roomy_twoRecords 60 memory (some 6) ?_ hrun
  refine Run.meets_cons (served_twoRecords (Or.inl rfl)) hfirst ?_
  exact Run.meets_cons (served_twoRecords (Or.inr rfl)) hsecond trivial

end NeveMirrorSessions
