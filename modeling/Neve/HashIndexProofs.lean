import Neve.JsonTextProofs
import Neve.IngestWriteProofs

/-! # Block-hash index — an append-only index beside an overwriting store

    A put replaces the record at its height but leaves the hash entry of the
    block that stood there.  Reading by hash is therefore right in every state
    of a run exactly when no write lands on a height that another hash is
    indexed to (`hashIndexSound_iff`). -/

namespace NeveHashIndex

open JsonValue ByteText NeveRecord NeveStorage NeveIngestWrite NeveEthIngest

/-- Reading by a key gives nothing, or a block that calls itself by that key. -/
def HashIndexSound (J : Codec) (sha256 : Bytes → Bytes32) (s : Storage) : Prop :=
  ∀ key, s.getByHash J key = .ok none ∨
    ∃ bytes v, s.getByHash J key = .ok (some bytes) ∧ J.fromSlice bytes = some v ∧
      ownKey sha256 s.chain v = some key

/-- One successful ingest write. -/
def successStep (J : Codec) (sha256 : Bytes → Bytes32) (s : Storage)
    (a : IngestWrite × Fault) : Option Storage :=
  match a.1.run J sha256 s a.2 with
  | (.ok (), s') => some s'
  | (.error _, _) => none

/-- The write leaves no other key pointing at the height it writes. -/
def SparesOtherKeys (J : Codec) (sha256 : Bytes → Bytes32) (s : Storage)
    (a : IngestWrite × Fault) : Prop :=
  ∀ c, a.1.call J sha256 = some c →
    ∀ key, key ≠ c.hash → s.heightOfHash key ≠ .ok (some c.height)

/-- The invariant behind soundness: every indexed key leads to a record of a
    block that calls itself so. -/
def IndexAgrees (J : Codec) (sha256 : Bytes → Bytes32) (s : Storage) : Prop :=
  ∀ key, s.heightOfHash key = .ok none ∨
    ∃ c : PutCall, c.Lawful sha256 ∧ c.chain = s.chain ∧ c.hash = key ∧
      s.heightOfHash key = .ok (some c.height) ∧
      s.rawAt c.height = some (encode (c.elements J))

section Lemmas

variable {J : Codec} {sha256 : Bytes → Bytes32}

/-- Reading by a key that is indexed to the height of a stored call. -/
theorem getByHash_of_record {s : Storage} {c : PutCall} {key : Bytes32}
    (hl : c.Lawful sha256) (hh : s.heightOfHash key = .ok (some c.height))
    (hr : s.rawAt c.height = some (encode (c.elements J))) :
    s.getByHash J key = .ok (some (J.toVec c.block)) := by
  simp only [Storage.getByHash]
  rw [hh]
  dsimp only [bind, Except.bind]
  exact s.getByHeight_of_rawAt J hl.one_le hr

theorem hashIndexSound_of_agrees {s : Storage} (h : IndexAgrees J sha256 s) :
    HashIndexSound J sha256 s := by
  intro key
  rcases h key with hnone | ⟨c, hl, hchain, hkey, hh, hr⟩
  · refine Or.inl ?_
    simp only [Storage.getByHash]
    rw [hnone]
    rfl
  · refine Or.inr ⟨_, _, getByHash_of_record hl hh hr, J.fromSlice_toVec c.block, ?_⟩
    rw [ownKey_mapFloat, ← hchain, hl.hash, hkey]

theorem indexAgrees_fresh (blockdb : Blockdb) (chain : Chain) (anchorFloor : Option Nat) :
    IndexAgrees J sha256 (Storage.fresh blockdb chain anchorFloor) :=
  fun _ => Or.inl rfl

/-- What a successful lawful put does to the records and to the hash index. -/
theorem put_ok {s s' : Storage} {c : PutCall} {fault : Fault} (hl : c.Lawful sha256)
    (h : c.run J s fault = (.ok (), s')) :
    c.chain = s'.chain ∧ s'.chain = s.chain ∧
      (∀ k, s'.rawAt k
        = if k = c.height then some (encode (c.elements J)) else s.rawAt k) ∧
      s'.heightOfHash c.hash = .ok (some c.height) ∧
      ∀ key, key ≠ c.hash → s'.heightOfHash key = s.heightOfHash key := by
  have heff := Storage.put_effect s fault c.height c.hash c.ids (c.elements J)
  have hput : s.put fault c.height c.hash c.ids (c.elements J) = (.ok (), s') := h
  rw [hput] at heff
  cases heff with
  | done s1 hf hlen hr =>
      have hindex : (s1.putIndex c.height c.hash c.ids).hashToHeight
          = (c.hash, toLeBytes 8 c.height) :: s.hashToHeight := by
        rw [← hf.hashToHeight]
        rfl
      have hlookup := Storage.heightOfHash_of_cons hindex hl.height_lt
      refine ⟨(hl.chain_eq hlen).trans hf.chain.symm, hf.chain, hr, ?_, ?_⟩
      · exact (hlookup c.hash).trans (if_pos rfl)
      · intro key hne
        exact (hlookup key).trans (if_neg hne)

/-- The state after a successful write, by the put it issued. -/
theorem successStep_eq_some {s s' : Storage} {a : IngestWrite × Fault}
    (h : successStep J sha256 s a = some s') :
    (a.1.call J sha256 = none ∧ s' = s) ∨
    ∃ c, a.1.call J sha256 = some c ∧ c.run J s a.2 = (.ok (), s') := by
  simp only [successStep] at h
  cases hrun : a.1.run J sha256 s a.2 with
  | mk result s1 =>
  rw [hrun] at h
  cases result with
  | error e => cases h
  | ok u =>
      have hs : s1 = s' := Option.some.inj h
      cases hc : a.1.call J sha256 with
      | none =>
          have hnone := IngestWrite.run_of_call_none s a.2 hc
          rw [hrun] at hnone
          exact Or.inl ⟨rfl, hs.symm.trans hnone⟩
      | some c =>
          obtain ⟨hstate, hok⟩ := IngestWrite.run_of_call s a.2 hc
          rw [hrun] at hstate hok
          refine Or.inr ⟨c, rfl, Prod.ext (hok.mp rfl) ?_⟩
          rw [← hstate, hs]

theorem successStep_of_call {s s' : Storage} {a : IngestWrite × Fault} {c : PutCall}
    (hc : a.1.call J sha256 = some c) (hrun : c.run J s a.2 = (.ok (), s')) :
    successStep J sha256 s a = some s' := by
  obtain ⟨hstate, hok⟩ := IngestWrite.run_of_call s a.2 hc
  rw [hrun] at hstate hok
  simp only [successStep]
  rw [show a.1.run J sha256 s a.2 = (.ok (), s') from Prod.ext (hok.mpr rfl) hstate]

/-- The step lemma: a write that spares the other keys keeps the invariant. -/
theorem IndexAgrees.step {s s' : Storage} {a : IngestWrite × Fault}
    (h : IndexAgrees J sha256 s) (hspare : SparesOtherKeys J sha256 s a)
    (hstep : successStep J sha256 s a = some s') : IndexAgrees J sha256 s' := by
  rcases successStep_eq_some hstep with ⟨-, rfl⟩ | ⟨c, hc, hrun⟩
  · exact h
  have hl := IngestWrite.call_spec hc
  obtain ⟨hchain, hsame, hraw, hown, hother⟩ := put_ok hl hrun
  intro key
  by_cases hkey : key = c.hash
  · refine Or.inr ⟨c, hl, hchain, hkey.symm, hkey ▸ hown, ?_⟩
    rw [hraw, if_pos rfl]
  · rcases h key with hnone | ⟨d, hd, hdchain, hdkey, hdh, hdr⟩
    · exact Or.inl ((hother key hkey).trans hnone)
    · have hne : d.height ≠ c.height := by
        intro heq
        exact hspare c hc key hkey (heq ▸ hdh)
      refine Or.inr ⟨d, hd, hdchain.trans hsame.symm, hdkey,
        (hother key hkey).trans hdh, ?_⟩
      rw [hraw, if_neg hne]
      exact hdr

/-- A successful write over another key's height leaves that key leading to the
    wrong block. -/
theorem not_sound_of_overwrite {s s' : Storage} {a : IngestWrite × Fault}
    (hspare : ¬ SparesOtherKeys J sha256 s a)
    (hstep : successStep J sha256 s a = some s') : ¬ HashIndexSound J sha256 s' := by
  intro hsound
  apply hspare
  intro c hc key hkey hheight
  rcases successStep_eq_some hstep with ⟨hnone, -⟩ | ⟨c', hc', hrun⟩
  · rw [hnone] at hc
    cases hc
  obtain rfl : c' = c := Option.some.inj (hc'.symm.trans hc)
  have hl := IngestWrite.call_spec hc
  obtain ⟨hchain, -, hraw, -, hother⟩ := put_ok hl hrun
  have hget : s'.getByHash J key = .ok (some (J.toVec c'.block)) := by
    refine getByHash_of_record hl ((hother key hkey).trans hheight) ?_
    rw [hraw, if_pos rfl]
  rcases hsound key with hno | ⟨bytes, v, hyes, hv, hown⟩
  · rw [hget] at hno
    cases hno
  · rw [hget] at hyes
    rw [← Option.some.inj (Except.ok.inj hyes), J.fromSlice_toVec] at hv
    rw [← Option.some.inj hv, ownKey_mapFloat, ← hchain, hl.hash] at hown
    exact hkey (Option.some.inj hown).symm

end Lemmas

/-- **When reading by hash is sound.** In a run of successful writes, every
    state is sound exactly when no write lands on a height that a different key
    is indexed to at that moment. -/
theorem hashIndexSound_iff (J : Codec) (sha256 : Bytes → Bytes32) (blockdb : Blockdb)
    (chain : Chain) (anchorFloor : Option Nat) (ops : List (IngestWrite × Fault)) (s : Storage)
    (hrun : Run.exec (successStep J sha256) (Storage.fresh blockdb chain anchorFloor) ops
      = some s) :
    Run.Always (successStep J sha256) (HashIndexSound J sha256)
        (Storage.fresh blockdb chain anchorFloor) ops ↔
      Run.Meets (successStep J sha256) (SparesOtherKeys J sha256)
        (Storage.fresh blockdb chain anchorFloor) ops := by
  have hinit : IndexAgrees J sha256 (Storage.fresh blockdb chain anchorFloor) :=
    indexAgrees_fresh blockdb chain anchorFloor
  generalize Storage.fresh blockdb chain anchorFloor = s0 at hrun hinit
  induction ops generalizing s0 with
  | nil => exact ⟨fun _ => trivial, fun _ => hashIndexSound_of_agrees hinit⟩
  | cons a rest ih =>
      obtain ⟨s1, hstep, hrest⟩ := Run.exec_cons hrun
      constructor
      · rintro ⟨-, halways⟩
        have hspare : SparesOtherKeys J sha256 s0 a := by
          by_contra hno
          exact not_sound_of_overwrite hno hstep (halways s1 hstep).head
        refine ⟨hspare, ?_⟩
        intro s' hs'
        obtain rfl : s1 = s' := Option.some.inj (hstep.symm.trans hs')
        exact (ih s1 hrest (hinit.step hspare hstep)).mp (halways s1 hstep)
      · rintro ⟨hspare, hmeets⟩
        refine ⟨hashIndexSound_of_agrees hinit, ?_⟩
        intro s' hs'
        obtain rfl : s1 = s' := Option.some.inj (hstep.symm.trans hs')
        exact (ih s1 hrest (hinit.step hspare hstep)).mpr (hmeets s1 hstep)

/-! ## Two blocks at one height -/

/-- The put of a bare block at height 5. -/
def headCall (hash : Bytes32) : PutCall :=
  ⟨.C, 5, hash, [], .object [("hash", .string (hashText hash))], [.array []]⟩

/-- The backfill write that issues it. -/
def headWrite (hash : Bytes32) : IngestWrite × Fault :=
  (.persistBackfilled 5 (headCall hash).block (.array []), .none)

theorem call_headWrite (J : Codec) (sha256 : Bytes → Bytes32) (hash : Bytes32) :
    (headWrite hash).1.call J sha256 = some (headCall hash) := by
  have hkey : txHash (headCall hash).block = some hash := by
    show (decodeHash (hashText hash)).toOption = _
    rw [decodeHash_hashText]
    rfl
  simp only [headWrite, IngestWrite.call]
  rw [hkey]
  rfl

theorem lawful_headCall (sha256 : Bytes → Bytes32) (hash : Bytes32) :
    (headCall hash).Lawful sha256 :=
  IngestWrite.call_spec (call_headWrite JsonText.codec sha256 hash)

/-- The first block of a store. -/
theorem successStep_headWrite (J : Codec) (sha256 : Bytes → Bytes32) (hash : Bytes32) :
    ∃ s, successStep J sha256 (Storage.fresh memory .C none) (headWrite hash) = some s ∧
      s.chain = .C ∧ (s.rawAt 5).isSome ∧ s.heightOfHash hash = .ok (some 5) ∧
      s.hashToHeight.map Prod.fst = [hash] := by
  obtain ⟨s, hrun, hchain, hraw, hindex, -⟩ := (headCall hash).run_fresh J memory rfl
  have hstep : successStep J sha256 (Storage.fresh memory .C none) (headWrite hash) = some s :=
    successStep_of_call (call_headWrite J sha256 hash) hrun
  obtain ⟨-, -, -, hown, -⟩ := put_ok (lawful_headCall sha256 hash) hrun
  refine ⟨s, hstep, hchain, by rw [show s.rawAt 5 = _ from hraw]; rfl, hown, ?_⟩
  rw [hindex]
  rfl

/-- A key that leads to a height is indexed. -/
theorem mem_keys_of_heightOfHash {s : Storage} {key : Bytes32} {height : Nat}
    (h : s.heightOfHash key = .ok (some height)) : key ∈ s.hashToHeight.map Prod.fst := by
  cases hl : s.hashToHeight.lookup key with
  | none =>
      simp only [Storage.heightOfHash, hl] at h
      cases h
  | some slice => exact Outcome.mem_keys_iff_lookup.mpr ⟨slice, hl⟩

/-- The same block put twice: every state of the run is sound. -/
theorem hashIndexSound_one_block :
    ∃ s, Run.exec (successStep JsonText.codec (fun _ => Vector.replicate 32 0))
        (Storage.fresh memory .C none)
        (List.replicate 2 (headWrite (Vector.replicate 32 1))) = some s ∧
      Run.Always (successStep JsonText.codec (fun _ => Vector.replicate 32 0))
        (HashIndexSound JsonText.codec (fun _ => Vector.replicate 32 0))
        (Storage.fresh memory .C none)
        (List.replicate 2 (headWrite (Vector.replicate 32 1))) := by
  obtain ⟨s1, hstep1, hchain, hraw, -, hkeys⟩ := successStep_headWrite JsonText.codec
    (fun _ => Vector.replicate 32 0) (Vector.replicate 32 1)
  obtain ⟨s2, hrun2⟩ := (headCall (Vector.replicate 32 1)).run_of_stored JsonText.codec
    (by rw [hchain]; rfl) hraw
  have hstep2 : successStep JsonText.codec (fun _ => Vector.replicate 32 0) s1
      (headWrite (Vector.replicate 32 1)) = some s2 :=
    successStep_of_call (call_headWrite _ _ _) hrun2
  have hexec := Run.exec_step hstep1 (Run.exec_step hstep2 (Run.exec_nil s2))
  refine ⟨s2, hexec, (hashIndexSound_iff JsonText.codec _ memory .C none _ s2 hexec).mpr ?_⟩
  refine Run.meets_cons ?_ hstep1 (Run.meets_cons ?_ hstep2 trivial)
  · intro c _ key _ h
    cases h
  · -- the first put indexed no other key
    intro c hc key hkey h
    obtain rfl := Option.some.inj ((call_headWrite _ _ _).symm.trans hc)
    refine hkey (List.mem_singleton.mp (hkeys ▸ ?_))
    exact mem_keys_of_heightOfHash h

/-- A second block at the same height: the first block's hash now leads to it. -/
theorem hashIndexSound_fails_overwrite :
    ¬ ∀ (J : Codec) (sha256 : Bytes → Bytes32) (blockdb : Blockdb) (chain : Chain)
      (anchorFloor : Option Nat) (ops : List (IngestWrite × Fault)) (s : Storage),
      Run.exec (successStep J sha256) (Storage.fresh blockdb chain anchorFloor) ops = some s →
      HashIndexSound J sha256 s := by
  intro hall
  obtain ⟨s1, hstep1, hchain, hraw, hheight, -⟩ := successStep_headWrite JsonText.codec
    (fun _ => Vector.replicate 32 0) (Vector.replicate 32 1)
  obtain ⟨s2, hrun2⟩ := (headCall (Vector.replicate 32 2)).run_of_stored JsonText.codec
    (by rw [hchain]; rfl) hraw
  have hstep2 : successStep JsonText.codec (fun _ => Vector.replicate 32 0) s1
      (headWrite (Vector.replicate 32 2)) = some s2 :=
    successStep_of_call (call_headWrite _ _ _) hrun2
  refine not_sound_of_overwrite ?_ hstep2 ?_
  · intro hspare
    refine hspare _ (call_headWrite _ _ _) (Vector.replicate 32 1) ?_ hheight
    show Vector.replicate 32 1 ≠ Vector.replicate 32 2
    decide
  · refine hall JsonText.codec _ memory .C none
      [headWrite (Vector.replicate 32 1), headWrite (Vector.replicate 32 2)] s2 ?_
    simp only [Run.exec]
    rw [hstep1]
    show (successStep _ _ s1 _).bind _ = _
    rw [hstep2]
    rfl

end NeveHashIndex
