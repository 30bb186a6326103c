import Neve.HashIndexProofs

/-! # Held puts — what a store keeps of a write

    A write that succeeds leaves its record and its entries in both indexes.  They stay
    as they are while other writes, failing or not, spare its height and its keys. -/

namespace NeveIngestWrite

open JsonValue ByteText NeveRecord NeveStorage

variable {J : Codec} {sha256 : Bytes → Bytes32}

/-- A call that touches nothing of another: not its height, not a key of it. -/
structure PutCall.Spares (c d : PutCall) : Prop where
  height : d.height ≠ c.height
  hash : d.hash ≠ c.hash
  ids : ∀ id ∈ c.ids, id ∉ d.ids

/-- What a store holds of a call: its record, and its entries in both indexes. -/
structure Held (J : Codec) (c : PutCall) (s : Storage) : Prop where
  chain : s.chain = c.chain
  record : s.rawAt c.height = some (encode (c.elements J))
  hash : s.heightOfHash c.hash = .ok (some c.height)
  tx : ∀ key ∈ c.ids, ∃ idx, c.ids[idx]? = some key ∧
    s.getTxLocation key = .ok (some (c.height, idx % 2 ^ 32))

/-- Where the keys of a call differ, each is located at its own position. -/
theorem Held.location {c : PutCall} {s : Storage} (h : Held J c s) (hnodup : c.ids.Nodup)
    (hlen : c.ids.length ≤ 2 ^ 32) {i : Nat} {key : Bytes32} (hi : c.ids[i]? = some key) :
    s.getTxLocation key = .ok (some (c.height, i)) := by
  obtain ⟨idx, hidx, hloc⟩ := h.tx key (List.mem_of_getElem? hi)
  obtain ⟨hlt, hget⟩ := List.getElem?_eq_some_iff.mp hi
  obtain ⟨hlt', hget'⟩ := List.getElem?_eq_some_iff.mp hidx
  have hsame : idx = i := (hnodup.getElem_inj_iff).mp (hget'.trans hget.symm)
  rw [hloc, hsame, Nat.mod_eq_of_lt (Nat.lt_of_lt_of_le hlt hlen)]

/-- A put that succeeds holds its call. -/
theorem held_of_put {c : PutCall} (hl : c.Lawful sha256) {s s' : Storage} {fault : Fault}
    (h : c.run J s fault = (.ok (), s')) : Held J c s' := by
  obtain ⟨hchain, -, hraw, hhash, -⟩ := NeveHashIndex.put_ok hl h
  refine ⟨hchain.symm, (hraw c.height).trans (if_pos rfl), hhash, ?_⟩
  have heff := Storage.put_effect s fault c.height c.hash c.ids (c.elements J)
  have hput : s.put fault c.height c.hash c.ids (c.elements J) = (.ok (), s') := h
  rw [hput] at heff
  intro key hkey
  cases heff with
  | done s1 hf hlen hr =>
      have hindex : (s1.putIndex c.height c.hash c.ids).txToBlock
          = (Storage.txEntries c.height c.ids).reverse ++ s.txToBlock := by
        rw [← hf.txToBlock]
        rfl
      rcases Storage.getTxLocation_of_batch hindex hl.height_lt key with hloc | ⟨hnot, -⟩
      · exact hloc
      · exact absurd hkey hnot

/-- Reads of the indexes only look at the indexes. -/
theorem Held.of_index {c : PutCall} {s s' : Storage} (h : Held J c s)
    (hchain : s'.chain = s.chain) (hraw : s'.rawAt c.height = s.rawAt c.height)
    (hhash : s'.heightOfHash c.hash = s.heightOfHash c.hash)
    (htx : ∀ key ∈ c.ids, s'.getTxLocation key = s.getTxLocation key) : Held J c s' where
  chain := hchain.trans h.chain
  record := hraw.trans h.record
  hash := hhash.trans h.hash
  tx := by
    intro key hkey
    rw [htx key hkey]
    exact h.tx key hkey

/-- A put elsewhere leaves it held, however it ends. -/
theorem Held.put {c d : PutCall} (hd : d.Lawful sha256) {s : Storage} (h : Held J c s)
    (hspares : c.Spares d) (fault : Fault) : Held J c (d.run J s fault).2 := by
  have heff := Storage.put_effect s fault d.height d.hash d.ids (d.elements J)
  show Held J c (s.put fault d.height d.hash d.ids (d.elements J)).2
  have hframe : ∀ {s1 : Storage}, Storage.Frame s s1 →
      s1.heightOfHash c.hash = s.heightOfHash c.hash ∧
        ∀ key ∈ c.ids, s1.getTxLocation key = s.getTxLocation key := by
    intro s1 hf
    constructor
    · simp only [Storage.heightOfHash, hf.hashToHeight]
    · intro key _
      simp only [Storage.getTxLocation, hf.txToBlock]
  generalize s.put fault d.height d.hash d.ids (d.elements J) = r at heff
  obtain ⟨result, s'⟩ := r
  cases heff with
  | refused e s1 hf hr =>
      exact h.of_index hf.chain (hr c.height) (hframe hf).1 (hframe hf).2
  | unindexed e s1 hcommit hf hlen hr =>
      exact h.of_index hf.chain ((hr c.height).trans (if_neg hspares.height.symm))
        (hframe hf).1 (hframe hf).2
  | done s1 hf hlen hr =>
      have hhashes : (s1.putIndex d.height d.hash d.ids).hashToHeight
          = (d.hash, toLeBytes 8 d.height) :: s.hashToHeight := by
        rw [← hf.hashToHeight]
        rfl
      have htxs : (s1.putIndex d.height d.hash d.ids).txToBlock
          = (Storage.txEntries d.height d.ids).reverse ++ s.txToBlock := by
        rw [← hf.txToBlock]
        rfl
      refine h.of_index hf.chain ((hr c.height).trans (if_neg hspares.height.symm)) ?_ ?_
      · exact (Storage.heightOfHash_of_cons hhashes hd.height_lt c.hash).trans
          (if_neg hspares.hash.symm)
      · intro key hkey
        rcases Storage.getTxLocation_of_batch htxs hd.height_lt key with ⟨idx, hid, -⟩ |
          ⟨-, hsame⟩
        · exact absurd (List.mem_of_getElem? hid) (hspares.ids key hkey)
        · exact hsame

/-- **The run lemma**: what was written stays held while the writes spare it. -/
theorem Held.run {c : PutCall} {s s' : Storage} {ops : List (IngestWrite × Fault)}
    (h : Held J c s)
    (hspares : ∀ a ∈ ops, ∀ d, a.1.call J sha256 = some d → c.Spares d)
    (hrun : Run.exec (writeStep J sha256) s ops = some s') : Held J c s' := by
  refine Run.exec_invariant (fun _ a => ∀ d, a.1.call J sha256 = some d → c.Spares d)
    ?_ h (Run.meets_of_forall hspares s) hrun
  intro s a s' hs hspare hstep
  rw [← Option.some.inj hstep]
  cases hcall : a.1.call J sha256 with
  | none =>
      rw [IngestWrite.run_of_call_none s a.2 hcall]
      exact hs
  | some d =>
      rw [(IngestWrite.run_of_call s a.2 hcall).1]
      exact hs.put (IngestWrite.call_spec hcall) (hspare d hcall) a.2

/-- A write that succeeds holds the call it made. -/
theorem held_of_write {w : IngestWrite} {c : PutCall} (hcall : w.call J sha256 = some c)
    {s s' : Storage} {fault : Fault} (h : w.run J sha256 s fault = (.ok (), s')) :
    Held J c s' := by
  obtain ⟨hstate, hok⟩ := IngestWrite.run_of_call s fault hcall
  rw [h] at hstate hok
  exact held_of_put (IngestWrite.call_spec hcall) (Prod.ext (hok.mp rfl) hstate.symm)

end NeveIngestWrite
