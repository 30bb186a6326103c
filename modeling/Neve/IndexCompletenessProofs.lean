import Neve.StorageMapProofs

/-! # Index completeness — two-stage writes, crashes and reopens

    A put writes its record first and its index batch second, and other puts,
    a failure or a crash of the process may come between the two.  Because the
    record always goes first, no index entry ever names a height that is not
    stored; because a batch is all or nothing and nothing removes an entry, a
    put that reported success stays resolvable. -/

namespace NeveIndexCompleteness

open JsonValue ByteText NeveRecord NeveStorage NeveStorageMap Outcome

/-! ## The two stages of a put -/

/-- The blockstore write of a put. -/
def writeStage (s : Storage) (p : Put) : Except String Unit × Storage :=
  let want := arity s.chain
  if p.elements.length ≠ want then
    (.error s!"the {s.chain.asStr} chain's record has {want} elements, got {p.elements.length}", s)
  else s.putBlock p.fault p.height (encode p.elements)

/-- The index batch of a put. -/
def indexStage (s : Storage) (p : Put) : Except String Unit × Storage :=
  if p.fault = .commit then (.error "commit", s)
  else (.ok (), s.putIndex p.height p.hash p.txHashes)

/-- Both stages in turn; a failed write ends the put. -/
def bothStages (s : Storage) (p : Put) : Except String Unit × Storage :=
  match writeStage s p with
  | (.error e, s') => (.error e, s')
  | (.ok (), s') => indexStage s' p

/-- A put that nothing interrupts is its two stages in turn. -/
theorem put_eq_bothStages (s : Storage) (p : Put) :
    s.put p.fault p.height p.hash p.txHashes p.elements = bothStages s p := by
  simp only [Storage.put, bothStages, writeStage]
  by_cases hlen : p.elements.length ≠ arity s.chain
  · rw [if_pos hlen, if_pos hlen]
  · rw [if_neg hlen, if_neg hlen]
    cases hp : s.putBlock p.fault p.height (encode p.elements) with
    | mk result s' =>
        cases result with
        | error e => rfl
        | ok u => rfl

/-! ## The process -/

/-- A store with the puts that are between their two stages, and the puts that
    returned `Ok` so far. -/
structure Process where
  storage : Storage
  inflight : List Put
  returned : List Put

/-- One stage of one put, or a crash followed by a reopen with some floor. -/
inductive Action where
  | write (p : Put)
  | index (p : Put)
  | crash (anchorFloor : Option Nat)

/-- A process that has just opened its store. -/
def Process.start (s : Storage) : Process := ⟨s, [], []⟩

/-- A failed stage ends its put.  A crash ends all of them; what the completed
    stages wrote, and a blockstore once created, is there after the reopen. -/
def step (d : Process) : Action → Option Process
  | .write p =>
      match writeStage d.storage p with
      | (.error _, s') => some { d with storage := s' }
      | (.ok (), s') => some { d with storage := s', inflight := p :: d.inflight }
  | .index p =>
      if p ∈ d.inflight then
        match indexStage d.storage p with
        | (.error _, s') => some { d with storage := s', inflight := d.inflight.erase p }
        | (.ok (), s') => some ⟨s', d.inflight.erase p, p :: d.returned⟩
      else none
  | .crash anchorFloor =>
      some ⟨{ d.storage with anchorFloor := anchorFloor }, [], d.returned⟩

/-- The put an action begins. -/
def Action.begun : Action → Option Put
  | .write p => some p
  | _ => none

/-- Puts of one block per height, each block at one height. -/
structure OneBlock (known : Put → Prop) : Prop where
  same_hash : ∀ p q, known p → known q → p.height = q.height → p.hash = q.hash
  same_txs : ∀ p q, known p → known q → p.height = q.height → p.txHashes = q.txHashes
  distinct_hash : ∀ p q, known p → known q → p.height ≠ q.height → p.hash ≠ q.hash
  disjoint_txs : ∀ p q, known p → known q → p.height ≠ q.height →
    ∀ tx ∈ p.txHashes, tx ∉ q.txHashes
  nodup : ∀ p, known p → p.txHashes.Nodup
  txs_lt : ∀ p, known p → p.txHashes.length < 2 ^ 32
  height_lt : ∀ p, known p → p.height < 2 ^ 64

/-- Every index entry decodes, and names a height that is stored. -/
def NoDangling (s : Storage) : Prop :=
  (∀ e ∈ s.hashToHeight, e.2.length = 8 ∧ s.Has (fromLeBytes e.2)) ∧
    ∀ e ∈ s.txToBlock, e.2.length = 12 ∧ s.Has (fromLeBytes (e.2.take 8))

/-- A put's hash resolves to its height, and each of its transactions to its
    position. -/
def Resolves (s : Storage) (p : Put) : Prop :=
  s.heightOfHash p.hash = .ok (some p.height) ∧
    ∀ i tx, p.txHashes[i]? = some tx → s.getTxLocation tx = .ok (some (p.height, i))

/-! ## The invariant -/

/-- Every index entry was written by a known put whose record is stored, the
    puts in flight have their record stored, and those that returned have all
    their entries. -/
structure Indexed (known : Put → Prop) (d : Process) : Prop where
  hash : ∀ key slice, (key, slice) ∈ d.storage.hashToHeight → ∃ p, known p ∧
    key = p.hash ∧ slice = toLeBytes 8 p.height ∧ (d.storage.rawAt p.height).isSome
  tx : ∀ key slice, (key, slice) ∈ d.storage.txToBlock → ∃ p, known p ∧
    (key, slice) ∈ Storage.txEntries p.height p.txHashes ∧
    (d.storage.rawAt p.height).isSome
  inflight : ∀ p ∈ d.inflight, known p ∧ (d.storage.rawAt p.height).isSome
  returned : ∀ p ∈ d.returned, known p ∧
    (p.hash, toLeBytes 8 p.height) ∈ d.storage.hashToHeight ∧
    ∀ e ∈ Storage.txEntries p.height p.txHashes, e ∈ d.storage.txToBlock

variable {known : Put → Prop}

theorem indexed_start {s : Storage} (hhash : s.hashToHeight = []) (htx : s.txToBlock = []) :
    Indexed known (Process.start s) where
  hash key slice h := by
    have hmem : (key, slice) ∈ s.hashToHeight := h
    rw [hhash] at hmem
    cases hmem
  tx key slice h := by
    have hmem : (key, slice) ∈ s.txToBlock := h
    rw [htx] at hmem
    cases hmem
  inflight _ h := by cases h
  returned _ h := by cases h

/-- The invariant survives whatever leaves the indexes alone, takes no record
    away and starts only known, stored puts. -/
theorem Indexed.grow {d d' : Process} (h : Indexed known d)
    (hhash : d'.storage.hashToHeight = d.storage.hashToHeight)
    (htx : d'.storage.txToBlock = d.storage.txToBlock)
    (hraw : ∀ k, (d.storage.rawAt k).isSome → (d'.storage.rawAt k).isSome)
    (hinflight : ∀ p ∈ d'.inflight, known p ∧ (d'.storage.rawAt p.height).isSome)
    (hreturned : d'.returned = d.returned) : Indexed known d' where
  hash key slice hmem := by
    rw [hhash] at hmem
    obtain ⟨p, hp, hkey, hslice, hs⟩ := h.hash key slice hmem
    exact ⟨p, hp, hkey, hslice, hraw _ hs⟩
  tx key slice hmem := by
    rw [htx] at hmem
    obtain ⟨p, hp, he, hs⟩ := h.tx key slice hmem
    exact ⟨p, hp, he, hraw _ hs⟩
  inflight := hinflight
  returned p hp := by
    rw [hreturned] at hp
    rw [hhash, htx]
    exact h.returned p hp

/-- What the blockstore stage does, whether it succeeds or not. -/
theorem writeStage_effect (s : Storage) (p : Put) :
    ∃ result s', writeStage s p = (result, s') ∧ s.Frame s' ∧
      (∀ k, (s.rawAt k).isSome → (s'.rawAt k).isSome) ∧
      (result = .ok () → (s'.rawAt p.height).isSome) := by
  simp only [writeStage]
  by_cases hlen : p.elements.length ≠ arity s.chain
  · rw [if_pos hlen]
    exact ⟨_, _, rfl, Storage.Frame.refl s, fun _ hk => hk, fun h => by cases h⟩
  · rw [if_neg hlen]
    rcases s.putBlock_cases p.fault p.height (encode p.elements) with
      ⟨e, s', hp, hf, hr⟩ | ⟨s', hp, hf, hr⟩
    · refine ⟨_, s', hp, hf, ?_, fun h => by cases h⟩
      intro k hk
      rw [hr k]
      exact hk
    · refine ⟨_, s', hp, hf, ?_, ?_⟩
      · intro k hk
        rw [hr k]
        by_cases heq : k = p.height
        · rw [if_pos heq]
          rfl
        · rw [if_neg heq]
          exact hk
      · intro _
        rw [hr p.height, if_pos rfl]
        rfl

/-- The index batch of a put whose record is stored. -/
theorem Indexed.putIndex {d : Process} {p : Put} (h : Indexed known d) (hp : known p)
    (hstored : (d.storage.rawAt p.height).isSome) (inflight : List Put)
    (hsub : ∀ q ∈ inflight, q ∈ d.inflight) :
    Indexed known
      ⟨d.storage.putIndex p.height p.hash p.txHashes, inflight, p :: d.returned⟩ where
  hash key slice hmem := by
    rcases List.mem_cons.mp hmem with heq | hold
    · obtain ⟨rfl, rfl⟩ := Prod.mk.inj heq
      exact ⟨p, hp, rfl, rfl, hstored⟩
    · exact h.hash key slice hold
  tx key slice hmem := by
    rcases List.mem_append.mp hmem with hnew | hold
    · exact ⟨p, hp, List.mem_reverse.mp hnew, hstored⟩
    · exact h.tx key slice hold
  inflight q hq := h.inflight q (hsub q hq)
  returned q hq := by
    rcases List.mem_cons.mp hq with rfl | hold
    · exact ⟨hp, List.mem_cons_self .., fun e he =>
        List.mem_append_left _ (List.mem_reverse.mpr he)⟩
    · obtain ⟨hk, hh, ht⟩ := h.returned q hold
      exact ⟨hk, List.mem_cons_of_mem _ hh, fun e he => List.mem_append_right _ (ht e he)⟩

/-- **The step lemma**: any stage of a known put, and any crash. -/
theorem Indexed.step {d d' : Process} {a : Action} (h : Indexed known d)
    (hknown : ∀ p, a.begun = some p → known p) (hstep : step d a = some d') :
    Indexed known d' := by
  cases a with
  | write p =>
      obtain ⟨result, s', hw, hf, hgrow, hok⟩ := writeStage_effect d.storage p
      simp only [NeveIndexCompleteness.step] at hstep
      rw [hw] at hstep
      have hold : ∀ q ∈ d.inflight, known q ∧ (s'.rawAt q.height).isSome :=
        fun q hq => ⟨(h.inflight q hq).1, hgrow _ (h.inflight q hq).2⟩
      cases result with
      | error e =>
          rw [← Option.some.inj hstep]
          exact h.grow hf.hashToHeight hf.txToBlock hgrow hold rfl
      | ok u =>
          rw [← Option.some.inj hstep]
          refine h.grow hf.hashToHeight hf.txToBlock hgrow ?_ rfl
          intro q hq
          rcases List.mem_cons.mp hq with rfl | hq
          · exact ⟨hknown q rfl, hok rfl⟩
          · exact hold q hq
  | index p =>
      simp only [NeveIndexCompleteness.step, indexStage] at hstep
      by_cases hin : p ∈ d.inflight
      · have hsub : ∀ q ∈ d.inflight.erase p, q ∈ d.inflight :=
          fun q hq => List.mem_of_mem_erase hq
        rw [if_pos hin] at hstep
        by_cases hc : p.fault = .commit
        · rw [if_pos hc] at hstep
          rw [← Option.some.inj hstep]
          exact h.grow rfl rfl (fun _ hk => hk) (fun q hq => h.inflight q (hsub q hq)) rfl
        · rw [if_neg hc] at hstep
          rw [← Option.some.inj hstep]
          exact h.putIndex (h.inflight p hin).1 (h.inflight p hin).2 _ hsub
      · rw [if_neg hin] at hstep
        cases hstep
  | crash anchorFloor =>
      rw [← Option.some.inj hstep]
      exact h.grow rfl rfl (fun _ hk => hk) (fun _ hq => by cases hq) rfl

/-- A step reports at most one more put. -/
theorem step_returned {d d' : Process} {a : Action} (hstep : step d a = some d') :
    d'.returned = d.returned ∨ ∃ p, d'.returned = p :: d.returned := by
  cases a with
  | write p =>
      simp only [step] at hstep
      obtain ⟨result, s', hw, -, -, -⟩ := writeStage_effect d.storage p
      rw [hw] at hstep
      cases result with
      | error e => exact Or.inl (by rw [← Option.some.inj hstep])
      | ok u => exact Or.inl (by rw [← Option.some.inj hstep])
  | index p =>
      simp only [step, indexStage] at hstep
      by_cases hin : p ∈ d.inflight
      · rw [if_pos hin] at hstep
        by_cases hc : p.fault = .commit
        · rw [if_pos hc] at hstep
          exact Or.inl (by rw [← Option.some.inj hstep])
        · rw [if_neg hc] at hstep
          exact Or.inr ⟨p, by rw [← Option.some.inj hstep]⟩
      · rw [if_neg hin] at hstep
        cases hstep
  | crash anchorFloor => exact Or.inl (by rw [← Option.some.inj hstep])

/-- The run lemma. -/
theorem Indexed.run {as : List Action} {d d' : Process} (h : Indexed known d)
    (hknown : ∀ a ∈ as, ∀ p, a.begun = some p → known p)
    (hrun : Run.exec NeveIndexCompleteness.step d as = some d') : Indexed known d' :=
  Run.exec_invariant (fun _ a => ∀ p, a.begun = some p → known p)
    (fun _ _ _ hd hk hs => hd.step hk hs) h (Run.meets_of_forall hknown d) hrun

/-- A put that returned has returned for good. -/
theorem returned_subset {as : List Action} {d d' : Process}
    (hrun : Run.exec step d as = some d') : ∀ p ∈ d.returned, p ∈ d'.returned := by
  intro p hp
  have hkept : ∀ e a e', p ∈ e.returned → step e a = some e' → p ∈ e'.returned := by
    intro e a e' he hstep
    rcases step_returned hstep with h | ⟨q, h⟩
    · rw [h]
      exact he
    · rw [h]
      exact List.mem_cons_of_mem _ he
  exact Run.exec_invariant_all hkept hp hrun

/-! ## What lookups make of it -/

section Lookups

variable {d : Process}

theorem Indexed.noDangling (h : Indexed known d) (hone : OneBlock known) :
    NoDangling d.storage := by
  constructor
  · rintro ⟨key, slice⟩ he
    obtain ⟨p, hp, -, rfl, hs⟩ := h.hash key slice he
    refine ⟨toLeBytes_length 8 p.height, ?_⟩
    rw [Storage.height_of_entry (hone.height_lt p hp)]
    exact Storage.has_iff_rawAt.mpr (Option.isSome_iff_exists.mp hs)
  · rintro ⟨key, slice⟩ he
    obtain ⟨p, hp, hmem, hs⟩ := h.tx key slice he
    obtain ⟨i, -, rfl⟩ := Storage.mem_txEntries.mp hmem
    refine ⟨by rw [List.length_append, toLeBytes_length, toLeBytes_length], ?_⟩
    rw [List.take_left' (toLeBytes_length 8 p.height),
      Storage.height_of_entry (hone.height_lt p hp)]
    exact Storage.has_iff_rawAt.mpr (Option.isSome_iff_exists.mp hs)

/-- A key all of whose entries say the same is looked up to that. -/
theorem lookup_of_unique {key : Bytes32} {slice : Bytes} {entries : List (Bytes32 × Bytes)}
    (hmem : (key, slice) ∈ entries)
    (hunique : ∀ other, (key, other) ∈ entries → other = slice) :
    entries.lookup key = some slice := by
  cases hl : entries.lookup key with
  | none =>
      have hno := List.lookup_eq_none_iff.mp hl (key, slice) hmem
      rw [bne_self_eq_false] at hno
      cases hno
  | some other =>
      rw [hunique other (mem_of_lookup hl)]

/-- Two known puts that share a transaction agree on where it stands. -/
theorem OneBlock.location_unique (hone : OneBlock known) {p q : Put} {i j : Nat}
    {tx : Bytes32} (hp : known p) (hq : known q) (hi : p.txHashes[i]? = some tx)
    (hj : q.txHashes[j]? = some tx) : q.height = p.height ∧ j = i := by
  have hheight : q.height = p.height := by
    by_contra hne
    exact hone.disjoint_txs q p hq hp hne tx (List.mem_of_getElem? hj)
      (List.mem_of_getElem? hi)
  refine ⟨hheight, ?_⟩
  rw [hone.same_txs q p hq hp hheight] at hj
  obtain ⟨hjlt, hj⟩ := List.getElem?_eq_some_iff.mp hj
  obtain ⟨hilt, hi⟩ := List.getElem?_eq_some_iff.mp hi
  exact (hone.nodup p hp).getElem_inj_iff.mp (hj.trans hi.symm)

theorem Indexed.resolves (h : Indexed known d) (hone : OneBlock known) {p : Put}
    (hp : p ∈ d.returned) : Resolves d.storage p := by
  obtain ⟨hk, hmem, htxs⟩ := h.returned p hp
  constructor
  · have hlookup : d.storage.hashToHeight.lookup p.hash = some (toLeBytes 8 p.height) := by
      refine lookup_of_unique hmem ?_
      intro other hother
      obtain ⟨q, hq, hkey, rfl, -⟩ := h.hash p.hash other hother
      -- one height per hash
      by_contra hne
      exact hone.distinct_hash p q hk hq (fun heq => hne (by rw [heq])) hkey
    simp only [Storage.heightOfHash]
    rw [hlookup]
    dsimp only
    rw [toLeBytes_length, if_neg (not_not.mpr rfl),
      Storage.height_of_entry (hone.height_lt p hk)]
  · intro i tx hi
    have hentry := htxs _ (Storage.mem_txEntries.mpr ⟨i, hi, rfl⟩)
    have hlookup : d.storage.txToBlock.lookup tx
        = some (toLeBytes 8 p.height ++ toLeBytes 4 i) := by
      refine lookup_of_unique hentry ?_
      intro other hother
      obtain ⟨q, hq, hmemq, -⟩ := h.tx tx other hother
      obtain ⟨j, hj, rfl⟩ := Storage.mem_txEntries.mp hmemq
      obtain ⟨hheight, rfl⟩ := hone.location_unique hk hq hi hj
      rw [hheight]
    have hlt : i < 2 ^ 32 :=
      Nat.lt_trans (List.getElem?_eq_some_iff.mp hi).1 (hone.txs_lt p hk)
    simp only [Storage.getTxLocation]
    rw [hlookup]
    dsimp only
    rw [List.length_append, toLeBytes_length, toLeBytes_length, if_neg (not_not.mpr rfl),
      Storage.location_of_entry (hone.height_lt p hk) hlt]

end Lookups

/-- **Index completeness.** Over any interleaving of the stages of any puts, of
    failures and of crashes, in which every height has one block and every block
    one height: no index entry dangles, and a put that returned `Ok` resolves in
    every later state. -/
theorem index_complete {s : Storage} {as bs : List Action} {d d' : Process}
    (hhash : s.hashToHeight = []) (htx : s.txToBlock = [])
    (hone : OneBlock fun p => p ∈ (as ++ bs).filterMap Action.begun)
    (hrun : Run.exec step (Process.start s) as = some d)
    (hlater : Run.exec step d bs = some d') :
    NoDangling d.storage ∧ NoDangling d'.storage ∧
      ∀ p ∈ d.returned, Resolves d.storage p ∧ Resolves d'.storage p := by
  have hknown : ∀ a ∈ as ++ bs, ∀ p, a.begun = some p →
      p ∈ (as ++ bs).filterMap Action.begun :=
    fun a ha p hp => List.mem_filterMap.mpr ⟨a, ha, hp⟩
  have hd : Indexed (fun p => p ∈ (as ++ bs).filterMap Action.begun) d :=
    (indexed_start hhash htx).run (fun a ha => hknown a (List.mem_append_left _ ha)) hrun
  have hd' := hd.run (fun a ha => hknown a (List.mem_append_right _ ha)) hlater
  refine ⟨hd.noDangling hone, hd'.noDangling hone, ?_⟩
  intro p hp
  exact ⟨hd.resolves hone hp, hd'.resolves hone (returned_subset hlater p hp)⟩

/-! ## A crash between the stages -/

/-- Two puts at neighbouring heights, one of them with a transaction. -/
def lowerPut : Put :=
  ⟨.none, 5, Vector.replicate 32 1, [Vector.replicate 32 9], [[123, 125], EMPTY_ARRAY]⟩

def upperPut : Put := ⟨.none, 6, Vector.replicate 32 2, [], [[123, 125], EMPTY_ARRAY]⟩

/-- The lower put is interrupted by a crash after its first stage, and retried. -/
def crashRun : List Action :=
  [.write lowerPut, .write upperPut, .index upperPut, .crash none, .write lowerPut,
    .index lowerPut]

theorem oneBlock_crashRun :
    OneBlock fun p => p ∈ (crashRun ++ [Action.crash (some 3)]).filterMap Action.begun := by
  have hcases : ∀ p, p ∈ (crashRun ++ [Action.crash (some 3)]).filterMap Action.begun →
      p = lowerPut ∨ p = upperPut := by
    intro p hp
    have hp : p ∈ [lowerPut, upperPut, lowerPut] := hp
    simp only [List.mem_cons, List.not_mem_nil, or_false] at hp
    rcases hp with h | h | h
    · exact Or.inl h
    · exact Or.inr h
    · exact Or.inl h
  constructor
  · intro p q hp hq
    rcases hcases p hp with rfl | rfl <;> rcases hcases q hq with rfl | rfl <;> decide
  · intro p q hp hq
    rcases hcases p hp with rfl | rfl <;> rcases hcases q hq with rfl | rfl <;> decide
  · intro p q hp hq
    rcases hcases p hp with rfl | rfl <;> rcases hcases q hq with rfl | rfl <;> decide
  · intro p q hp hq
    rcases hcases p hp with rfl | rfl <;> rcases hcases q hq with rfl | rfl <;> decide
  · intro p hp
    rcases hcases p hp with rfl | rfl <;> decide
  · intro p hp
    rcases hcases p hp with rfl | rfl <;> decide
  · intro p hp
    rcases hcases p hp with rfl | rfl <;> decide

/-- After the crash and the retry both puts resolve, and still do after another
    crash. -/
theorem index_complete_after_crash :
    ∃ d d', Run.exec step (Process.start (Storage.fresh memory .C none)) crashRun = some d ∧
      Run.exec step d [.crash (some 3)] = some d' ∧ d.returned = [lowerPut, upperPut] ∧
      NoDangling d'.storage ∧ Resolves d'.storage lowerPut ∧ Resolves d'.storage upperPut := by
  obtain ⟨d, hrun, hret⟩ :
      ∃ d, Run.exec step (Process.start (Storage.fresh memory .C none)) crashRun
        = some d ∧ d.returned = [lowerPut, upperPut] := ⟨_, rfl, rfl⟩
  obtain ⟨d', hlater⟩ : ∃ d', Run.exec step d [.crash (some 3)] = some d' := ⟨_, rfl⟩
  obtain ⟨-, hno, hall⟩ := index_complete rfl rfl oneBlock_crashRun hrun hlater
  rw [hret] at hall
  exact ⟨d, d', hrun, hlater, hret, hno, (hall _ (by simp)).2, (hall _ (by simp)).2⟩

end NeveIndexCompleteness
