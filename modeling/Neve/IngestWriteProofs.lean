import Neve.EthIngestProofs
import Neve.PlatformIngestProofs
import Neve.RunProofs

/-! # Ingest writes — every path that reaches a store

    The write paths of both chains as one type, and the single `put` each of
    them issues (`IngestWrite.call`).  Whatever the path, the key a record is
    indexed under is the one its own block names, and its transactions are
    indexed under the keys of the well-formed entries (`call_spec`).  `Traced`
    says that a store holds nothing but what the calls of a run put there; it is
    kept by every write, failing or not. -/

namespace NeveIngestWrite

open JsonValue ByteText NeveRecord NeveStorage NeveEthIngest NevePlatformIngest
open NevePlatformCodec

/-! ## What a block or a transaction calls itself -/

/-- The hash (C) or ID (P) that a block or a transaction object names. -/
def ownKey (sha256 : Bytes → Bytes32) : Chain → Value → Option Bytes32
  | .C => txHash
  | .P => txId sha256

/-- The transaction entries of a block, malformed ones included. -/
def entries : Chain → Value → List Value
  | .C => transactions
  | .P => blockTxs

theorem ownKey_mapFloat (sha256 : Bytes → Bytes32) (g : Decimal → Decimal) (chain : Chain)
    (v : Value) : ownKey sha256 chain (v.mapFloat g) = ownKey sha256 chain v := by
  cases chain with
  | C => exact txHash_mapFloat g v
  | P => exact txId_mapFloat sha256 g v

theorem entries_mapFloat (g : Decimal → Decimal) (chain : Chain) (block : Value) :
    entries chain (block.mapFloat g) = (entries chain block).map (Value.mapFloat g) := by
  cases chain with
  | C => exact transactions_mapFloat g block
  | P => exact blockTxs_mapFloat g block

/-! ## Writes -/

/-- One write of an ingest path, with what it was given. -/
inductive IngestWrite where
  | persistBlock (height : UInt64) (expectedHash : String) (block : Value)
  | persistBackfilled (height : UInt64) (block logs : Value)
  | joinPut (height : UInt64) (expectedHash : String) (block logs : Value)
  | storeBlock (bytesValue jsonValue : Value) (expectHeight : Option Nat) (rewards : Value)

/-- The arguments of one `put`, its elements still documents. -/
structure PutCall where
  chain : Chain
  height : Nat
  hash : Bytes32
  ids : List Bytes32
  block : Value
  derived : List Value

section Writes

variable (J : Codec) (sha256 : Bytes → Bytes32)

namespace PutCall

def elements (c : PutCall) : List Bytes := (c.block :: c.derived).map J.toVec

def run (s : Storage) (fault : Fault) (c : PutCall) : Except String Unit × Storage :=
  s.put fault c.height c.hash c.ids (c.elements J)

end PutCall

namespace IngestWrite

/-- The chain a write path belongs to. -/
def chain : IngestWrite → Chain
  | persistBlock .. => .C
  | persistBackfilled .. => .C
  | joinPut .. => .C
  | storeBlock .. => .P

/-- The block JSON a write was given. -/
def block : IngestWrite → Value
  | persistBlock _ _ block => block
  | persistBackfilled _ block _ => block
  | joinPut _ _ block _ => block
  | storeBlock _ jsonValue _ _ => jsonValue

/-- Carry out a write.  A join-buffer put is the put of a block prepared when it
    arrived, with the logs that completed it. -/
def run (s : Storage) (fault : Fault) : IngestWrite → Except String Unit × Storage
  | persistBlock height expectedHash block =>
      NeveEthIngest.persistBlock J s fault height.toNat expectedHash block
  | persistBackfilled height block logs =>
      NeveEthIngest.persistBackfilled J s fault height.toNat block (J.toVec logs)
  | joinPut height expectedHash block logs =>
      match prepareBlock J expectedHash block with
      | none => (.ok (), s)
      | some p => s.put fault height.toNat p.hash p.txHashes [p.bytes, J.toVec logs]
  | storeBlock bytesValue jsonValue expectHeight rewards =>
      match verify J sha256 bytesValue jsonValue expectHeight with
      | .error r => (.error r.reason, s)
      | .ok fetched =>
          match NevePlatformIngest.storeBlock s fault fetched (J.toVec rewards) with
          | (none, s') => (.error "put", s')
          | (some _, s') => (.ok (), s')

/-- The put a write issues, if it gets that far. -/
def call : IngestWrite → Option PutCall
  | persistBlock height expectedHash block =>
      (prepareBlock J expectedHash block).map fun p =>
        ⟨.C, height.toNat, p.hash, p.txHashes, block, [.array []]⟩
  | persistBackfilled height block logs =>
      (txHash block).map fun hash =>
        ⟨.C, height.toNat, hash, extractTxHashes block, block, [logs]⟩
  | joinPut height expectedHash block logs =>
      (prepareBlock J expectedHash block).map fun p =>
        ⟨.C, height.toNat, p.hash, p.txHashes, block, [logs]⟩
  | storeBlock bytesValue jsonValue expectHeight rewards =>
      (verify J sha256 bytesValue jsonValue expectHeight).toOption.map fun fetched =>
        ⟨.P, fetched.height, fetched.id, fetched.txIds, jsonValue, [bytesValue, rewards]⟩

end IngestWrite

end Writes

/-- What every issued put satisfies. -/
structure PutCall.Lawful (sha256 : Bytes → Bytes32) (c : PutCall) : Prop where
  height_lt : c.height < 2 ^ 64
  hash : ownKey sha256 c.chain c.block = some c.hash
  ids : c.ids = (entries c.chain c.block).filterMap (ownKey sha256 c.chain)
  arity : c.derived.length + 1 = arity c.chain

theorem arity_injective {a b : Chain} (h : arity a = arity b) : a = b := by
  cases a <;> cases b
  · rfl
  · cases h
  · cases h
  · rfl

namespace PutCall

theorem elements_length (J : Codec) (c : PutCall) :
    (c.elements J).length = c.derived.length + 1 := by
  show ((c.block :: c.derived).map J.toVec).length = _
  rw [List.length_map]
  rfl

variable {sha256 : Bytes → Bytes32} {c : PutCall}

theorem Lawful.one_le (h : c.Lawful sha256) : 1 ≤ c.derived.length := by
  have h2 : 2 ≤ NeveRecord.arity c.chain := by cases c.chain <;> decide
  have h1 := h.arity
  omega

/-- The element count tells the chains apart. -/
theorem Lawful.chain_eq (h : c.Lawful sha256) {J : Codec} {chain : Chain}
    (hlen : (c.elements J).length = NeveRecord.arity chain) : c.chain = chain := by
  apply arity_injective
  rw [← hlen, ← h.arity, elements_length]

end PutCall

section Spec

variable {J : Codec} {sha256 : Bytes → Bytes32}

theorem prepareBlock_eq_some {expectedHash : String} {block : Value} {p : PreparedBlock}
    (h : prepareBlock J expectedHash block = some p) :
    txHash block = some p.hash ∧ p.txHashes = extractTxHashes block ∧
      p.bytes = J.toVec block := by
  simp only [prepareBlock] at h
  by_cases hne : ((block.get "hash").bind Value.asStr).getD "" ≠ expectedHash
  · rw [if_pos hne] at h
    cases h
  rw [if_neg hne] at h
  have heq := not_not.mp hne
  cases hd : decodeHash expectedHash with
  | error e => rw [hd] at h; cases h
  | ok hash =>
      rw [hd] at h
      rw [← Option.some.inj h]
      refine ⟨?_, rfl, rfl⟩
      simp only [txHash]
      cases hs : (block.get "hash").bind Value.asStr with
      | none =>
          -- a missing hash only matches an empty head hash, which is no hash
          rw [hs] at heq
          rw [← heq] at hd
          cases hd
      | some s =>
          rw [hs] at heq
          rw [show s = expectedHash from heq]
          show (decodeHash expectedHash).toOption = _
          rw [hd]
          rfl

/-- **The spec of `call`.** -/
theorem IngestWrite.call_spec {w : IngestWrite} {c : PutCall}
    (h : w.call J sha256 = some c) : c.Lawful sha256 := by
  cases w with
  | persistBlock height expectedHash block =>
      obtain ⟨p, hp, rfl⟩ := Option.map_eq_some_iff.mp h
      obtain ⟨hkey, hids, -⟩ := prepareBlock_eq_some hp
      exact ⟨height.toNat_lt, hkey, hids, rfl⟩
  | persistBackfilled height block logs =>
      obtain ⟨hash, hkey, rfl⟩ := Option.map_eq_some_iff.mp h
      exact ⟨height.toNat_lt, hkey, rfl, rfl⟩
  | joinPut height expectedHash block logs =>
      obtain ⟨p, hp, rfl⟩ := Option.map_eq_some_iff.mp h
      obtain ⟨hkey, hids, -⟩ := prepareBlock_eq_some hp
      exact ⟨height.toNat_lt, hkey, hids, rfl⟩
  | storeBlock bytesValue jsonValue expectHeight rewards =>
      obtain ⟨fetched, hf, rfl⟩ := Option.map_eq_some_iff.mp h
      obtain ⟨b, hagree, -, heq⟩ := verify_ok (Run.toOption_eq_some hf)
      refine ⟨?_, ?_, ?_, rfl⟩
      · obtain ⟨v, -, hv⟩ := Option.bind_eq_some_iff.mp hagree.height
        exact Value.asU64_lt hv
      · show txId sha256 jsonValue = some fetched.id
        simp only [txId]
        rw [hagree.id, heq]
        show (cb58Decode sha256 (blockIdOf sha256 b)).toOption = _
        rw [cb58Decode_blockIdOf]
        rfl
      · show fetched.txIds = extractTxIds sha256 jsonValue
        rw [heq]

theorem IngestWrite.call_block {w : IngestWrite} {c : PutCall}
    (h : w.call J sha256 = some c) : c.chain = w.chain ∧ c.block = w.block := by
  cases w <;> obtain ⟨_, -, rfl⟩ := Option.map_eq_some_iff.mp h <;> exact ⟨rfl, rfl⟩

/-- A write that issues no put changes nothing. -/
theorem IngestWrite.run_of_call_none {w : IngestWrite} (s : Storage) (fault : Fault)
    (h : w.call J sha256 = none) : (w.run J sha256 s fault).2 = s := by
  cases w with
  | persistBlock height expectedHash block =>
      have hp := Option.map_eq_none_iff.mp h
      show (NeveEthIngest.persistBlock J s fault height.toNat expectedHash block).2 = s
      simp only [NeveEthIngest.persistBlock]
      rw [hp]
  | persistBackfilled height block logs =>
      have hk := Option.map_eq_none_iff.mp h
      show (NeveEthIngest.persistBackfilled J s fault height.toNat block _).2 = s
      simp only [NeveEthIngest.persistBackfilled]
      simp only [txHash] at hk
      cases hs : (block.get "hash").bind Value.asStr with
      | none => rfl
      | some bodyHash =>
          rw [hs] at hk
          cases hd : decodeHash bodyHash with
          | error e => dsimp only; rw [hd]
          | ok hash =>
              rw [Option.bind_some, hd] at hk
              cases hk
  | joinPut height expectedHash block logs =>
      have hp := Option.map_eq_none_iff.mp h
      show (match prepareBlock J expectedHash block with
        | none => _ | some p => _ : Except String Unit × Storage).2 = s
      rw [hp]
  | storeBlock bytesValue jsonValue expectHeight rewards =>
      have hv := Option.map_eq_none_iff.mp h
      cases hd : verify J sha256 bytesValue jsonValue expectHeight with
      | error r =>
          simp only [run]
          rw [hd]
      | ok fetched => rw [hd] at hv; cases hv

/-- A write that issues a put does exactly that put. -/
theorem IngestWrite.run_of_call {w : IngestWrite} {c : PutCall} (s : Storage)
    (fault : Fault) (h : w.call J sha256 = some c) :
    (w.run J sha256 s fault).2 = (c.run J s fault).2 ∧
      ((w.run J sha256 s fault).1 = .ok () ↔ (c.run J s fault).1 = .ok ()) := by
  cases w with
  | persistBlock height expectedHash block =>
      obtain ⟨p, hp, rfl⟩ := Option.map_eq_some_iff.mp h
      obtain ⟨-, -, hbytes⟩ := prepareBlock_eq_some hp
      simp only [run, PutCall.run, PutCall.elements, NeveEthIngest.persistBlock]
      rw [hp]
      dsimp only [List.map]
      -- without logs ingested the second element is the empty array
      rw [hbytes, J.toVec_nil]
      exact ⟨rfl, Iff.rfl⟩
  | persistBackfilled height block logs =>
      obtain ⟨hash, hkey, rfl⟩ := Option.map_eq_some_iff.mp h
      obtain ⟨bodyHash, hs, hd⟩ := Option.bind_eq_some_iff.mp hkey
      simp only [run, PutCall.run, PutCall.elements, NeveEthIngest.persistBackfilled]
      rw [hs]
      dsimp only
      -- a backfilled block is keyed by the hash in its body
      rw [Run.toOption_eq_some hd]
      exact ⟨rfl, Iff.rfl⟩
  | joinPut height expectedHash block logs =>
      obtain ⟨p, hp, rfl⟩ := Option.map_eq_some_iff.mp h
      obtain ⟨-, -, hbytes⟩ := prepareBlock_eq_some hp
      simp only [run, PutCall.run, PutCall.elements]
      rw [hp]
      dsimp only [List.map]
      rw [hbytes]
      exact ⟨rfl, Iff.rfl⟩
  | storeBlock bytesValue jsonValue expectHeight rewards =>
      obtain ⟨fetched, hf, rfl⟩ := Option.map_eq_some_iff.mp h
      have hv := Run.toOption_eq_some hf
      -- a verified block holds the two halves it was made from
      obtain ⟨b, -, -, heq⟩ := verify_ok hv
      have hjson : fetched.json = J.toVec jsonValue := by rw [heq]
      have hbytes : fetched.bytesJson = J.toVec bytesValue := by rw [heq]
      simp only [run, PutCall.run, PutCall.elements, NevePlatformIngest.storeBlock]
      rw [hv]
      dsimp only [List.map]
      rw [hjson, hbytes]
      cases s.put fault fetched.height fetched.id fetched.txIds
          [J.toVec jsonValue, J.toVec bytesValue, J.toVec rewards] with
      | mk result s' =>
          cases result with
          | error e => exact ⟨rfl, ⟨fun h => (nomatch h), fun h => (nomatch h)⟩⟩
          | ok u => exact ⟨rfl, ⟨fun _ => rfl, fun _ => rfl⟩⟩

end Spec

/-! ## Where a store's content comes from -/

/-- Every record and every index entry of the store was put there by a call that
    satisfies `P`, and whatever is indexed is stored. -/
structure Traced (J : Codec) (P : PutCall → Prop) (s : Storage) : Prop where
  record : ∀ height raw, s.rawAt height = some raw →
    ∃ c, P c ∧ c.chain = s.chain ∧ c.height = height ∧ raw = encode (c.elements J)
  block : ∀ key slice, (key, slice) ∈ s.hashToHeight →
    ∃ c, P c ∧ c.chain = s.chain ∧ c.hash = key ∧ slice = toLeBytes 8 c.height ∧
      (s.rawAt c.height).isSome
  tx : ∀ key slice, (key, slice) ∈ s.txToBlock →
    ∃ c idx, P c ∧ c.chain = s.chain ∧ c.ids[idx]? = some key ∧
      slice = toLeBytes 8 c.height ++ toLeBytes 4 idx ∧ (s.rawAt c.height).isSome

section Tracing

variable {J : Codec} {sha256 : Bytes → Bytes32} {P : PutCall → Prop}

theorem traced_fresh (blockdb : Blockdb) (chain : Chain) (anchorFloor : Option Nat) :
    Traced J P (Storage.fresh blockdb chain anchorFloor) where
  record _ _ h := nomatch h
  block _ _ h := nomatch h
  tx _ _ h := nomatch h

/-- Tracing survives any change that keeps the indexes and only adds records. -/
theorem Traced.frame {s s' : Storage} (h : Traced J P s) (hf : s.Frame s')
    (hgrow : ∀ k, (s.rawAt k).isSome → (s'.rawAt k).isSome)
    (hrec : ∀ height raw, s'.rawAt height = some raw →
      ∃ c, P c ∧ c.chain = s.chain ∧ c.height = height ∧ raw = encode (c.elements J)) :
    Traced J P s' where
  record height raw hr := by
    rw [hf.chain]
    exact hrec height raw hr
  block key slice he := by
    rw [hf.hashToHeight] at he
    obtain ⟨c, hp, hc, hk, hs, hr⟩ := h.block key slice he
    exact ⟨c, hp, hf.chain.symm ▸ hc, hk, hs, hgrow _ hr⟩
  tx key slice he := by
    rw [hf.txToBlock] at he
    obtain ⟨c, idx, hp, hc, hk, hs, hr⟩ := h.tx key slice he
    exact ⟨c, idx, hp, hf.chain.symm ▸ hc, hk, hs, hgrow _ hr⟩

/-- The step lemma: a lawful put that satisfies `P`, however it ends. -/
theorem Traced.put {s : Storage} {c : PutCall} (fault : Fault) (h : Traced J P s)
    (hp : P c) (hl : c.Lawful sha256) : Traced J P (c.run J s fault).2 := by
  -- the record a completed blockstore write leaves is that of `c`
  have hwritten : ∀ s1 : Storage, s.Frame s1 → (c.elements J).length = arity s.chain →
      (∀ k, s1.rawAt k
        = if k = c.height then some (encode (c.elements J)) else s.rawAt k) →
      Traced J P s1 ∧ c.chain = s1.chain ∧ (s1.rawAt c.height).isSome := by
    intro s1 hf hlen hr
    have hchain : c.chain = s.chain := hl.chain_eq hlen
    refine ⟨h.frame hf ?_ ?_, hf.chain.symm ▸ hchain, ?_⟩
    · intro k hk
      rw [hr k]
      by_cases heq : k = c.height
      · rw [if_pos heq]; rfl
      · rw [if_neg heq]; exact hk
    · intro height raw hraw
      rw [hr height] at hraw
      by_cases heq : height = c.height
      · rw [if_pos heq] at hraw
        exact ⟨c, hp, hchain, heq.symm, (Option.some.inj hraw).symm⟩
      · rw [if_neg heq] at hraw
        exact h.record height raw hraw
    · rw [hr c.height, if_pos rfl]
      rfl
  have heff := Storage.put_effect s fault c.height c.hash c.ids (c.elements J)
  show Traced J P (s.put fault c.height c.hash c.ids (c.elements J)).2
  generalize s.put fault c.height c.hash c.ids (c.elements J) = out at heff ⊢
  obtain ⟨result, s'⟩ := out
  cases heff with
  | refused e _ hf hr =>
      refine h.frame hf ?_ ?_
      · intro k hk; rw [hr k]; exact hk
      · intro height raw hraw
        rw [hr height] at hraw
        exact h.record height raw hraw
  | unindexed e _ _ hf hlen hr => exact (hwritten _ hf hlen hr).1
  | done s1 hf hlen hr =>
      obtain ⟨ht, hchain, hsome⟩ := hwritten s1 hf hlen hr
      refine ⟨ht.record, ?_, ?_⟩
      · intro key slice he
        rcases List.mem_cons.mp he with heq | hold
        · obtain ⟨rfl, rfl⟩ := Prod.mk.inj heq
          exact ⟨c, hp, hchain, rfl, rfl, hsome⟩
        · exact ht.block key slice hold
      · intro key slice he
        rcases List.mem_append.mp he with hnew | hold
        · obtain ⟨idx, hid, hs⟩ := Storage.mem_txEntries.mp (List.mem_reverse.mp hnew)
          exact ⟨c, idx, hp, hchain, hid, hs, hsome⟩
        · exact ht.tx key slice hold

/-- An undisturbed first put: the record is stored and both indexes hold exactly
    its entries. -/
theorem PutCall.run_fresh (J : Codec) (blockdb : Blockdb) {c : PutCall}
    (harity : c.derived.length + 1 = NeveRecord.arity c.chain) :
    ∃ s, c.run J (Storage.fresh blockdb c.chain none) .none = (.ok (), s) ∧
      s.chain = c.chain ∧
      s.rawAt c.height = some (encode (c.elements J)) ∧
      s.hashToHeight = [(c.hash, toLeBytes 8 c.height)] ∧
      s.txToBlock = (Storage.txEntries c.height c.ids).reverse := by
  have hlen : (c.elements J).length = NeveRecord.arity c.chain :=
    (c.elements_length J).trans harity
  obtain ⟨st', hw, hread⟩ :=
    Storage.writeBlock_fresh blockdb c.chain c.height (encode (c.elements J))
  exact ⟨_, Storage.put_none c.hash c.ids hlen hw, rfl, hread, rfl, List.append_nil _⟩

/-- An undisturbed put over a stored height succeeds. -/
theorem PutCall.run_of_stored (J : Codec) {c : PutCall} {s : Storage}
    (harity : c.derived.length + 1 = NeveRecord.arity s.chain)
    (hraw : (s.rawAt c.height).isSome) : ∃ s', c.run J s .none = (.ok (), s') := by
  obtain ⟨st, hst, hhas⟩ := Storage.has_iff_rawAt.mpr (Option.isSome_iff_exists.mp hraw)
  have hopen : s.openStore c.height = st := by
    simp only [Storage.openStore]
    rw [hst]
    rfl
  obtain ⟨st', hw⟩ : ∃ st', (s.openStore c.height).writeBlock c.height
      (encode (c.elements J)) = .ok st' := by
    rw [hopen]
    exact Store.writeBlock_eq_ok_iff.mpr (Store.min_le_of_has hhas)
  exact ⟨_, Storage.put_none c.hash c.ids ((c.elements_length J).trans harity) hw⟩

/-- A write on a store, as a step: it always ends, one way or another. -/
def writeStep (J : Codec) (sha256 : Bytes → Bytes32) (s : Storage)
    (a : IngestWrite × Fault) : Option Storage :=
  some (a.1.run J sha256 s a.2).2

/-- **The run lemma**: after any sequence of writes, everything in the store
    comes from the calls of that sequence. -/
theorem traced_exec {ops : List (IngestWrite × Fault)} {s s' : Storage}
    (h : Traced J P s) (hP : ∀ a ∈ ops, ∀ c, a.1.call J sha256 = some c → P c)
    (hrun : Run.exec (writeStep J sha256) s ops = some s') : Traced J P s' := by
  refine Run.exec_invariant (fun _ a => ∀ c, a.1.call J sha256 = some c → P c) ?_ h
    (Run.meets_of_forall hP s) hrun
  intro s ⟨w, fault⟩ s' ht hcond hstep
  rw [← Option.some.inj hstep]
  cases hc : w.call J sha256 with
  | none =>
      rw [IngestWrite.run_of_call_none s fault hc]
      exact ht
  | some c =>
      rw [(IngestWrite.run_of_call s fault hc).1]
      exact ht.put fault (hcond c hc) (IngestWrite.call_spec hc)

end Tracing

end NeveIngestWrite
