import Neve.JsonTextProofs
import Neve.PlatformIngestProofs

/-! # P-chain records — what verification keeps true, and what it does not bind

    Every record that either dialect stores has halves that agree: the bytes
    element decodes to bytes whose digest is the JSON's ID, and the JSON's
    height is the height it is stored at.  Its index entry is there too, unless
    the index batch of a write at that height failed.

    The check binds the ID to the bytes and nothing else: the height and the
    transactions are read from the JSON half alone, so for every canonical byte
    string there are accepted pairs that disagree on both. -/

namespace NeveRecordConsistency

open JsonValue ByteText NeveRecord NeveStorage NevePlatformCodec NevePlatformIngest

/-! ## Runs of both dialects -/

/-- One pass of either dialect over a store: a range fill of the direct ingest
    loop, or one streamed record of the mirror. -/
inductive Pass where
  | fill (listening : Bool) (tip : Nat) (heights : List (Nat × HeightReply))
      (fault : Nat → Fault)
  | record (record : Value) (fault : Nat → Fault)

/-- How the write of a height goes during the pass. -/
def Pass.fault : Pass → Nat → Fault
  | .fill _ _ _ fault => fault
  | .record _ fault => fault

def passStep (J : Codec) (sha256 : Bytes → Bytes32) (s : Storage) : Pass → Option Storage
  | .fill listening tip heights fault =>
      some (fillRange J sha256 listening fault tip ⟨s, 0, []⟩ none heights).2.storage
  | .record record fault => some (persistRecord J sha256 s fault record).2

/-- The record at a height, as a reader sees it, has halves that agree on `b`. -/
def ReadsAs (J : Codec) (sha256 : Bytes → Bytes32) (s : Storage) (height : Nat)
    (b : Bytes) : Prop :=
  ∃ jsonText bytesText jsonValue bytesValue,
    s.getElement J height BLOCK = .ok (some jsonText) ∧
    J.fromSlice jsonText = some jsonValue ∧
    s.getElement J height P_BYTES = .ok (some bytesText) ∧
    J.fromSlice bytesText = some bytesValue ∧
    HalvesAgree sha256 jsonValue bytesValue height b

/-- Every stored record is made of verified halves, and is indexed wherever
    `good` says that the index batches went through. -/
def Consistent (J : Codec) (sha256 : Bytes → Bytes32) (good : Nat → Prop)
    (s : Storage) : Prop :=
  ∀ height raw, s.rawAt height = some raw →
    ∃ jsonValue bytesValue rewards b,
      raw = encode ([jsonValue, bytesValue, rewards].map J.toVec) ∧
      HalvesAgree sha256 jsonValue bytesValue height b ∧
      (good height → (sha256 b, toLeBytes 8 height) ∈ s.hashToHeight)

section Consistency

variable {J : Codec} {sha256 : Bytes → Bytes32} {good : Nat → Prop}

/-- Consistency survives a state change that keeps the index entries and sets at
    most one record, whose halves agree. -/
theorem Consistent.write {s s' : Storage} {jsonValue bytesValue rewards : Value}
    {target : Nat} {b : Bytes} (h : Consistent J sha256 good s)
    (hagree : HalvesAgree sha256 jsonValue bytesValue target b)
    (hindex : ∀ e ∈ s.hashToHeight, e ∈ s'.hashToHeight)
    (hnew : good target → (sha256 b, toLeBytes 8 target) ∈ s'.hashToHeight)
    (hraw : ∀ k, s'.rawAt k = if k = target then
      some (encode ([jsonValue, bytesValue, rewards].map J.toVec)) else s.rawAt k) :
    Consistent J sha256 good s' := by
  intro height raw hr
  rw [hraw height] at hr
  by_cases hh : height = target
  · rw [if_pos hh] at hr
    exact ⟨jsonValue, bytesValue, rewards, b, (Option.some.inj hr).symm,
      hh ▸ hagree, hh ▸ hnew⟩
  · rw [if_neg hh] at hr
    obtain ⟨j, bv, rw, b', h1, h2, h3⟩ := h height raw hr
    exact ⟨j, bv, rw, b', h1, h2, fun hg => hindex _ (h3 hg)⟩

theorem storeBlock_state (s : Storage) (fault : Fault) (fetched : FetchedBlock)
    (rewards : Bytes) :
    (storeBlock s fault fetched rewards).2
      = (s.put fault fetched.height fetched.id fetched.txIds
        [fetched.json, fetched.bytesJson, rewards]).2 := by
  simp only [storeBlock]
  cases s.put fault fetched.height fetched.id fetched.txIds
    [fetched.json, fetched.bytesJson, rewards] with
  | mk result s' => cases result <;> rfl

/-- The step lemma: writing a verified block, however the write ends. -/
theorem Consistent.storeBlock {s : Storage} {fetched : FetchedBlock} {fault : Fault}
    (h : Consistent J sha256 good s) (hver : Verified J sha256 fetched)
    (hfault : good fetched.height → fault ≠ .commit) (rewards : Value) :
    Consistent J sha256 good
      (NevePlatformIngest.storeBlock s fault fetched (J.toVec rewards)).2 := by
  obtain ⟨bytesValue, jsonValue, expectHeight, hv⟩ := hver
  obtain ⟨b, hagree, -, heq⟩ := verify_ok hv
  have helements : [fetched.json, fetched.bytesJson, J.toVec rewards]
      = [jsonValue, bytesValue, rewards].map J.toVec := by
    rw [heq]
    rfl
  have hid : fetched.id = sha256 b := by rw [heq]
  rw [storeBlock_state, helements]
  have heff := Storage.put_effect s fault fetched.height fetched.id fetched.txIds
    ([jsonValue, bytesValue, rewards].map J.toVec)
  generalize s.put fault fetched.height fetched.id fetched.txIds
    ([jsonValue, bytesValue, rewards].map J.toVec) = out at heff
  obtain ⟨result, s'⟩ := out
  cases heff with
  | refused e _ hf hr =>
      intro height raw hraw
      rw [hr height] at hraw
      obtain ⟨j, bv, rw, b', h1, h2, h3⟩ := h height raw hraw
      exact ⟨j, bv, rw, b', h1, h2, fun hg => hf.hashToHeight.symm ▸ h3 hg⟩
  | unindexed e _ hcommit hf hlen hr =>
      refine h.write hagree ?_ ?_ hr
      · intro entry he
        exact hf.hashToHeight.symm ▸ he
      · intro hg
        exact absurd hcommit (hfault hg)
  | done s1 hf hlen hr =>
      refine h.write hagree ?_ ?_ hr
      · intro entry he
        exact List.mem_cons_of_mem _ (hf.hashToHeight.symm ▸ he)
      · intro _
        rw [← hid]
        exact List.mem_cons_self ..

theorem persistRecord_invariant {Inv : Storage → Prop} {fault : Nat → Fault}
    (hstore : ∀ s fetched v, Inv s → Verified J sha256 fetched →
      Inv (NevePlatformIngest.storeBlock s (fault fetched.height) fetched (J.toVec v)).2)
    {s : Storage} (hinit : Inv s) (record : Value) :
    Inv (persistRecord J sha256 s fault record).2 := by
  simp only [persistRecord]
  cases record.asArray with
  | none => exact hinit
  | some parts =>
      dsimp only
      split
      · rename_i blockJson bytesJson rewards
        cases hv : verifyRecord J sha256 bytesJson blockJson with
        | error r => exact hinit
        | ok fetched => exact hstore s fetched rewards hinit ⟨bytesJson, blockJson, none, hv⟩
      · exact hinit

theorem consistent_fresh (blockdb : Blockdb) (anchorFloor : Option Nat) :
    Consistent J sha256 good (Storage.fresh blockdb .P anchorFloor) :=
  fun _ _ h => nomatch h

/-- The run lemma. -/
theorem consistent_exec {passes : List Pass} {s s' : Storage}
    (h : Consistent J sha256 good s)
    (hgood : ∀ p ∈ passes, ∀ height, good height → p.fault height ≠ .commit)
    (hrun : Run.exec (passStep J sha256) s passes = some s') :
    Consistent J sha256 good s' := by
  refine Run.exec_invariant (fun _ p => ∀ height, good height → p.fault height ≠ .commit)
    ?_ h (Run.meets_of_forall hgood s) hrun
  intro s p s' hinv hcond hstep
  have hstore : ∀ s fetched v, Consistent J sha256 good s → Verified J sha256 fetched →
      Consistent J sha256 good
        (NevePlatformIngest.storeBlock s (p.fault fetched.height) fetched (J.toVec v)).2 :=
    fun s fetched v hi hver => hi.storeBlock hver (hcond fetched.height) v
  cases p with
  | fill listening tip heights fault =>
      rw [← Option.some.inj hstep]
      exact fillRange_invariant hstore listening tip heights
        (fun _ _ _ hf => fetchBlock_verified hf) hinv fun _ heq => nomatch heq
  | record record fault =>
      rw [← Option.some.inj hstep]
      exact persistRecord_invariant hstore hinv record

/-- Halves that agree still agree once printed and read back. -/
theorem halvesAgree_reread {jsonValue bytesValue : Value} {height : Nat} {b : Bytes}
    (h : HalvesAgree sha256 jsonValue bytesValue height b) (g : Decimal → Decimal) :
    HalvesAgree sha256 (jsonValue.mapFloat g) (bytesValue.mapFloat g) height b := by
  obtain ⟨hex, hs, hd⟩ := h.bytes
  refine ⟨⟨hex, (Value.asStr_mapFloat g bytesValue).trans hs, hd⟩, ?_, ?_⟩
  · rw [Value.get_asStr_mapFloat]
    exact h.id
  · rw [Value.get_asU64_mapFloat]
    exact h.height

/-- What a reader gets from a record of verified halves. -/
theorem readsAs_of_raw {s : Storage} {jsonValue bytesValue rewards : Value} {height : Nat}
    {b : Bytes}
    (hraw : s.rawAt height = some (encode ([jsonValue, bytesValue, rewards].map J.toVec)))
    (hagree : HalvesAgree sha256 jsonValue bytesValue height b) :
    ReadsAs J sha256 s height b := by
  have hread : ∀ idx, s.getElement J height idx
      = .ok (([jsonValue, bytesValue, rewards].map J.toVec)[idx]?) := by
    intro idx
    rw [Storage.getElement_eq, hraw]
    dsimp only
    rw [element_encode J (by show 2 ≤ 3; decide)]
  exact ⟨_, _, _, _, hread BLOCK, J.fromSlice_toVec jsonValue, hread P_BYTES,
    J.fromSlice_toVec bytesValue, halvesAgree_reread hagree J.refloat⟩

end Consistency

/-! ## Refusals -/

/-- The mirror refuses a record: not an array, not three elements, or halves
    that do not verify. -/
def RecordRefused (J : Codec) (sha256 : Bytes → Bytes32) (record : Value) : Prop :=
  record.asArray = none ∨
    (∃ parts, record.asArray = some parts ∧ parts.length ≠ 3) ∨
    ∃ blockJson bytesJson rewards reject,
      record.asArray = some [blockJson, bytesJson, rewards] ∧
      verifyRecord J sha256 bytesJson blockJson = .error reject

theorem persistRecord_of_refused {J : Codec} {sha256 : Bytes → Bytes32} {record : Value}
    (h : RecordRefused J sha256 record) (s : Storage) (fault : Nat → Fault) :
    persistRecord J sha256 s fault record = (none, s) := by
  simp only [persistRecord]
  rcases h with hnone | ⟨parts, hsome, hlen⟩ |
    ⟨blockJson, bytesJson, rewards, reject, hsome, hv⟩
  · rw [hnone]
  · rw [hsome]
    dsimp only
    split
    · exact absurd rfl hlen
    · rfl
  · rw [hsome]
    dsimp only
    rw [hv]

/-- A record that is stored is three elements whose halves verify. -/
theorem persistRecord_some {J : Codec} {sha256 : Bytes → Bytes32} {record : Value}
    {s s' : Storage} {fault : Nat → Fault} {height : Nat}
    (h : persistRecord J sha256 s fault record = (some height, s')) :
    ∃ blockJson bytesJson rewards fetched,
      record.asArray = some [blockJson, bytesJson, rewards] ∧
      verifyRecord J sha256 bytesJson blockJson = .ok fetched ∧ height = fetched.height ∧
      storeBlock s (fault fetched.height) fetched (J.toVec rewards) = (some height, s') := by
  simp only [persistRecord] at h
  cases hparts : record.asArray with
  | none =>
      rw [hparts] at h
      cases h
  | some parts =>
      rw [hparts] at h
      dsimp only at h
      split at h
      · rename_i blockJson bytesJson rewards
        cases hv : verifyRecord J sha256 bytesJson blockJson with
        | error reject =>
            rw [hv] at h
            cases h
        | ok fetched =>
            rw [hv] at h
            exact ⟨blockJson, bytesJson, rewards, fetched, rfl, hv, storeBlock_height h, h⟩
      · cases h

theorem fillRange_of_refused {J : Codec} {sha256 : Bytes → Bytes32}
    {height : Nat} {r : HeightReply} {bytesValue jsonValue : Value} {reject : Reject}
    (hb : r.hexnc = some bytesValue) (hj : r.json = some jsonValue)
    (hv : verify J sha256 bytesValue jsonValue (some height) = .error reject)
    (listening : Bool) (fault : Nat → Fault) (tip : Nat) (p : Pipeline)
    (pending : Option FetchedBlock) (rest : List (Nat × HeightReply)) :
    fillRange J sha256 listening fault tip p pending ((height, r) :: rest) = (false, p) := by
  have hfetch : fetchBlock J sha256 height r = none := by
    simp only [fetchBlock]
    rw [hb, hj]
    show (verify J sha256 bytesValue jsonValue (some height)).toOption = none
    rw [hv]
    rfl
  simp only [fillRange]
  rw [hfetch]

/-- **Self-consistency of a P-chain store.** After any mix of range fills and
    streamed records, every stored record reads as halves that agree at its
    height, and is indexed under the digest of its bytes unless the index batch
    of some write at that height failed; and what is refused changes nothing. -/
theorem store_selfConsistent (J : Codec) (sha256 : Bytes → Bytes32) (blockdb : Blockdb)
    (anchorFloor : Option Nat) (passes : List Pass) (s : Storage)
    (hrun : Run.exec (passStep J sha256) (Storage.fresh blockdb .P anchorFloor) passes = some s) :
    (∀ height raw, s.rawAt height = some raw → ∃ b, ReadsAs J sha256 s height b ∧
      ((∀ p ∈ passes, p.fault height ≠ .commit) →
        (sha256 b, toLeBytes 8 height) ∈ s.hashToHeight)) ∧
    (∀ record fault, RecordRefused J sha256 record →
      persistRecord J sha256 s fault record = (none, s)) ∧
    (∀ height (r : HeightReply) bytesValue jsonValue reject, r.hexnc = some bytesValue →
      r.json = some jsonValue →
      verify J sha256 bytesValue jsonValue (some height) = .error reject →
      ∀ listening fault tip behindTip live pending rest,
        fillRange J sha256 listening fault tip ⟨s, behindTip, live⟩ pending
          ((height, r) :: rest) = (false, ⟨s, behindTip, live⟩)) := by
  have hcons : Consistent J sha256 (fun height => ∀ p ∈ passes, p.fault height ≠ .commit) s :=
    consistent_exec (consistent_fresh blockdb anchorFloor) (fun p hp height hg => hg p hp) hrun
  refine ⟨?_, ?_, ?_⟩
  · intro height raw hraw
    obtain ⟨jsonValue, bytesValue, rewards, b, rfl, hagree, hindexed⟩ := hcons height raw hraw
    exact ⟨b, readsAs_of_raw hraw hagree, hindexed⟩
  · intro record fault hrefused
    exact persistRecord_of_refused hrefused s fault
  · intro height r bytesValue jsonValue reject hb hj hv listening fault tip behindTip live
      pending rest
    exact fillRange_of_refused hb hj hv listening fault tip _ pending rest

/-! ## Accepted pairs -/

/-- The JSON half of a block with the given height and transactions, under the
    ID of the bytes `b`. -/
def jsonHalf (sha256 : Bytes → Bytes32) (b : Bytes) (height : UInt64) (txs : List Value) :
    Value :=
  .object [("height", .number (.posInt height)), ("id", .string (blockIdOf sha256 b)),
    ("txs", .array txs)]

/-- The bytes half. -/
def bytesHalf (b : Bytes) : Value := .string (hexncRender b)

/-- Any height and any transactions go with any bytes. -/
theorem halvesAgree_jsonHalf (sha256 : Bytes → Bytes32) (b : Bytes) (height : UInt64)
    (txs : List Value) :
    HalvesAgree sha256 (jsonHalf sha256 b height txs) (bytesHalf b) height.toNat b :=
  ⟨⟨hexncRender b, rfl, hexncDecode_hexncRender b⟩, rfl, rfl⟩

theorem persistRecord_of_agree (J : Codec) {sha256 : Bytes → Bytes32}
    {jsonValue bytesValue : Value} {height : Nat} {b : Bytes}
    (h : HalvesAgree sha256 jsonValue bytesValue height b) (s : Storage)
    (fault : Nat → Fault) (rewards : Value) :
    (persistRecord J sha256 s fault (.array [jsonValue, bytesValue, rewards])).2
      = (s.put (fault height) height (sha256 b) (extractTxIds sha256 jsonValue)
        ([jsonValue, bytesValue, rewards].map J.toVec)).2 := by
  have hv := verify_of_agree J h none fun _ heq => nomatch heq
  simp only [persistRecord]
  dsimp only [Value.asArray]
  rw [show verifyRecord J sha256 bytesValue jsonValue = _ from hv]
  dsimp only
  rw [storeBlock_state]
  rfl

/-- A streamed record of the block with no bytes, at height 3. -/
def sampleRecord : Value :=
  .array [jsonHalf sampleSha256 [] 3 [], bytesHalf [], .array []]

/-- An undisturbed record: stored, consistent and indexed. -/
theorem store_selfConsistent_sample :
    ∃ s, Run.exec (passStep JsonText.codec sampleSha256) (Storage.fresh memory .P none)
        [.record sampleRecord (fun _ => .none)] = some s ∧
      (s.rawAt 3).isSome ∧
      ∃ b, ReadsAs JsonText.codec sampleSha256 s 3 b ∧
        (sampleSha256 b, toLeBytes 8 3) ∈ s.hashToHeight := by
  have hagree := halvesAgree_jsonHalf sampleSha256 [] 3 []
  obtain ⟨st', hw, hread⟩ := Storage.writeBlock_fresh memory .P 3
    (encode ([jsonHalf sampleSha256 [] 3 [], bytesHalf [], .array []].map
      JsonText.codec.toVec))
  have hstate := persistRecord_of_agree JsonText.codec hagree (Storage.fresh memory .P none)
    (fun _ => .none) (.array [])
  rw [show UInt64.toNat 3 = 3 from rfl, Storage.put_none _ _ rfl hw] at hstate
  have hexec : Run.exec (passStep JsonText.codec sampleSha256) (Storage.fresh memory .P none)
      [.record sampleRecord (fun _ => .none)] = some _ := congrArg some hstate
  refine ⟨_, hexec, Option.isSome_iff_exists.mpr ⟨_, hread⟩, ?_⟩
  obtain ⟨b, hreads, hindexed⟩ :=
    (store_selfConsistent JsonText.codec sampleSha256 memory none _ _ hexec).1 3 _ hread
  refine ⟨b, hreads, hindexed ?_⟩
  intro p hp
  rw [List.mem_singleton.mp hp]
  exact fun h => nomatch h

/-- A record whose index batch fails is stored and never indexed. -/
theorem store_selfConsistent_fails_unindexed :
    ¬ ∀ (J : Codec) (sha256 : Bytes → Bytes32) (blockdb : Blockdb) (anchorFloor : Option Nat)
      (passes : List Pass) (s : Storage),
      Run.exec (passStep J sha256) (Storage.fresh blockdb .P anchorFloor) passes = some s →
      ∀ height raw, s.rawAt height = some raw → ∃ b, ReadsAs J sha256 s height b ∧
        (sha256 b, toLeBytes 8 height) ∈ s.hashToHeight := by
  intro hall
  have hagree := halvesAgree_jsonHalf sampleSha256 [] 3 []
  obtain ⟨st', hw, hread⟩ := Storage.writeBlock_fresh memory .P 3
    (encode ([jsonHalf sampleSha256 [] 3 [], bytesHalf [], .array []].map
      JsonText.codec.toVec))
  have hstate := persistRecord_of_agree JsonText.codec hagree (Storage.fresh memory .P none)
    (fun _ => .commit) (.array [])
  rw [show UInt64.toNat 3 = 3 from rfl, Storage.put_commit _ _ rfl hw] at hstate
  have hexec : Run.exec (passStep JsonText.codec sampleSha256) (Storage.fresh memory .P none)
      [.record sampleRecord (fun _ => .commit)] = some _ := congrArg some hstate
  obtain ⟨b, -, hmem⟩ := hall JsonText.codec sampleSha256 memory none _ _ hexec 3 _ hread
  cases hmem

/-! ## What the bytes do not bind -/

/-- A pair of halves is accepted with canonical bytes `b`; `expectHeight` is
    `none` on the mirror path. -/
def Accepts (J : Codec) (sha256 : Bytes → Bytes32) (expectHeight : Option Nat)
    (bytesValue jsonValue : Value) (b : Bytes) (fetched : FetchedBlock) : Prop :=
  verify J sha256 bytesValue jsonValue expectHeight = .ok fetched ∧
    ∃ hex, bytesValue.asStr = some hex ∧ hexncDecode hex = .ok b

/-- Canonical bytes `b` determine the height and the indexed transactions of
    every accepted pair that carries them. -/
def BytesDetermine (J : Codec) (sha256 : Bytes → Bytes32) (b : Bytes) : Prop :=
  ∀ expect₁ expect₂ bytes₁ bytes₂ json₁ json₂ fetched₁ fetched₂,
    Accepts J sha256 expect₁ bytes₁ json₁ b fetched₁ →
    Accepts J sha256 expect₂ bytes₂ json₂ b fetched₂ →
    fetched₁.height = fetched₂.height ∧ fetched₁.txIds = fetched₂.txIds

/-- A transaction object that names the ID `id`. -/
def txHalf (sha256 : Bytes → Bytes32) (id : Bytes32) : Value :=
  .object [("id", .string (cb58Encode sha256 id))]

theorem txId_txHalf (sha256 : Bytes → Bytes32) (id : Bytes32) :
    txId sha256 (txHalf sha256 id) = some id := by
  show (cb58Decode sha256 (cb58Encode sha256 id)).toOption = _
  rw [cb58Decode_cb58Encode]
  rfl

theorem extractTxIds_jsonHalf (sha256 : Bytes → Bytes32) (b : Bytes) (height : UInt64)
    (ids : List Bytes32) :
    extractTxIds sha256 (jsonHalf sha256 b height (ids.map (txHalf sha256))) = ids := by
  show (ids.map (txHalf sha256) ++ []).filterMap (txId sha256) = ids
  rw [List.append_nil]
  induction ids with
  | nil => rfl
  | cons id rest ih =>
      rw [List.map_cons, List.filterMap_cons_some (txId_txHalf sha256 id), ih]

/-- Genuine bytes can be placed at any height and made to index anything, on
    either path. -/
theorem accepts_any (J : Codec) (sha256 : Bytes → Bytes32) (b : Bytes) (height : UInt64)
    (ids : List Bytes32) :
    ∃ jsonValue fetched, fetched.height = height.toNat ∧ fetched.txIds = ids ∧
      ∀ expectHeight, (∀ want, expectHeight = some want → want = height.toNat) →
        Accepts J sha256 expectHeight (bytesHalf b) jsonValue b fetched := by
  have hagree := halvesAgree_jsonHalf sha256 b height (ids.map (txHalf sha256))
  refine ⟨_, _, ?_, ?_, fun expectHeight hexpect =>
    ⟨verify_of_agree J hagree expectHeight hexpect, hagree.bytes⟩⟩
  · rfl
  · exact extractTxIds_jsonHalf sha256 b height ids

/-- **The bytes bind neither height nor transactions**, whatever they are: not
    on the mirror path, and not the transactions on the direct path either. -/
theorem bytes_never_determine (J : Codec) (sha256 : Bytes → Bytes32) (b : Bytes) :
    ¬ BytesDetermine J sha256 b ∧
    (∃ json₁ json₂ fetched₁ fetched₂,
      Accepts J sha256 none (bytesHalf b) json₁ b fetched₁ ∧
      Accepts J sha256 none (bytesHalf b) json₂ b fetched₂ ∧
      fetched₁.height ≠ fetched₂.height) ∧
    (∀ height : UInt64, ∃ json₁ json₂ fetched₁ fetched₂,
      Accepts J sha256 (some height.toNat) (bytesHalf b) json₁ b fetched₁ ∧
      Accepts J sha256 (some height.toNat) (bytesHalf b) json₂ b fetched₂ ∧
      fetched₁.txIds ≠ fetched₂.txIds) := by
  have hheights : ∃ json₁ json₂ fetched₁ fetched₂,
      Accepts J sha256 none (bytesHalf b) json₁ b fetched₁ ∧
      Accepts J sha256 none (bytesHalf b) json₂ b fetched₂ ∧
      fetched₁.height ≠ fetched₂.height := by
    obtain ⟨json₁, fetched₁, hh₁, -, hacc₁⟩ := accepts_any J sha256 b 0 []
    obtain ⟨json₂, fetched₂, hh₂, -, hacc₂⟩ := accepts_any J sha256 b 1 []
    refine ⟨json₁, json₂, fetched₁, fetched₂, hacc₁ none (fun _ h => nomatch h),
      hacc₂ none (fun _ h => nomatch h), ?_⟩
    rw [hh₁, hh₂]
    decide
  refine ⟨?_, hheights, ?_⟩
  · intro hdet
    obtain ⟨json₁, json₂, fetched₁, fetched₂, hacc₁, hacc₂, hne⟩ := hheights
    exact hne (hdet none none _ _ json₁ json₂ fetched₁ fetched₂ hacc₁ hacc₂).1
  · intro height
    obtain ⟨json₁, fetched₁, -, hids₁, hacc₁⟩ := accepts_any J sha256 b height []
    obtain ⟨json₂, fetched₂, -, hids₂, hacc₂⟩ := accepts_any J sha256 b height
      [sha256 b]
    have hexpect : ∀ want, some height.toNat = some want → want = height.toNat :=
      fun want h => (Option.some.inj h).symm
    refine ⟨json₁, json₂, fetched₁, fetched₂, hacc₁ _ hexpect, hacc₂ _ hexpect, ?_⟩
    rw [hids₁, hids₂]
    exact fun h => nomatch h

/-- The block with no bytes, streamed at heights 0 and 1. -/
theorem bytes_fail_to_determine_sample :
    ¬ BytesDetermine JsonText.codec sampleSha256 [] := by
  intro hdet
  obtain ⟨json₁, fetched₁, hh₁, -, hacc₁⟩ :=
    accepts_any JsonText.codec sampleSha256 [] 0 []
  obtain ⟨json₂, fetched₂, hh₂, -, hacc₂⟩ :=
    accepts_any JsonText.codec sampleSha256 [] 1 []
  have hsame := (hdet none none _ _ json₁ json₂ fetched₁ fetched₂
    (hacc₁ none fun _ h => nomatch h) (hacc₂ none fun _ h => nomatch h)).1
  rw [hh₁, hh₂] at hsame
  exact absurd hsame (by decide)

end NeveRecordConsistency
