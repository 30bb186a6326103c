import Neve.HeldPutProofs
import Neve.TxIndexProofs
import Neve.PlatformRpcProofs

/-! # P-chain reads — transactions, their status and the height

    A transaction is sliced out of the stored JSON of its block, and only in that
    encoding; its status only looks at the index.  The height that is reported is the
    contiguous frontier: every height above zero up to it is served from the store's first
    on, and it is itself exactly if that first one is stored, or is zero and height one is
    (`height_served_iff`). -/

namespace NevePlatformRpc

open JsonValue ByteText NeveRecord NeveStorage NevePlatformCodec NevePlatformIngest
open NeveIngestWrite
open NeveRecordConsistency (halvesAgree_reread jsonHalf bytesHalf halvesAgree_jsonHalf)

section Reads

variable (J : Codec) (sha256 : Bytes → Bytes32)

/-- The contiguous tip, or `none` before anything is stored. -/
def tip (s : Storage) : Option Nat := if s.isEmpty then none else some s.maxContiguousHeight

/-- The answer of `platform.getHeight`; numbers go out as texts. -/
def heightAnswer (h : Nat) : Value := .object [("height", .string (toString h))]

/-- `platform.getHeight`. -/
def getHeight (s : Storage) : Except String (Option Value) := .ok ((tip s).map heightAnswer)

/-- `platform.getTx`; the byte encodings are deferred upstream. -/
def getTx (s : Storage) (txId : String) (encoding : Option String) :
    Except String (Option Value) :=
  match Encoding.parse encoding with
  | .error e => .error e
  | .ok encoding =>
      if encoding ≠ .Json then .ok none
      else match cb58Decode sha256 txId with
        | .error e => .error s!"bad txID {txId}: {e}"
        | .ok raw => NeveTxIndex.getTx J s raw

/-- `platform.getTxStatus`. -/
def getTxStatus (s : Storage) (txId : String) : Except String (Option Value) :=
  match cb58Decode sha256 txId with
  | .error e => .error s!"bad txID {txId}: {e}"
  | .ok raw =>
      match s.getTxLocation raw with
      | .error e => .error s!"storage error: {e}"
      | .ok none => .ok none
      | .ok (some _) => .ok (some (.object [("status", .string "Committed")]))

end Reads

section Served

variable {J : Codec} {sha256 : Bytes → Bytes32} {s : Storage}

/-- The answer that a transaction is part of. -/
def txAnswer (tx : Value) : Value := .object [("encoding", .string "json"), ("tx", tx)]

/-- What is served as a transaction is committed. -/
theorem status_of_getTx {txId : String} {encoding : Option String} {tx : Value}
    (h : getTx J sha256 s txId encoding = .ok (some tx)) :
    getTxStatus sha256 s txId = .ok (some (.object [("status", .string "Committed")])) := by
  simp only [getTx] at h
  cases hparse : Encoding.parse encoding with
  | error e =>
      rw [hparse] at h
      cases h
  | ok parsed =>
      rw [hparse] at h
      dsimp only at h
      by_cases hjson : parsed ≠ .Json
      · rw [if_pos hjson] at h
        cases h
      rw [if_neg hjson] at h
      simp only [getTxStatus]
      cases hid : cb58Decode sha256 txId with
      | error e =>
          rw [hid] at h
          cases h
      | ok raw =>
          rw [hid] at h
          simp only [NeveTxIndex.getTx] at h
          cases hloc : s.getTxLocation raw with
          | error e =>
              rw [hloc] at h
              cases h
          | ok loc =>
              rw [hloc] at h
              cases loc with
              | none => cases h
              | some loc =>
                  dsimp only
                  rw [hloc]

/-- The transactions of a block that was written, by their IDs: each is the entry of the
    block's JSON that carries the ID, floats reread, and is committed. -/
structure TxsReadBack (J : Codec) (sha256 : Bytes → Bytes32) (s : Storage) (c : PutCall) :
    Prop where
  json : NeveTxIndex.Packed (txId sha256) (blockTxs c.block) → c.ids.Nodup →
    c.ids.length ≤ 2 ^ 32 → ∀ (i : Nat) (key : Bytes32), c.ids[i]? = some key →
      ∃ tx, (blockTxs c.block)[i]? = some tx ∧ txId sha256 tx = some key ∧
        getTx J sha256 s (cb58Encode sha256 key) (some "json")
          = .ok (some (txAnswer (tx.mapFloat J.refloat)))
  bytes : ∀ txId encoding parsed, Encoding.parse encoding = .ok parsed → parsed ≠ .Json →
    getTx J sha256 s txId encoding = .ok none
  status : ∀ key ∈ c.ids, getTxStatus sha256 s (cb58Encode sha256 key)
    = .ok (some (.object [("status", .string "Committed")]))
  agrees : ∀ txId encoding tx, getTx J sha256 s txId encoding = .ok (some tx) →
    getTxStatus sha256 s txId = .ok (some (.object [("status", .string "Committed")]))
  block : getBlockByHeight J sha256 s c.height (some "json")
      = .ok (some (answer (c.block.mapFloat J.refloat) .Json)) ∧
    getBlock J sha256 s (cb58Encode sha256 c.hash) (some "json")
      = .ok (some (answer (c.block.mapFloat J.refloat) .Json))

/-- The JSON of a stored record is served as it is. -/
theorem renderBlock_json {c : PutCall} (hlen : 1 ≤ c.derived.length)
    (h : s.rawAt c.height = some (encode (c.elements J))) :
    getBlockByHeight J sha256 s c.height (some "json")
      = .ok (some (answer (c.block.mapFloat J.refloat) .Json)) := by
  have hbytes : s.getElement J c.height BLOCK = .ok (some (J.toVec c.block)) :=
    s.getByHeight_of_rawAt J hlen h
  show renderBlock J sha256 s c.height .Json = _
  simp only [renderBlock]
  rw [if_true, hbytes]
  simp only [J.fromSlice_toVec, if_true]

theorem txsReadBack_of_held {c : PutCall} (hl : c.Lawful sha256) (hchain : c.chain = .P)
    (h : Held J c s) : TxsReadBack J sha256 s c := by
  refine ⟨?_, ?_, ?_, fun _ _ _ => status_of_getTx, renderBlock_json hl.one_le h.record, ?_⟩
  · intro hpacked hnodup hlen i key hi
    have hids : c.ids = (blockTxs c.block).filterMap (txId sha256) := by
      rw [hl.ids, hchain]
      rfl
    rw [hids] at hi
    obtain ⟨tx, htx, hkey⟩ := hpacked.getElem_filterMap hi
    rw [← hids] at hi
    refine ⟨tx, htx, hkey, ?_⟩
    have hloc := h.location hnodup hlen hi
    have hstored : NeveTxIndex.storedBlock J s c.height
        = .ok (some (c.block.mapFloat J.refloat)) := by
      simp only [NeveTxIndex.storedBlock]
      rw [s.getByHeight_of_rawAt J hl.one_le h.record]
      dsimp only [bind, Except.bind]
      rw [J.fromSlice_toVec]
    have htake : takeNthTx (c.block.mapFloat J.refloat) i = some (tx.mapFloat J.refloat) := by
      rw [takeNthTx_eq, blockTxs_mapFloat, List.getElem?_map, htx]
      rfl
    show getTx J sha256 s (cb58Encode sha256 key) (some "json") = _
    simp only [getTx, Encoding.parse, cb58Decode_cb58Encode, NeveTxIndex.getTx]
    rw [if_neg (by decide), hloc]
    dsimp only [bind, Except.bind]
    rw [hstored]
    dsimp only
    rw [htake]
    rfl
  · intro txId encoding parsed hparse hne
    simp only [getTx, hparse]
    rw [if_pos hne]
  · intro key hkey
    obtain ⟨idx, -, hloc⟩ := h.tx key hkey
    simp only [getTxStatus, cb58Decode_cb58Encode, hloc]
  · rw [getBlock_eq J sha256 h.hash]
    exact renderBlock_json hl.one_le h.record

/-- **Reading back.**  The transactions of a block that the P-chain's ingest stored are
    given by their IDs, whatever was written elsewhere since, and so is the block. -/
theorem platform_reads_back {w : IngestWrite} {c : PutCall}
    (hcall : w.call J sha256 = some c) (hchain : w.chain = .P) {s0 s1 : Storage}
    {fault : Fault} (hwrite : w.run J sha256 s0 fault = (.ok (), s1))
    {ops : List (IngestWrite × Fault)}
    (hspares : ∀ a ∈ ops, ∀ d, a.1.call J sha256 = some d → c.Spares d)
    (hrun : Run.exec (writeStep J sha256) s1 ops = some s) : TxsReadBack J sha256 s c := by
  have hheld : Held J c s := (held_of_write hcall hwrite).run hspares hrun
  exact txsReadBack_of_held (IngestWrite.call_spec hcall)
    ((IngestWrite.call_block hcall).1.trans hchain) hheld

/-! ## The height -/

/-- A height is served as a block that calls itself so. -/
def ServedAt (J : Codec) (sha256 : Bytes → Bytes32) (s : Storage) (height : Nat) : Prop :=
  ∃ v, getBlockByHeight J sha256 s height (some "json") = .ok (some (answer v .Json)) ∧
    (v.get "height").bind Value.asU64 = some height

/-- The puts of a P-chain's ingest hold blocks that call themselves by their height. -/
theorem height_of_call {w : IngestWrite} {c : PutCall} (hcall : w.call J sha256 = some c)
    (hchain : c.chain = .P) :
    ((c.block.mapFloat J.refloat).get "height").bind Value.asU64 = some c.height := by
  cases w with
  | persistBlock height expectedHash block =>
      obtain ⟨p, -, rfl⟩ := Option.map_eq_some_iff.mp hcall
      cases hchain
  | persistBackfilled height block logs =>
      obtain ⟨hash, -, rfl⟩ := Option.map_eq_some_iff.mp hcall
      cases hchain
  | joinPut height expectedHash block logs =>
      obtain ⟨p, -, rfl⟩ := Option.map_eq_some_iff.mp hcall
      cases hchain
  | storeBlock bytesValue jsonValue expectHeight rewards =>
      obtain ⟨fetched, hver, rfl⟩ := Option.map_eq_some_iff.mp hcall
      obtain ⟨b, hagree, -, -⟩ := verify_ok (Run.toOption_eq_some hver)
      exact (halvesAgree_reread hagree J.refloat).height

/-- What is served is stored. -/
theorem has_of_servedAt {height : Nat} (h : ServedAt J sha256 s height) : s.Has height := by
  obtain ⟨v, hv, -⟩ := h
  by_contra hnot
  have hnone : s.rawAt height = none := by
    cases hraw : s.rawAt height with
    | none => rfl
    | some raw => exact absurd (Storage.has_iff_rawAt.mpr ⟨raw, hraw⟩) hnot
  have hmiss : getBlockByHeight J sha256 s height (some "json") = .ok none := by
    show renderBlock J sha256 s height .Json = _
    simp only [renderBlock]
    rw [Storage.getElement_eq, hnone]
  rw [hmiss] at hv
  cases hv

/-- A store stays one of its chain. -/
theorem chain_of_run {blockdb : Blockdb} {chain : Chain} {anchorFloor : Option Nat}
    {ops : List (IngestWrite × Fault)}
    (hrun : Run.exec (writeStep J sha256) (Storage.fresh blockdb chain anchorFloor) ops = some s) :
    s.chain = chain := by
  refine @Run.exec_invariant_all _ _ (writeStep J sha256) (fun s => s.chain = chain) ?_
    ops _ s rfl hrun
  intro s a s' hs hstep
  rw [← Option.some.inj hstep]
  cases hcall : a.1.call J sha256 with
  | none =>
      rw [IngestWrite.run_of_call_none s a.2 hcall]
      exact hs
  | some c =>
      rw [(IngestWrite.run_of_call s a.2 hcall).1]
      exact (NeveFrontier.put_frame s a.2 c.height c.hash c.ids (c.elements J)).1.trans hs

/-- What is stored is served. -/
theorem servedAt_of_has {ops : List (IngestWrite × Fault)} {blockdb : Blockdb}
    {anchorFloor : Option Nat}
    (hrun : Run.exec (writeStep J sha256) (Storage.fresh blockdb .P anchorFloor) ops = some s)
    {height : Nat} (h : s.Has height) : ServedAt J sha256 s height := by
  have ht : Traced J (fun c => ∃ a ∈ ops, a.1.call J sha256 = some c) s :=
    traced_exec (traced_fresh blockdb .P anchorFloor) (fun a ha c hc => ⟨a, ha, hc⟩) hrun
  obtain ⟨raw, hraw⟩ := Storage.has_iff_rawAt.mp h
  obtain ⟨c, ⟨a, -, hcall⟩, hchain, hheight, hrec⟩ := ht.record height raw hraw
  have hl := IngestWrite.call_spec hcall
  rw [hrec, ← hheight] at hraw
  have hP : c.chain = .P := hchain.trans (chain_of_run hrun)
  rw [← hheight]
  exact ⟨_, renderBlock_json hl.one_le hraw, height_of_call hcall hP⟩

/-- **The height is served.**  In every store the ingest can leave, the height that is
    reported is served, by a block that calls itself so, exactly if the store's first
    height is stored, or that is height zero and height one is.  Every height up to the
    reported one is served from the store's first on, height zero if it is that one and
    stored, and the next is not. -/
theorem height_served_iff {ops : List (IngestWrite × Fault)} {blockdb : Blockdb}
    {anchorFloor : Option Nat}
    (hrun : Run.exec (writeStep J sha256) (Storage.fresh blockdb .P anchorFloor) ops = some s)
    {h : Nat} (htip : tip s = some h) :
    getHeight s = .ok (some (heightAnswer h)) ∧
      (ServedAt J sha256 s h ↔ s.Has s.minHeight ∨ (s.minHeight = 0 ∧ s.Has 1)) ∧
      (∀ k, s.minHeight ≤ k → 0 < k ∨ s.Has s.minHeight → k ≤ h →
        ServedAt J sha256 s k) ∧
      ¬ ServedAt J sha256 s (h + 1) := by
  have hserved : ∀ k, ServedAt J sha256 s k ↔ s.Has k := by
    intro k
    exact ⟨has_of_servedAt, servedAt_of_has hrun⟩
  refine ⟨by rw [getHeight, htip]; rfl, ?_⟩
  simp only [hserved]
  cases hstore : s.store with
  | none =>
      simp only [tip, Storage.isEmpty, hstore] at htip
      cases htip
  | some st =>
      have hhas : ∀ k, s.Has k ↔ st.Has k := by
        intro k
        constructor
        · rintro ⟨st', hst', hk⟩
          rw [hstore] at hst'
          rw [Option.some.inj hst']
          exact hk
        · intro hk
          exact ⟨st, hstore, hk⟩
      obtain ⟨hle, hgap, hfilled⟩ := st.isFirstGap_frontier
      have hh : st.maxContiguousHeight = h := by
        simp only [tip, Storage.isEmpty, Storage.maxContiguousHeight, hstore] at htip
        exact Option.some.inj htip
      rw [hh] at hle hgap hfilled
      rw [Storage.minHeight_of_store hstore]
      simp only [hhas]
      refine ⟨⟨?_, ?_⟩, ?_, hgap⟩
      · intro hat
        have hmin := Store.min_le_of_has hat
        rcases Nat.eq_zero_or_pos st.minHeight with hzero | hpos
        · rcases Nat.eq_zero_or_pos h with rfl | hh
          · exact Or.inl (hzero ▸ hat)
          · exact Or.inr ⟨hzero, hfilled 1 (by omega) (by omega)⟩
        · exact Or.inl (hfilled _ (by omega) (by omega))
      · rintro (hfirst | ⟨hzero, hone⟩)
        · -- the frontier is at the first height or above
          have hge : st.minHeight ≤ h := by
            by_contra hlt
            rw [show st.minHeight = h + 1 by omega] at hfirst
            exact hgap hfirst
          rcases Nat.eq_or_lt_of_le hge with heq | hlt
          · exact heq ▸ hfirst
          · exact hfilled h (by omega) (Nat.lt_succ_self h)
        · have hne : h ≠ 0 := by
            rintro rfl
            exact hgap hone
          exact hfilled h (by omega) (Nat.lt_succ_self h)
      · intro k hk hfirst hkh
        rcases Nat.eq_zero_or_pos k with rfl | hpos
        · have hzero : st.minHeight = 0 := Nat.le_zero.mp hk
          rw [hzero] at hfirst
          exact hfirst.resolve_left (Nat.lt_irrefl 0)
        · exact hfilled k (by omega) (by omega)

end Served

/-! ## A block with one transaction -/

/-- A transaction, by its ID. -/
def sampleTx : Value :=
  .object [("id", .string (cb58Encode sampleSha256 NeveTxIndex.sampleHash))]

/-- The put of the block with it at height 3. -/
def sampleCall : PutCall :=
  ⟨.P, 3, sampleSha256 [], [NeveTxIndex.sampleHash], jsonHalf sampleSha256 [] 3 [sampleTx],
    [bytesHalf [], .array []]⟩

def sampleWrite : IngestWrite :=
  .storeBlock (bytesHalf []) sampleCall.block none (.array [])

theorem call_sampleWrite : sampleWrite.call JsonText.codec sampleSha256 = some sampleCall := by
  have hagree := halvesAgree_jsonHalf sampleSha256 [] 3 [sampleTx]
  have hid : txId sampleSha256 sampleTx = some NeveTxIndex.sampleHash := by
    show (cb58Decode sampleSha256 (cb58Encode sampleSha256 NeveTxIndex.sampleHash)).toOption = _
    rw [cb58Decode_cb58Encode]
    rfl
  have hids : extractTxIds sampleSha256 sampleCall.block = [NeveTxIndex.sampleHash] :=
    List.filterMap_cons_some hid
  simp only [sampleWrite, IngestWrite.call]
  rw [show sampleCall.block = jsonHalf sampleSha256 [] 3 [sampleTx] from rfl] at hids ⊢
  rw [verify_of_agree JsonText.codec hagree none (fun _ h => by cases h), hids]
  rfl

/-- The store after its first put. -/
theorem run_sampleWrite : ∃ s1,
    sampleWrite.run JsonText.codec sampleSha256 (Storage.fresh memory .P none) .none
        = (.ok (), s1) ∧
      s1.rawAt 3 = some (encode (sampleCall.elements JsonText.codec)) := by
  obtain ⟨s1, hput, -, hraw, -⟩ := sampleCall.run_fresh JsonText.codec memory rfl
  obtain ⟨hstate, hok⟩ :=
    IngestWrite.run_of_call (Storage.fresh memory .P none) .none call_sampleWrite
  rw [show sampleCall.run JsonText.codec (Storage.fresh memory .P none) .none = (.ok (), s1)
    from hput] at hstate hok
  exact ⟨s1, Prod.ext (hok.mpr rfl) hstate, hraw⟩

/-- It is read back after halves that disagree came in. -/
theorem platform_reads_back_sample :
    ∃ s1 s, sampleWrite.run JsonText.codec sampleSha256 (Storage.fresh memory .P none) .none
        = (.ok (), s1) ∧
      Run.exec (writeStep JsonText.codec sampleSha256) s1
        [(.storeBlock .null .null none (.array []), .none)] = some s ∧
      TxsReadBack JsonText.codec sampleSha256 s sampleCall := by
  obtain ⟨s1, hwrite, -⟩ := run_sampleWrite
  obtain ⟨s, hrun⟩ : ∃ s, Run.exec (writeStep JsonText.codec sampleSha256) s1
      [(.storeBlock .null .null none (.array []), .none)] = some s := ⟨_, rfl⟩
  refine ⟨s1, s, hwrite, hrun, platform_reads_back call_sampleWrite rfl hwrite ?_ hrun⟩
  intro a ha d hd
  rw [List.mem_singleton.mp ha] at hd
  cases hd

/-- A store of one block reports its height and serves it. -/
theorem height_served_sample : ∃ s h,
    Run.exec (writeStep JsonText.codec sampleSha256) (Storage.fresh memory .P none)
      [(sampleWrite, .none)] = some s ∧
    tip s = some h ∧ (ServedAt JsonText.codec sampleSha256 s h ↔
      s.Has s.minHeight ∨ (s.minHeight = 0 ∧ s.Has 1)) := by
  obtain ⟨s, hwrite, hraw⟩ := run_sampleWrite
  have hrun : Run.exec (writeStep JsonText.codec sampleSha256) (Storage.fresh memory .P none)
      [(sampleWrite, .none)] = some s := by
    show some (sampleWrite.run JsonText.codec sampleSha256
      (Storage.fresh memory .P none) .none).2 = _
    rw [hwrite]
  obtain ⟨h, htip⟩ : ∃ h, tip s = some h := by
    obtain ⟨st, hst, -⟩ := Storage.has_iff_rawAt.mpr ⟨_, hraw⟩
    refine ⟨s.maxContiguousHeight, ?_⟩
    simp only [tip, Storage.isEmpty, hst]
    rfl
  exact ⟨s, h, hrun, htip, (height_served_iff hrun htip).2.1⟩

end NevePlatformRpc
