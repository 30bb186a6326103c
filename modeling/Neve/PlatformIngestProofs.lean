import Neve.StorageProofs
import Neve.PlatformCodecProofs
import Neve.RunProofs

/-! # P-chain ingest — verification and the range fill

    A P-chain height is two independent readings of one block, the canonical
    bytes and the JSON.  `verify` cross-checks them before anything is written.
    `fillRange` walks an ordered run of heights, holding each reward proposal
    until the next block says how it was resolved.  The mirror path puts every
    streamed record through the same check (`persistRecord`). -/

namespace NevePlatformIngest

open JsonValue ByteText NeveRecord NeveStorage NevePlatformCodec

/-! ## Reading a block's JSON -/

/-- The transactions of a block: the `txs` array, then the singular `tx`. -/
def blockTxs (block : Value) : List Value :=
  ((block.get "txs").bind Value.asArray).getD [] ++ (block.get "tx").toList

/-- Take the `idx`-th transaction out of a block, in the same index space. -/
def takeNthTx (block : Value) (idx : Nat) : Option Value :=
  let len := (((block.get "txs").bind Value.asArray).map List.length).getD 0
  if idx < len then (block.get "txs").bind Value.asArray >>= (·[idx]?)
  else if idx ≠ len then none
  else block.get "tx"

theorem takeNthTx_eq (block : Value) (idx : Nat) :
    takeNthTx block idx = (blockTxs block)[idx]? := by
  simp only [takeNthTx, blockTxs]
  cases (block.get "txs").bind Value.asArray with
  | none =>
      show (if idx < 0 then none else if idx ≠ 0 then none else block.get "tx")
        = ([] ++ (block.get "tx").toList)[idx]?
      cases idx with
      | zero => cases block.get "tx" <;> rfl
      | succ idx => cases block.get "tx" <;> rfl
  | some txs =>
      show (if idx < txs.length then txs[idx]?
        else if idx ≠ txs.length then none else block.get "tx")
          = (txs ++ (block.get "tx").toList)[idx]?
      by_cases hlt : idx < txs.length
      · rw [if_pos hlt, List.getElem?_append_left hlt]
      · rw [if_neg hlt, List.getElem?_append_right (Nat.le_of_not_lt hlt)]
        by_cases heq : idx = txs.length
        · rw [if_neg (not_not.mpr heq), heq, Nat.sub_self]
          cases block.get "tx" <;> rfl
        · rw [if_pos heq]
          obtain ⟨k, hk⟩ : ∃ k, idx - txs.length = k + 1 :=
            ⟨idx - txs.length - 1, by omega⟩
          rw [hk]
          cases block.get "tx" <;> rfl

/-- `Vec::swap_remove`: the last item takes the place of the one removed. -/
def swapRemove {α : Type} (arr : List α) (idx : Nat) : Option α × List α :=
  (arr[idx]?, (arr.getLast?.elim arr (arr.set idx)).dropLast)

/-- Replace what stands under a key of an object. -/
def setField (k : String) (v : Value) : Value → Value
  | .object fields => .object (fields.map fun f => if f.1 = k then (k, v) else f)
  | block => block

/-- `take_nth_tx` in place: the transaction, and the block it leaves behind. -/
def takeNthTxInPlace (block : Value) (idx : Nat) : Option Value × Value :=
  let len := (((block.get "txs").bind Value.asArray).map List.length).getD 0
  if idx < len then
    match (block.get "txs").bind Value.asArray with
    | none => (none, block)
    | some arr =>
        let taken := swapRemove arr idx
        (taken.1, setField "txs" (.array taken.2) block)
  else if idx ≠ len then (none, block)
  else
    match block.get "tx" with
    | none => (none, block)
    | some tx => (some tx, setField "tx" .null block)

/-- Whatever it does to the block, it takes what the reading says. -/
theorem takeNthTxInPlace_fst (block : Value) (idx : Nat) :
    (takeNthTxInPlace block idx).1 = takeNthTx block idx := by
  simp only [takeNthTxInPlace, takeNthTx]
  by_cases hlt : idx < (((block.get "txs").bind Value.asArray).map List.length).getD 0
  · rw [if_pos hlt, if_pos hlt]
    cases htxs : (block.get "txs").bind Value.asArray with
    | none => rfl
    | some arr => rfl
  · rw [if_neg hlt, if_neg hlt]
    by_cases hne : idx ≠ (((block.get "txs").bind Value.asArray).map List.length).getD 0
    · rw [if_pos hne, if_pos hne]
    · rw [if_neg hne, if_neg hne]
      cases htx : block.get "tx" with
      | none => rfl
      | some tx => rfl

/-- **A position has one meaning**: what is taken out of a block at an index is what the
    block's list of transactions has there, and nothing is taken exactly when the index
    is out of range. -/
theorem tx_positions_agree (block : Value) (idx : Nat) :
    (takeNthTxInPlace block idx).1 = (blockTxs block)[idx]? ∧
    ((takeNthTxInPlace block idx).1 = none ↔ (blockTxs block).length ≤ idx) := by
  have htaken : (takeNthTxInPlace block idx).1 = (blockTxs block)[idx]? := by
    rw [takeNthTxInPlace_fst, takeNthTx_eq]
  refine ⟨htaken, ?_⟩
  rw [htaken]
  exact List.getElem?_eq_none_iff

theorem blockTxs_mapFloat (g : Decimal → Decimal) (block : Value) :
    blockTxs (block.mapFloat g) = (blockTxs block).map (Value.mapFloat g) := by
  simp only [blockTxs]
  rw [Value.get_mapFloat, Value.get_mapFloat, List.map_append]
  congr 1
  · cases block.get "txs" with
    | none => rfl
    | some txs =>
        show ((txs.mapFloat g).asArray).getD []
          = (txs.asArray.getD []).map (Value.mapFloat g)
        rw [Value.asArray_mapFloat]
        cases txs.asArray <;> rfl
  · cases block.get "tx" <;> rfl

/-- The staking transaction a proposal block's `RewardValidatorTx` names. -/
def rewardStakingTx (json : Value) : Option String := do
  let unsigned ← (← json.get "tx").get "unsignedTx"
  if (unsigned.get "time").isSome || (unsigned.get "inputs").isSome then none
  else (← unsigned.get "txID").asStr

theorem rewardStakingTx_mapFloat (g : Decimal → Decimal) (json : Value) :
    rewardStakingTx (json.mapFloat g) = rewardStakingTx json := by
  simp only [rewardStakingTx]
  rw [Value.get_mapFloat]
  cases json.get "tx" with
  | none => rfl
  | some tx =>
      simp only [Option.map_some, Option.bind_eq_bind, Option.bind_some]
      rw [Value.get_mapFloat]
      cases tx.get "unsignedTx" with
      | none => rfl
      | some unsigned =>
          simp only [Option.map_some, Option.bind_some, Value.get_mapFloat, Option.isSome_map]
          cases unsigned.get "txID" with
          | none => rfl
          | some id =>
              simp only [Option.map_some, Option.bind_some, Value.asStr_mapFloat]

/-- The pieces of one height needed to store it. -/
structure FetchedBlock where
  height : Nat
  bytesJson : Bytes
  json : Bytes
  id : Bytes32
  txIds : List Bytes32
  timestamp : Option Nat
  kind : BlockKind
  rewardStakingTx : Option String

/-- A height refused before it reached the store. -/
structure Reject where
  height : Nat
  reason : String
  detail : String
  deriving DecidableEq, Repr

section Verify

variable (J : Codec) (sha256 : Bytes → Bytes32)

/-- The ID a transaction entry names, if it is well formed. -/
def txId (tx : Value) : Option Bytes32 :=
  ((tx.get "id").bind Value.asStr).bind fun s => (cb58Decode sha256 s).toOption

/-- The transaction IDs of a block; malformed entries are skipped. -/
def extractTxIds (block : Value) : List Bytes32 :=
  (blockTxs block).filterMap (txId sha256)

theorem txId_mapFloat (g : Decimal → Decimal) (tx : Value) :
    txId sha256 (tx.mapFloat g) = txId sha256 tx := by
  simp only [txId]
  rw [Value.get_asStr_mapFloat]

theorem extractTxIds_mapFloat (g : Decimal → Decimal) (block : Value) :
    extractTxIds sha256 (block.mapFloat g) = extractTxIds sha256 block := by
  simp only [extractTxIds]
  rw [blockTxs_mapFloat, List.filterMap_map]
  congr 1
  funext tx
  exact txId_mapFloat sha256 g tx

/-- Cross-check a record's two halves and decode what the store needs. -/
def verify (bytesValue jsonValue : Value) (expectHeight : Option Nat) :
    Except Reject FetchedBlock :=
  let reportedHeight := (jsonValue.get "height").bind Value.asU64
  let logHeight := (expectHeight.or reportedHeight).getD 0
  match bytesValue.asStr with
  | none => .error ⟨logHeight, "bad_hex", "block bytes element is not a string"⟩
  | some hex =>
  match hexncDecode hex with
  | .error e => .error ⟨logHeight, "bad_hex", e⟩
  | .ok bytes =>
  let reportedId := ((jsonValue.get "id").bind Value.asStr).getD ""
  let derivedId := blockIdOf sha256 bytes
  if reportedId ≠ derivedId then
    .error ⟨logHeight, "id_mismatch", s!"json reports {reportedId}, bytes hash to {derivedId}"⟩
  else match reportedHeight with
  | none => .error ⟨logHeight, "no_height", "json has no usable 'height'"⟩
  | some height =>
  if expectHeight.any (· ≠ height) then
    .error ⟨logHeight, "height_mismatch", s!"json reports height {height}"⟩
  else match cb58Decode sha256 derivedId with
  | .error e => .error ⟨logHeight, "bad_id", e⟩
  | .ok id =>
      .ok {
        height := height
        bytesJson := J.toVec bytesValue
        json := J.toVec jsonValue
        id := id
        txIds := extractTxIds sha256 jsonValue
        timestamp := (jsonValue.get "time").bind Value.asU64
        kind := blockKind bytes
        rewardStakingTx := rewardStakingTx jsonValue }

/-- Verify a record whose height is learned from the record itself. -/
def verifyRecord (bytesValue jsonValue : Value) : Except Reject FetchedBlock :=
  verify J sha256 bytesValue jsonValue none

end Verify

/-! ## Writing -/

/-- Write one verified block, with `rewards` as its trailing element. -/
def storeBlock (s : Storage) (fault : Fault) (fetched : FetchedBlock)
    (rewards : Bytes) : Option Nat × Storage :=
  match s.put fault fetched.height fetched.id fetched.txIds
      [fetched.json, fetched.bytesJson, rewards] with
  | (.error _, s') => (none, s')
  | (.ok (), s') => (some fetched.height, s')

/-- One freshly-ingested block as published to live subscribers. -/
structure LiveUpdate where
  block : Value
  record : Option Value

/-- What the ingest loop owns: the store, the lag gauge, and everything sent on
    the live fan-out (oldest first). -/
structure Pipeline where
  storage : Storage
  behindTip : Nat
  live : List LiveUpdate

section Fill

variable (J : Codec) (sha256 : Bytes → Bytes32)

/-- What `announce` publishes, when somebody is listening. -/
def announce (listening : Bool) (blockJson : Bytes) (record : List Bytes) :
    Option LiveUpdate :=
  if !listening then none
  else (J.fromSlice blockJson).map fun block => ⟨block, J.fromSlice (encode record)⟩

/-- Persist one verified block and do the per-height bookkeeping. -/
def emit (listening : Bool) (p : Pipeline) (fault : Fault) (fetched : FetchedBlock)
    (rewards : Bytes) (tip : Nat) : Bool × Pipeline :=
  let atTip := tip ≤ fetched.height
  match storeBlock p.storage fault fetched rewards with
  | (none, s') => (false, { p with storage := s' })
  | (some _, s') =>
      let sent :=
        if atTip then
          (announce J listening fetched.json
            [fetched.json, fetched.bytesJson, rewards]).toList
        else []
      (true, ⟨s', tip - fetched.height, p.live ++ sent⟩)

/-- The `utxos` of a `getRewardUTXOs` result, an empty array when absent. -/
def rewardUtxos (result : Value) : Value := (result.get "utxos").getD (.array [])

/-- The rewards element for a held proposal, given the kind of the block that
    resolved it; `none` cuts the run short rather than guess. -/
def resolveReward (proposal : FetchedBlock) (outcome : BlockKind)
    (utxos : String → Option Value) : Option Bytes :=
  match proposal.rewardStakingTx with
  | none => none
  | some stakingTx =>
      match outcome with
      | .Abort => some EMPTY_ARRAY
      | .Commit => (utxos stakingTx).map fun result => J.toVec (rewardUtxos result)
      | _ => none

/-- What upstream answers while one height is processed: the two block encodings
    and the `getRewardUTXOs` result of a staking transaction should it be asked for. -/
structure HeightReply where
  hexnc : Option Value
  json : Option Value
  utxos : String → Option Value

/-- Fetch both encodings of one height and cross-check them. -/
def fetchBlock (height : Nat) (r : HeightReply) : Option FetchedBlock := do
  let bytesValue ← r.hexnc
  let jsonValue ← r.json
  (verify J sha256 bytesValue jsonValue (some height)).toOption

/-- Write the held proposal, if there is one, now that `outcome` resolves it. -/
def settlePending (listening : Bool) (fault : Nat → Fault) (tip : Nat) (p : Pipeline)
    (pending : Option FetchedBlock) (outcome : BlockKind) (utxos : String → Option Value) :
    Bool × Pipeline :=
  match pending with
  | none => (true, p)
  | some proposal =>
      match resolveReward J proposal outcome utxos with
      | none => (false, p)
      | some rewards => emit J listening p (fault proposal.height) proposal rewards tip

/-- Fetch and store an ordered run of heights.  `false` means the run was cut
    short; a proposal still held at the end is not written.  `fault` says how
    the write of each height goes. -/
def fillRange (listening : Bool) (fault : Nat → Fault) (tip : Nat) :
    Pipeline → Option FetchedBlock → List (Nat × HeightReply) → Bool × Pipeline
  | p, _, [] => (true, p)
  | p, pending, (height, r) :: rest =>
      match fetchBlock J sha256 height r with
      | none => (false, p)
      | some fetched =>
          match settlePending J listening fault tip p pending fetched.kind r.utxos with
          | (false, p1) => (false, p1)
          | (true, p1) =>
              if fetched.rewardStakingTx.isSome then
                fillRange listening fault tip p1 (some fetched) rest
              else
                match emit J listening p1 (fault fetched.height) fetched EMPTY_ARRAY tip with
                | (false, p2) => (false, p2)
                | (true, p2) => fillRange listening fault tip p2 none rest

/-- One height of a run: fetch it, settle the proposal held before it, then hold
    it or write it.  `false` cuts the run short. -/
def fillStep (listening : Bool) (fault : Nat → Fault) (tip : Nat) (p : Pipeline)
    (pending : Option FetchedBlock) (height : Nat) (r : HeightReply) :
    Bool × Pipeline × Option FetchedBlock :=
  match fetchBlock J sha256 height r with
  | none => (false, p, none)
  | some fetched =>
      match settlePending J listening fault tip p pending fetched.kind r.utxos with
      | (false, p1) => (false, p1, none)
      | (true, p1) =>
          if fetched.rewardStakingTx.isSome then (true, p1, some fetched)
          else
            match emit J listening p1 (fault fetched.height) fetched EMPTY_ARRAY tip with
            | (ok, p2) => (ok, p2, none)

/-- Verify and store one streamed record. -/
def persistRecord (s : Storage) (fault : Nat → Fault) (record : Value) :
    Option Nat × Storage :=
  match record.asArray with
  | none => (none, s)
  | some parts =>
      match parts with
      | [blockJson, bytesJson, rewards] =>
          match verifyRecord J sha256 bytesJson blockJson with
          | .error _ => (none, s)
          | .ok fetched => storeBlock s (fault fetched.height) fetched (J.toVec rewards)
      | _ => (none, s)

end Fill

/-- Heights fetched per pass before the tip is read again. -/
def FILL_CHUNK : Nat := 8192

/-- The next height to fetch: the floor (or the tip) on a store never written,
    otherwise one past the contiguous frontier. -/
def nextHeight (isEmpty : Bool) (contiguous : Nat) (backfillFloor : Option Nat)
    (tip : Nat) : Nat :=
  if isEmpty then backfillFloor.getD tip else min (contiguous + 1) (2 ^ 64 - 1)

/-! ## What verification establishes -/

/-- The halves of a record agree: the bytes element is a `hexnc` string of `b`
    and the JSON reports the ID of `b` and the height `height`. -/
structure HalvesAgree (sha256 : Bytes → Bytes32) (jsonValue bytesValue : Value)
    (height : Nat) (b : Bytes) : Prop where
  bytes : ∃ hex, bytesValue.asStr = some hex ∧ hexncDecode hex = .ok b
  id : (jsonValue.get "id").bind Value.asStr = some (blockIdOf sha256 b)
  height : (jsonValue.get "height").bind Value.asU64 = some height

/-- A block ID is never the empty string, so it can only come from a present
    `id` field. -/
theorem blockIdOf_ne_empty (sha256 : Bytes → Bytes32) (b : Bytes) :
    blockIdOf sha256 b ≠ "" := by
  intro h
  have hd := cb58Decode_blockIdOf sha256 b
  rw [h] at hd
  cases hd

/-- **The spec of `verify`**: what an accepted pair satisfies, and what the
    fetched block then holds. -/
theorem verify_ok {J : Codec} {sha256 : Bytes → Bytes32} {bytesValue jsonValue : Value}
    {expectHeight : Option Nat} {fetched : FetchedBlock}
    (h : verify J sha256 bytesValue jsonValue expectHeight = .ok fetched) :
    ∃ b, HalvesAgree sha256 jsonValue bytesValue fetched.height b ∧
      (∀ want, expectHeight = some want → want = fetched.height) ∧
      fetched = {
        height := fetched.height
        bytesJson := J.toVec bytesValue
        json := J.toVec jsonValue
        id := sha256 b
        txIds := extractTxIds sha256 jsonValue
        timestamp := (jsonValue.get "time").bind Value.asU64
        kind := blockKind b
        rewardStakingTx := rewardStakingTx jsonValue } := by
  simp only [verify] at h
  cases hs : bytesValue.asStr with
  | none => rw [hs] at h; cases h
  | some hex =>
  rw [hs] at h
  dsimp only at h
  cases hd : hexncDecode hex with
  | error e => rw [hd] at h; cases h
  | ok b =>
  rw [hd] at h
  dsimp only at h
  by_cases hid : ((jsonValue.get "id").bind Value.asStr).getD "" ≠ blockIdOf sha256 b
  · rw [if_pos hid] at h; cases h
  rw [if_neg hid] at h
  cases hh : (jsonValue.get "height").bind Value.asU64 with
  | none => rw [hh] at h; cases h
  | some height =>
  rw [hh] at h
  dsimp only at h
  by_cases hexp : expectHeight.any (· ≠ height) = true
  · rw [if_pos hexp] at h; cases h
  rw [if_neg hexp, cb58Decode_blockIdOf] at h
  dsimp only at h
  have hf := Except.ok.inj h
  subst hf
  -- an `id` that is not there reads as the empty text, which no block id is
  refine ⟨b, ⟨⟨hex, hs, hd⟩, ?_, hh⟩, ?_, rfl⟩
  · have hid' := not_not.mp hid
    cases hget : (jsonValue.get "id").bind Value.asStr with
    | none =>
        rw [hget] at hid'
        exact absurd hid'.symm (blockIdOf_ne_empty sha256 b)
    | some s =>
        rw [hget] at hid'
        exact congrArg some hid'
  · intro want hwant
    rw [hwant] at hexp
    have hne : ¬ want ≠ height := by simpa using hexp
    exact not_not.mp hne

/-- The converse: halves that agree are accepted at their height, whatever else
    the JSON says. -/
theorem verify_of_agree (J : Codec) {sha256 : Bytes → Bytes32}
    {bytesValue jsonValue : Value} {height : Nat} {b : Bytes}
    (h : HalvesAgree sha256 jsonValue bytesValue height b) (expectHeight : Option Nat)
    (hexpect : ∀ want, expectHeight = some want → want = height) :
    verify J sha256 bytesValue jsonValue expectHeight = .ok {
      height := height
      bytesJson := J.toVec bytesValue
      json := J.toVec jsonValue
      id := sha256 b
      txIds := extractTxIds sha256 jsonValue
      timestamp := (jsonValue.get "time").bind Value.asU64
      kind := blockKind b
      rewardStakingTx := rewardStakingTx jsonValue } := by
  obtain ⟨hex, hs, hd⟩ := h.bytes
  have hany : ¬ expectHeight.any (· ≠ height) = true := by
    cases expectHeight with
    | none => exact fun h => nomatch h
    | some want =>
        rw [hexpect want rfl]
        simp
  simp only [verify]
  rw [hs]
  dsimp only
  rw [hd]
  dsimp only
  rw [h.id, Option.getD_some, if_neg (not_not.mpr rfl), h.height]
  dsimp only
  rw [if_neg hany, cb58Decode_blockIdOf]

/-! ## The invariant rule of the range fill -/

/-- A block that passed verification. -/
def Verified (J : Codec) (sha256 : Bytes → Bytes32) (fetched : FetchedBlock) : Prop :=
  ∃ bytesValue jsonValue expectHeight,
    verify J sha256 bytesValue jsonValue expectHeight = .ok fetched

section Rule

variable {J : Codec} {sha256 : Bytes → Bytes32} {fault : Nat → Fault}
  {Inv : Storage → Prop}

theorem fetchBlock_eq_some {height : Nat} {r : HeightReply} {fetched : FetchedBlock}
    (h : fetchBlock J sha256 height r = some fetched) :
    ∃ bytesValue jsonValue, r.hexnc = some bytesValue ∧ r.json = some jsonValue ∧
      verify J sha256 bytesValue jsonValue (some height) = .ok fetched := by
  obtain ⟨bytesValue, hb, h⟩ := Option.bind_eq_some_iff.mp h
  obtain ⟨jsonValue, hj, h⟩ := Option.bind_eq_some_iff.mp h
  exact ⟨bytesValue, jsonValue, hb, hj, Run.toOption_eq_some h⟩

/-- A block fetched for a height has that height. -/
theorem fetchBlock_height {height : Nat} {r : HeightReply} {fetched : FetchedBlock}
    (h : fetchBlock J sha256 height r = some fetched) : fetched.height = height := by
  obtain ⟨_, _, -, -, hv⟩ := fetchBlock_eq_some h
  obtain ⟨-, -, hexpect, -⟩ := verify_ok hv
  exact (hexpect height rfl).symm

/-- A JSON half with the height and the ID of the bytes. -/
def agreeingJson (sha256 : Bytes → Bytes32) (b : Bytes) (height : UInt64)
    (fields : List (String × Value)) : Value :=
  .object (("height", .number (.posInt height)) :: ("id", .string (blockIdOf sha256 b))
    :: fields)

/-- A reply whose halves agree. -/
def agreeingReply (sha256 : Bytes → Bytes32) (b : Bytes) (height : UInt64)
    (fields : List (String × Value)) : HeightReply :=
  ⟨some (.string (hexncRender b)), some (agreeingJson sha256 b height fields), fun _ => none⟩

/-- Halves that agree are a block. -/
theorem fetchBlock_agreeing (J : Codec) (sha256 : Bytes → Bytes32) (b : Bytes)
    (height : UInt64) (fields : List (String × Value)) :
    fetchBlock J sha256 height.toNat (agreeingReply sha256 b height fields) = some {
      height := height.toNat
      bytesJson := J.toVec (.string (hexncRender b))
      json := J.toVec (agreeingJson sha256 b height fields)
      id := sha256 b
      txIds := extractTxIds sha256 (agreeingJson sha256 b height fields)
      timestamp := ((agreeingJson sha256 b height fields).get "time").bind Value.asU64
      kind := blockKind b
      rewardStakingTx := rewardStakingTx (agreeingJson sha256 b height fields) } := by
  have hagree : HalvesAgree sha256 (agreeingJson sha256 b height fields)
      (.string (hexncRender b)) height.toNat b :=
    ⟨⟨hexncRender b, rfl, hexncDecode_hexncRender b⟩, rfl, rfl⟩
  have hv := verify_of_agree J hagree (some height.toNat) fun want h => (Option.some.inj h).symm
  simp only [fetchBlock, agreeingReply, Option.bind_eq_bind, Option.bind_some, hv,
    Except.toOption]

/-- The field that makes a block a reward proposal. -/
def rewardFields : List (String × Value) :=
  [("tx", .object [("unsignedTx", .object [("txID", .string "staking")])])]

theorem resolveReward_eq_some {proposal : FetchedBlock} {outcome : BlockKind}
    {utxos : String → Option Value} {rewards : Bytes}
    (h : resolveReward J proposal outcome utxos = some rewards) :
    ∃ v, rewards = J.toVec v := by
  simp only [resolveReward] at h
  cases hs : proposal.rewardStakingTx with
  | none => rw [hs] at h; cases h
  | some _ =>
      rw [hs] at h
      cases outcome with
      | Abort => exact ⟨.array [], (Option.some.inj h).symm.trans J.toVec_nil.symm⟩
      | Commit =>
          obtain ⟨result, -, heq⟩ := Option.map_eq_some_iff.mp h
          exact ⟨_, heq.symm⟩
      | _ => cases h

theorem emit_storage (listening : Bool) (p : Pipeline) (f : Fault)
    (fetched : FetchedBlock) (rewards : Bytes) (tip : Nat) :
    (emit J listening p f fetched rewards tip).2.storage
      = (storeBlock p.storage f fetched rewards).2 := by
  simp only [emit]
  cases hs : storeBlock p.storage f fetched rewards with
  | mk stored s' => cases stored <;> rfl

/-- **The invariant rule.** What the writes of the fetched blocks preserve, a whole
    range fill preserves, however it ends.  `Q` is what is known of a block once
    it is fetched. -/
theorem fillRange_invariant {Q : FetchedBlock → Prop}
    (hstore : ∀ s fetched v, Inv s → Q fetched →
      Inv (storeBlock s (fault fetched.height) fetched (J.toVec v)).2)
    (listening : Bool) (tip : Nat) (runs : List (Nat × HeightReply))
    (hfetch : ∀ e ∈ runs, ∀ fetched, fetchBlock J sha256 e.1 e.2 = some fetched → Q fetched)
    {p : Pipeline} {pending : Option FetchedBlock} (hinit : Inv p.storage)
    (hheld : ∀ proposal, pending = some proposal → Q proposal) :
    Inv (fillRange J sha256 listening fault tip p pending runs).2.storage := by
  induction runs generalizing p pending with
  | nil => exact hinit
  | cons hd rest ih =>
      obtain ⟨height, r⟩ := hd
      have ih := @ih fun e he => hfetch e (List.mem_cons_of_mem _ he)
      simp only [fillRange]
      cases hf : fetchBlock J sha256 height r with
      | none => exact hinit
      | some fetched =>
      dsimp only
      have hQ : Q fetched := hfetch (height, r) (List.mem_cons_self ..) fetched hf
      -- settling the proposal that is held writes that proposal or nothing
      have hsettled : Inv (settlePending J listening fault tip p pending fetched.kind
          r.utxos).2.storage := by
        cases pending with
        | none => exact hinit
        | some proposal =>
            simp only [settlePending]
            cases hr : resolveReward J proposal fetched.kind r.utxos with
            | none => exact hinit
            | some rewards =>
                obtain ⟨v, rfl⟩ := resolveReward_eq_some hr
                dsimp only
                rw [emit_storage]
                exact hstore _ _ v hinit (hheld proposal rfl)
      cases hs : settlePending J listening fault tip p pending fetched.kind r.utxos with
      | mk ok p1 =>
      rw [hs] at hsettled
      cases ok with
      | false => exact hsettled
      | true =>
      dsimp only
      by_cases hreward : fetched.rewardStakingTx.isSome
      · rw [if_pos hreward]
        exact ih hsettled fun proposal heq => Option.some.inj heq ▸ hQ
      · rw [if_neg hreward]
        -- a block that is not held is written at once
        have hemit : Inv (emit J listening p1 (fault fetched.height) fetched EMPTY_ARRAY
            tip).2.storage := by
          rw [emit_storage, show EMPTY_ARRAY = J.toVec (.array []) from J.toVec_nil.symm]
          exact hstore _ _ _ hsettled hQ
        cases he : emit J listening p1 (fault fetched.height) fetched EMPTY_ARRAY tip with
        | mk ok2 p2 =>
        rw [he] at hemit
        cases ok2 with
        | false => exact hemit
        | true => exact ih hemit fun _ heq => nomatch heq

/-- A run goes one height at a time. -/
theorem fillRange_cons (listening : Bool) (tip height : Nat) (r : HeightReply)
    (rest : List (Nat × HeightReply)) (p : Pipeline) (pending : Option FetchedBlock) :
    fillRange J sha256 listening fault tip p pending ((height, r) :: rest)
      = match fillStep J sha256 listening fault tip p pending height r with
        | (false, p', _) => (false, p')
        | (true, p', pending') => fillRange J sha256 listening fault tip p' pending' rest := by
  simp only [fillRange, fillStep]
  cases fetchBlock J sha256 height r with
  | none => rfl
  | some fetched =>
  dsimp only
  cases settlePending J listening fault tip p pending fetched.kind r.utxos with
  | mk ok p1 =>
  cases ok with
  | false => rfl
  | true =>
  dsimp only
  by_cases hreward : fetched.rewardStakingTx.isSome = true
  · rw [if_pos hreward, if_pos hreward]
  · rw [if_neg hreward, if_neg hreward]
    cases emit J listening p1 (fault fetched.height) fetched EMPTY_ARRAY tip with
    | mk ok2 p2 => cases ok2 <;> rfl

/-- One height of a run that completes: it was fetched, the held proposal was
    settled, and the block was held in turn or written. -/
theorem fillRange_cons_true {listening : Bool} {tip height : Nat} {r : HeightReply}
    {rest : List (Nat × HeightReply)} {p p' : Pipeline} {pending : Option FetchedBlock}
    (h : fillRange J sha256 listening fault tip p pending ((height, r) :: rest)
      = (true, p')) :
    ∃ fetched p1, fetchBlock J sha256 height r = some fetched ∧
      settlePending J listening fault tip p pending fetched.kind r.utxos = (true, p1) ∧
      ((fetched.rewardStakingTx.isSome = true ∧
          fillRange J sha256 listening fault tip p1 (some fetched) rest = (true, p')) ∨
        (fetched.rewardStakingTx.isSome = false ∧
          ∃ p2, emit J listening p1 (fault fetched.height) fetched EMPTY_ARRAY tip
              = (true, p2) ∧
            fillRange J sha256 listening fault tip p2 none rest = (true, p'))) := by
  simp only [fillRange] at h
  cases hf : fetchBlock J sha256 height r with
  | none =>
      rw [hf] at h
      cases h
  | some fetched =>
  rw [hf] at h
  dsimp only at h
  cases hs : settlePending J listening fault tip p pending fetched.kind r.utxos with
  | mk ok p1 =>
  rw [hs] at h
  cases ok with
  | false => cases h
  | true =>
  refine ⟨fetched, p1, rfl, hs, ?_⟩
  dsimp only at h
  by_cases hreward : fetched.rewardStakingTx.isSome = true
  · rw [if_pos hreward] at h
    exact Or.inl ⟨hreward, h⟩
  · rw [if_neg hreward] at h
    refine Or.inr ⟨Bool.eq_false_iff.mpr hreward, ?_⟩
    cases he : emit J listening p1 (fault fetched.height) fetched EMPTY_ARRAY tip with
    | mk ok2 p2 =>
    rw [he] at h
    cases ok2 with
    | false => cases h
    | true => exact ⟨p2, rfl, h⟩

/-- A write reports the height of its block. -/
theorem storeBlock_height {s s' : Storage} {f : Fault} {fetched : FetchedBlock}
    {rewards : Bytes} {height : Nat}
    (h : storeBlock s f fetched rewards = (some height, s')) : height = fetched.height := by
  simp only [storeBlock] at h
  split at h
  · cases h
  · exact (Option.some.inj (Prod.mk.inj h).1).symm

/-- A write that is reported back as done went through. -/
theorem emit_true {listening : Bool} {p p' : Pipeline} {f : Fault} {fetched : FetchedBlock}
    {rewards : Bytes} {tip : Nat}
    (h : emit J listening p f fetched rewards tip = (true, p')) :
    storeBlock p.storage f fetched rewards = (some fetched.height, p'.storage) := by
  simp only [emit] at h
  cases hs : storeBlock p.storage f fetched rewards with
  | mk stored s' =>
  rw [hs] at h
  cases stored with
  | none => cases h
  | some height =>
      rw [storeBlock_height hs, ← (Prod.mk.inj h).2]

theorem fetchBlock_rewardStakingTx {height : Nat} {r : HeightReply} {fetched : FetchedBlock}
    (h : fetchBlock J sha256 height r = some fetched) :
    fetched.rewardStakingTx = r.json.bind rewardStakingTx := by
  obtain ⟨bytesValue, jsonValue, -, hj, hv⟩ := fetchBlock_eq_some h
  obtain ⟨b, -, -, heq⟩ := verify_ok hv
  rw [heq, hj]
  rfl

/-- A block fetched for a height passed verification. -/
theorem fetchBlock_verified {height : Nat} {r : HeightReply} {fetched : FetchedBlock}
    (h : fetchBlock J sha256 height r = some fetched) : Verified J sha256 fetched := by
  obtain ⟨bytesValue, jsonValue, -, -, hv⟩ := fetchBlock_eq_some h
  exact ⟨bytesValue, jsonValue, _, hv⟩

end Rule

end NevePlatformIngest
