import Neve.RecordConsistencyProofs
import Neve.FrontierProofs
import Neve.StorageMapProofs

/-! # P-chain serving — blocks that verify again

    `platform.getBlockByHeight` and `platform.getBlock` answer from the stored halves:
    the JSON as it is, the bytes rendered anew in the encoding asked for.  Another neve's
    direct ingest asks for both and cross-checks them.

    A record that came through `verify` is served as one that does, with the same
    height, ID, transactions, kind and staking transaction, by its height as long as it
    is stored, and by its ID as long as no other height took that
    (`served_blocks_reverify`). -/

namespace NevePlatformRpc

open JsonValue ByteText NeveRecord NeveStorage NevePlatformCodec NevePlatformIngest
open NeveStorageMap (Put)
open NeveRecordConsistency (halvesAgree_reread jsonHalf bytesHalf halvesAgree_jsonHalf)
open NeveFrontier (storeBlock_stored)

/-! ## Encodings -/

/-- Which encoding a `platform.*` caller asked for. -/
inductive Encoding where
  | Hex
  | Hexc
  | Hexnc
  | Json
  deriving DecidableEq, Repr

namespace Encoding

/-- Parse the `encoding` param; `none` means the caller omitted it. -/
def parse : Option String → Except String Encoding
  | none => .ok .Hex
  | some "hex" => .ok .Hex
  | some "hexc" => .ok .Hexc
  | some "hexnc" => .ok .Hexnc
  | some "json" => .ok .Json
  | some other => .error s!"unknown encoding: {other}"

/-- The spelling to echo back. -/
def asStr : Encoding → String
  | .Hex => "hex"
  | .Hexc => "hexc"
  | .Hexnc => "hexnc"
  | .Json => "json"

end Encoding

section Serving

variable (J : Codec) (sha256 : Bytes → Bytes32)

/-- Render bytes in avalanchego's checksummed `hex` / `hexc` encoding. -/
def hexWithChecksum (bytes : Bytes) : String :=
  String.ofList ('0' :: 'x' :: hexEncode (bytes ++ checksum sha256 bytes))

/-- Render stored canonical bytes; `json` is served from the other element. -/
def Encoding.renderBytes (bytes : Bytes) : Encoding → Option String
  | .Hex => some (hexWithChecksum sha256 bytes)
  | .Hexc => some (hexWithChecksum sha256 bytes)
  | .Hexnc => some (hexncRender bytes)
  | .Json => none

/-- A block as it is answered. -/
def answer (block : Value) (encoding : Encoding) : Value :=
  .object [("block", block), ("encoding", .string encoding.asStr)]

/-- Render one stored height. -/
def renderBlock (s : Storage) (height : Nat) (encoding : Encoding) :
    Except String (Option Value) :=
  match s.getElement J height (if encoding = .Json then BLOCK else P_BYTES) with
  | .error e => .error s!"storage error: {e}"
  | .ok none => .ok none
  | .ok (some text) =>
      match J.fromSlice text with
      | none => .error "stored P-chain record decode"
      | some stored =>
          if encoding = .Json then .ok (some (answer stored encoding))
          else match stored.asStr with
            | none => .error "stored block bytes are not a hex string"
            | some hex =>
                match hexncDecode hex with
                | .error e => .error s!"stored block bytes: {e}"
                | .ok bytes =>
                    .ok ((encoding.renderBytes sha256 bytes).map fun s =>
                      answer (.string s) encoding)

/-- `platform.getBlockByHeight`, with the height read off the request. -/
def getBlockByHeight (s : Storage) (height : Nat) (encoding : Option String) :
    Except String (Option Value) :=
  match Encoding.parse encoding with
  | .error e => .error e
  | .ok encoding => renderBlock J sha256 s height encoding

/-- `platform.getBlock`: the same block, addressed by its CB58 ID. -/
def getBlock (s : Storage) (blockId : String) (encoding : Option String) :
    Except String (Option Value) :=
  match Encoding.parse encoding with
  | .error e => .error e
  | .ok encoding =>
      match cb58Decode sha256 blockId with
      | .error e => .error s!"bad blockID {blockId}: {e}"
      | .ok raw =>
          match s.heightOfHash raw with
          | .error e => .error s!"storage error: {e}"
          | .ok none => .ok none
          | .ok (some height) => renderBlock J sha256 s height encoding

/-- The block found under an ID is the one rendered at its height. -/
theorem getBlock_eq {s : Storage} {id : Bytes32} {height : Nat}
    (h : s.heightOfHash id = .ok (some height)) (encoding : Option String) :
    getBlock J sha256 s (cb58Encode sha256 id) encoding
      = getBlockByHeight J sha256 s height encoding := by
  simp only [getBlock, getBlockByHeight, cb58Decode_cb58Encode, h]

end Serving

/-! ## What is served of a verified record -/

/-- The bytes a `hexnc` element spells. -/
def canonicalBytes (bytesValue : Value) : Option Bytes :=
  bytesValue.asStr.bind fun hex => (hexncDecode hex).toOption

/-- Everything of a block but its spelling and its timestamp. -/
structure SameBlock (again fetched : FetchedBlock) : Prop where
  height : again.height = fetched.height
  id : again.id = fetched.id
  txIds : again.txIds = fetched.txIds
  kind : again.kind = fetched.kind
  rewardStakingTx : again.rewardStakingTx = fetched.rewardStakingTx

/-- The answers for the two encodings of the direct ingest verify as the block, and the
    others spell its bytes with their checksum. -/
structure Reverifies (J : Codec) (sha256 : Bytes → Bytes32)
    (serve : Option String → Except String (Option Value)) (fetched : FetchedBlock)
    (b : Bytes) : Prop where
  verifies : ∃ bytesValue jsonValue again,
    serve (some "hexnc") = .ok (some (answer bytesValue .Hexnc)) ∧
    serve (some "json") = .ok (some (answer jsonValue .Json)) ∧
    verify J sha256 bytesValue jsonValue (some fetched.height) = .ok again ∧
    SameBlock again fetched
  hex : ∀ encoding, Encoding.parse encoding = .ok .Hex →
    serve encoding = .ok (some (answer (.string (hexWithChecksum sha256 b)) .Hex))
  hexc : serve (some "hexc") = .ok (some (answer (.string (hexWithChecksum sha256 b)) .Hexc))

section Serve

variable {J : Codec} {sha256 : Bytes → Bytes32}

/-- A height whose record is verified halves answers in every encoding. -/
theorem reverifies_of_raw {s : Storage} {bytesValue jsonValue rewards : Value}
    {expectHeight : Option Nat} {fetched : FetchedBlock} {b : Bytes}
    (hver : verify J sha256 bytesValue jsonValue expectHeight = .ok fetched)
    (hb : canonicalBytes bytesValue = some b)
    (hraw : s.rawAt fetched.height
      = some (encode ([jsonValue, bytesValue, rewards].map J.toVec))) :
    Reverifies J sha256 (getBlockByHeight J sha256 s fetched.height) fetched b := by
  obtain ⟨b', hagree, -, heq⟩ := verify_ok hver
  obtain ⟨hex, hhex, hdecode⟩ := hagree.bytes
  obtain rfl : b' = b := by
    simp only [canonicalBytes, hhex, Option.bind_some, hdecode, Except.toOption] at hb
    exact Option.some.inj hb
  have helement : ∀ idx, s.getElement J fetched.height idx
      = .ok (([jsonValue, bytesValue, rewards].map J.toVec)[idx]?) := by
    intro idx
    rw [Storage.getElement_eq, hraw]
    dsimp only
    rw [element_encode J (by show 2 ≤ 3; decide)]
  have hjson : s.getElement J fetched.height BLOCK = .ok (some (J.toVec jsonValue)) :=
    helement BLOCK
  have hbytes : s.getElement J fetched.height P_BYTES = .ok (some (J.toVec bytesValue)) :=
    helement P_BYTES
  have hstr : (bytesValue.mapFloat J.refloat).asStr = some hex :=
    (Value.asStr_mapFloat J.refloat bytesValue).trans hhex
  -- the byte encodings all read the second element
  have hrender : ∀ encoding : Encoding, encoding ≠ .Json →
      renderBlock J sha256 s fetched.height encoding
        = .ok ((encoding.renderBytes sha256 b').map fun s => answer (.string s) encoding) := by
    intro encoding hne
    simp only [renderBlock]
    rw [if_neg hne, hbytes]
    simp only [J.fromSlice_toVec]
    rw [if_neg hne, hstr]
    simp only [hdecode]
  -- what the store reads back still agrees, the bytes spelled in lower case
  have hagain : HalvesAgree sha256 (jsonValue.mapFloat J.refloat)
      (.string (hexncRender b')) fetched.height b' := by
    have hreread := halvesAgree_reread hagree J.refloat
    exact ⟨⟨hexncRender b', rfl, hexncDecode_hexncRender b'⟩, hreread.id, hreread.height⟩
  constructor
  · refine ⟨.string (hexncRender b'), jsonValue.mapFloat J.refloat, _, ?_, ?_,
      verify_of_agree J hagain (some fetched.height) ?_, ?_⟩
    · exact hrender .Hexnc (by decide)
    · show renderBlock J sha256 s fetched.height .Json = _
      simp only [renderBlock]
      rw [if_true, hjson]
      simp only [J.fromSlice_toVec, if_true]
    · intro want hwant
      exact (Option.some.inj hwant).symm
    · rw [heq]
      exact ⟨rfl, rfl, extractTxIds_mapFloat sha256 J.refloat jsonValue, rfl,
        rewardStakingTx_mapFloat J.refloat jsonValue⟩
  · intro encoding hparse
    simp only [getBlockByHeight]
    rw [hparse]
    exact hrender .Hex (by decide)
  · exact hrender .Hexc (by decide)

/-! ## While other heights are written -/

/-- The store after further puts, however each of them ended. -/
def afterPuts (s : Storage) (later : List Put) : Storage :=
  later.foldl (fun s p => (s.put p.fault p.height p.hash p.txHashes p.elements).2) s

theorem rawAt_afterPuts {height : Nat} {later : List Put}
    (hlater : ∀ p ∈ later, p.height ≠ height) (s : Storage) :
    (afterPuts s later).rawAt height = s.rawAt height := by
  induction later generalizing s with
  | nil => rfl
  | cons p later ih =>
      rw [List.forall_mem_cons] at hlater
      obtain ⟨hp, hrest⟩ := hlater
      show (afterPuts (s.put p.fault p.height p.hash p.txHashes p.elements).2 later).rawAt height
        = _
      rw [ih hrest]
      exact NeveStorageMap.rawAt_put_other (Ne.symm hp)

/-- A put with another ID does not move an ID. -/
theorem heightOfHash_put_other {s : Storage} {p : Put} {id : Bytes32} (hp : p.hash ≠ id) :
    (s.put p.fault p.height p.hash p.txHashes p.elements).2.heightOfHash id
      = s.heightOfHash id := by
  have heff := s.put_effect p.fault p.height p.hash p.txHashes p.elements
  generalize s.put p.fault p.height p.hash p.txHashes p.elements = out at heff ⊢
  obtain ⟨result, s'⟩ := out
  cases heff with
  | refused e _ hf _ =>
      simp only [Storage.heightOfHash]
      rw [hf.hashToHeight]
  | unindexed e _ _ hf _ _ =>
      simp only [Storage.heightOfHash]
      rw [hf.hashToHeight]
  | done s1 hf _ _ =>
      have hindex : (s1.putIndex p.height p.hash p.txHashes).hashToHeight
          = (p.hash, toLeBytes 8 p.height) :: s.hashToHeight := by
        rw [← hf.hashToHeight]
        rfl
      show (s1.putIndex p.height p.hash p.txHashes).heightOfHash id = _
      simp only [Storage.heightOfHash, hindex]
      rw [List.lookup_cons, beq_false_of_ne (Ne.symm hp)]

theorem heightOfHash_afterPuts {id : Bytes32} {later : List Put}
    (hlater : ∀ p ∈ later, p.hash ≠ id) (s : Storage) :
    (afterPuts s later).heightOfHash id = s.heightOfHash id := by
  induction later generalizing s with
  | nil => rfl
  | cons p later ih =>
      rw [List.forall_mem_cons] at hlater
      show (afterPuts (s.put p.fault p.height p.hash p.txHashes p.elements).2 later).heightOfHash
        id = _
      rw [ih hlater.2]
      exact heightOfHash_put_other hlater.1

/-- **Served P-chain blocks verify again.** A block that was verified and stored answers
    by its height, whatever is written at other heights afterwards, with halves that
    verify as the same block; and by its ID too, as long as no later write takes that
    ID for another height. -/
theorem served_blocks_reverify {s s' : Storage} {bytesValue jsonValue rewards : Value}
    {expectHeight : Option Nat} {fetched : FetchedBlock} {b : Bytes} {fault : Fault}
    (hver : verify J sha256 bytesValue jsonValue expectHeight = .ok fetched)
    (hb : canonicalBytes bytesValue = some b)
    (hstored : storeBlock s fault fetched (J.toVec rewards) = (some fetched.height, s'))
    (later : List Put) (hlater : ∀ p ∈ later, p.height ≠ fetched.height) :
    Reverifies J sha256 (getBlockByHeight J sha256 (afterPuts s' later) fetched.height)
        fetched b ∧
      ((∀ p ∈ later, p.hash ≠ fetched.id) →
        Reverifies J sha256
          (getBlock J sha256 (afterPuts s' later) (cb58Encode sha256 fetched.id))
          fetched b) := by
  obtain ⟨hraw, hids, -⟩ := storeBlock_stored hstored
  obtain ⟨b', hagree, -, heq⟩ := verify_ok hver
  have hstays : (afterPuts s' later).rawAt fetched.height
      = some (encode ([jsonValue, bytesValue, rewards].map J.toVec)) := by
    rw [rawAt_afterPuts hlater, hraw, if_pos rfl]
    rw [heq]
    rfl
  have hserved := reverifies_of_raw hver hb hstays
  refine ⟨hserved, ?_⟩
  intro hids'
  have hbound : fetched.height < 2 ^ 64 := by
    obtain ⟨v, -, hv⟩ := Option.bind_eq_some_iff.mp hagree.height
    exact Value.asU64_lt hv
  have hfound : (afterPuts s' later).heightOfHash fetched.id = .ok (some fetched.height) := by
    rw [heightOfHash_afterPuts hids', Storage.heightOfHash_of_cons hids hbound,
      if_pos rfl]
  have hsame : getBlock J sha256 (afterPuts s' later) (cb58Encode sha256 fetched.id)
      = getBlockByHeight J sha256 (afterPuts s' later) fetched.height := by
    funext encoding
    exact getBlock_eq J sha256 hfound encoding
  rw [hsame]
  exact hserved

/-- One set of answers verifies at one height only. -/
theorem Reverifies.height_eq {serve : Option String → Except String (Option Value)}
    {fetched fetched' : FetchedBlock} {b b' : Bytes}
    (h : Reverifies J sha256 serve fetched b) (h' : Reverifies J sha256 serve fetched' b') :
    fetched.height = fetched'.height := by
  obtain ⟨_, jsonValue, again, -, hjson, hver, hsame⟩ := h.verifies
  obtain ⟨_, jsonValue', again', -, hjson', hver', hsame'⟩ := h'.verifies
  have hboth : answer jsonValue .Json = answer jsonValue' .Json :=
    Option.some.inj (Except.ok.inj (hjson.symm.trans hjson'))
  have hvalue : jsonValue = jsonValue' := by
    simp only [answer, Value.object.injEq, List.cons.injEq, Prod.mk.injEq] at hboth
    exact hboth.1.2
  obtain ⟨_, hagree, -, -⟩ := verify_ok hver
  obtain ⟨_, hagree', -, -⟩ := verify_ok hver'
  rw [hvalue] at hagree
  rw [← hsame.height, ← hsame'.height]
  exact Option.some.inj (hagree.height.symm.trans hagree'.height)

end Serve

/-- The empty block at a height, verified. -/
theorem verify_emptyBlock (height : UInt64) : ∃ fetched,
    verify JsonText.codec sampleSha256 (bytesHalf []) (jsonHalf sampleSha256 [] height [])
        (some height.toNat) = .ok fetched ∧
      fetched.height = height.toNat ∧ fetched.id = sampleSha256 [] ∧
      fetched.json = JsonText.codec.toVec (jsonHalf sampleSha256 [] height []) ∧
      fetched.bytesJson = JsonText.codec.toVec (bytesHalf []) := by
  have hagree := halvesAgree_jsonHalf sampleSha256 [] height []
  have hexpect : ∀ want, some height.toNat = some want → want = height.toNat := by
    intro want hwant
    exact (Option.some.inj hwant).symm
  exact ⟨_, verify_of_agree JsonText.codec hagree _ hexpect, rfl, rfl, rfl, rfl⟩

theorem canonicalBytes_bytesHalf (b : Bytes) : canonicalBytes (bytesHalf b) = some b := by
  show ((hexncDecode (hexncRender b)).toOption) = some b
  rw [hexncDecode_hexncRender]
  rfl

/-- The block with no bytes is stored at height 3 and then again at height 4: the record
    of height 3 is still there, but its ID answers with the one of height 4. -/
theorem id_taken_by_another_height :
    ∃ (s s' : Storage) (low high : FetchedBlock),
      verify JsonText.codec sampleSha256 (bytesHalf []) (jsonHalf sampleSha256 [] 3 [])
        (some 3) = .ok low ∧
      canonicalBytes (bytesHalf []) = some [] ∧
      storeBlock (Storage.fresh memory .P (some 3)) .none low (JsonText.codec.toVec (.array []))
        = (some 3, s) ∧
      verify JsonText.codec sampleSha256 (bytesHalf []) (jsonHalf sampleSha256 [] 4 [])
        (some 4) = .ok high ∧
      storeBlock s .none high (JsonText.codec.toVec (.array [])) = (some 4, s') ∧
      s'.rawAt 3 = s.rawAt 3 ∧
      ¬ Reverifies JsonText.codec sampleSha256
        (getBlock JsonText.codec sampleSha256 s' (cb58Encode sampleSha256 low.id)) low [] := by
  obtain ⟨low, hlow, hlow3, hlowid, -, -⟩ := verify_emptyBlock 3
  obtain ⟨high, hhigh, hhigh4, hhighid, hjson, hbytes⟩ := verify_emptyBlock 4
  have h3 : low.height = 3 := hlow3
  have h4 : high.height = 4 := hhigh4
  obtain ⟨s, s', hs, hs'⟩ : ∃ s s',
      storeBlock (Storage.fresh memory .P (some 3)) .none low (JsonText.codec.toVec (.array []))
        = (some 3, s) ∧
      storeBlock s .none high (JsonText.codec.toVec (.array [])) = (some 4, s') := by
    obtain ⟨_, bytesJson, json, id, txIds, timestamp, kind, reward⟩ := low
    obtain rfl : _ = 3 := h3
    obtain ⟨_, bytesJson', json', id', txIds', timestamp', kind', reward'⟩ := high
    obtain rfl : _ = 4 := h4
    exact ⟨_, _, rfl, rfl⟩
  refine ⟨s, s', low, high, hlow, canonicalBytes_bytesHalf [], hs, hhigh, hs', ?_, ?_⟩
  · rw [(storeBlock_stored hs').1, h4, if_neg (by decide)]
  · intro hrev
    obtain ⟨hraw, hids, -⟩ := storeBlock_stored hs'
    have hat4 : s'.rawAt high.height = some (encode ([jsonHalf sampleSha256 [] 4 [],
        bytesHalf [], .array []].map JsonText.codec.toVec)) := by
      rw [hraw, if_pos rfl, hjson, hbytes]
      rfl
    have hfound : s'.heightOfHash low.id = .ok (some high.height) := by
      rw [Storage.heightOfHash_of_cons hids (by rw [h4]; decide), if_pos]
      rw [hlowid, hhighid]
    have hsame : getBlock JsonText.codec sampleSha256 s' (cb58Encode sampleSha256 low.id)
        = getBlockByHeight JsonText.codec sampleSha256 s' high.height := by
      funext encoding
      exact getBlock_eq JsonText.codec sampleSha256 hfound encoding
    rw [hsame] at hrev
    have hserved := reverifies_of_raw hhigh (canonicalBytes_bytesHalf []) hat4
    have := hrev.height_eq hserved
    omega

/-- Another block, written at height 5. -/
def putFive : Put :=
  ⟨.none, 5, sampleSha256 [5], [], List.replicate 3 (JsonText.codec.toVec .null)⟩

/-- The empty block at height 3, with a block written above it. -/
theorem served_blocks_reverify_three :
    ∃ (s : Storage) (fetched : FetchedBlock), fetched.height = 3 ∧
      Reverifies JsonText.codec sampleSha256
        (getBlockByHeight JsonText.codec sampleSha256 (afterPuts s [putFive]) 3) fetched [] ∧
      Reverifies JsonText.codec sampleSha256
        (getBlock JsonText.codec sampleSha256 (afterPuts s [putFive])
          (cb58Encode sampleSha256 fetched.id)) fetched [] := by
  obtain ⟨fetched, hver, h3, hid, -, -⟩ := verify_emptyBlock 3
  have h3' : fetched.height = 3 := h3
  obtain ⟨s, hs⟩ : ∃ s, storeBlock (Storage.fresh memory .P (some 3)) .none fetched
      (JsonText.codec.toVec (.array [])) = (some fetched.height, s) := by
    obtain ⟨_, bytesJson, json, id, txIds, timestamp, kind, reward⟩ := fetched
    obtain rfl : _ = 3 := h3'
    exact ⟨_, rfl⟩
  have hheight : ∀ p ∈ [putFive], p.height ≠ fetched.height := by
    intro p hp
    rw [List.mem_singleton.mp hp, h3']
    decide
  have hother : ∀ p ∈ [putFive], p.hash ≠ fetched.id := by
    intro p hp
    rw [List.mem_singleton.mp hp, hid]
    decide
  obtain ⟨hserved, hbyId⟩ :=
    served_blocks_reverify hver (canonicalBytes_bytesHalf []) hs [putFive] hheight
  rw [h3'] at hserved
  exact ⟨s, fetched, h3', hserved, hbyId hother⟩

end NevePlatformRpc
