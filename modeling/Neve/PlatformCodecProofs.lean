import Neve.ByteTextProofs

/-! # The P-chain's ID and byte-encoding conventions

    CB58 is Base58 of the payload followed by the last four bytes of its
    SHA-256 digest; `hexnc` is plain `0x` hex.  A block's ID follows from its
    bytes, `cb58(sha256(bytes))`.  The digest is any function to 32 bytes. -/

namespace NevePlatformCodec

open JsonValue ByteText

/-- Bytes of trailing checksum. -/
def CHECKSUM_LEN : Nat := 4

/-- What kind of block the canonical bytes say this is. -/
inductive BlockKind where
  | Proposal
  | Commit
  | Abort
  | Other
  deriving DecidableEq, Repr

/-- The block type ID sits after the two-byte codec version. -/
def TYPE_ID_OFFSET : Nat := 2

/-- Four bytes read big-endian, if the text is that long. -/
def u32FromBeBytes : Bytes → Option Nat
  | [a, b, c, d] => some (((a.toNat * 256 + b.toNat) * 256 + c.toNat) * 256 + d.toNat)
  | _ => none

/-- Classify a block from its canonical bytes. -/
def blockKind (bytes : Bytes) : BlockKind :=
  match u32FromBeBytes ((bytes.drop TYPE_ID_OFFSET).take 4) with
  | none => .Other
  | some 0 => .Proposal
  | some 29 => .Proposal
  | some 2 => .Commit
  | some 31 => .Commit
  | some 1 => .Abort
  | some 30 => .Abort
  | some _ => .Other

/-- Parse the `hexnc` form back into bytes. -/
def hexncDecode (s : String) : Except String Bytes :=
  match stripPrefix0x s.toList with
  | none => .error "hex encoding must start with 0x"
  | some body =>
      match hexDecode body with
      | none => .error "invalid hex"
      | some bytes => .ok bytes

/-- Render bytes in the `hexnc` form. -/
def hexncRender (bytes : Bytes) : String :=
  String.ofList ('0' :: 'x' :: hexEncode bytes)

section Digest

variable (sha256 : Bytes → Bytes32)

/-- The checksum avalanchego appends: the last four bytes of the digest. -/
def checksum (payload : Bytes) : Bytes :=
  (sha256 payload).toList.drop (32 - CHECKSUM_LEN)

/-- Encode a 32-byte ID as CB58. -/
def cb58Encode (id : Bytes32) : String :=
  base58Encode (id.toList ++ checksum sha256 id.toList)

/-- Decode a CB58 string into the ID it carries, verifying the checksum. -/
def cb58Decode (s : String) : Except String Bytes32 :=
  match base58Decode s with
  | none => .error "not valid base58"
  | some raw =>
      if raw.length ≠ 32 + CHECKSUM_LEN then
        .error s!"CB58 ID decodes to {raw.length} bytes, expected 36 (32-byte ID + 4-byte checksum)"
      else if raw.drop 32 ≠ checksum sha256 (raw.take 32) then
        .error "CB58 checksum mismatch"
      else match toBytes32 (raw.take 32) with
        | none => .error "CB58 payload"
        | some id => .ok id

/-- The block ID that canonical bytes must have. -/
def blockIdOf (bytes : Bytes) : String := cb58Encode sha256 (sha256 bytes)

theorem checksum_length (payload : Bytes) :
    (checksum sha256 payload).length = CHECKSUM_LEN := by
  simp only [checksum]
  rw [List.length_drop, Vector.length_toList]
  rfl

/-- Decoding the CB58 spelling of an ID gives it back. -/
theorem cb58Decode_cb58Encode (id : Bytes32) :
    cb58Decode sha256 (cb58Encode sha256 id) = .ok id := by
  have hid : id.toList.length = 32 := Vector.length_toList
  have hlen : (id.toList ++ checksum sha256 id.toList).length = 32 + CHECKSUM_LEN := by
    rw [List.length_append, hid, checksum_length]
  have htake : (id.toList ++ checksum sha256 id.toList).take 32 = id.toList :=
    List.take_left' hid
  have hdrop : (id.toList ++ checksum sha256 id.toList).drop 32
      = checksum sha256 id.toList :=
    List.drop_left' hid
  simp only [cb58Decode, cb58Encode]
  rw [base58Decode_base58Encode]
  dsimp only
  rw [if_neg (not_not.mpr hlen), htake, hdrop, if_neg (not_not.mpr rfl), toBytes32_toList]

/-- The decoder accepts a spelling of 36 bytes whose tail is the checksum of
    the rest, and nothing else. -/
theorem cb58Decode_ok_iff {s : String} {id : Bytes32} :
    cb58Decode sha256 s = .ok id ↔
      ∃ raw : Bytes, IsBase58 s raw ∧ raw.length = 32 + CHECKSUM_LEN
        ∧ raw.take 32 = id.toList ∧ raw.drop 32 = checksum sha256 (raw.take 32) := by
  constructor
  · intro h
    cases hraw : base58Decode s with
    | none =>
        rw [cb58Decode, hraw] at h
        cases h
    | some raw =>
        rw [cb58Decode, hraw] at h
        dsimp only at h
        by_cases hlen : raw.length ≠ 32 + CHECKSUM_LEN
        · rw [if_pos hlen] at h
          cases h
        · rw [if_neg hlen] at h
          by_cases hsum : raw.drop 32 ≠ checksum sha256 (raw.take 32)
          · rw [if_pos hsum] at h
            cases h
          · rw [if_neg hsum] at h
            cases hid : toBytes32 (raw.take 32) with
            | none =>
                rw [hid] at h
                cases h
            | some got =>
                rw [hid] at h
                obtain rfl := Except.ok.inj h
                exact ⟨raw, base58Decode_iff.mp hraw, not_not.mp hlen,
                  toList_of_toBytes32 hid, not_not.mp hsum⟩
  · rintro ⟨raw, hform, hlen, hid, hsum⟩
    rw [cb58Decode, base58Decode_iff.mpr hform]
    dsimp only
    rw [if_neg (not_not.mpr hlen), if_neg (not_not.mpr hsum), hid, toBytes32_toList]

/-- A string the decoder accepts is the encoder's spelling of what it reads. -/
theorem cb58Encode_of_cb58Decode {s : String} {id : Bytes32}
    (h : cb58Decode sha256 s = .ok id) : cb58Encode sha256 id = s := by
  obtain ⟨raw, hform, -, hid, hsum⟩ := (cb58Decode_ok_iff sha256).mp h
  have hraw : id.toList ++ checksum sha256 id.toList = raw := by
    rw [← hid, ← hsum]
    exact List.take_append_drop 32 raw
  rw [cb58Encode, hraw]
  exact isBase58_iff.mp hform

/-- **CB58 is a bijection** between IDs and the strings the decoder accepts:
    the Base58 forms of 36 bytes, the last four of them the last four of the
    digest of the first 32. -/
theorem cb58_bijection :
    (∀ id : Bytes32, cb58Decode sha256 (cb58Encode sha256 id) = .ok id)
    ∧ (∀ (s : String) (id : Bytes32),
        cb58Decode sha256 s = .ok id → cb58Encode sha256 id = s)
    ∧ (∀ (s : String) (id : Bytes32), cb58Decode sha256 s = .ok id ↔
        ∃ raw : Bytes, IsBase58 s raw ∧ raw.length = 36 ∧ raw.take 32 = id.toList
          ∧ raw.drop 32 = (sha256 (raw.take 32)).toList.drop 28)
    ∧ (∀ s : String, (∃ id, cb58Decode sha256 s = .ok id) ↔
        ∃ raw : Bytes, IsBase58 s raw ∧ raw.length = 36
          ∧ raw.drop 32 = (sha256 (raw.take 32)).toList.drop 28)
    ∧ (∀ (s t : String) (id : Bytes32),
        cb58Decode sha256 s = .ok id → cb58Decode sha256 t = .ok id → s = t) := by
  refine ⟨cb58Decode_cb58Encode sha256, fun s id => cb58Encode_of_cb58Decode sha256,
    fun s id => cb58Decode_ok_iff sha256, ?_, ?_⟩
  · intro s
    constructor
    · rintro ⟨id, hid⟩
      obtain ⟨raw, hform, hlen, -, hsum⟩ := (cb58Decode_ok_iff sha256).mp hid
      exact ⟨raw, hform, hlen, hsum⟩
    · rintro ⟨raw, hform, hlen, hsum⟩
      have htake : (raw.take 32).length = 32 := by
        rw [List.length_take, hlen]
        rfl
      refine ⟨⟨(raw.take 32).toArray, by rw [List.size_toArray, htake]⟩, ?_⟩
      exact (cb58Decode_ok_iff sha256).mpr ⟨raw, hform, hlen, rfl, hsum⟩
  · intro s t id hs ht
    rw [← cb58Encode_of_cb58Decode sha256 hs, ← cb58Encode_of_cb58Decode sha256 ht]

/-- The ID derived from bytes decodes to their digest. -/
theorem cb58Decode_blockIdOf (bytes : Bytes) :
    cb58Decode sha256 (blockIdOf sha256 bytes) = .ok (sha256 bytes) :=
  cb58Decode_cb58Encode sha256 (sha256 bytes)

end Digest

/-- Rendering and parsing `hexnc` are inverse on byte strings. -/
theorem hexncDecode_hexncRender (bytes : Bytes) :
    hexncDecode (hexncRender bytes) = .ok bytes := by
  simp only [hexncDecode, hexncRender]
  rw [String.toList_ofList]
  show (match hexDecode (hexEncode bytes) with | none => _ | some bytes => _) = _
  rw [hexDecode_hexEncode]

/-- SHA-256 at the empty byte string and at its digest, as far as the sample
    runs ask for it. -/
def sampleSha256 (payload : Bytes) : Bytes32 :=
  if payload = [] then
    #v[227, 176, 196, 66, 152, 252, 28, 20, 154, 251, 244, 200, 153, 111, 185, 36,
      39, 174, 65, 228, 100, 155, 147, 76, 164, 149, 153, 27, 120, 82, 184, 85]
  else
    #v[93, 246, 224, 226, 118, 19, 89, 211, 10, 130, 117, 5, 142, 41, 159, 204,
      3, 129, 83, 69, 69, 245, 92, 244, 62, 65, 152, 63, 93, 76, 148, 86]

end NevePlatformCodec
