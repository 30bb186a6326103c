import Neve.ByteTextProofs

/-! # The on-disk block record

    A blockstore value is a JSON array whose element 0 is the canonical block
    JSON; the rest is the chain's derived data.  Stores written before the
    combined record hold the bare block object instead.  Records are built and
    split by raw byte manipulation, so an element that went in comes back byte
    for byte (`element_encode`). -/

namespace NeveRecord

open JsonValue

/-- Which chain one instance mirrors. -/
inductive Chain where
  | C
  | P
  deriving DecidableEq, Repr

/-- Stable short name: the metric label and the `meta/chain` stamp. -/
def Chain.asStr : Chain → String
  | .C => "c"
  | .P => "p"

theorem Chain.asStr_inj {a b : Chain} (h : a.asStr = b.asStr) : a = b := by
  cases a <;> cases b
  · rfl
  · exact absurd h (by decide)
  · exact absurd h (by decide)
  · rfl

/-- Element index of the canonical block JSON, on every chain. -/
def BLOCK : Nat := 0

/-- C-chain: that block's logs. -/
def C_LOGS : Nat := 1

/-- P-chain: the canonical codec bytes as a `0x` hex JSON string. -/
def P_BYTES : Nat := 1

/-- The stored value for a derived element with nothing in it. -/
def EMPTY_ARRAY : Bytes := [openBracket, closeBracket]

/-- How many elements a chain's record holds. -/
def arity : Chain → Nat
  | .C => 2
  | .P => 3

/-- Build a record from its already-serialized elements by concatenation. -/
def encode (elements : List Bytes) : Bytes := arrayText elements

/-- The bytes Rust's `is_ascii_whitespace` accepts. -/
def isAsciiWhitespace (b : UInt8) : Bool :=
  b == 32 || b == 9 || b == 10 || b == 12 || b == 13

/-- Was this value written before the combined record existed? -/
def isBareBlock (record : Bytes) : Bool :=
  (record.find? (fun b => !isAsciiWhitespace b)) == some 123

def isCombinedRecord (value : Bytes) : Bool := !isBareBlock value

section Reading

variable (J : Codec)

/-- Split a record into the exact spellings of its elements. -/
def split (record : Bytes) : Except String (List Bytes) :=
  match J.rawArray record with
  | none => .error "decoding stored record as a JSON array"
  | some parts =>
      if parts.length < 2 then
        .error (s!"stored record has {parts.length} element(s); every record layout has at " ++
            "least a block and one derived element")
      else .ok parts

/-- Element `idx` of a record; `none` means the record has no such element,
    which is different from the element being empty. -/
def element (record : Bytes) (idx : Nat) : Except String (Option Bytes) :=
  if isBareBlock record then
    if idx ≠ BLOCK then .ok none
    else match J.rawValue record with
      | none => .error "decoding stored bare block"
      | some block => .ok (some block)
  else do
    let parts ← split J record
    .ok parts[idx]?

end Reading

/-- A readable record always has its block. -/
theorem element_block_ne_none (J : Codec) (record : Bytes) :
    element J record BLOCK ≠ .ok none := by
  intro h
  simp only [element] at h
  by_cases hbare : isBareBlock record = true
  · rw [if_pos hbare, if_neg (not_not.mpr rfl)] at h
    cases hr : J.rawValue record with
    | none => rw [hr] at h; cases h
    | some block => rw [hr] at h; cases h
  · rw [if_neg hbare] at h
    cases hs : split J record with
    | error e => rw [hs] at h; cases h
    | ok parts =>
        -- `split` refuses fewer than two elements, so element 0 is there
        have hlen : 2 ≤ parts.length := by
          simp only [split] at hs
          cases hraw : J.rawArray record with
          | none => rw [hraw] at hs; cases hs
          | some ps =>
              rw [hraw] at hs
              dsimp only at hs
              by_cases hlt : ps.length < 2
              · rw [if_pos hlt] at hs; cases hs
              · rw [if_neg hlt] at hs
                rw [← Except.ok.inj hs]
                exact Nat.le_of_not_lt hlt
        rw [hs] at h
        have hnone : parts[BLOCK]? = none := Except.ok.inj h
        rw [List.getElem?_eq_none_iff] at hnone
        simp only [BLOCK] at hnone
        omega

theorem isAsciiWhitespace_of_isJsonSpace {b : UInt8} (h : isJsonSpace b = true) :
    isAsciiWhitespace b = true := by
  simp only [isJsonSpace, Bool.or_eq_true, beq_iff_eq] at h
  rcases h with ((rfl | rfl) | rfl) | rfl <;> rfl

/-- Whitespace in front does not hide the brace. -/
theorem isBareBlock_spaced {before : Bytes} (hbefore : ∀ b ∈ before, isJsonSpace b = true)
    (rest : Bytes) : isBareBlock (before ++ 123 :: rest) = true := by
  have hnone : before.find? (fun b => !isAsciiWhitespace b) = none := by
    refine List.find?_eq_none.mpr ?_
    intro b hb
    rw [isAsciiWhitespace_of_isJsonSpace (hbefore b hb)]
    decide
  rw [isBareBlock, List.find?_append, hnone]
  rfl

theorem not_isBareBlock_encode (elements : List Bytes) :
    isBareBlock (encode elements) = false := rfl

/-- What a record of compact JSON values splits into. -/
theorem split_encode (J : Codec) {vs : List Value} (hlen : 2 ≤ vs.length) :
    split J (encode (vs.map J.toVec)) = .ok (vs.map J.toVec) := by
  simp only [split, encode]
  rw [J.rawArray_arrayText]
  show (if (vs.map J.toVec).length < 2 then _ else _) = _
  rw [if_neg (by rw [List.length_map]; omega)]

/-- **The codec round trip** for records of compact JSON values. -/
theorem element_encode (J : Codec) {vs : List Value} (hlen : 2 ≤ vs.length)
    (idx : Nat) :
    element J (encode (vs.map J.toVec)) idx
      = .ok ((vs.map J.toVec)[idx]?) := by
  simp only [element]
  rw [not_isBareBlock_encode, if_neg Bool.false_ne_true, split_encode J hlen]
  rfl

end NeveRecord
