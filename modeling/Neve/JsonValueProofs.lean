import Mathlib

/-! # JSON values — the document tree and its readers

    The tree a JSON parser produces and the partial readers that programs
    apply to it (`get`, `asStr`, `asArray`, `asU64`, ...).  A `Codec` is a
    compact printer together with the readers that take its output back: the
    only thing it may change on the way round is a non-integer number, which a
    parser without exact float reading may give back one unit off.

    Nothing here is about any particular document shape. -/

namespace JsonValue

/-- A byte string. -/
abbrev Bytes := List UInt8

/-- A non-integer number, by its decimal mantissa and exponent. -/
structure Decimal where
  mantissa : Int
  exponent : Int
  deriving DecidableEq, Repr

/-- The three number representations of a parsed document.  `negInt n` is the
    integer `-(n+1)`. -/
inductive Number where
  | posInt (n : UInt64)
  | negInt (n : Fin (2 ^ 63))
  | float (d : Decimal)
  deriving DecidableEq, Repr

/-- A parsed JSON document.  An object is its list of fields in key order. -/
inductive Value where
  | null
  | bool (b : Bool)
  | number (n : Number)
  | string (s : String)
  | array (items : List Value)
  | object (fields : List (String × Value))

namespace Value

/-- The field `k` of an object; `none` on every other value. -/
def get (k : String) : Value → Option Value
  | .object fields => fields.lookup k
  | _ => none

/-- The text of a string value. -/
def asStr : Value → Option String
  | .string s => some s
  | _ => none

/-- The items of an array value. -/
def asArray : Value → Option (List Value)
  | .array items => some items
  | _ => none

/-- The value of a non-negative integer that fits 64 bits. -/
def asU64 : Value → Option Nat
  | .number (.posInt n) => some n.toNat
  | _ => none

def isNull : Value → Bool
  | .null => true
  | _ => false

def isArray : Value → Bool
  | .array _ => true
  | _ => false

@[simp] theorem get_object (k : String) (fields : List (String × Value)) :
    (Value.object fields).get k = fields.lookup k := rfl
@[simp] theorem asStr_string (s : String) : (Value.string s).asStr = some s := rfl
@[simp] theorem asArray_array (items : List Value) :
    (Value.array items).asArray = some items := rfl
@[simp] theorem asU64_posInt (n : UInt64) :
    (Value.number (.posInt n)).asU64 = some n.toNat := rfl

/-- Only an array has items. -/
theorem asArray_eq_some {v : Value} {items : List Value}
    (h : v.asArray = some items) : v = .array items := by
  cases v with
  | array xs =>
      have hx : xs = items := Option.some.inj h
      rw [hx]
  | _ => cases h

theorem isArray_iff {v : Value} :
    v.isArray = true ↔ ∃ items, v = .array items := by
  constructor
  · intro h
    cases v with
    | array items => exact ⟨items, rfl⟩
    | _ => cases h
  · rintro ⟨items, rfl⟩
    rfl

theorem asU64_lt {v : Value} {n : Nat} (h : v.asU64 = some n) : n < 2 ^ 64 := by
  cases v with
  | number m =>
      cases m with
      | posInt u =>
          have hu : u.toNat = n := Option.some.inj h
          rw [← hu]
          exact u.toNat_lt
      | negInt _ => cases h
      | float _ => cases h
  | _ => cases h

end Value

/-! ## Rereading: the only thing a print-and-parse may change -/

def Number.mapFloat (g : Decimal → Decimal) : Number → Number
  | .posInt n => .posInt n
  | .negInt n => .negInt n
  | .float d => .float (g d)

mutual

/-- Replace every non-integer number of a document. -/
def Value.mapFloat (g : Decimal → Decimal) : Value → Value
  | .null => .null
  | .bool b => .bool b
  | .number n => .number (n.mapFloat g)
  | .string s => .string s
  | .array items => .array (mapFloatItems g items)
  | .object fields => .object (mapFloatFields g fields)

def mapFloatItems (g : Decimal → Decimal) : List Value → List Value
  | [] => []
  | v :: rest => v.mapFloat g :: mapFloatItems g rest

def mapFloatFields (g : Decimal → Decimal) :
    List (String × Value) → List (String × Value)
  | [] => []
  | (k, v) :: rest => (k, v.mapFloat g) :: mapFloatFields g rest

end

theorem mapFloatItems_eq_map (g : Decimal → Decimal) (items : List Value) :
    mapFloatItems g items = items.map (Value.mapFloat g) := by
  induction items with
  | nil => rfl
  | cons v rest ih =>
      show v.mapFloat g :: mapFloatItems g rest = _
      rw [ih, List.map_cons]

mutual

/-- Every number of the document is an integer that fits 64 bits. -/
def Value.integral : Value → Bool
  | .number (.float _) => false
  | .array items => integralItems items
  | .object fields => integralFields fields
  | _ => true

def integralItems : List Value → Bool
  | [] => true
  | v :: rest => v.integral && integralItems rest

def integralFields : List (String × Value) → Bool
  | [] => true
  | (_, v) :: rest => v.integral && integralFields rest

end

mutual

/-- Rereading changes nothing in a document of integers. -/
theorem mapFloat_of_integral (g : Decimal → Decimal) (v : Value) (h : v.integral = true) :
    v.mapFloat g = v := by
  match v with
  | .null => rfl
  | .bool _ => rfl
  | .string _ => rfl
  | .number (.posInt _) => rfl
  | .number (.negInt _) => rfl
  | .number (.float _) => cases h
  | .array items => exact congrArg Value.array (mapFloatItems_of_integral g items h)
  | .object fields => exact congrArg Value.object (mapFloatFields_of_integral g fields h)

theorem mapFloatItems_of_integral (g : Decimal → Decimal) (items : List Value)
    (h : integralItems items = true) : mapFloatItems g items = items := by
  match items with
  | [] => rfl
  | v :: rest =>
      obtain ⟨hv, hrest⟩ := Bool.and_eq_true_iff.mp h
      exact congrArg₂ List.cons (mapFloat_of_integral g v hv)
        (mapFloatItems_of_integral g rest hrest)

theorem mapFloatFields_of_integral (g : Decimal → Decimal) (fields : List (String × Value))
    (h : integralFields fields = true) : mapFloatFields g fields = fields := by
  match fields with
  | [] => rfl
  | (k, v) :: rest =>
      obtain ⟨hv, hrest⟩ := Bool.and_eq_true_iff.mp h
      exact congrArg₂ List.cons (congrArg (Prod.mk k) (mapFloat_of_integral g v hv))
        (mapFloatFields_of_integral g rest hrest)

end

theorem lookup_mapFloatFields (g : Decimal → Decimal) (k : String)
    (fields : List (String × Value)) :
    (mapFloatFields g fields).lookup k
      = (fields.lookup k).map (Value.mapFloat g) := by
  induction fields with
  | nil => rfl
  | cons kv rest ih =>
      obtain ⟨k', v⟩ := kv
      show ((k', v.mapFloat g) :: mapFloatFields g rest).lookup k = _
      rw [List.lookup_cons, List.lookup_cons, ih]
      cases k == k' <;> rfl

namespace Value

variable (g : Decimal → Decimal) (v : Value)

@[simp] theorem get_mapFloat (k : String) :
    (v.mapFloat g).get k = (v.get k).map (mapFloat g) := by
  cases v with
  | object fields => exact lookup_mapFloatFields g k fields
  | _ => rfl

@[simp] theorem asStr_mapFloat : (v.mapFloat g).asStr = v.asStr := by
  cases v <;> rfl

@[simp] theorem asArray_mapFloat :
    (v.mapFloat g).asArray = v.asArray.map (List.map (mapFloat g)) := by
  cases v with
  | array items =>
      show some (mapFloatItems g items) = some (items.map (mapFloat g))
      rw [mapFloatItems_eq_map]
  | _ => rfl

@[simp] theorem asU64_mapFloat : (v.mapFloat g).asU64 = v.asU64 := by
  cases v with
  | number n => cases n <;> rfl
  | _ => rfl

/-- A string field survives rereading. -/
theorem get_asStr_mapFloat (k : String) :
    ((v.mapFloat g).get k).bind asStr = (v.get k).bind asStr := by
  rw [get_mapFloat]
  cases v.get k with
  | none => rfl
  | some w => exact asStr_mapFloat g w

/-- An integer field survives rereading. -/
theorem get_asU64_mapFloat (k : String) :
    ((v.mapFloat g).get k).bind asU64 = (v.get k).bind asU64 := by
  rw [get_mapFloat]
  cases v.get k with
  | none => rfl
  | some w => exact asU64_mapFloat g w

end Value

/-! ## Codecs -/

/-- The ASCII codes of the three bytes that glue an array together. -/
def openBracket : UInt8 := 91
def comma : UInt8 := 44
def closeBracket : UInt8 := 93

/-- Texts joined by commas. -/
def joinComma : List Bytes → Bytes
  | [] => []
  | [e] => e
  | e :: e' :: rest => e ++ comma :: joinComma (e' :: rest)

/-- The text of the array whose items are spelled `es`. -/
def arrayText (es : List Bytes) : Bytes :=
  openBracket :: (joinComma es ++ [closeBracket])

/-- A JSON library as its users see it: `toVec` prints compactly, `fromSlice`
    parses, and the two raw readers cut a text into the exact spellings of the
    value or of the array items it holds. -/
structure Codec where
  toVec : Value → Bytes
  fromSlice : Bytes → Option Value
  rawValue : Bytes → Option Bytes
  rawArray : Bytes → Option (List Bytes)
  /-- What reading a printed non-integer number gives. -/
  refloat : Decimal → Decimal
  fromSlice_toVec : ∀ v, fromSlice (toVec v) = some (v.mapFloat refloat)
  toVec_array : ∀ vs : List Value, toVec (.array vs) = arrayText (vs.map toVec)
  rawArray_arrayText : ∀ vs : List Value,
    rawArray (arrayText (vs.map toVec)) = some (vs.map toVec)

namespace Codec

variable (J : Codec)

/-- Parsing an array glued together from printed items. -/
theorem fromSlice_arrayText (vs : List Value) :
    J.fromSlice (arrayText (vs.map J.toVec))
      = some (.array (vs.map (Value.mapFloat J.refloat))) := by
  rw [← J.toVec_array, J.fromSlice_toVec]
  show some (Value.array (mapFloatItems J.refloat vs)) = _
  rw [mapFloatItems_eq_map]

theorem toVec_nil : J.toVec (.array []) = [openBracket, closeBracket] :=
  J.toVec_array []

end Codec

/-! ## Raw readers on any spelling -/

/-- The bytes that may stand around a JSON value. -/
def isJsonSpace (b : UInt8) : Bool := b == 32 || b == 9 || b == 10 || b == 13

/-- What the raw readers of a codec do on texts that its own printer need not
    have written.  `IsValue` holds of the texts that are one JSON value with no
    whitespace around it; a raw reader gives such a text back byte for byte. -/
structure RawReader (J : Codec) where
  IsValue : Bytes → Prop
  rawValue_spaced : ∀ {before e after : Bytes}, IsValue e →
    (∀ b ∈ before, isJsonSpace b) → (∀ b ∈ after, isJsonSpace b) →
    J.rawValue (before ++ e ++ after) = some e
  rawArray_join : ∀ {es : List Bytes}, (∀ e ∈ es, IsValue e) →
    J.rawArray (arrayText es) = some es
  isValue_join : ∀ {es : List Bytes}, (∀ e ∈ es, IsValue e) → IsValue (arrayText es)

/-- With no whitespace around it the whole text is the value. -/
theorem RawReader.rawValue_self {J : Codec} (R : RawReader J) {e : Bytes}
    (h : R.IsValue e) : J.rawValue e = some e := by
  have hnone : ∀ b ∈ ([] : Bytes), isJsonSpace b := fun b hb => by cases hb
  simpa using R.rawValue_spaced h hnone hnone

end JsonValue
