import Neve.ByteTextProofs

/-! # JSON text — a compact printer and its reader

    A concrete codec: the printer writes no whitespace, the reader takes back
    what the printer wrote.  The reader runs on fuel; the length of the text is
    always enough (`readValue_text`).  Non-integer numbers are written with
    their exponent, so rereading them is exact. -/

namespace JsonText

open JsonValue ByteText

/-! ## Numbers -/

def digitVal (c : Char) : Option Nat :=
  if '0' ≤ c ∧ c ≤ '9' then some (c.toNat - 48) else none

/-- The leading decimal digits of a text, and what follows them. -/
def readDigits : List Char → List Nat × List Char
  | [] => ([], [])
  | c :: rest =>
      match digitVal c with
      | none => ([], c :: rest)
      | some d => (d :: (readDigits rest).1, (readDigits rest).2)

def readNat (cs : List Char) : Option (Nat × List Char) :=
  if (readDigits cs).1 = [] then none
  else some (ofBigEndian 10 (readDigits cs).1, (readDigits cs).2)

def readInt (cs : List Char) : Option (Int × List Char) :=
  match readNat cs with
  | some (n, rest) => some (n, rest)
  | none =>
      match cs with
      | '-' :: cs' => (readNat cs').map fun (n, rest) => (-n, rest)
      | _ => none

/-- The representation of an integer: a machine word when it fits one. -/
def ofInt (z : Int) : Number :=
  if 0 ≤ z then
    if z.toNat < 2 ^ 64 then .posInt (UInt64.ofNat z.toNat) else .float ⟨z, 0⟩
  else if h : (-z - 1).toNat < 2 ^ 63 then .negInt ⟨(-z - 1).toNat, h⟩
  else .float ⟨z, 0⟩

def readNumber (cs : List Char) : Option (Number × List Char) :=
  match readInt cs with
  | none => none
  | some (m, 'e' :: rest) => (readInt rest).map fun (e, rest) => (.float ⟨m, e⟩, rest)
  | some (z, rest) => some (ofInt z, rest)

def natDigits (n : Nat) : List Nat := if n = 0 then [0] else toBigEndian 10 n

def natText (n : Nat) : List Char := (natDigits n).map hexChar

def intText (z : Int) : List Char :=
  if z < 0 then '-' :: natText z.natAbs else natText z.natAbs

def numberText : Number → List Char
  | .posInt n => intText n.toNat
  | .negInt n => intText (-(n.val : Int) - 1)
  | .float d => intText d.mantissa ++ 'e' :: intText d.exponent

/-- What may follow a number without being read as part of it. -/
def Stops (rest : List Char) : Prop :=
  ∀ c, rest.head? = some c → digitVal c = none ∧ c ≠ 'e'

theorem digitVal_hexChar : ∀ d < 10, digitVal (hexChar d) = some d := by decide

theorem natDigits_lt (n : Nat) : ∀ d ∈ natDigits n, d < 10 := by
  intro d hd
  simp only [natDigits] at hd
  by_cases hn : n = 0
  · rw [if_pos hn] at hd
    have hz : d = 0 := List.mem_singleton.mp hd
    omega
  · rw [if_neg hn] at hd
    exact Nat.digits_lt_base (by decide) (List.mem_reverse.mp hd)

theorem natDigits_ne_nil (n : Nat) : natDigits n ≠ [] := by
  simp only [natDigits]
  by_cases hn : n = 0
  · rw [if_pos hn]
    exact List.cons_ne_nil _ _
  · rw [if_neg hn]
    intro h
    exact hn (Nat.digits_eq_nil_iff_eq_zero.mp (List.reverse_eq_nil_iff.mp h))

theorem ofBigEndian_natDigits (n : Nat) : ofBigEndian 10 (natDigits n) = n := by
  simp only [natDigits]
  by_cases hn : n = 0
  · rw [if_pos hn, hn]
    rfl
  · rw [if_neg hn]
    simp only [ofBigEndian, toBigEndian]
    rw [List.reverse_reverse, Nat.ofDigits_digits]

theorem readDigits_append {ds : List Nat} {rest : List Char}
    (hds : ∀ d ∈ ds, d < 10) (hrest : ∀ c, rest.head? = some c → digitVal c = none) :
    readDigits (ds.map hexChar ++ rest) = (ds, rest) := by
  induction ds with
  | nil =>
      cases rest with
      | nil => rfl
      | cons c rest =>
          show (match digitVal c with | none => _ | some d => _) = _
          rw [hrest c rfl]
  | cons d ds ih =>
      have hd := digitVal_hexChar d (hds d (List.mem_cons_self ..))
      have ih' := ih fun x hx => hds x (List.mem_cons_of_mem _ hx)
      rw [List.map_cons, List.cons_append, readDigits, hd]
      dsimp only
      rw [ih']

theorem readNat_natText (n : Nat) {rest : List Char}
    (hrest : ∀ c, rest.head? = some c → digitVal c = none) :
    readNat (natText n ++ rest) = some (n, rest) := by
  unfold readNat natText
  rw [readDigits_append (natDigits_lt n) hrest, if_neg (natDigits_ne_nil n),
    ofBigEndian_natDigits]

theorem readInt_intText (z : Int) {rest : List Char}
    (hrest : ∀ c, rest.head? = some c → digitVal c = none) :
    readInt (intText z ++ rest) = some (z, rest) := by
  simp only [intText]
  by_cases hz : z < 0
  · rw [if_pos hz]
    show (readNat (natText z.natAbs ++ rest)).map _ = _
    rw [readNat_natText _ hrest]
    have hneg : -(z.natAbs : Int) = z := by omega
    show some (-(z.natAbs : Int), rest) = _
    rw [hneg]
  · rw [if_neg hz]
    simp only [readInt]
    rw [readNat_natText _ hrest]
    have habs : (z.natAbs : Int) = z := by omega
    show some ((z.natAbs : Int), rest) = _
    rw [habs]

theorem ofInt_posInt (n : UInt64) : ofInt n.toNat = .posInt n := by
  simp only [ofInt]
  rw [if_pos (by omega), Int.toNat_natCast, if_pos n.toNat_lt, UInt64.ofNat_toNat]

theorem ofInt_negInt (n : Fin (2 ^ 63)) : ofInt (-(n.val : Int) - 1) = .negInt n := by
  have hval : (-(-(n.val : Int) - 1) - 1).toNat = n.val := by omega
  simp only [ofInt]
  rw [if_neg (by omega), dif_pos (by rw [hval]; exact n.isLt)]
  congr 1
  exact Fin.ext hval

theorem readNumber_of_readInt {cs rest : List Char} {z : Int}
    (h : readInt cs = some (z, rest)) (hrest : Stops rest) :
    readNumber cs = some (ofInt z, rest) := by
  simp only [readNumber]
  rw [h]
  cases rest with
  | nil => rfl
  | cons c rest =>
      have hc : c ≠ 'e' := (hrest c rfl).2
      split
      · rename_i heq; cases heq
      · rename_i heq
        cases heq
        exact absurd rfl hc
      · rename_i heq
        cases heq
        rfl

theorem readNumber_numberText (n : Number) {rest : List Char} (hrest : Stops rest) :
    readNumber (numberText n ++ rest) = some (n, rest) := by
  have hdigit : ∀ c, rest.head? = some c → digitVal c = none := fun c hc => (hrest c hc).1
  cases n with
  | posInt n =>
      have h := readNumber_of_readInt (readInt_intText n.toNat hdigit) hrest
      rw [ofInt_posInt] at h
      exact h
  | negInt n =>
      have h := readNumber_of_readInt (readInt_intText (-(n.val : Int) - 1) hdigit) hrest
      rw [ofInt_negInt] at h
      exact h
  | float d =>
      have he : ∀ c, ('e' :: (intText d.exponent ++ rest)).head? = some c →
          digitVal c = none := by
        intro c hc
        rw [← Option.some.inj hc]
        rfl
      simp only [readNumber]
      rw [show numberText (.float d) ++ rest
          = intText d.mantissa ++ 'e' :: (intText d.exponent ++ rest) from
        List.append_assoc _ _ _, readInt_intText _ he]
      show (readInt (intText d.exponent ++ rest)).map _ = _
      rw [readInt_intText _ hdigit]
      rfl

/-! ## Strings -/

def escape (c : Char) : List Char :=
  if c = '"' then ['\\', '"']
  else if c = '\\' then ['\\', '\\']
  else if c.toNat < 32 then
    ['\\', 'u', '0', '0', hexChar (c.toNat / 16), hexChar (c.toNat % 16)]
  else [c]

def charsText : List Char → List Char
  | [] => ['"']
  | c :: rest => escape c ++ charsText rest

def stringText (s : String) : List Char := '"' :: charsText s.toList

/-- A read character in front of the rest of a string. -/
def push (c : Char) (tail : Option (List Char × List Char)) :
    Option (List Char × List Char) :=
  tail.map fun (s, rest) => (c :: s, rest)

/-- The characters up to the closing quote, and what follows it. -/
def readChars : List Char → Option (List Char × List Char)
  | [] => none
  | c :: rest =>
      if c = '"' then some ([], rest)
      else if c = '\\' then
        match rest with
        | '"' :: rest => push '"' (readChars rest)
        | '\\' :: rest => push '\\' (readChars rest)
        | 'u' :: '0' :: '0' :: a :: b :: rest => do
            let hi ← hexDigit a
            let lo ← hexDigit b
            push (Char.ofNat (16 * hi + lo)) (readChars rest)
        | _ => none
      else push c (readChars rest)

theorem readChars_escape (c : Char) (cs : List Char) :
    readChars (escape c ++ cs) = push c (readChars cs) := by
  simp only [escape]
  by_cases hq : c = '"'
  · rw [if_pos hq, hq]
    rfl
  rw [if_neg hq]
  by_cases hb : c = '\\'
  · rw [if_pos hb, hb]
    rfl
  rw [if_neg hb]
  by_cases hc : c.toNat < 32
  · rw [if_pos hc]
    have hi := hexDigit_hexChar (c.toNat / 16) (by omega)
    have lo := hexDigit_hexChar (c.toNat % 16) (by omega)
    have hsum : 16 * (c.toNat / 16) + c.toNat % 16 = c.toNat := by omega
    show (do
      let hi ← hexDigit (hexChar (c.toNat / 16))
      let lo ← hexDigit (hexChar (c.toNat % 16))
      push (Char.ofNat (16 * hi + lo)) (readChars cs)) = _
    rw [hi, lo]
    show push (Char.ofNat (16 * (c.toNat / 16) + c.toNat % 16)) (readChars cs) = _
    rw [hsum, Char.ofNat_toNat]
  · rw [if_neg hc]
    rw [List.singleton_append, readChars.eq_def]
    dsimp only
    rw [if_neg hq, if_neg hb]

theorem readChars_charsText (s rest : List Char) :
    readChars (charsText s ++ rest) = some (s, rest) := by
  induction s with
  | nil =>
      rw [charsText, List.singleton_append, readChars.eq_def]
      rfl
  | cons c s ih =>
      show readChars ((escape c ++ charsText s) ++ rest) = _
      rw [List.append_assoc, readChars_escape, ih]
      rfl

/-! ## Documents -/

mutual

def text : Value → List Char
  | .null => ['n', 'u', 'l', 'l']
  | .bool true => ['t', 'r', 'u', 'e']
  | .bool false => ['f', 'a', 'l', 's', 'e']
  | .number n => numberText n
  | .string s => stringText s
  | .array items => '[' :: itemsText items
  | .object fields => '{' :: fieldsText fields

/-- The items of an array, up to and with its closing bracket. -/
def itemsText : List Value → List Char
  | [] => [']']
  | v :: rest => text v ++ moreItemsText rest

def moreItemsText : List Value → List Char
  | [] => [']']
  | v :: rest => ',' :: (text v ++ moreItemsText rest)

/-- The fields of an object, up to and with its closing brace. -/
def fieldsText : List (String × Value) → List Char
  | [] => ['}']
  | (k, v) :: rest => stringText k ++ ':' :: (text v ++ moreFieldsText rest)

def moreFieldsText : List (String × Value) → List Char
  | [] => ['}']
  | (k, v) :: rest => ',' :: (stringText k ++ ':' :: (text v ++ moreFieldsText rest))

end

/-- What follows a closing character. -/
def closed (close : Char) : List Char → Option (List Char)
  | [] => none
  | c :: rest => if c = close then some rest else none

mutual

/-- Read one value; `fuel` bounds the nesting and the number of items. -/
def readValue : Nat → List Char → Option (Value × List Char)
  | 0, _ => none
  | fuel + 1, cs =>
      match readNumber cs with
      | some (n, rest) => some (.number n, rest)
      | none =>
          match cs with
          | 'n' :: 'u' :: 'l' :: 'l' :: rest => some (.null, rest)
          | 't' :: 'r' :: 'u' :: 'e' :: rest => some (.bool true, rest)
          | 'f' :: 'a' :: 'l' :: 's' :: 'e' :: rest => some (.bool false, rest)
          | '"' :: rest =>
              (readChars rest).map fun (s, rest) => (.string (String.ofList s), rest)
          | '[' :: rest =>
              match readItems fuel rest with
              | some (vs, rest) => some (.array vs, rest)
              | none => (closed ']' rest).map fun rest => (.array [], rest)
          | '{' :: rest =>
              match readFields fuel rest with
              | some (fs, rest) => some (.object fs, rest)
              | none => (closed '}' rest).map fun rest => (.object [], rest)
          | _ => none

def readItems : Nat → List Char → Option (List Value × List Char)
  | 0, _ => none
  | fuel + 1, cs =>
      match readValue fuel cs with
      | some (v, ']' :: rest) => some ([v], rest)
      | some (v, ',' :: rest) =>
          (readItems fuel rest).map fun (vs, rest) => (v :: vs, rest)
      | _ => none

def readFields : Nat → List Char → Option (List (String × Value) × List Char)
  | 0, _ => none
  | fuel + 1, '"' :: cs =>
      match readChars cs with
      | some (k, ':' :: cs) =>
          match readValue fuel cs with
          | some (v, '}' :: rest) => some ([(String.ofList k, v)], rest)
          | some (v, ',' :: rest) =>
              (readFields fuel rest).map fun (fs, rest) => ((String.ofList k, v) :: fs, rest)
          | _ => none
      | _ => none
  | _ + 1, _ => none

end

theorem stops_cons {c : Char} (h : c = ',' ∨ c = ']' ∨ c = '}') (rest : List Char) :
    Stops (c :: rest) := by
  intro x hx
  rw [← Option.some.inj hx]
  rcases h with h | h | h
  · rw [h]; exact ⟨rfl, by decide⟩
  · rw [h]; exact ⟨rfl, by decide⟩
  · rw [h]; exact ⟨rfl, by decide⟩

theorem stops_moreItemsText (vs : List Value) (rest : List Char) :
    Stops (moreItemsText vs ++ rest) := by
  cases vs with
  | nil => exact stops_cons (by decide) rest
  | cons v vs => exact stops_cons (by decide) _

theorem stops_moreFieldsText (fs : List (String × Value)) (rest : List Char) :
    Stops (moreFieldsText fs ++ rest) := by
  cases fs with
  | nil => exact stops_cons (by decide) rest
  | cons f fs => exact stops_cons (by decide) _

theorem readItems_close (fuel : Nat) (rest : List Char) :
    readItems fuel (']' :: rest) = none := by
  cases fuel with
  | zero => rfl
  | succ fuel =>
      cases fuel with
      | zero => rfl
      | succ fuel => rfl

theorem readFields_close (fuel : Nat) (rest : List Char) :
    readFields fuel ('}' :: rest) = none := by
  cases fuel with
  | zero => rfl
  | succ fuel => rfl

theorem natText_length_pos (n : Nat) : 0 < (natText n).length := by
  simp only [natText]
  rw [List.length_map]
  exact List.length_pos_of_ne_nil (natDigits_ne_nil n)

theorem intText_length_pos (z : Int) : 0 < (intText z).length := by
  simp only [intText]
  split
  · exact Nat.succ_pos _
  · exact natText_length_pos _

theorem text_length_pos (v : Value) : 0 < (text v).length := by
  cases v with
  | bool b => cases b <;> exact Nat.succ_pos _
  | number n =>
      cases n with
      | posInt n => exact intText_length_pos n.toNat
      | negInt n => exact intText_length_pos (-(n.val : Int) - 1)
      | float d =>
          show 0 < (intText d.mantissa ++ 'e' :: intText d.exponent).length
          rw [List.length_append]
          exact Nat.add_pos_left (intText_length_pos _) _
  | _ => exact Nat.succ_pos _

theorem moreItemsText_length_pos (vs : List Value) : 0 < (moreItemsText vs).length := by
  cases vs <;> exact Nat.succ_pos _

theorem moreFieldsText_length_pos (fs : List (String × Value)) :
    0 < (moreFieldsText fs).length := by
  cases fs <;> exact Nat.succ_pos _

mutual

/-- Enough fuel reads a printed value back and stops where it ends. -/
theorem readValue_text (v : Value) (fuel : Nat) (rest : List Char)
    (hfuel : (text v).length ≤ fuel) (hrest : Stops rest) :
    readValue fuel (text v ++ rest) = some (v, rest) := by
  have hpos := text_length_pos v
  obtain ⟨fuel, rfl⟩ : ∃ f, fuel = f + 1 := ⟨fuel - 1, by omega⟩
  match v with
  | .null => rfl
  | .bool true => rfl
  | .bool false => rfl
  | .number n =>
      simp only [readValue]
      show (match readNumber (numberText n ++ rest) with
        | some (n, rest) => _ | none => _) = _
      rw [readNumber_numberText n hrest]
  | .string s =>
      show (readChars (charsText s.toList ++ rest)).map _ = _
      rw [readChars_charsText]
      show some (Value.string (String.ofList s.toList), rest) = _
      rw [String.ofList_toList]
  | .array [] =>
      show (match readItems fuel (']' :: rest) with
        | some (vs, rest) => _ | none => _) = _
      rw [readItems_close]
      rfl
  | .array (v :: vs) =>
      show (match readItems fuel (text v ++ moreItemsText vs ++ rest) with
        | some (vs, rest) => some (Value.array vs, rest) | none => _) = _
      rw [readItems_text v vs fuel rest (Nat.le_of_succ_le_succ hfuel)]
  | .object [] =>
      show (match readFields fuel ('}' :: rest) with
        | some (fs, rest) => _ | none => _) = _
      rw [readFields_close]
      rfl
  | .object ((k, v) :: fs) =>
      show (match readFields fuel
          (stringText k ++ ':' :: (text v ++ moreFieldsText fs) ++ rest) with
        | some (fs, rest) => some (Value.object fs, rest) | none => _) = _
      rw [readFields_text k v fs fuel rest (Nat.le_of_succ_le_succ hfuel)]
termination_by fuel

theorem readItems_text (v : Value) (vs : List Value) (fuel : Nat) (rest : List Char)
    (hfuel : (text v ++ moreItemsText vs).length ≤ fuel) :
    readItems fuel (text v ++ moreItemsText vs ++ rest) = some (v :: vs, rest) := by
  rw [List.length_append] at hfuel
  have hpos := moreItemsText_length_pos vs
  obtain ⟨fuel, rfl⟩ : ∃ f, fuel = f + 1 := ⟨fuel - 1, by omega⟩
  have hv := readValue_text v fuel (moreItemsText vs ++ rest) (by omega)
    (stops_moreItemsText vs rest)
  rw [List.append_assoc, readItems, hv]
  match vs with
  | [] => rfl
  | w :: vs =>
      have hlen : (moreItemsText (w :: vs)).length
          = (text w ++ moreItemsText vs).length + 1 := rfl
      show (readItems fuel (text w ++ moreItemsText vs ++ rest)).map _ = _
      rw [readItems_text w vs fuel rest (by omega)]
      rfl
termination_by fuel

theorem readFields_text (k : String) (v : Value) (fs : List (String × Value)) (fuel : Nat)
    (rest : List Char)
    (hfuel : (stringText k ++ ':' :: (text v ++ moreFieldsText fs)).length ≤ fuel) :
    readFields fuel (stringText k ++ ':' :: (text v ++ moreFieldsText fs) ++ rest)
      = some ((k, v) :: fs, rest) := by
  rw [List.length_append, List.length_cons, List.length_append] at hfuel
  have hpos := moreFieldsText_length_pos fs
  obtain ⟨fuel, rfl⟩ : ∃ f, fuel = f + 1 := ⟨fuel - 1, by omega⟩
  have hv := readValue_text v fuel (moreFieldsText fs ++ rest) (by omega)
    (stops_moreFieldsText fs rest)
  rw [List.append_assoc, List.cons_append, List.append_assoc, stringText,
    List.cons_append, readFields, readChars_charsText]
  show (match readValue fuel (text v ++ (moreFieldsText fs ++ rest)) with
    | some (v, '}' :: rest) => some ([(String.ofList k.toList, v)], rest)
    | some (v, ',' :: rest) =>
        (readFields fuel rest).map fun (fs, rest) => ((String.ofList k.toList, v) :: fs, rest)
    | _ => none) = _
  rw [hv, String.ofList_toList]
  match fs with
  | [] => rfl
  | (k', w) :: fs =>
      have hlen : (moreFieldsText ((k', w) :: fs)).length
          = (stringText k' ++ ':' :: (text w ++ moreFieldsText fs)).length + 1 := rfl
      show (readFields fuel
        (stringText k' ++ ':' :: (text w ++ moreFieldsText fs) ++ rest)).map _ = _
      rw [readFields_text k' w fs fuel rest (by omega)]
      rfl
termination_by fuel

end

/-! ## Bytes -/

def utf8 (cs : List Char) : Bytes := cs.flatMap String.utf8EncodeChar

def chars (bs : Bytes) : Option (List Char) :=
  bs.toByteArray.utf8Decode?.map Array.toList

theorem chars_utf8 (cs : List Char) : chars (utf8 cs) = some cs := by
  show cs.utf8Encode.utf8Decode?.map Array.toList = _
  rw [List.utf8Decode?_utf8Encode]
  rfl

theorem utf8_append (cs ds : List Char) : utf8 (cs ++ ds) = utf8 cs ++ utf8 ds :=
  List.flatMap_append

/-- Print a document compactly. -/
def toVec (v : Value) : Bytes := utf8 (text v)

/-- Read a whole text as one document. -/
def fromSlice (bs : Bytes) : Option Value := do
  let cs ← chars bs
  match readValue cs.length cs with
  | some (v, []) => some v
  | _ => none

/-- The spelling of the one value a text holds. -/
def rawValue (bs : Bytes) : Option Bytes := (fromSlice bs).map fun _ => bs

/-- The spellings of the items of an array, from just after its bracket. -/
def rawItems : Nat → List Char → Option (List (List Char))
  | 0, _ => none
  | fuel + 1, cs =>
      match readValue fuel cs with
      | some (_, [']']) => some [cs.take (cs.length - 1)]
      | some (_, ',' :: rest) =>
          (rawItems fuel rest).map (cs.take (cs.length - (rest.length + 1)) :: ·)
      | _ => none

/-- The spellings of the items of the array a text holds. -/
def rawArray (bs : Bytes) : Option (List Bytes) := do
  let cs ← chars bs
  let inner ← closed '[' cs
  match rawItems inner.length inner with
  | some items => some (items.map utf8)
  | none => if inner = [']'] then some [] else none

theorem fromSlice_toVec (v : Value) : fromSlice (toVec v) = some v := by
  have hread := readValue_text v (text v).length [] (Nat.le_refl _) (fun _ h => nomatch h)
  rw [List.append_nil] at hread
  simp only [fromSlice, toVec]
  rw [chars_utf8]
  show (match readValue (text v).length (text v) with | some (v, []) => some v | _ => none) = _
  rw [hread]

mutual

theorem mapFloat_id (v : Value) : v.mapFloat id = v := by
  match v with
  | .null => rfl
  | .bool b => rfl
  | .number (.posInt n) => rfl
  | .number (.negInt n) => rfl
  | .number (.float d) => rfl
  | .string s => rfl
  | .array items =>
      show Value.array (mapFloatItems id items) = _
      rw [mapFloatItems_id items]
  | .object fields =>
      show Value.object (mapFloatFields id fields) = _
      rw [mapFloatFields_id fields]

theorem mapFloatItems_id (items : List Value) : mapFloatItems id items = items := by
  match items with
  | [] => rfl
  | v :: rest =>
      show v.mapFloat id :: mapFloatItems id rest = _
      rw [mapFloat_id v, mapFloatItems_id rest]

theorem mapFloatFields_id (fields : List (String × Value)) :
    mapFloatFields id fields = fields := by
  match fields with
  | [] => rfl
  | (k, v) :: rest =>
      show (k, v.mapFloat id) :: mapFloatFields id rest = _
      rw [mapFloat_id v, mapFloatFields_id rest]

end

theorem utf8_moreItemsText (vs : List Value) (e : Bytes) :
    e ++ utf8 (moreItemsText vs)
      = joinComma (e :: vs.map toVec) ++ [closeBracket] := by
  induction vs generalizing e with
  | nil => rfl
  | cons v rest ih =>
      show e ++ utf8 ([','] ++ (text v ++ moreItemsText rest)) = _
      rw [utf8_append, utf8_append]
      show e ++ comma :: (toVec v ++ utf8 (moreItemsText rest)) = _
      rw [ih]
      show _ = (e ++ comma :: joinComma (toVec v :: rest.map toVec)) ++ [closeBracket]
      rw [List.append_assoc]
      rfl

theorem toVec_array (vs : List Value) : toVec (.array vs) = arrayText (vs.map toVec) := by
  show utf8 (['['] ++ itemsText vs) = _
  rw [utf8_append]
  show openBracket :: utf8 (itemsText vs) = openBracket :: _
  cases vs with
  | nil => rfl
  | cons v rest =>
      show openBracket :: utf8 (text v ++ moreItemsText rest) = _
      rw [utf8_append, show utf8 (text v) = toVec v from rfl, utf8_moreItemsText]
      rfl

theorem take_spelling (cs ds : List Char) :
    (cs ++ ds).take ((cs ++ ds).length - ds.length) = cs := by
  rw [List.length_append, Nat.add_sub_cancel, List.take_left]

theorem rawItems_text (v : Value) (vs : List Value) (fuel : Nat)
    (hfuel : (text v ++ moreItemsText vs).length ≤ fuel) :
    rawItems fuel (text v ++ moreItemsText vs) = some ((v :: vs).map text) := by
  induction vs generalizing v fuel with
  | nil =>
      rw [List.length_append, show (moreItemsText []).length = 1 from rfl] at hfuel
      obtain ⟨fuel, rfl⟩ : ∃ f, fuel = f + 1 := ⟨fuel - 1, by omega⟩
      have hstop : Stops (moreItemsText []) := stops_cons (by decide) []
      rw [rawItems, readValue_text v fuel _ (by omega) hstop]
      show some [(text v ++ [']']).take ((text v ++ [']']).length - [']'].length)] = _
      rw [take_spelling]
      rfl
  | cons w rest ih =>
      have hlen : (moreItemsText (w :: rest)).length
          = (text w ++ moreItemsText rest).length + 1 := rfl
      rw [List.length_append, hlen] at hfuel
      obtain ⟨fuel, rfl⟩ : ∃ f, fuel = f + 1 := ⟨fuel - 1, by omega⟩
      have hstop : Stops (moreItemsText (w :: rest)) := stops_cons (by decide) _
      rw [rawItems, readValue_text v fuel _ (by omega) hstop]
      show (rawItems fuel (text w ++ moreItemsText rest)).map
        ((text v ++ moreItemsText (w :: rest)).take
          ((text v ++ moreItemsText (w :: rest)).length
            - (moreItemsText (w :: rest)).length) :: ·) = _
      rw [take_spelling, ih w fuel (by omega)]
      rfl

theorem rawArray_arrayText (vs : List Value) :
    rawArray (arrayText (vs.map toVec)) = some (vs.map toVec) := by
  rw [← toVec_array]
  simp only [rawArray, toVec]
  rw [chars_utf8]
  show (match rawItems (itemsText vs).length (itemsText vs) with
    | some items => some (items.map utf8)
    | none => if itemsText vs = [']'] then some [] else none) = _
  cases vs with
  | nil => rfl
  | cons v rest =>
      have hraw := rawItems_text v rest _ (Nat.le_refl _)
      rw [show itemsText (v :: rest) = text v ++ moreItemsText rest from rfl, hraw]
      show some (((v :: rest).map text).map utf8) = _
      rw [List.map_map]
      rfl

/-- A printed value reads back, its floats as they were. -/
theorem fromSlice_printed (v : Value) : fromSlice (toVec v) = some (v.mapFloat id) := by
  rw [fromSlice_toVec, mapFloat_id]

/-- The compact printer and its reader, as a codec. -/
def codec : Codec where
  toVec := toVec
  fromSlice := fromSlice
  rawValue := rawValue
  rawArray := rawArray
  refloat := id
  fromSlice_toVec := fromSlice_printed
  toVec_array := toVec_array
  rawArray_arrayText := rawArray_arrayText

/-! ## Whitespace around a value -/

def trimSpace (bs : Bytes) : Bytes :=
  ((bs.dropWhile isJsonSpace).reverse.dropWhile isJsonSpace).reverse

/-- The same codec, reading a value out of the whitespace around it. -/
def spacedCodec : Codec where
  toVec := toVec
  fromSlice := fromSlice
  rawValue bs := rawValue (trimSpace bs)
  rawArray := rawArray
  refloat := id
  fromSlice_toVec := fromSlice_printed
  toVec_array := toVec_array
  rawArray_arrayText := rawArray_arrayText

/-- A printed value that neither starts nor ends with whitespace. -/
def IsPrinted (e : Bytes) : Prop :=
  (∃ v, e = toVec v) ∧ (∃ b rest, e = b :: rest ∧ isJsonSpace b = false) ∧
    ∃ front b, e = front ++ [b] ∧ isJsonSpace b = false

theorem dropWhile_spaces {before rest : Bytes} {b : UInt8}
    (h : ∀ x ∈ before, isJsonSpace x) (hb : isJsonSpace b = false) :
    (before ++ b :: rest).dropWhile isJsonSpace = b :: rest := by
  rw [List.dropWhile_append_of_pos h, List.dropWhile_cons_of_neg (by rw [hb]; decide)]

/-- Trimming takes off the whitespace on both sides and nothing of what stands
    between. -/
theorem trimSpace_ends {before e after : Bytes}
    (hfirst : ∃ b rest, e = b :: rest ∧ isJsonSpace b = false)
    (hlast : ∃ front b, e = front ++ [b] ∧ isJsonSpace b = false)
    (hbefore : ∀ b ∈ before, isJsonSpace b) (hafter : ∀ b ∈ after, isJsonSpace b) :
    trimSpace (before ++ e ++ after) = e := by
  obtain ⟨b, rest, hfirst, hb⟩ := hfirst
  obtain ⟨front, c, hlast, hc⟩ := hlast
  simp only [trimSpace]
  have hdrop : (before ++ e ++ after).dropWhile isJsonSpace = e ++ after := by
    rw [hfirst, List.append_assoc, List.cons_append, dropWhile_spaces hbefore hb]
  have hrev : (e ++ after).reverse = after.reverse ++ c :: front.reverse := by
    rw [hlast, List.reverse_append, List.reverse_append]
    rfl
  have hspaces : ∀ x ∈ after.reverse, isJsonSpace x :=
    fun x hx => hafter x (List.mem_reverse.mp hx)
  rw [hdrop, hrev, dropWhile_spaces hspaces hc, List.reverse_cons, List.reverse_reverse, hlast]

theorem trimSpace_spaced {before e after : Bytes} (he : IsPrinted e)
    (hbefore : ∀ b ∈ before, isJsonSpace b) (hafter : ∀ b ∈ after, isJsonSpace b) :
    trimSpace (before ++ e ++ after) = e :=
  trimSpace_ends he.2.1 he.2.2 hbefore hafter

theorem exists_map_toVec {es : List Bytes} (h : ∀ e ∈ es, IsPrinted e) :
    ∃ vs : List Value, es = vs.map toVec := by
  induction es with
  | nil => exact ⟨[], rfl⟩
  | cons e rest ih =>
      obtain ⟨⟨v, hv⟩, -, -⟩ := h e (List.mem_cons_self ..)
      obtain ⟨vs, hvs⟩ := ih fun x hx => h x (List.mem_cons_of_mem _ hx)
      exact ⟨v :: vs, by rw [hv, hvs, List.map_cons]⟩

/-- Printed values come back byte for byte from both raw readers. -/
def spacedReader : RawReader spacedCodec where
  IsValue := IsPrinted
  rawValue_spaced := by
    intro before e after he hbefore hafter
    show rawValue (trimSpace (before ++ e ++ after)) = some e
    rw [trimSpace_spaced he hbefore hafter]
    obtain ⟨⟨v, rfl⟩, -, -⟩ := he
    simp only [rawValue]
    rw [fromSlice_toVec]
    rfl
  rawArray_join := by
    intro es hes
    obtain ⟨vs, rfl⟩ := exists_map_toVec hes
    exact rawArray_arrayText vs
  isValue_join := by
    intro es hes
    obtain ⟨vs, rfl⟩ := exists_map_toVec hes
    refine ⟨⟨.array vs, (toVec_array vs).symm⟩, ⟨_, _, rfl, rfl⟩, ?_⟩
    exact ⟨openBracket :: joinComma (vs.map toVec), closeBracket, rfl, rfl⟩

end JsonText
