import Mathlib
import Neve.JsonValueProofs

/-! # Byte spellings — hexadecimal, Base58, little-endian words

    The spellings that wire formats use for byte strings and machine words,
    each with the law its readers rely on: reading back what was written gives
    the same bytes.  Base58 is the standard change of radix that keeps leading
    zeros; the law is proved for any two radixes at once (`convert_convert`)
    and instantiated at 256 and 58. -/

namespace ByteText

open JsonValue (Bytes)

/-- A byte string of length 32. -/
abbrev Bytes32 := Vector UInt8 32

/-- A byte string as a 32-byte array, when it has that length. -/
def toBytes32 (bs : Bytes) : Option Bytes32 :=
  if h : bs.length = 32 then some ⟨bs.toArray, by simpa using h⟩ else none

theorem toBytes32_toList (b : Bytes32) : toBytes32 b.toList = some b := by
  simp only [toBytes32]
  rw [dif_pos (by simp)]
  rfl

theorem toList_of_toBytes32 {bs : Bytes} {b : Bytes32} (h : toBytes32 bs = some b) :
    bs = b.toList := by
  by_cases hlen : bs.length = 32
  · rw [toBytes32, dif_pos hlen] at h
    obtain rfl := Option.some.inj h
    rfl
  · rw [toBytes32, dif_neg hlen] at h
    cases h

/-! ## Little-endian words -/

/-- The low `w` bytes of `n`, least significant first. -/
def toLeBytes : Nat → Nat → Bytes
  | 0, _ => []
  | w + 1, n => UInt8.ofNat (n % 256) :: toLeBytes w (n / 256)

def fromLeBytes : Bytes → Nat
  | [] => 0
  | b :: rest => b.toNat + 256 * fromLeBytes rest

@[simp] theorem toLeBytes_length (w n : Nat) : (toLeBytes w n).length = w := by
  induction w generalizing n with
  | zero => rfl
  | succ w ih =>
      show (toLeBytes w (n / 256)).length + 1 = w + 1
      rw [ih]

/-- Reading back the `w` low bytes of a number keeps it modulo `256 ^ w`. -/
theorem fromLeBytes_toLeBytes (w n : Nat) :
    fromLeBytes (toLeBytes w n) = n % 256 ^ w := by
  induction w generalizing n with
  | zero => exact (Nat.mod_one n).symm
  | succ w ih =>
      show (UInt8.ofNat (n % 256)).toNat + 256 * fromLeBytes (toLeBytes w (n / 256))
        = n % 256 ^ (w + 1)
      have hb : (UInt8.ofNat (n % 256)).toNat = n % 256 := by
        rw [UInt8.toNat_ofNat']
        exact Nat.mod_mod n 256
      rw [ih, hb, pow_succ, Nat.mul_comm (256 ^ w) 256, Nat.mod_mul]

/-! ## Hexadecimal -/

/-- The value of one hexadecimal digit, either case. -/
def hexDigit (c : Char) : Option Nat :=
  if '0' ≤ c ∧ c ≤ '9' then some (c.toNat - 48)
  else if 'a' ≤ c ∧ c ≤ 'f' then some (c.toNat - 87)
  else if 'A' ≤ c ∧ c ≤ 'F' then some (c.toNat - 55)
  else none

/-- Read a text of hexadecimal digit pairs. -/
def hexDecode : List Char → Option Bytes
  | [] => some []
  | [_] => none
  | a :: b :: rest => do
      let hi ← hexDigit a
      let lo ← hexDigit b
      let bs ← hexDecode rest
      pure (UInt8.ofNat (16 * hi + lo) :: bs)

/-- The lower-case digits, in order of value. -/
def hexAlphabet : List Char :=
  ['0', '1', '2', '3', '4', '5', '6', '7', '8', '9', 'a', 'b', 'c', 'd', 'e', 'f']

def hexChar (n : Nat) : Char := hexAlphabet.getD n '0'

/-- Write bytes as lower-case hexadecimal. -/
def hexEncode : Bytes → List Char
  | [] => []
  | b :: rest => hexChar (b.toNat / 16) :: hexChar (b.toNat % 16) :: hexEncode rest

theorem hexDigit_hexChar : ∀ n < 16, hexDigit (hexChar n) = some n := by
  decide

/-- Reading the digits of a byte string gives it back. -/
theorem hexDecode_hexEncode (bs : Bytes) : hexDecode (hexEncode bs) = some bs := by
  induction bs with
  | nil => rfl
  | cons b rest ih =>
      have hb : b.toNat < 256 := b.toNat_lt
      have hi := hexDigit_hexChar (b.toNat / 16) (by omega)
      have lo := hexDigit_hexChar (b.toNat % 16) (by omega)
      have hsum : 16 * (b.toNat / 16) + b.toNat % 16 = b.toNat := by omega
      show (do
        let hi ← hexDigit (hexChar (b.toNat / 16))
        let lo ← hexDigit (hexChar (b.toNat % 16))
        let bs ← hexDecode (hexEncode rest)
        pure (UInt8.ofNat (16 * hi + lo) :: bs)) = some (b :: rest)
      rw [hi, lo, ih]
      show some (UInt8.ofNat (16 * (b.toNat / 16) + b.toNat % 16) :: rest)
        = some (b :: rest)
      rw [hsum, UInt8.ofNat_toNat]

/-- Drop every leading occurrence of the marker `0x`. -/
def trimStart0x : List Char → List Char
  | '0' :: 'x' :: rest => trimStart0x rest
  | cs => cs

/-- Hexadecimal digits hold no marker. -/
theorem trimStart0x_hexEncode (bs : Bytes) : trimStart0x (hexEncode bs) = hexEncode bs := by
  cases bs with
  | nil => rfl
  | cons b rest =>
      have hx : ∀ n < 16, hexChar n ≠ 'x' := by decide
      have hb := hx (b.toNat % 16) (Nat.mod_lt _ (by decide))
      unfold hexEncode trimStart0x
      split
      · rename_i heq
        rw [List.cons.injEq, List.cons.injEq] at heq
        exact absurd heq.2.1 hb
      · rfl

/-- Drop one leading marker `0x`, if the text has it. -/
def stripPrefix0x : List Char → Option (List Char)
  | '0' :: 'x' :: rest => some rest
  | _ => none

/-- Hexadecimal digits to a number, most significant first. -/
def hexNumber : List Char → Nat → Option Nat
  | [], acc => some acc
  | c :: rest, acc => do
      let d ← hexDigit c
      hexNumber rest (16 * acc + d)

/-- Drop a leading plus sign. -/
def dropPlus : List Char → List Char
  | '+' :: rest => rest
  | cs => cs

/-- A 64-bit number in radix 16: an optional plus sign, at least one digit, and
    a value that fits. -/
def u64FromRadix16 (cs : List Char) : Option Nat :=
  let digits := dropPlus cs
  if digits = [] then none
  else (hexNumber digits 0).bind fun n => if n < 2 ^ 64 then some n else none

theorem u64FromRadix16_lt {cs : List Char} {n : Nat}
    (h : u64FromRadix16 cs = some n) : n < 2 ^ 64 := by
  simp only [u64FromRadix16] at h
  split at h
  · cases h
  · obtain ⟨m, -, hm⟩ := Option.bind_eq_some_iff.mp h
    by_cases hlt : m < 2 ^ 64
    · rw [if_pos hlt] at hm
      rw [← Option.some.inj hm]
      exact hlt
    · rw [if_neg hlt] at hm
      cases hm

/-! ## Hexadecimal numbers as they are written -/

/-- A number with the marker `0x` and lower-case digits. -/
def lowerHexText (n : Nat) : String := String.ofList ('0' :: 'x' :: Nat.toDigits 16 n)

theorem hexDigit_digitChar : ∀ d < 16, hexDigit (Nat.digitChar d) = some d := by
  decide

theorem hexNumber_concat (cs : List Char) (c : Char) (acc : Nat) :
    hexNumber (cs ++ [c]) acc
      = (hexNumber cs acc).bind fun n => (hexDigit c).map fun d => 16 * n + d := by
  induction cs generalizing acc with
  | nil =>
      simp only [List.nil_append, hexNumber]
      cases hexDigit c <;> rfl
  | cons x rest ih =>
      simp only [List.cons_append, hexNumber]
      cases hexDigit x with
      | none => rfl
      | some d => exact ih (16 * acc + d)

/-- Digits in front of the last one are those of the number without it. -/
theorem toDigits_concat {n : Nat} (h : 16 ≤ n) :
    Nat.toDigits 16 n = Nat.toDigits 16 (n / 16) ++ [Nat.digitChar (n % 16)] :=
  Nat.toDigits_of_base_le (by decide) h

theorem hexNumber_toDigits (n : Nat) : hexNumber (Nat.toDigits 16 n) 0 = some n := by
  induction n using Nat.strongRecOn with
  | ind n ih =>
      by_cases hlt : n < 16
      · rw [Nat.toDigits_of_lt_base hlt]
        simp only [hexNumber, hexDigit_digitChar n hlt]
        show some (16 * 0 + n) = some n
        rw [Nat.mul_zero, Nat.zero_add]
      · rw [toDigits_concat (by omega), hexNumber_concat, ih (n / 16) (by omega),
          Option.bind_some, hexDigit_digitChar (n % 16) (by omega), Option.map_some]
        congr 1
        omega

/-- The digits of a number are digits. -/
theorem hexDigit_of_mem_toDigits {n : Nat} {c : Char} (h : c ∈ Nat.toDigits 16 n) :
    (hexDigit c).isSome = true := by
  induction n using Nat.strongRecOn with
  | ind n ih =>
      by_cases hlt : n < 16
      · rw [Nat.toDigits_of_lt_base hlt, List.mem_singleton] at h
        rw [h, hexDigit_digitChar n hlt]
        rfl
      · rw [toDigits_concat (by omega), List.mem_append, List.mem_singleton] at h
        rcases h with h | rfl
        · exact ih (n / 16) (by omega) h
        · rw [hexDigit_digitChar (n % 16) (by omega)]
          rfl

/-- **Reading a number back** in radix 16. -/
theorem u64FromRadix16_toDigits {n : Nat} (h : n < 2 ^ 64) :
    u64FromRadix16 (Nat.toDigits 16 n) = some n := by
  have hplus : dropPlus (Nat.toDigits 16 n) = Nat.toDigits 16 n := by
    cases hd : Nat.toDigits 16 n with
    | nil => rfl
    | cons c rest =>
        have hc : (hexDigit c).isSome = true :=
          hexDigit_of_mem_toDigits (hd ▸ List.mem_cons_self ..)
        have hne : c ≠ '+' := fun heq => by rw [heq] at hc; exact absurd hc (by decide)
        simp only [dropPlus]
        split
        · rename_i heq
          exact absurd (List.cons.inj heq).1 hne
        · rfl
  simp only [u64FromRadix16]
  rw [hplus, if_neg Nat.toDigits_ne_nil, hexNumber_toDigits, Option.bind_some, if_pos h]

/-- A text of digits has no marker to drop. -/
theorem trimStart0x_toDigits (n : Nat) :
    trimStart0x (Nat.toDigits 16 n) = Nat.toDigits 16 n := by
  have hx : 'x' ∉ Nat.toDigits 16 n := fun h => by
    have hd := hexDigit_of_mem_toDigits h
    exact absurd hd (by decide)
  generalize Nat.toDigits 16 n = cs at hx ⊢
  rw [trimStart0x.eq_def]
  split
  · exact absurd (List.mem_cons_of_mem _ (List.mem_cons_self ..)) hx
  · rfl

/-! ## Decimal -/

def decDigit (c : Char) : Option Nat :=
  if '0' ≤ c ∧ c ≤ '9' then some (c.toNat - 48) else none

/-- Decimal digits to a number, most significant first. -/
def decNumber : List Char → Nat → Option Nat
  | [], acc => some acc
  | c :: rest, acc => do
      let d ← decDigit c
      decNumber rest (10 * acc + d)

/-- A number below `bound` in radix 10: an optional plus sign, at least one
    digit, and a value that fits. -/
def parseDecimal (bound : Nat) (cs : List Char) : Option Nat :=
  let digits := dropPlus cs
  if digits = [] then none
  else (decNumber digits 0).bind fun n => if n < bound then some n else none

/-! ## Change of radix, leading zeros kept -/

/-- The number spelled by big-endian digits. -/
def ofBigEndian (b : Nat) (ds : List Nat) : Nat := Nat.ofDigits b ds.reverse

/-- The big-endian digits of a number, with no leading zero. -/
def toBigEndian (b n : Nat) : List Nat := (Nat.digits b n).reverse

def leadingZeros (ds : List Nat) : List Nat := ds.takeWhile (· == 0)

def convert (b c : Nat) (ds : List Nat) : List Nat :=
  leadingZeros ds ++ toBigEndian c (ofBigEndian b ds)

theorem leadingZeros_eq_replicate (ds : List Nat) :
    leadingZeros ds = List.replicate (leadingZeros ds).length 0 := by
  refine List.eq_replicate_iff.mpr ⟨rfl, ?_⟩
  intro d hd
  have hz : (leadingZeros ds).all (· == 0) = true := List.all_takeWhile
  exact eq_of_beq (List.all_eq_true.mp hz d hd)

/-- Leading zeros do not change the number spelled. -/
theorem ofBigEndian_zeros (b k : Nat) (ds : List Nat) :
    ofBigEndian b (List.replicate k 0 ++ ds) = ofBigEndian b ds := by
  simp only [ofBigEndian]
  rw [List.reverse_append, List.reverse_replicate, Nat.ofDigits_append_replicate_zero]

theorem ofBigEndian_toBigEndian (b n : Nat) :
    ofBigEndian b (toBigEndian b n) = n := by
  simp only [ofBigEndian, toBigEndian]
  rw [List.reverse_reverse, Nat.ofDigits_digits]

/-- A digit string with no leading zero is the canonical one. -/
theorem toBigEndian_ofBigEndian {b : Nat} (hb : 1 < b) {ds : List Nat}
    (hlt : ∀ d ∈ ds, d < b) (hhead : ds.head? ≠ some 0) :
    toBigEndian b (ofBigEndian b ds) = ds := by
  simp only [ofBigEndian, toBigEndian]
  rw [Nat.digits_ofDigits b hb ds.reverse (fun d hd => hlt d (List.mem_reverse.mp hd))]
  · exact List.reverse_reverse ds
  · intro hne hzero
    rw [List.getLast_reverse] at hzero
    refine hhead ?_
    rw [List.head?_eq_some_head (fun h => hne (by rw [h]; rfl)), hzero]

/-- The canonical digits of a number do not start with a zero. -/
theorem head?_toBigEndian_ne_zero {b : Nat} (n : Nat) :
    (toBigEndian b n).head? ≠ some 0 := by
  simp only [toBigEndian]
  intro h
  rw [List.head?_reverse] at h
  by_cases hn : n = 0
  · rw [hn, Nat.digits_zero] at h
    cases h
  · have hne : Nat.digits b n ≠ [] := Nat.digits_ne_nil_iff_ne_zero.mpr hn
    rw [List.getLast?_eq_some_getLast hne] at h
    exact Nat.getLast_digit_ne_zero b hn (Option.some.inj h)

theorem leadingZeros_append (k : Nat) {ds : List Nat} (hhead : ds.head? ≠ some 0) :
    leadingZeros (List.replicate k 0 ++ ds) = List.replicate k 0 := by
  induction k with
  | zero =>
      cases ds with
      | nil => rfl
      | cons d rest =>
          have hd : (d == 0) = false := by
            cases hd : d == 0 with
            | false => rfl
            | true => exact absurd (congrArg some (eq_of_beq hd)) hhead
          show List.takeWhile (· == 0) (d :: rest) = []
          rw [List.takeWhile_cons, hd]
          rfl
  | succ k ih =>
      show List.takeWhile (· == 0) (0 :: (List.replicate k 0 ++ ds)) = _
      rw [List.takeWhile_cons]
      show 0 :: leadingZeros (List.replicate k 0 ++ ds) = _
      rw [ih, List.replicate_succ]

/-- Changing the radix keeps the leading zeros. -/
theorem leadingZeros_convert (b c : Nat) (ds : List Nat) :
    leadingZeros (convert b c ds) = leadingZeros ds := by
  simp only [convert]
  rw [leadingZeros_eq_replicate ds]
  exact leadingZeros_append _ (head?_toBigEndian_ne_zero _)

/-- Changing the radix keeps the number spelled. -/
theorem ofBigEndian_convert (b c : Nat) (ds : List Nat) :
    ofBigEndian c (convert b c ds) = ofBigEndian b ds := by
  simp only [convert]
  rw [leadingZeros_eq_replicate ds, ofBigEndian_zeros, ofBigEndian_toBigEndian]

/-- A digit string is its leading zeros followed by the canonical digits of
    its number. -/
theorem convert_self {b : Nat} (hb : 1 < b) {ds : List Nat} (hlt : ∀ d ∈ ds, d < b) :
    convert b b ds = ds := by
  have hsplit : ds = leadingZeros ds ++ ds.dropWhile (· == 0) :=
    (List.takeWhile_append_dropWhile).symm
  have hrest : (ds.dropWhile (· == 0)).head? ≠ some 0 := by
    intro h
    have hf := List.head?_dropWhile_not (· == 0) ds
    rw [h] at hf
    cases hf
  have hnum : ofBigEndian b ds = ofBigEndian b (ds.dropWhile (· == 0)) := by
    conv => lhs; rw [hsplit, leadingZeros_eq_replicate ds]
    exact ofBigEndian_zeros b _ _
  rw [convert, hnum,
    toBigEndian_ofBigEndian hb (fun d hd => hlt d (List.dropWhile_subset _ hd)) hrest]
  exact hsplit.symm

/-- The leading zeros and the number are all there is to a digit string. -/
theorem convert_eq_iff {b c : Nat} (hc : 1 < c) {ds es : List Nat}
    (hlt : ∀ e ∈ es, e < c) :
    convert b c ds = es ↔
      leadingZeros es = leadingZeros ds ∧ ofBigEndian c es = ofBigEndian b ds := by
  constructor
  · intro h
    rw [← h]
    exact ⟨leadingZeros_convert b c ds, ofBigEndian_convert b c ds⟩
  · rintro ⟨hz, hn⟩
    have hself := convert_self hc hlt
    simp only [convert] at hself ⊢
    rw [← hz, ← hn, hself]

/-- **Radix change is invertible** on digit strings of the source radix. -/
theorem convert_convert {b c : Nat} (hb : 1 < b) {ds : List Nat}
    (hlt : ∀ d ∈ ds, d < b) : convert c b (convert b c ds) = ds :=
  (convert_eq_iff hb hlt).mpr
    ⟨(leadingZeros_convert b c ds).symm, (ofBigEndian_convert b c ds).symm⟩

theorem convert_lt {b c : Nat} (hc : 1 < c) {ds : List Nat} :
    ∀ d ∈ convert b c ds, d < c := by
  intro d hd
  rcases List.mem_append.mp hd with hz | hdig
  · rw [leadingZeros_eq_replicate] at hz
    rw [(List.mem_replicate.mp hz).2]
    omega
  · exact Nat.digits_lt_base hc (List.mem_reverse.mp hdig)

/-! ## Base58 -/

def base58Alphabet : List Char :=
  "123456789ABCDEFGHJKLMNPQRSTUVWXYZabcdefghijkmnopqrstuvwxyz".toList

def base58Char (d : Nat) : Char := base58Alphabet.getD d '1'

def base58Digit (c : Char) : Option Nat :=
  if c ∈ base58Alphabet then some (base58Alphabet.idxOf c) else none

def base58Encode (bs : Bytes) : String :=
  String.ofList ((convert 256 58 (bs.map UInt8.toNat)).map base58Char)

def base58Decode (s : String) : Option Bytes := do
  let ds ← s.toList.mapM base58Digit
  pure ((convert 58 256 ds).map UInt8.ofNat)

theorem base58Digit_base58Char : ∀ d < 58, base58Digit (base58Char d) = some d := by
  decide

theorem mapM_base58Digit {ds : List Nat} (hlt : ∀ d ∈ ds, d < 58) :
    (ds.map base58Char).mapM base58Digit = some ds := by
  induction ds with
  | nil => rfl
  | cons d rest ih =>
      rw [List.map_cons, List.mapM_cons,
        base58Digit_base58Char d (hlt d List.mem_cons_self),
        ih (fun e he => hlt e (List.mem_cons_of_mem d he))]
      rfl

theorem base58Char_base58Digit {c : Char} {d : Nat} (h : base58Digit c = some d) :
    d < 58 ∧ base58Char d = c := by
  by_cases hc : c ∈ base58Alphabet
  · rw [base58Digit, if_pos hc] at h
    obtain rfl := Option.some.inj h
    have hlt : base58Alphabet.idxOf c < base58Alphabet.length := List.idxOf_lt_length_of_mem hc
    refine ⟨hlt, ?_⟩
    rw [base58Char, List.getD_eq_getElem _ _ hlt]
    exact List.getElem_idxOf hlt
  · rw [base58Digit, if_neg hc] at h
    cases h

/-- What reads as digits is spelled by those digits. -/
theorem of_mapM_base58Digit {cs : List Char} {ds : List Nat}
    (h : cs.mapM base58Digit = some ds) :
    (∀ d ∈ ds, d < 58) ∧ ds.map base58Char = cs := by
  induction cs generalizing ds with
  | nil =>
      rw [List.mapM_nil] at h
      obtain rfl := Option.some.inj h
      exact ⟨fun d hd => absurd hd List.not_mem_nil, rfl⟩
  | cons c rest ih =>
      rw [List.mapM_cons] at h
      cases hc : base58Digit c with
      | none =>
          rw [hc] at h
          cases h
      | some d =>
          cases hrest : rest.mapM base58Digit with
          | none =>
              rw [hc, hrest] at h
              cases h
          | some es =>
              rw [hc, hrest] at h
              obtain rfl := Option.some.inj h
              obtain ⟨hd, hchar⟩ := base58Char_base58Digit hc
              obtain ⟨hes, hmap⟩ := ih hrest
              constructor
              · intro e he
                rcases List.mem_cons.mp he with rfl | he
                · exact hd
                · exact hes e he
              · rw [List.map_cons, hchar, hmap]

theorem toNat_lt_256 (bs : Bytes) : ∀ d ∈ bs.map UInt8.toNat, d < 256 := by
  intro d hd
  obtain ⟨b, -, rfl⟩ := List.mem_map.mp hd
  exact b.toNat_lt

theorem map_ofNat_toNat (bs : Bytes) : (bs.map UInt8.toNat).map UInt8.ofNat = bs := by
  rw [List.map_map]
  exact List.map_id'' (fun b => UInt8.ofNat_toNat) bs

theorem map_toNat_ofNat {ds : List Nat} (hlt : ∀ d ∈ ds, d < 256) :
    (ds.map UInt8.ofNat).map UInt8.toNat = ds := by
  rw [List.map_map]
  exact (List.map_congr_left fun d hd => UInt8.toNat_ofNat_of_lt' (hlt d hd)).trans
    (List.map_id ds)

/-- Reading the Base58 spelling of a byte string gives it back. -/
theorem base58Decode_base58Encode (bs : Bytes) :
    base58Decode (base58Encode bs) = some bs := by
  simp only [base58Decode, base58Encode]
  rw [String.toList_ofList, mapM_base58Digit (convert_lt (by decide))]
  show some ((convert 58 256 (convert 256 58 (bs.map UInt8.toNat))).map UInt8.ofNat)
    = some bs
  rw [convert_convert (by decide) (toNat_lt_256 bs), map_ofNat_toNat]

/-- A text that reads as Base58 is the spelling of the bytes it reads as. -/
theorem base58Encode_of_base58Decode {s : String} {bs : Bytes}
    (h : base58Decode s = some bs) : base58Encode bs = s := by
  cases hds : s.toList.mapM base58Digit with
  | none =>
      rw [base58Decode, hds] at h
      cases h
  | some ds =>
      rw [base58Decode, hds] at h
      obtain rfl := Option.some.inj h
      obtain ⟨hlt, hmap⟩ := of_mapM_base58Digit hds
      rw [base58Encode, map_toNat_ofNat (convert_lt (by decide)),
        convert_convert (by decide) hlt, hmap, String.ofList_toList]

/-- `s` spells the bytes `bs` in Base58: as many leading `1`s as `bs` has
    leading zero bytes, and the same number in base 58 as `bs` in base 256. -/
def IsBase58 (s : String) (bs : Bytes) : Prop :=
  ∃ ds : List Nat, (∀ d ∈ ds, d < 58) ∧ s = String.ofList (ds.map base58Char)
    ∧ leadingZeros ds = leadingZeros (bs.map UInt8.toNat)
    ∧ ofBigEndian 58 ds = ofBigEndian 256 (bs.map UInt8.toNat)

/-- The encoder writes the one Base58 form there is. -/
theorem isBase58_iff {s : String} {bs : Bytes} : IsBase58 s bs ↔ base58Encode bs = s := by
  constructor
  · rintro ⟨ds, hlt, rfl, hz, hn⟩
    rw [base58Encode, (convert_eq_iff (by decide) hlt).mpr ⟨hz, hn⟩]
  · intro h
    exact ⟨convert 256 58 (bs.map UInt8.toNat), convert_lt (by decide), h.symm,
      leadingZeros_convert _ _ _, ofBigEndian_convert _ _ _⟩

/-- The decoder reads exactly the Base58 forms. -/
theorem base58Decode_iff {s : String} {bs : Bytes} :
    base58Decode s = some bs ↔ IsBase58 s bs := by
  rw [isBase58_iff]
  constructor
  · exact base58Encode_of_base58Decode
  · rintro rfl
    exact base58Decode_base58Encode bs

end ByteText
