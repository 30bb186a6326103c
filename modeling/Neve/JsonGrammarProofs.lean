import Neve.JsonTextProofs

/-! # JSON texts — the grammar and a scanner for it

    A `Doc` is a derivation of the JSON grammar: whitespace between the tokens,
    every form of number, every escape.  `Doc.spell` is the text derived, one
    value with no whitespace around it.  The scanner passes over one value
    without building it, so a raw reader can hand out the exact bytes; it
    passes over exactly what the grammar derives (`skipValue_spell`), and so
    the items of an array come apart in one way only (`rawItems_spell`). -/

namespace JsonGrammar

open JsonValue

def quote : UInt8 := 34
def plus : UInt8 := 43
def minus : UInt8 := 45
def dot : UInt8 := 46
def zero : UInt8 := 48
def colon : UInt8 := 58
def backslash : UInt8 := 92
def openBrace : UInt8 := 123
def closeBrace : UInt8 := 125

/-! ## Tokens -/

/-- One of the four bytes that may stand between tokens. -/
abbrev Space := {b : UInt8 // isJsonSpace b = true}

def spaces (gap : List Space) : Bytes := gap.map Subtype.val

def isDigit (b : UInt8) : Bool := zero ≤ b && b ≤ 57

abbrev Digit := {b : UInt8 // isDigit b = true}

/-- A run of at least one digit. -/
structure Digits where
  first : Digit
  rest : List Digit

def Digits.spell (ds : Digits) : Bytes := ds.first.val :: ds.rest.map Subtype.val

/-- The integer part of a number: a zero alone, or no leading zero. -/
inductive IntPart where
  | zero
  | run (ds : Digits) (h : ds.first.val ≠ zero)

def IntPart.spell : IntPart → Bytes
  | .zero => [JsonGrammar.zero]
  | .run ds _ => ds.spell

/-- The two letters that open an exponent. -/
def isExponentLetter (b : UInt8) : Bool := b == 101 || b == 69

def isSign (b : UInt8) : Bool := b == plus || b == minus

structure Exponent where
  letter : {b : UInt8 // isExponentLetter b = true}
  sign : Option {b : UInt8 // isSign b = true}
  digits : Digits

def Exponent.spell (e : Exponent) : Bytes :=
  e.letter.val :: ((e.sign.map Subtype.val).toList ++ e.digits.spell)

structure Numeral where
  negative : Bool
  int : IntPart
  fraction : Option Digits
  exponent : Option Exponent

def fractionText : Option Digits → Bytes
  | none => []
  | some ds => dot :: ds.spell

def exponentText : Option Exponent → Bytes
  | none => []
  | some e => e.spell

def Numeral.spell (n : Numeral) : Bytes :=
  (if n.negative then [minus] else [])
    ++ (n.int.spell ++ (fractionText n.fraction ++ exponentText n.exponent))

/-- A character a string may hold unescaped. -/
def isPlainChar (c : Char) : Bool := 32 ≤ c.toNat && c != '"' && c != '\\'

/-- The letters of the short escapes: quote, backslash, slash, b, f, n, r, t. -/
def isEscapeLetter (b : UInt8) : Bool :=
  b == quote || b == backslash || b == 47 || b == 98 || b == 102 || b == 110
    || b == 114 || b == 116

def isHexByte (b : UInt8) : Bool :=
  isDigit b || (97 ≤ b && b ≤ 102) || (65 ≤ b && b ≤ 70)

abbrev HexByte := {b : UInt8 // isHexByte b = true}

/-- One piece of a string. -/
inductive Piece where
  | plain (c : Char) (h : isPlainChar c = true)
  | escape (b : UInt8) (h : isEscapeLetter b = true)
  | unicode (a b c d : HexByte)

def Piece.spell : Piece → Bytes
  | .plain c _ => String.utf8EncodeChar c
  | .escape b _ => [backslash, b]
  | .unicode a b c d => [backslash, 117, a.val, b.val, c.val, d.val]

/-- The pieces of a string, up to and with its closing quote. -/
def piecesText : List Piece → Bytes
  | [] => [quote]
  | p :: rest => p.spell ++ piecesText rest

inductive Word where
  | null
  | true
  | false

/-- The bytes of a word after its first letter. -/
def Word.tail : Word → Bytes
  | .null => [117, 108, 108]
  | .true => [114, 117, 101]
  | .false => [97, 108, 115, 101]

def Word.head : Word → UInt8
  | .null => 110
  | .true => 116
  | .false => 102

/-! ## Documents -/

mutual

inductive Doc where
  | word (w : Word)
  | number (n : Numeral)
  | string (s : List Piece)
  | emptyArray (gap : List Space)
  | array (items : Items)
  | emptyObject (gap : List Space)
  | object (members : Members)

/-- The items of an array that has some. -/
inductive Items where
  | last (before : List Space) (v : Doc) (after : List Space)
  | more (before : List Space) (v : Doc) (after : List Space) (rest : Items)

/-- The members of an object that has some. -/
inductive Members where
  | last (before : List Space) (key : List Piece) (between : List Space)
      (front : List Space) (v : Doc) (after : List Space)
  | more (before : List Space) (key : List Piece) (between : List Space)
      (front : List Space) (v : Doc) (after : List Space) (rest : Members)

end

mutual

/-- The text of a document. -/
def Doc.spell : Doc → Bytes
  | .word w => w.head :: w.tail
  | .number n => n.spell
  | .string s => quote :: piecesText s
  | .emptyArray gap => openBracket :: (spaces gap ++ [closeBracket])
  | .array items => openBracket :: (items.spell ++ [closeBracket])
  | .emptyObject gap => openBrace :: (spaces gap ++ [closeBrace])
  | .object members => openBrace :: (members.spell ++ [closeBrace])

def Items.spell : Items → Bytes
  | .last before v after => spaces before ++ (v.spell ++ spaces after)
  | .more before v after rest =>
      spaces before ++ (v.spell ++ (spaces after ++ comma :: rest.spell))

def Members.spell : Members → Bytes
  | .last before key between front v after =>
      spaces before ++ (quote :: (piecesText key ++ (spaces between
        ++ colon :: (spaces front ++ (v.spell ++ spaces after)))))
  | .more before key between front v after rest =>
      spaces before ++ (quote :: (piecesText key ++ (spaces between
        ++ colon :: (spaces front ++ (v.spell ++ (spaces after ++ comma :: rest.spell))))))

end

/-- The bytes are exactly one JSON value, with no whitespace around it. -/
def IsJson (e : Bytes) : Prop := ∃ d : Doc, d.spell = e

def Doc.IsObject : Doc → Prop
  | .emptyObject _ => True
  | .object _ => True
  | _ => False

/-- The bytes are one JSON object, whitespace around it allowed. -/
def IsJsonObject (bs : Bytes) : Prop :=
  ∃ (d : Doc) (before after : Bytes), d.IsObject ∧ bs = before ++ d.spell ++ after
    ∧ (∀ b ∈ before, isJsonSpace b = true) ∧ ∀ b ∈ after, isJsonSpace b = true

/-- An object is written between braces. -/
theorem Doc.IsObject.spell_eq {d : Doc} (h : d.IsObject) :
    ∃ inner, d.spell = openBrace :: (inner ++ [closeBrace]) := by
  cases d with
  | emptyObject gap => exact ⟨spaces gap, by rw [Doc.spell]⟩
  | object members => exact ⟨members.spell, by rw [Doc.spell]⟩
  | word w => exact h.elim
  | number n => exact h.elim
  | string s => exact h.elim
  | emptyArray gap => exact h.elim
  | array items => exact h.elim

/-! ## The scanner -/

def skipSpace (bs : Bytes) : Bytes := bs.dropWhile isJsonSpace

/-- Pass over at least one digit. -/
def skipDigits : Bytes → Option Bytes
  | [] => none
  | b :: rest => if isDigit b then some (rest.dropWhile isDigit) else none

/-- Pass over what may stand between an exponent letter and its digits. -/
def skipSign : Bytes → Bytes
  | [] => []
  | b :: rest => if isSign b then rest else b :: rest

def skipExponent : Bytes → Option Bytes
  | [] => some []
  | b :: rest => if isExponentLetter b then skipDigits (skipSign rest) else some (b :: rest)

def skipFraction : Bytes → Option Bytes
  | [] => some []
  | b :: rest =>
      if b = dot then (skipDigits rest).bind skipExponent else skipExponent (b :: rest)

/-- Pass over an integer part; a leading zero stands alone. -/
def skipInt : Bytes → Option Bytes
  | [] => none
  | b :: rest =>
      if b = zero then
        if rest.head?.any isDigit then none else some rest
      else skipDigits (b :: rest)

def skipMinus : Bytes → Bytes
  | [] => []
  | b :: rest => if b = minus then rest else b :: rest

def skipNumber (bs : Bytes) : Option Bytes := (skipInt (skipMinus bs)).bind skipFraction

/-- Pass over a string, from just after its opening quote. -/
def skipString : Bytes → Option Bytes
  | [] => none
  | b :: rest =>
      if b = quote then some rest
      else if b = backslash then
        match rest with
        | [] => none
        | e :: rest =>
            if isEscapeLetter e then skipString rest
            else if e = 117 then
              match rest with
              | a :: b :: c :: d :: rest =>
                  if isHexByte a && isHexByte b && isHexByte c && isHexByte d then
                    skipString rest
                  else none
              | _ => none
            else none
      else if b < 32 then none
      else skipString rest

/-- Pass over the given bytes. -/
def skipTail : Bytes → Bytes → Option Bytes
  | [], bs => some bs
  | _ :: _, [] => none
  | t :: ts, b :: bs => if b = t then skipTail ts bs else none

mutual

/-- Pass over one value, standing on its first byte; `fuel` bounds the nesting
    and the number of items. -/
def skipValue : Nat → Bytes → Option Bytes
  | 0, _ => none
  | _ + 1, [] => none
  | fuel + 1, b :: rest =>
      if b = quote then skipString rest
      else if b = openBracket then
        match skipSpace rest with
        | [] => none
        | c :: after => if c = closeBracket then some after else skipItems fuel (c :: after)
      else if b = openBrace then
        match skipSpace rest with
        | [] => none
        | c :: after => if c = closeBrace then some after else skipMembers fuel (c :: after)
      else if b = Word.null.head then skipTail Word.null.tail rest
      else if b = Word.true.head then skipTail Word.true.tail rest
      else if b = Word.false.head then skipTail Word.false.tail rest
      else skipNumber (b :: rest)

/-- Pass over the items of an array and its closing bracket. -/
def skipItems : Nat → Bytes → Option Bytes
  | 0, _ => none
  | fuel + 1, bs =>
      match skipValue fuel (skipSpace bs) with
      | none => none
      | some rest =>
          match skipSpace rest with
          | [] => none
          | c :: after =>
              if c = comma then skipItems fuel after
              else if c = closeBracket then some after else none

/-- Pass over the members of an object and its closing brace. -/
def skipMembers : Nat → Bytes → Option Bytes
  | 0, _ => none
  | fuel + 1, bs =>
      match skipSpace bs with
      | [] => none
      | q :: bs =>
          if q ≠ quote then none
          else match skipString bs with
          | none => none
          | some rest =>
              match skipSpace rest with
              | [] => none
              | c :: rest =>
                  if c ≠ colon then none
                  else match skipValue fuel (skipSpace rest) with
                  | none => none
                  | some rest =>
                      match skipSpace rest with
                      | [] => none
                      | c :: after =>
                          if c = comma then skipMembers fuel after
                          else if c = closeBrace then some after else none

end

/-! ## Scanning tokens -/

theorem skipSpace_spaces (gap : List Space) {b : UInt8} (rest : Bytes)
    (hb : isJsonSpace b = false) : skipSpace (spaces gap ++ b :: rest) = b :: rest := by
  refine JsonText.dropWhile_spaces ?_ hb
  intro x hx
  obtain ⟨s, -, rfl⟩ := List.mem_map.mp hx
  exact s.property

/-- What follows is no further digit. -/
def NoDigit (rest : Bytes) : Prop := ∀ b, rest.head? = some b → isDigit b = false

theorem skipDigits_spell (ds : Digits) {rest : Bytes} (h : NoDigit rest) :
    skipDigits (ds.spell ++ rest) = some rest := by
  show (if isDigit ds.first.val = true then
    some ((ds.rest.map Subtype.val ++ rest).dropWhile isDigit) else none) = some rest
  rw [if_pos ds.first.property, List.dropWhile_append_of_pos ?_]
  · cases rest with
    | nil => rfl
    | cons b rest =>
        rw [List.dropWhile_cons_of_neg (by rw [h b rfl]; exact Bool.false_ne_true)]
  · intro x hx
    obtain ⟨d, -, rfl⟩ := List.mem_map.mp hx
    exact d.property

/-- What follows is not read as part of a number. -/
def Stops (rest : Bytes) : Prop :=
  ∀ b, rest.head? = some b → isDigit b = false ∧ b ≠ dot ∧ isExponentLetter b = false

theorem skipExponent_stop {rest : Bytes} (h : Stops rest) :
    skipExponent rest = some rest := by
  cases rest with
  | nil => rfl
  | cons b rest =>
      rw [skipExponent, if_neg (by rw [(h b rfl).2.2]; exact Bool.false_ne_true)]

theorem isSign_of_isDigit {b : UInt8} (h : isDigit b = true) : isSign b = false := by
  cases hs : isSign b with
  | false => rfl
  | true =>
      rcases Bool.or_eq_true_iff.mp hs with heq | heq <;>
      · rw [eq_of_beq heq] at h
        exact absurd h (by decide)

theorem skipExponent_text (e : Option Exponent) {rest : Bytes} (h : Stops rest) :
    skipExponent (exponentText e ++ rest) = some rest := by
  cases e with
  | none => exact skipExponent_stop h
  | some e =>
      obtain ⟨letter, sign, digits⟩ := e
      have hdigits := skipDigits_spell digits (fun b hb => (h b hb).1)
      show (if isExponentLetter letter.val = true then
        skipDigits (skipSign (((sign.map Subtype.val).toList ++ digits.spell) ++ rest))
        else _) = some rest
      rw [if_pos letter.property]
      cases sign with
      | none =>
          show skipDigits (skipSign (digits.spell ++ rest)) = some rest
          have hsame : skipSign (digits.spell ++ rest) = digits.spell ++ rest := by
            show (if isSign digits.first.val = true then _ else _) = _
            rw [if_neg (by
              rw [isSign_of_isDigit digits.first.property]
              exact Bool.false_ne_true)]
            rfl
          rw [hsame, hdigits]
      | some sign =>
          show skipDigits (if isSign sign.val = true then digits.spell ++ rest else _) = _
          rw [if_pos sign.property, hdigits]

theorem noDigit_exponent (e : Option Exponent) {rest : Bytes} (h : Stops rest) :
    NoDigit (exponentText e ++ rest) := by
  cases e with
  | none => exact fun b hb => (h b hb).1
  | some e =>
      intro b hb
      obtain rfl : e.letter.val = b := Option.some.inj hb
      rcases Bool.or_eq_true_iff.mp e.letter.property with heq | heq <;>
      · rw [eq_of_beq heq]
        rfl

theorem skipFraction_text (f : Option Digits) (e : Option Exponent) {rest : Bytes}
    (h : Stops rest) :
    skipFraction (fractionText f ++ (exponentText e ++ rest)) = some rest := by
  cases f with
  | none =>
      have hexp := skipExponent_text e h
      show skipFraction (exponentText e ++ rest) = some rest
      cases htext : exponentText e ++ rest with
      | nil =>
          rw [htext] at hexp
          exact hexp
      | cons b tail =>
          have hdot : b ≠ dot := by
            cases e with
            | none =>
                have hhead : rest.head? = some b := congrArg List.head? htext
                exact (h b hhead).2.1
            | some e =>
                obtain rfl : e.letter.val = b := (List.cons.inj htext).1
                intro heq
                have hletter := e.letter.property
                rw [heq] at hletter
                exact absurd hletter (by decide)
          rw [htext] at hexp
          rw [skipFraction, if_neg hdot, hexp]
  | some ds =>
      show skipFraction (dot :: (ds.spell ++ (exponentText e ++ rest))) = some rest
      rw [skipFraction, if_pos rfl, skipDigits_spell ds (noDigit_exponent e h)]
      exact skipExponent_text e h

/-- What may follow an integer part is no digit. -/
theorem noDigit_fraction (f : Option Digits) (e : Option Exponent) {rest : Bytes}
    (h : Stops rest) : NoDigit (fractionText f ++ (exponentText e ++ rest)) := by
  cases f with
  | none => exact noDigit_exponent e h
  | some ds =>
      intro b hb
      obtain rfl : dot = b := Option.some.inj hb
      rfl

theorem skipInt_spell (i : IntPart) {rest : Bytes} (h : NoDigit rest) :
    skipInt (i.spell ++ rest) = some rest := by
  cases i with
  | zero =>
      show skipInt (zero :: rest) = some rest
      rw [skipInt, if_pos rfl]
      cases hhead : rest.head? with
      | none => rfl
      | some b =>
          show (if isDigit b = true then none else some rest) = some rest
          rw [if_neg (by rw [h b hhead]; exact Bool.false_ne_true)]
  | run ds hne =>
      have hdigits := skipDigits_spell ds h
      show (if ds.first.val = zero then _ else skipDigits (ds.spell ++ rest)) = some rest
      rw [if_neg hne, hdigits]

theorem IntPart.head_spell (i : IntPart) :
    ∃ b tail, i.spell = b :: tail ∧ isDigit b = true := by
  cases i with
  | zero => exact ⟨_, _, rfl, rfl⟩
  | run ds _ => exact ⟨_, _, rfl, ds.first.property⟩

theorem skipNumber_spell (n : Numeral) {rest : Bytes} (h : Stops rest) :
    skipNumber (n.spell ++ rest) = some rest := by
  have hint := skipInt_spell n.int (noDigit_fraction n.fraction n.exponent h)
  have hminus : skipMinus (n.spell ++ rest)
      = n.int.spell ++ (fractionText n.fraction ++ (exponentText n.exponent ++ rest)) := by
    rw [Numeral.spell, List.append_assoc, List.append_assoc, List.append_assoc]
    cases n.negative with
    | true =>
        show skipMinus (minus :: _) = _
        rw [skipMinus, if_pos rfl]
        rfl
    | false =>
        obtain ⟨b, tail, hspell, hdigit⟩ := n.int.head_spell
        have hne : b ≠ minus := by
          rintro rfl
          exact absurd hdigit (by decide)
        rw [hspell]
        show skipMinus (b :: _) = _
        rw [skipMinus, if_neg hne]
        rfl
  rw [skipNumber, hminus, hint]
  exact skipFraction_text n.fraction n.exponent h

/-! ## Scanning strings -/

/-- UTF-8 writes a character below 128 as itself and any other in bytes from
    128 on. -/
theorem utf8EncodeChar_bytes (c : Char) :
    ∀ b ∈ String.utf8EncodeChar c, b.toNat = c.toNat ∨ 128 ≤ b.toNat := by
  have hhigh : ∀ n, n < 128 → 128 ≤ (UInt8.ofNat (n + 128)).toNat := by
    intro n hn
    rw [UInt8.toNat_ofNat_of_lt' (by show n + 128 < 256; omega)]
    omega
  have hc : c.val.toNat = c.toNat := rfl
  intro b hb
  rw [String.utf8EncodeChar, hc] at hb
  by_cases h1 : c.toNat ≤ 0x7f
  · rw [if_pos h1, List.mem_singleton] at hb
    rw [hb, UInt8.toNat_ofNat_of_lt' (by show c.toNat < 256; omega)]
    exact Or.inl rfl
  · rw [if_neg h1] at hb
    right
    by_cases h2 : c.toNat ≤ 0x7ff
    · rw [if_pos h2] at hb
      rcases List.mem_cons.mp hb with rfl | hb
      · exact hhigh (c.toNat / 64 % 0x20 + 64) (by omega)
      · obtain rfl := List.mem_singleton.mp hb
        exact hhigh (c.toNat % 0x40) (by omega)
    · rw [if_neg h2] at hb
      by_cases h3 : c.toNat ≤ 0xffff
      · rw [if_pos h3] at hb
        rcases List.mem_cons.mp hb with rfl | hb
        · exact hhigh (c.toNat / 4096 % 0x10 + 96) (by omega)
        rcases List.mem_cons.mp hb with rfl | hb
        · exact hhigh (c.toNat / 64 % 0x40) (by omega)
        · obtain rfl := List.mem_singleton.mp hb
          exact hhigh (c.toNat % 0x40) (by omega)
      · rw [if_neg h3] at hb
        rcases List.mem_cons.mp hb with rfl | hb
        · exact hhigh (c.toNat / 262144 % 0x08 + 112) (by omega)
        rcases List.mem_cons.mp hb with rfl | hb
        · exact hhigh (c.toNat / 4096 % 0x40) (by omega)
        rcases List.mem_cons.mp hb with rfl | hb
        · exact hhigh (c.toNat / 64 % 0x40) (by omega)
        · obtain rfl := List.mem_singleton.mp hb
          exact hhigh (c.toNat % 0x40) (by omega)

/-- The bytes of an unescaped character are none that a string treats apart. -/
theorem utf8EncodeChar_plain {c : Char} (h : isPlainChar c = true) :
    ∀ b ∈ String.utf8EncodeChar c, b ≠ quote ∧ b ≠ backslash ∧ ¬b < 32 := by
  obtain ⟨hlow, hquote, hback⟩ : 32 ≤ c.toNat ∧ c.toNat ≠ 34 ∧ c.toNat ≠ 92 := by
    simp only [isPlainChar, Bool.and_eq_true, decide_eq_true_eq, bne_iff_ne, ne_eq] at h
    exact ⟨h.1.1, fun heq => h.1.2 (Char.toNat_inj.mp heq),
      fun heq => h.2 (Char.toNat_inj.mp heq)⟩
  intro b hb
  have hbyte := utf8EncodeChar_bytes c b hb
  refine ⟨?_, ?_, ?_⟩
  · rintro rfl
    have hval : quote.toNat = 34 := rfl
    omega
  · rintro rfl
    have hval : backslash.toNat = 92 := rfl
    omega
  · intro hlt
    have hval : b.toNat < 32 := hlt
    omega

theorem skipString_plain {bs : Bytes} (rest : Bytes)
    (h : ∀ b ∈ bs, b ≠ quote ∧ b ≠ backslash ∧ ¬b < 32) :
    skipString (bs ++ rest) = skipString rest := by
  induction bs with
  | nil => rfl
  | cons b bs ih =>
      obtain ⟨hq, hs, hc⟩ := h b List.mem_cons_self
      rw [List.cons_append, skipString.eq_def]
      dsimp only
      rw [if_neg hq, if_neg hs, if_neg hc]
      exact ih fun x hx => h x (List.mem_cons_of_mem b hx)

theorem skipString_piece (p : Piece) (rest : Bytes) :
    skipString (p.spell ++ rest) = skipString rest := by
  cases p with
  | plain c h => exact skipString_plain rest (utf8EncodeChar_plain h)
  | escape b h =>
      show skipString (backslash :: b :: rest) = skipString rest
      rw [skipString.eq_def]
      dsimp only
      rw [if_neg (by decide), if_pos rfl, if_pos h]
  | unicode a b c d =>
      show skipString (backslash :: 117 :: a.val :: b.val :: c.val :: d.val :: rest) = _
      rw [skipString.eq_def]
      dsimp only
      rw [if_neg (by decide), if_pos rfl, if_neg (by decide), if_pos rfl, a.property,
        b.property, c.property, d.property]
      rfl

theorem skipString_pieces (s : List Piece) (rest : Bytes) :
    skipString (piecesText s ++ rest) = some rest := by
  induction s with
  | nil =>
      show skipString (quote :: rest) = some rest
      rw [skipString.eq_def]
      dsimp only
      rw [if_pos rfl]
  | cons p s ih =>
      show skipString ((p.spell ++ piecesText s) ++ rest) = some rest
      rw [List.append_assoc, skipString_piece, ih]

theorem skipTail_append (ts rest : Bytes) : skipTail ts (ts ++ rest) = some rest := by
  induction ts with
  | nil => rfl
  | cons t ts ih =>
      show (if t = t then skipTail ts (ts ++ rest) else none) = some rest
      rw [if_pos rfl, ih]

/-! ## Scanning documents -/

/-- What follows a value in a text is not read as part of it. -/
theorem stops_cons {b : UInt8} (rest : Bytes)
    (h : isDigit b = false ∧ b ≠ dot ∧ isExponentLetter b = false) : Stops (b :: rest) := by
  intro c hc
  obtain rfl : b = c := Option.some.inj hc
  exact h

theorem stops_nil : Stops [] := by
  intro b hb
  cases hb

theorem stops_spaces (gap : List Space) {rest : Bytes} (h : Stops rest) :
    Stops (spaces gap ++ rest) := by
  cases gap with
  | nil => exact h
  | cons s gap =>
      refine stops_cons _ ?_
      have hs := s.property
      simp only [isJsonSpace, Bool.or_eq_true, beq_iff_eq] at hs
      rcases hs with ((h | h) | h) | h <;> rw [h] <;> decide

theorem Numeral.head_spell (n : Numeral) :
    ∃ b tail, n.spell = b :: tail ∧ (isDigit b = true ∨ b = minus) := by
  obtain ⟨b, tail, hspell, hdigit⟩ := n.int.head_spell
  rw [Numeral.spell, hspell]
  cases n.negative with
  | true => exact ⟨minus, _, rfl, Or.inr rfl⟩
  | false => exact ⟨b, _, rfl, Or.inl hdigit⟩

/-- No value starts with whitespace or with a closing bracket. -/
def Opens (b : UInt8) : Prop :=
  isJsonSpace b = false ∧ b ≠ closeBracket ∧ b ≠ closeBrace

/-- The bytes a number may start with are told from those of other values. -/
theorem numeral_opens {b : UInt8} (h : isDigit b = true ∨ b = minus) :
    Opens b ∧ b ≠ quote ∧ b ≠ openBracket ∧ b ≠ openBrace
      ∧ b ≠ Word.null.head ∧ b ≠ Word.true.head ∧ b ≠ Word.false.head := by
  rcases h with hdigit | rfl
  · have hall : ∀ b : UInt8, isDigit b = true →
        (isJsonSpace b = false ∧ b ≠ closeBracket ∧ b ≠ closeBrace) ∧ b ≠ quote
        ∧ b ≠ openBracket ∧ b ≠ openBrace
        ∧ b ≠ Word.null.head ∧ b ≠ Word.true.head ∧ b ≠ Word.false.head := by
      intro b hb
      simp only [isDigit, Bool.and_eq_true, decide_eq_true_eq] at hb
      obtain ⟨hlow, hhigh⟩ : 48 ≤ b.toNat ∧ b.toNat ≤ 57 := hb
      have hne : ∀ c : UInt8, (c.toNat < 48 ∨ 57 < c.toNat) → b ≠ c := by
        rintro c hc rfl
        omega
      refine ⟨⟨?_, hne _ (by decide), hne _ (by decide)⟩, hne _ (by decide),
        hne _ (by decide),
        hne _ (by decide), hne _ (by decide), hne _ (by decide), hne _ (by decide)⟩
      simp only [isJsonSpace, Bool.or_eq_false_iff, beq_eq_false_iff_ne]
      exact ⟨⟨⟨hne _ (by decide), hne _ (by decide)⟩, hne _ (by decide)⟩,
        hne _ (by decide)⟩
    exact hall b hdigit
  · refine ⟨⟨?_, ?_, ?_⟩, ?_⟩ <;> decide

theorem Doc.head_spell (d : Doc) : ∃ b tail, d.spell = b :: tail ∧ Opens b := by
  cases d with
  | word w =>
      refine ⟨w.head, w.tail, by rw [Doc.spell], ?_⟩
      cases w <;> exact ⟨rfl, by decide, by decide⟩
  | number n =>
      obtain ⟨b, tail, hspell, hb⟩ := n.head_spell
      exact ⟨b, tail, by rw [Doc.spell, hspell], (numeral_opens hb).1⟩
  | string s => exact ⟨quote, _, by rw [Doc.spell], rfl, by decide, by decide⟩
  | emptyArray gap => exact ⟨openBracket, _, by rw [Doc.spell], rfl, by decide, by decide⟩
  | array items => exact ⟨openBracket, _, by rw [Doc.spell], rfl, by decide, by decide⟩
  | emptyObject gap => exact ⟨openBrace, _, by rw [Doc.spell], rfl, by decide, by decide⟩
  | object members => exact ⟨openBrace, _, by rw [Doc.spell], rfl, by decide, by decide⟩

/-- The space before a value is passed over, and no more. -/
theorem skipSpace_value (gap : List Space) (d : Doc) (rest : Bytes) :
    skipSpace (spaces gap ++ (d.spell ++ rest)) = d.spell ++ rest := by
  obtain ⟨b, tail, hspell, hspace, -⟩ := d.head_spell
  rw [hspell]
  exact skipSpace_spaces gap _ hspace

/-- The text of the items starts, after its spaces, with the first value. -/
theorem Items.head_spell (items : Items) (rest : Bytes) :
    ∃ b tail, skipSpace (items.spell ++ rest) = b :: tail ∧ Opens b := by
  cases items with
  | last before v after =>
      obtain ⟨b, tail, hspell, hb⟩ := v.head_spell
      refine ⟨b, tail ++ (spaces after ++ rest), ?_, hb⟩
      rw [Items.spell, List.append_assoc, List.append_assoc, skipSpace_value, hspell]
      rfl
  | more before v after more =>
      obtain ⟨b, tail, hspell, hb⟩ := v.head_spell
      refine ⟨b, tail ++ ((spaces after ++ comma :: more.spell) ++ rest), ?_, hb⟩
      rw [Items.spell, List.append_assoc, List.append_assoc, skipSpace_value, hspell]
      rfl

theorem Members.head_spell (members : Members) (rest : Bytes) :
    ∃ tail, skipSpace (members.spell ++ rest) = quote :: tail := by
  cases members with
  | last before key between front v after =>
      rw [Members.spell, List.append_assoc]
      exact ⟨_, skipSpace_spaces before _ rfl⟩
  | more before key between front v after more =>
      rw [Members.spell, List.append_assoc]
      exact ⟨_, skipSpace_spaces before _ rfl⟩

theorem skipSpace_skipSpace (bs : Bytes) : skipSpace (skipSpace bs) = skipSpace bs :=
  List.dropWhile_idempotent isJsonSpace bs

theorem skipItems_skipSpace (fuel : Nat) (bs : Bytes) :
    skipItems fuel (skipSpace bs) = skipItems fuel bs := by
  cases fuel with
  | zero => rfl
  | succ fuel => rw [skipItems, skipItems, skipSpace_skipSpace]

theorem skipMembers_skipSpace (fuel : Nat) (bs : Bytes) :
    skipMembers fuel (skipSpace bs) = skipMembers fuel bs := by
  cases fuel with
  | zero => rfl
  | succ fuel => rw [skipMembers, skipMembers, skipSpace_skipSpace]

/-- One turn of `skipItems`, the value passed over. -/
theorem skipItems_step {fuel : Nat} {bs rest after : Bytes} {c : UInt8}
    (hv : skipValue fuel (skipSpace bs) = some rest) (hs : skipSpace rest = c :: after) :
    skipItems (fuel + 1) bs
      = if c = comma then skipItems fuel after
        else if c = closeBracket then some after else none := by
  rw [skipItems, hv]
  dsimp only
  rw [hs]

/-- One turn of `skipMembers`, the key and the value passed over. -/
theorem skipMembers_step {fuel : Nat} {bs keyed colons valued rest after : Bytes} {c : UInt8}
    (hq : skipSpace bs = quote :: keyed) (hk : skipString keyed = some colons)
    (hc : skipSpace colons = colon :: valued)
    (hv : skipValue fuel (skipSpace valued) = some rest) (hs : skipSpace rest = c :: after) :
    skipMembers (fuel + 1) bs
      = if c = comma then skipMembers fuel after
        else if c = closeBrace then some after else none := by
  rw [skipMembers, hq]
  dsimp only
  rw [if_neg (not_not.mpr rfl), hk]
  dsimp only
  rw [hc]
  dsimp only
  rw [if_neg (not_not.mpr rfl), hv]
  dsimp only
  rw [hs]

theorem stops_comma (gap : List Space) (rest : Bytes) :
    Stops (spaces gap ++ comma :: rest) :=
  stops_spaces gap (stops_cons rest (by decide))

theorem stops_closeBracket (gap : List Space) (rest : Bytes) :
    Stops (spaces gap ++ closeBracket :: rest) :=
  stops_spaces gap (stops_cons rest (by decide))

theorem stops_closeBrace (gap : List Space) (rest : Bytes) :
    Stops (spaces gap ++ closeBrace :: rest) :=
  stops_spaces gap (stops_cons rest (by decide))

mutual

/-- **The scanner passes over what the grammar derives**, and stops right
    after it. -/
theorem skipValue_spell (d : Doc) {fuel : Nat} {rest : Bytes}
    (hfuel : d.spell.length ≤ fuel) (hrest : Stops rest) :
    skipValue fuel (d.spell ++ rest) = some rest := by
  obtain ⟨fuel, rfl⟩ : ∃ f, fuel = f + 1 := by
    obtain ⟨b, tail, hspell, -⟩ := d.head_spell
    rw [hspell, List.length_cons] at hfuel
    exact ⟨fuel - 1, by omega⟩
  match d with
  | .word w =>
      have htail := skipTail_append w.tail rest
      rw [Doc.spell]
      cases w <;> exact htail
  | .number n =>
      have hnumber := skipNumber_spell n hrest
      -- a numeral opens with none of the bytes that pick another scanner
      obtain ⟨b, tail, hspell, hb⟩ := n.head_spell
      obtain ⟨-, hq, ho, hob, hn, ht, hf⟩ := numeral_opens hb
      rw [Doc.spell]
      rw [hspell, List.cons_append] at hnumber ⊢
      rw [skipValue, if_neg hq, if_neg ho, if_neg hob, if_neg hn, if_neg ht, if_neg hf, hnumber]
  | .string s =>
      rw [Doc.spell, List.cons_append, skipValue, if_pos rfl, skipString_pieces]
  | .emptyArray gap =>
      rw [Doc.spell, List.cons_append, List.append_assoc, skipValue, if_neg (by decide),
        if_pos rfl]
      rw [List.singleton_append, skipSpace_spaces gap rest rfl]
      dsimp only
      rw [if_pos rfl]
  | .array items =>
      -- the first item is not a closing bracket, so the items are scanned
      obtain ⟨b, tail, hspace, -, hb, -⟩ := items.head_spell (closeBracket :: rest)
      rw [Doc.spell, List.length_cons, List.length_append, List.length_singleton] at hfuel
      rw [Doc.spell, List.cons_append, List.append_assoc, skipValue, if_neg (by decide),
        if_pos rfl, List.singleton_append, hspace]
      dsimp only
      rw [if_neg hb, ← hspace, skipItems_skipSpace]
      exact skipItems_spell items (by omega)
  | .emptyObject gap =>
      rw [Doc.spell, List.cons_append, List.append_assoc, skipValue, if_neg (by decide),
        if_neg (by decide), if_pos rfl]
      rw [List.singleton_append, skipSpace_spaces gap rest rfl]
      dsimp only
      rw [if_pos rfl]
  | .object members =>
      obtain ⟨tail, hspace⟩ := members.head_spell (closeBrace :: rest)
      rw [Doc.spell, List.length_cons, List.length_append, List.length_singleton] at hfuel
      rw [Doc.spell, List.cons_append, List.append_assoc, skipValue, if_neg (by decide),
        if_neg (by decide), if_pos rfl, List.singleton_append, hspace]
      dsimp only
      rw [if_neg (by decide), ← hspace, skipMembers_skipSpace]
      exact skipMembers_spell members (by omega)

theorem skipItems_spell (items : Items) {fuel : Nat} {rest : Bytes}
    (hfuel : items.spell.length < fuel) :
    skipItems fuel (items.spell ++ closeBracket :: rest) = some rest := by
  obtain ⟨fuel, rfl⟩ : ∃ f, fuel = f + 1 := ⟨fuel - 1, by omega⟩
  match items with
  | .last before v after =>
      rw [Items.spell] at hfuel
      simp only [List.length_append] at hfuel
      have hv := skipValue_spell v (by omega : v.spell.length ≤ fuel)
        (stops_closeBracket after rest)
      rw [Items.spell, List.append_assoc, List.append_assoc]
      rw [skipItems_step (by rw [skipSpace_value]; exact hv) (skipSpace_spaces after rest rfl),
        if_neg (by decide), if_pos rfl]
  | .more before v after more =>
      rw [Items.spell] at hfuel
      simp only [List.length_append, List.length_cons] at hfuel
      have hv := skipValue_spell v (by omega : v.spell.length ≤ fuel)
        (stops_comma after (more.spell ++ closeBracket :: rest))
      rw [Items.spell, List.append_assoc, List.append_assoc, List.append_assoc, List.cons_append]
      rw [skipItems_step (by rw [skipSpace_value]; exact hv) (skipSpace_spaces after _ rfl),
        if_pos rfl]
      exact skipItems_spell more (by omega)

theorem skipMembers_spell (members : Members) {fuel : Nat} {rest : Bytes}
    (hfuel : members.spell.length < fuel) :
    skipMembers fuel (members.spell ++ closeBrace :: rest) = some rest := by
  obtain ⟨fuel, rfl⟩ : ∃ f, fuel = f + 1 := ⟨fuel - 1, by omega⟩
  match members with
  | .last before key between front v after =>
      rw [Members.spell] at hfuel
      simp only [List.length_append, List.length_cons] at hfuel
      have hv := skipValue_spell v (by omega : v.spell.length ≤ fuel)
        (stops_closeBrace after rest)
      rw [Members.spell]
      simp only [List.append_assoc, List.cons_append]
      rw [skipMembers_step (skipSpace_spaces before _ rfl) (skipString_pieces key _)
        (skipSpace_spaces between _ rfl) (by rw [skipSpace_value]; exact hv)
        (skipSpace_spaces after rest rfl), if_neg (by decide), if_pos rfl]
  | .more before key between front v after more =>
      rw [Members.spell] at hfuel
      simp only [List.length_append, List.length_cons] at hfuel
      have hv := skipValue_spell v (by omega : v.spell.length ≤ fuel)
        (stops_comma after (more.spell ++ closeBrace :: rest))
      rw [Members.spell]
      simp only [List.append_assoc, List.cons_append]
      rw [skipMembers_step (skipSpace_spaces before _ rfl) (skipString_pieces key _)
        (skipSpace_spaces between _ rfl) (by rw [skipSpace_value]; exact hv)
        (skipSpace_spaces after _ rfl), if_pos rfl]
      exact skipMembers_spell more (by omega)

end

/-! ## Raw readers -/

/-- A borrowed part of a text: where it starts and its bytes. -/
structure RawSlice where
  start : Nat
  bytes : Bytes

/-- The part of `text` between two of its suffixes, a mark: the suffix it
    starts and the suffix that follows it. -/
def sliceOf (text : Bytes) (mark : Bytes × Bytes) : RawSlice where
  start := text.length - mark.1.length
  bytes := mark.1.take (mark.1.length - mark.2.length)

/-- A slice is handed out as text only when it is valid UTF-8. -/
def isUtf8 (bs : Bytes) : Bool := (JsonText.chars bs).isSome

/-- The marks of the items of an array, from just after its bracket, and what
    follows the array. -/
def rawItems : Nat → Bytes → Option (List (Bytes × Bytes) × Bytes)
  | 0, _ => none
  | fuel + 1, bs =>
      match skipValue fuel (skipSpace bs) with
      | none => none
      | some rest =>
          match skipSpace rest with
          | [] => none
          | c :: after =>
              if c = comma then
                (rawItems fuel after).map fun r => ((skipSpace bs, rest) :: r.1, r.2)
              else if c = closeBracket then some ([(skipSpace bs, rest)], after)
              else none

/-- The marks of a whole array, up to and with its closing bracket. -/
def rawMarks : Bytes → Option (List (Bytes × Bytes) × Bytes)
  | [] => none
  | b :: bs =>
      if b ≠ openBracket then none
      else match skipSpace bs with
      | [] => none
      | c :: after =>
          if c = closeBracket then some ([], after)
          else rawItems (bs.length + 1) (c :: after)

/-- The items of the array a text holds, with nothing but space around it. -/
def rawSlices (text : Bytes) : Option (List RawSlice) :=
  match rawMarks (skipSpace text) with
  | none => none
  | some (marks, after) =>
      let slices := marks.map (sliceOf text)
      if skipSpace after = [] ∧ slices.all (fun s => isUtf8 s.bytes) then some slices
      else none

/-- The one value a text holds, with nothing but space around it. -/
def rawSlice (text : Bytes) : Option RawSlice :=
  match skipValue (text.length + 1) (skipSpace text) with
  | none => none
  | some after =>
      let slice := sliceOf text (skipSpace text, after)
      if skipSpace after = [] ∧ isUtf8 slice.bytes then some slice else none

/-! ### The text of a document is valid UTF-8 -/

theorem isUtf8_utf8 (cs : List Char) : isUtf8 (JsonText.utf8 cs) = true := by
  rw [isUtf8, JsonText.chars_utf8]
  rfl

/-- The text of some characters. -/
def IsText (bs : Bytes) : Prop := ∃ cs, JsonText.utf8 cs = bs

theorem IsText.append {as bs : Bytes} (ha : IsText as) (hb : IsText bs) :
    IsText (as ++ bs) := by
  obtain ⟨cs, rfl⟩ := ha
  obtain ⟨ds, rfl⟩ := hb
  exact ⟨cs ++ ds, JsonText.utf8_append cs ds⟩

theorem isText_char (c : Char) : IsText (String.utf8EncodeChar c) :=
  ⟨[c], List.flatMap_singleton String.utf8EncodeChar c⟩

theorem isText_byte {b : UInt8} (h : b < 128) : IsText [b] := by
  have hb : b.toNat < 128 := h
  have hval : (Char.ofUInt8 b).val.toNat = b.toNat := UInt8.toNat_toUInt32 b
  have htext := isText_char (Char.ofUInt8 b)
  rw [String.utf8EncodeChar, hval, if_pos (by omega), UInt8.ofNat_toNat] at htext
  exact htext

theorem isText_ascii {bs : Bytes} (h : ∀ b ∈ bs, b < 128) : IsText bs := by
  induction bs with
  | nil => exact ⟨[], rfl⟩
  | cons b bs ih =>
      exact (isText_byte (h b List.mem_cons_self)).append
        (ih fun x hx => h x (List.mem_cons_of_mem b hx))

theorem IsText.cons {b : UInt8} {bs : Bytes} (h : b < 128) (hbs : IsText bs) :
    IsText (b :: bs) :=
  (isText_byte h).append hbs

theorem isText_spaces (gap : List Space) : IsText (spaces gap) := by
  refine isText_ascii fun b hb => ?_
  obtain ⟨s, -, rfl⟩ := List.mem_map.mp hb
  have hs := s.property
  simp only [isJsonSpace, Bool.or_eq_true, beq_iff_eq] at hs
  rcases hs with ((h | h) | h) | h <;> rw [h] <;> decide

theorem ascii_of_isDigit {b : UInt8} (h : isDigit b = true) : b < 128 := by
  simp only [isDigit, Bool.and_eq_true, decide_eq_true_eq] at h
  exact UInt8.lt_of_le_of_lt h.2 (by decide)

theorem isText_digits (ds : Digits) : IsText ds.spell := by
  refine isText_ascii fun b hb => ascii_of_isDigit ?_
  rcases List.mem_cons.mp hb with rfl | hb
  · exact ds.first.property
  · obtain ⟨d, -, rfl⟩ := List.mem_map.mp hb
    exact d.property

theorem isText_exponent (e : Exponent) : IsText e.spell := by
  refine IsText.cons ?_ (IsText.append ?_ (isText_digits e.digits))
  · rcases Bool.or_eq_true_iff.mp e.letter.property with heq | heq <;>
    · rw [eq_of_beq heq]
      decide
  · refine isText_ascii fun b hb => ?_
    cases hsign : e.sign with
    | none =>
        rw [hsign] at hb
        cases hb
    | some s =>
        rw [hsign] at hb
        obtain rfl := List.mem_singleton.mp hb
        rcases Bool.or_eq_true_iff.mp s.property with heq | heq <;>
        · rw [eq_of_beq heq]
          decide

theorem isText_nil : IsText [] := ⟨[], rfl⟩

theorem isText_numeral (n : Numeral) : IsText n.spell := by
  refine IsText.append ?_ (IsText.append ?_ (IsText.append ?_ ?_))
  · cases n.negative with
    | true => exact isText_byte (by decide)
    | false => exact isText_nil
  · cases n.int with
    | zero => exact isText_byte (by decide)
    | run ds _ => exact isText_digits ds
  · cases n.fraction with
    | none => exact isText_nil
    | some ds => exact IsText.cons (by decide) (isText_digits ds)
  · cases n.exponent with
    | none => exact isText_nil
    | some e => exact isText_exponent e

theorem ascii_of_isHexByte {b : UInt8} (h : isHexByte b = true) : b < 128 := by
  simp only [isHexByte, Bool.or_eq_true, Bool.and_eq_true, decide_eq_true_eq] at h
  rcases h with (h | h) | h
  · exact ascii_of_isDigit h
  · exact UInt8.lt_of_le_of_lt h.2 (by decide)
  · exact UInt8.lt_of_le_of_lt h.2 (by decide)

theorem isText_piece (p : Piece) : IsText p.spell := by
  cases p with
  | plain c _ => exact isText_char c
  | escape b h =>
      refine IsText.cons (by decide) (isText_byte ?_)
      simp only [isEscapeLetter, Bool.or_eq_true, beq_iff_eq] at h
      rcases h with ((((((h | h) | h) | h) | h) | h) | h) | h <;> rw [h] <;> decide
  | unicode a b c d =>
      refine IsText.cons (by decide) (IsText.cons (by decide) ?_)
      refine IsText.cons (ascii_of_isHexByte a.property) ?_
      refine IsText.cons (ascii_of_isHexByte b.property) ?_
      refine IsText.cons (ascii_of_isHexByte c.property) ?_
      exact isText_byte (ascii_of_isHexByte d.property)

theorem isText_pieces (s : List Piece) : IsText (piecesText s) := by
  induction s with
  | nil => exact isText_byte (by decide)
  | cons p s ih => exact (isText_piece p).append ih

mutual

theorem isText_doc (d : Doc) : IsText d.spell := by
  match d with
  | .word w =>
      rw [Doc.spell]
      cases w <;>
      · refine IsText.cons (by decide) (isText_ascii ?_)
        intro b hb
        simp only [Word.tail, List.mem_cons, List.not_mem_nil, or_false] at hb
        rcases hb with rfl | rfl | rfl | rfl <;> decide
  | .number n =>
      rw [Doc.spell]
      exact isText_numeral n
  | .string s =>
      rw [Doc.spell]
      exact IsText.cons (by decide) (isText_pieces s)
  | .emptyArray gap =>
      rw [Doc.spell]
      exact IsText.cons (by decide) ((isText_spaces gap).append (isText_byte (by decide)))
  | .array items =>
      rw [Doc.spell]
      exact IsText.cons (by decide) ((isText_items items).append (isText_byte (by decide)))
  | .emptyObject gap =>
      rw [Doc.spell]
      exact IsText.cons (by decide) ((isText_spaces gap).append (isText_byte (by decide)))
  | .object members =>
      rw [Doc.spell]
      exact IsText.cons (by decide) ((isText_members members).append (isText_byte (by decide)))

theorem isText_items (items : Items) : IsText items.spell := by
  match items with
  | .last before v after =>
      rw [Items.spell]
      exact (isText_spaces before).append ((isText_doc v).append (isText_spaces after))
  | .more before v after rest =>
      rw [Items.spell]
      exact (isText_spaces before).append ((isText_doc v).append
        ((isText_spaces after).append (IsText.cons (by decide) (isText_items rest))))

theorem isText_members (members : Members) : IsText members.spell := by
  match members with
  | .last before key between front v after =>
      rw [Members.spell]
      exact (isText_spaces before).append (IsText.cons (by decide)
        ((isText_pieces key).append ((isText_spaces between).append (IsText.cons (by decide)
          ((isText_spaces front).append ((isText_doc v).append (isText_spaces after)))))))
  | .more before key between front v after rest =>
      rw [Members.spell]
      exact (isText_spaces before).append (IsText.cons (by decide)
        ((isText_pieces key).append ((isText_spaces between).append (IsText.cons (by decide)
          ((isText_spaces front).append ((isText_doc v).append ((isText_spaces after).append
            (IsText.cons (by decide) (isText_members rest)))))))))

end

theorem isUtf8_spell (d : Doc) : isUtf8 d.spell = true := by
  obtain ⟨cs, hcs⟩ := isText_doc d
  rw [← hcs]
  exact isUtf8_utf8 cs

/-! ### Reading items out of an array -/

def Items.docs : Items → List Doc
  | .last _ v _ => [v]
  | .more _ v _ rest => v :: rest.docs

/-- Each item as the suffix it starts and the suffix that follows it, `tail`
    standing behind the items. -/
def Items.marks : Items → Bytes → List (Bytes × Bytes)
  | .last _ v after, tail => [(v.spell ++ (spaces after ++ tail), spaces after ++ tail)]
  | .more _ v after rest, tail =>
      (v.spell ++ (spaces after ++ comma :: (rest.spell ++ tail)),
        spaces after ++ comma :: (rest.spell ++ tail)) :: rest.marks tail

/-- One turn of `rawItems`, the value passed over. -/
theorem rawItems_step {fuel : Nat} {bs rest after : Bytes} {c : UInt8}
    (hv : skipValue fuel (skipSpace bs) = some rest) (hs : skipSpace rest = c :: after) :
    rawItems (fuel + 1) bs
      = if c = comma then
          (rawItems fuel after).map fun r => ((skipSpace bs, rest) :: r.1, r.2)
        else if c = closeBracket then some ([(skipSpace bs, rest)], after) else none := by
  rw [rawItems, hv]
  dsimp only
  rw [hs]

/-- **The items come apart in one way**: the raw reader finds each where the
    grammar put it. -/
theorem rawItems_spell (items : Items) {fuel : Nat} {rest : Bytes}
    (hfuel : items.spell.length < fuel) :
    rawItems fuel (items.spell ++ closeBracket :: rest)
      = some (items.marks (closeBracket :: rest), rest) := by
  obtain ⟨fuel, rfl⟩ : ∃ f, fuel = f + 1 := ⟨fuel - 1, by omega⟩
  match items with
  | .last before v after =>
      rw [Items.spell] at hfuel
      simp only [List.length_append] at hfuel
      have hv := skipValue_spell v (by omega : v.spell.length ≤ fuel)
        (stops_closeBracket after rest)
      rw [Items.spell, List.append_assoc, List.append_assoc]
      rw [rawItems_step (by rw [skipSpace_value]; exact hv) (skipSpace_spaces after rest rfl),
        if_neg (by decide), if_pos rfl, skipSpace_value]
      rfl
  | .more before v after more =>
      rw [Items.spell] at hfuel
      simp only [List.length_append, List.length_cons] at hfuel
      have hv := skipValue_spell v (by omega : v.spell.length ≤ fuel)
        (stops_comma after (more.spell ++ closeBracket :: rest))
      rw [Items.spell, List.append_assoc, List.append_assoc, List.append_assoc, List.cons_append]
      rw [rawItems_step (by rw [skipSpace_value]; exact hv) (skipSpace_spaces after _ rfl),
        if_pos rfl, skipSpace_value, rawItems_spell more (by omega)]
      rfl

theorem rawItems_skipSpace (fuel : Nat) (bs : Bytes) :
    rawItems fuel (skipSpace bs) = rawItems fuel bs := by
  cases fuel with
  | zero => rfl
  | succ fuel => rw [rawItems, rawItems, skipSpace_skipSpace]

theorem rawMarks_array (items : Items) (rest : Bytes) :
    rawMarks ((Doc.array items).spell ++ rest)
      = some (items.marks (closeBracket :: rest), rest) := by
  obtain ⟨b, tail, hspace, -, hb, -⟩ := items.head_spell (closeBracket :: rest)
  rw [Doc.spell, List.cons_append, List.append_assoc, rawMarks, if_neg (not_not.mpr rfl),
    List.singleton_append, hspace]
  dsimp only
  rw [if_neg hb, ← hspace, rawItems_skipSpace, rawItems_spell items]
  rw [List.length_append, List.length_cons]
  omega

/-- The bytes a mark stands for. -/
theorem sliceOf_bytes (text e rest : Bytes) : (sliceOf text (e ++ rest, rest)).bytes = e := by
  show (e ++ rest).take ((e ++ rest).length - rest.length) = e
  rw [List.length_append, Nat.add_sub_cancel, List.take_left]

theorem Items.map_marks (items : Items) (text tail : Bytes) :
    (items.marks tail).map (fun m => (sliceOf text m).bytes) = items.docs.map Doc.spell := by
  match items with
  | .last before v after =>
      rw [Items.marks, Items.docs, List.map_singleton, List.map_singleton, sliceOf_bytes]
  | .more before v after rest =>
      rw [Items.marks, Items.docs, List.map_cons, List.map_cons, sliceOf_bytes,
        Items.map_marks rest text tail]

/-! ### What the scanner leaves is a suffix of what it was given -/

theorem skipSpace_suffix (bs : Bytes) : skipSpace bs <:+ bs := List.dropWhile_suffix _

theorem skipDigits_suffix {bs rest : Bytes} (h : skipDigits bs = some rest) : rest <:+ bs := by
  cases bs with
  | nil => cases h
  | cons b bs =>
      rw [skipDigits] at h
      by_cases hb : isDigit b = true
      · rw [if_pos hb] at h
        obtain rfl := Option.some.inj h
        exact (List.dropWhile_suffix _).trans (List.suffix_cons b bs)
      · rw [if_neg hb] at h
        cases h

theorem skipSign_suffix (bs : Bytes) : skipSign bs <:+ bs := by
  cases bs with
  | nil => exact List.suffix_refl _
  | cons b bs =>
      rw [skipSign]
      by_cases hb : isSign b = true
      · rw [if_pos hb]
        exact List.suffix_cons b bs
      · rw [if_neg hb]

theorem skipMinus_suffix (bs : Bytes) : skipMinus bs <:+ bs := by
  cases bs with
  | nil => exact List.suffix_refl _
  | cons b bs =>
      rw [skipMinus]
      by_cases hb : b = minus
      · rw [if_pos hb]
        exact List.suffix_cons b bs
      · rw [if_neg hb]

theorem skipExponent_suffix {bs rest : Bytes} (h : skipExponent bs = some rest) :
    rest <:+ bs := by
  cases bs with
  | nil => rw [← Option.some.inj h]
  | cons b bs =>
      rw [skipExponent] at h
      by_cases hb : isExponentLetter b = true
      · rw [if_pos hb] at h
        exact (skipDigits_suffix h).trans ((skipSign_suffix bs).trans (List.suffix_cons b bs))
      · rw [if_neg hb] at h
        rw [← Option.some.inj h]

theorem skipFraction_suffix {bs rest : Bytes} (h : skipFraction bs = some rest) :
    rest <:+ bs := by
  cases bs with
  | nil => rw [← Option.some.inj h]
  | cons b bs =>
      rw [skipFraction] at h
      by_cases hb : b = dot
      · rw [if_pos hb] at h
        obtain ⟨mid, hmid, h⟩ := Option.bind_eq_some_iff.mp h
        exact (skipExponent_suffix h).trans
          ((skipDigits_suffix hmid).trans (List.suffix_cons b bs))
      · rw [if_neg hb] at h
        exact skipExponent_suffix h

theorem skipInt_suffix {bs rest : Bytes} (h : skipInt bs = some rest) : rest <:+ bs := by
  cases bs with
  | nil => cases h
  | cons b bs =>
      rw [skipInt] at h
      by_cases hb : b = zero
      · rw [if_pos hb] at h
        by_cases hd : bs.head?.any isDigit = true
        · rw [if_pos hd] at h
          cases h
        · rw [if_neg hd] at h
          rw [← Option.some.inj h]
          exact List.suffix_cons b bs
      · rw [if_neg hb] at h
        exact skipDigits_suffix h

theorem skipNumber_suffix {bs rest : Bytes} (h : skipNumber bs = some rest) : rest <:+ bs := by
  obtain ⟨mid, hmid, h⟩ := Option.bind_eq_some_iff.mp h
  exact (skipFraction_suffix h).trans ((skipInt_suffix hmid).trans (skipMinus_suffix bs))

theorem skipTail_suffix {ts bs rest : Bytes} (h : skipTail ts bs = some rest) :
    rest <:+ bs := by
  induction ts generalizing bs with
  | nil => rw [← Option.some.inj h]
  | cons t ts ih =>
      cases bs with
      | nil => cases h
      | cons b bs =>
          rw [skipTail] at h
          by_cases hb : b = t
          · rw [if_pos hb] at h
            exact (ih h).trans (List.suffix_cons b bs)
          · rw [if_neg hb] at h
            cases h

theorem skipString_suffix {bs rest : Bytes} (h : skipString bs = some rest) : rest <:+ bs := by
  revert h
  fun_induction skipString bs with
  | case1 => exact fun h => by cases h
  | case2 tail =>
      intro h
      rw [← Option.some.inj h]
      exact List.suffix_cons _ _
  | case3 => exact fun h => by cases h
  | case4 e tail _ _ ih =>
      intro h
      exact (ih h).trans (List.suffix_append [backslash, e] tail)
  | case5 a b c d tail _ _ _ ih =>
      intro h
      exact (ih h).trans (List.suffix_append [backslash, 117, a, b, c, d] tail)
  | case6 => exact fun h => by cases h
  | case7 => exact fun h => by cases h
  | case8 => exact fun h => by cases h
  | case9 => exact fun h => by cases h
  | case10 b tail _ _ _ ih =>
      intro h
      exact (ih h).trans (List.suffix_cons b tail)

theorem suffix_of_skipSpace {bs rest : Bytes} {b : UInt8} (h : skipSpace bs = b :: rest) :
    rest <:+ bs := by
  have hs := skipSpace_suffix bs
  rw [h] at hs
  exact (List.suffix_cons b rest).trans hs

/-- After an item: the separator decides whether more is passed over. -/
theorem separator_suffix {next : Bytes → Option Bytes} {close : UInt8} {bs rest : Bytes}
    (hnext : ∀ {bs rest}, next bs = some rest → rest <:+ bs)
    (h : (match skipSpace bs with
      | [] => none
      | c :: after =>
          if c = comma then next after else if c = close then some after else none)
        = some rest) : rest <:+ bs := by
  cases hs : skipSpace bs with
  | nil =>
      rw [hs] at h
      cases h
  | cons c after =>
      rw [hs] at h
      dsimp only at h
      have hafter := suffix_of_skipSpace hs
      by_cases hc : c = comma
      · rw [if_pos hc] at h
        exact (hnext h).trans hafter
      · rw [if_neg hc] at h
        by_cases hclose : c = close
        · rw [if_pos hclose] at h
          rw [← Option.some.inj h]
          exact hafter
        · rw [if_neg hclose] at h
          cases h

/-- After an opening bracket: an empty container, or its items. -/
theorem container_suffix {next : Bytes → Option Bytes} {close : UInt8} {bs rest : Bytes}
    (hnext : ∀ {bs rest}, next bs = some rest → rest <:+ bs)
    (h : (match skipSpace bs with
      | [] => none
      | c :: after => if c = close then some after else next (c :: after)) = some rest) :
    rest <:+ bs := by
  cases hs : skipSpace bs with
  | nil =>
      rw [hs] at h
      cases h
  | cons c after =>
      rw [hs] at h
      dsimp only at h
      by_cases hclose : c = close
      · rw [if_pos hclose] at h
        rw [← Option.some.inj h]
        exact suffix_of_skipSpace hs
      · rw [if_neg hclose] at h
        have hspace := skipSpace_suffix bs
        rw [hs] at hspace
        exact (hnext h).trans hspace

/-- The three scanners, one fuel at a time. -/
theorem scan_suffix (fuel : Nat) :
    (∀ {bs rest : Bytes}, skipValue fuel bs = some rest → rest <:+ bs)
    ∧ (∀ {bs rest : Bytes}, skipItems fuel bs = some rest → rest <:+ bs)
    ∧ ∀ {bs rest : Bytes}, skipMembers fuel bs = some rest → rest <:+ bs := by
  induction fuel with
  | zero =>
      refine ⟨?_, ?_, ?_⟩ <;>
      · intro bs rest h
        cases h
  | succ fuel ih =>
      obtain ⟨hvalue, hitems, hmembers⟩ := ih
      refine ⟨?_, ?_, ?_⟩
      · intro bs rest h
        cases bs with
        | nil => cases h
        | cons b bs =>
            have hcons := List.suffix_cons b bs
            rw [skipValue] at h
            -- the first byte picks the scanner, each of which leaves a suffix
            by_cases hq : b = quote
            · rw [if_pos hq] at h
              exact (skipString_suffix h).trans hcons
            rw [if_neg hq] at h
            by_cases ho : b = openBracket
            · rw [if_pos ho] at h
              exact (container_suffix hitems h).trans hcons
            rw [if_neg ho] at h
            by_cases hb : b = openBrace
            · rw [if_pos hb] at h
              exact (container_suffix hmembers h).trans hcons
            rw [if_neg hb] at h
            by_cases hn : b = Word.null.head
            · rw [if_pos hn] at h
              exact (skipTail_suffix h).trans hcons
            rw [if_neg hn] at h
            by_cases ht : b = Word.true.head
            · rw [if_pos ht] at h
              exact (skipTail_suffix h).trans hcons
            rw [if_neg ht] at h
            by_cases hf : b = Word.false.head
            · rw [if_pos hf] at h
              exact (skipTail_suffix h).trans hcons
            rw [if_neg hf] at h
            -- anything else has to be a number
            exact skipNumber_suffix h
      · intro bs rest h
        rw [skipItems] at h
        cases hv : skipValue fuel (skipSpace bs) with
        | none =>
            rw [hv] at h
            cases h
        | some mid =>
            rw [hv] at h
            -- an item, then a separator
            exact (separator_suffix hitems h).trans ((hvalue hv).trans (skipSpace_suffix bs))
      · intro bs rest h
        rw [skipMembers] at h
        cases hs : skipSpace bs with
        | nil =>
            rw [hs] at h
            cases h
        | cons q keyed =>
            rw [hs] at h
            dsimp only at h
            by_cases hq : q ≠ quote
            · rw [if_pos hq] at h
              cases h
            rw [if_neg hq] at h
            cases hk : skipString keyed with
            | none =>
                rw [hk] at h
                cases h
            | some colons =>
                rw [hk] at h
                dsimp only at h
                cases hc : skipSpace colons with
                | nil =>
                    rw [hc] at h
                    cases h
                | cons c valued =>
                    rw [hc] at h
                    dsimp only at h
                    by_cases hcolon : c ≠ colon
                    · rw [if_pos hcolon] at h
                      cases h
                    rw [if_neg hcolon] at h
                    cases hv : skipValue fuel (skipSpace valued) with
                    | none =>
                        rw [hv] at h
                        cases h
                    | some mid =>
                        rw [hv] at h
                        -- a key, a colon, a value, then a separator
                        calc rest <:+ mid := separator_suffix hmembers h
                          _ <:+ skipSpace valued := hvalue hv
                          _ <:+ valued := skipSpace_suffix valued
                          _ <:+ colons := suffix_of_skipSpace hc
                          _ <:+ keyed := skipString_suffix hk
                          _ <:+ bs := suffix_of_skipSpace hs

theorem rawItems_suffix {fuel : Nat} {bs tail : Bytes} {marks : List (Bytes × Bytes)}
    (h : rawItems fuel bs = some (marks, tail)) :
    ∀ m ∈ marks, m.2 <:+ m.1 ∧ m.1 <:+ bs := by
  induction fuel generalizing bs marks with
  | zero => cases h
  | succ fuel ih =>
      rw [rawItems] at h
      cases hv : skipValue fuel (skipSpace bs) with
      | none =>
          rw [hv] at h
          cases h
      | some rest =>
          rw [hv] at h
          dsimp only at h
          have hrest := (scan_suffix fuel).1 hv
          have hbs := skipSpace_suffix bs
          cases hs : skipSpace rest with
          | nil =>
              rw [hs] at h
              cases h
          | cons c after =>
              rw [hs] at h
              dsimp only at h
              by_cases hc : c = comma
              · rw [if_pos hc] at h
                obtain ⟨⟨more, tail'⟩, hmore, heq⟩ := Option.map_eq_some_iff.mp h
                obtain ⟨rfl, rfl⟩ := Prod.mk.inj heq
                intro m hm
                rcases List.mem_cons.mp hm with rfl | hm
                · exact ⟨hrest, hbs⟩
                · obtain ⟨hin, hout⟩ := ih hmore m hm
                  exact ⟨hin, hout.trans ((suffix_of_skipSpace hs).trans (hrest.trans hbs))⟩
              · rw [if_neg hc] at h
                by_cases hclose : c = closeBracket
                · rw [if_pos hclose] at h
                  obtain ⟨rfl, rfl⟩ := Prod.mk.inj (Option.some.inj h)
                  intro m hm
                  obtain rfl := List.mem_singleton.mp hm
                  exact ⟨hrest, hbs⟩
                · rw [if_neg hclose] at h
                  cases h

theorem rawMarks_suffix {bs tail : Bytes} {marks : List (Bytes × Bytes)}
    (h : rawMarks bs = some (marks, tail)) : ∀ m ∈ marks, m.2 <:+ m.1 ∧ m.1 <:+ bs := by
  cases bs with
  | nil => cases h
  | cons b bs =>
      rw [rawMarks] at h
      by_cases hb : b ≠ openBracket
      · rw [if_pos hb] at h
        cases h
      rw [if_neg hb] at h
      cases hs : skipSpace bs with
      | nil =>
          rw [hs] at h
          cases h
      | cons c after =>
          rw [hs] at h
          dsimp only at h
          by_cases hc : c = closeBracket
          · rw [if_pos hc] at h
            obtain ⟨rfl, rfl⟩ := Prod.mk.inj (Option.some.inj h)
            intro m hm
            cases hm
          · rw [if_neg hc] at h
            intro m hm
            obtain ⟨hin, hout⟩ := rawItems_suffix h m hm
            have hspace := skipSpace_suffix bs
            rw [hs] at hspace
            exact ⟨hin, hout.trans (hspace.trans (List.suffix_cons b bs))⟩

/-- The slice lies in the text, at the place it names. -/
def RawSlice.Within (s : RawSlice) (text : Bytes) : Prop :=
  s.start + s.bytes.length ≤ text.length
    ∧ (text.drop s.start).take s.bytes.length = s.bytes

theorem sliceOf_within {text start after : Bytes} (hafter : after <:+ start)
    (hstart : start <:+ text) : (sliceOf text (start, after)).Within text := by
  obtain ⟨e, rfl⟩ := hafter
  obtain ⟨before, rfl⟩ := hstart
  have hbytes := sliceOf_bytes (before ++ (e ++ after)) e after
  have hat : (sliceOf (before ++ (e ++ after)) (e ++ after, after)).start = before.length := by
    show (before ++ (e ++ after)).length - (e ++ after).length = before.length
    rw [List.length_append, Nat.add_sub_cancel]
  rw [RawSlice.Within, hbytes, hat]
  constructor
  · rw [List.length_append, List.length_append]
    omega
  · rw [List.drop_left, List.take_left]

/-- **A raw reader hands out parts of the text it was given.** -/
theorem rawSlices_within {text : Bytes} {slices : List RawSlice}
    (h : rawSlices text = some slices) : ∀ s ∈ slices, s.Within text := by
  rw [rawSlices] at h
  cases hm : rawMarks (skipSpace text) with
  | none =>
      rw [hm] at h
      cases h
  | some r =>
      obtain ⟨marks, after⟩ := r
      rw [hm] at h
      dsimp only at h
      by_cases hok : skipSpace after = []
          ∧ (marks.map (sliceOf text)).all (fun s => isUtf8 s.bytes) = true
      · rw [if_pos hok] at h
        obtain rfl := Option.some.inj h
        intro s hs
        obtain ⟨m, hmem, rfl⟩ := List.mem_map.mp hs
        obtain ⟨hin, hout⟩ := rawMarks_suffix hm m hmem
        exact sliceOf_within hin (hout.trans (skipSpace_suffix text))
      · rw [if_neg hok] at h
        cases h

theorem rawSlice_within {text : Bytes} {s : RawSlice} (h : rawSlice text = some s) :
    s.Within text := by
  rw [rawSlice] at h
  cases hv : skipValue (text.length + 1) (skipSpace text) with
  | none =>
      rw [hv] at h
      cases h
  | some after =>
      rw [hv] at h
      dsimp only at h
      by_cases hok : skipSpace after = []
          ∧ isUtf8 (sliceOf text (skipSpace text, after)).bytes = true
      · rw [if_pos hok] at h
        obtain rfl := Option.some.inj h
        exact sliceOf_within ((scan_suffix _).1 hv) (skipSpace_suffix text)
      · rw [if_neg hok] at h
        cases h

/-! ### Space around a value -/

theorem exists_spaces {bs : Bytes} (h : ∀ b ∈ bs, isJsonSpace b = true) :
    ∃ gap, spaces gap = bs :=
  ⟨bs.attachWith _ h, List.attachWith_map_subtype_val h⟩

theorem skipSpace_all {bs : Bytes} (h : ∀ b ∈ bs, isJsonSpace b = true) : skipSpace bs = [] :=
  List.dropWhile_eq_nil_iff.mpr h

/-- Around a value the scanner sees through the space in front. -/
theorem skipSpace_spaced {before : Bytes} (d : Doc) (after : Bytes)
    (h : ∀ b ∈ before, isJsonSpace b = true) :
    skipSpace (before ++ d.spell ++ after) = d.spell ++ after := by
  obtain ⟨gap, rfl⟩ := exists_spaces h
  rw [List.append_assoc, skipSpace_value]

theorem stops_all {bs : Bytes} (h : ∀ b ∈ bs, isJsonSpace b = true) : Stops bs := by
  obtain ⟨gap, rfl⟩ := exists_spaces h
  have hstops := stops_spaces gap stops_nil
  rw [List.append_nil] at hstops
  exact hstops

section Spaced

variable {before after : Bytes} (hbefore : ∀ b ∈ before, isJsonSpace b = true)
  (hafter : ∀ b ∈ after, isJsonSpace b = true)

include hbefore hafter

/-- The one value of a text is found where it stands. -/
theorem rawSlice_spaced (d : Doc) :
    rawSlice (before ++ d.spell ++ after) = some ⟨before.length, d.spell⟩ := by
  have hskip := skipSpace_spaced d after hbefore
  have hlen : (before ++ d.spell ++ after).length
      = before.length + d.spell.length + after.length := by
    rw [List.length_append, List.length_append]
  have hvalue : skipValue ((before ++ d.spell ++ after).length + 1) (d.spell ++ after)
      = some after :=
    skipValue_spell d (by omega) (stops_all hafter)
  have hslice : sliceOf (before ++ d.spell ++ after) (d.spell ++ after, after)
      = ⟨before.length, d.spell⟩ := by
    have hbytes := sliceOf_bytes (before ++ d.spell ++ after) d.spell after
    have hstart : (before ++ d.spell ++ after).length - (d.spell ++ after).length
        = before.length := by
      have htail : (d.spell ++ after).length = d.spell.length + after.length :=
        List.length_append
      omega
    simp only [sliceOf] at hbytes ⊢
    rw [hbytes, hstart]
  rw [rawSlice, hskip, hvalue]
  dsimp only
  rw [hslice, if_pos ⟨skipSpace_all hafter, isUtf8_spell d⟩]

/-- The items of an array are found where they stand. -/
theorem rawSlices_spaced (items : Items) :
    rawSlices (before ++ (Doc.array items).spell ++ after)
      = some ((items.marks (closeBracket :: after)).map
          (sliceOf (before ++ (Doc.array items).spell ++ after))) := by
  have hskip := skipSpace_spaced (Doc.array items) after hbefore
  have hutf8 : ((items.marks (closeBracket :: after)).map
      (sliceOf (before ++ (Doc.array items).spell ++ after))).all
        (fun s => isUtf8 s.bytes) = true := by
    rw [List.all_eq_true]
    intro s hs
    obtain ⟨m, hm, rfl⟩ := List.mem_map.mp hs
    have hbytes := List.mem_map_of_mem
      (f := fun m => (sliceOf (before ++ (Doc.array items).spell ++ after) m).bytes) hm
    rw [Items.map_marks] at hbytes
    obtain ⟨d, -, hd⟩ := List.mem_map.mp hbytes
    rw [← hd]
    exact isUtf8_spell d
  rw [rawSlices, hskip, rawMarks_array]
  dsimp only
  rw [if_pos ⟨skipSpace_all hafter, hutf8⟩]

end Spaced

/-! ### Texts glued by commas -/

def Items.ofDocs : Doc → List Doc → Items
  | d, [] => .last [] d []
  | d, e :: rest => .more [] d [] (Items.ofDocs e rest)

theorem Items.docs_ofDocs (d : Doc) (ds : List Doc) : (Items.ofDocs d ds).docs = d :: ds := by
  induction ds generalizing d with
  | nil => rfl
  | cons e rest ih => rw [Items.ofDocs, Items.docs, ih e]

theorem Items.spell_ofDocs (d : Doc) (ds : List Doc) :
    (Items.ofDocs d ds).spell = joinComma ((d :: ds).map Doc.spell) := by
  induction ds generalizing d with
  | nil =>
      rw [Items.ofDocs, Items.spell]
      exact List.append_nil d.spell
  | cons e rest ih =>
      rw [Items.ofDocs, Items.spell, ih e]
      rfl

theorem exists_docs {es : List Bytes} (h : ∀ e ∈ es, IsJson e) :
    ∃ ds : List Doc, ds.map Doc.spell = es := by
  induction es with
  | nil => exact ⟨[], rfl⟩
  | cons e rest ih =>
      obtain ⟨d, hd⟩ := h e List.mem_cons_self
      obtain ⟨ds, hds⟩ := ih fun x hx => h x (List.mem_cons_of_mem e hx)
      exact ⟨d :: ds, by rw [List.map_cons, hd, hds]⟩

/-- Texts of one value each, glued by commas between brackets, are an array
    with those items and no other. -/
theorem exists_array {e : Bytes} {es : List Bytes} (h : ∀ x ∈ e :: es, IsJson x) :
    ∃ items : Items, (Doc.array items).spell = arrayText (e :: es)
      ∧ items.docs.map Doc.spell = e :: es := by
  obtain ⟨ds, hds⟩ := exists_docs h
  cases ds with
  | nil => cases hds
  | cons d ds =>
      refine ⟨Items.ofDocs d ds, ?_, by rw [Items.docs_ofDocs, hds]⟩
      rw [Doc.spell, Items.spell_ofDocs, hds]
      rfl

theorem isJson_arrayText {es : List Bytes} (h : ∀ e ∈ es, IsJson e) :
    IsJson (arrayText es) := by
  cases es with
  | nil => exact ⟨.emptyArray [], by rw [Doc.spell]; rfl⟩
  | cons e rest =>
      obtain ⟨items, hspell, -⟩ := exists_array h
      exact ⟨.array items, hspell⟩

/-! ### Printed values are JSON -/

theorem exists_digits {b : UInt8} {bs : Bytes} (h : ∀ x ∈ b :: bs, isDigit x = true) :
    ∃ ds : Digits, ds.spell = b :: bs ∧ ds.first.val = b :=
  ⟨⟨⟨b, h b List.mem_cons_self⟩,
      bs.attachWith _ fun x hx => h x (List.mem_cons_of_mem b hx)⟩,
    congrArg (b :: ·) (List.attachWith_map_subtype_val _), rfl⟩

def digitByte (d : Nat) : UInt8 := UInt8.ofNat (48 + d)

theorem utf8_digits {ds : List Nat} (h : ∀ d ∈ ds, d < 10) :
    JsonText.utf8 (ds.map ByteText.hexChar) = ds.map digitByte
      ∧ ∀ b ∈ ds.map digitByte, isDigit b = true := by
  have hchar : ∀ d < 10, String.utf8EncodeChar (ByteText.hexChar d) = [digitByte d]
      ∧ isDigit (digitByte d) = true := by decide
  constructor
  · induction ds with
    | nil => rfl
    | cons d rest ih =>
        show String.utf8EncodeChar (ByteText.hexChar d)
          ++ JsonText.utf8 (rest.map ByteText.hexChar) = _
        rw [(hchar d (h d List.mem_cons_self)).1,
          ih fun x hx => h x (List.mem_cons_of_mem d hx)]
        rfl
  · intro b hb
    obtain ⟨d, hd, rfl⟩ := List.mem_map.mp hb
    exact (hchar d (h d hd)).2

theorem exists_natText (n : Nat) :
    (∃ ds : Digits, ds.spell = JsonText.utf8 (JsonText.natText n))
      ∧ ∃ i : IntPart, i.spell = JsonText.utf8 (JsonText.natText n) := by
  obtain ⟨htext, hall⟩ := utf8_digits (JsonText.natDigits_lt n)
  rw [JsonText.natText, htext]
  cases hdigits : JsonText.natDigits n with
  | nil => exact absurd hdigits (JsonText.natDigits_ne_nil n)
  | cons d rest =>
      rw [hdigits] at hall
      obtain ⟨ds, hspell, hfirst⟩ := exists_digits hall
      refine ⟨⟨ds, hspell⟩, ?_⟩
      by_cases hn : n = 0
      · rw [JsonText.natDigits, if_pos hn] at hdigits
        obtain ⟨rfl, rfl⟩ := List.cons.inj hdigits
        exact ⟨.zero, rfl⟩
      · have hhead : d ≠ 0 := by
          rw [JsonText.natDigits, if_neg hn] at hdigits
          rintro rfl
          exact ByteText.head?_toBigEndian_ne_zero n (by rw [hdigits]; rfl)
        have hlt : d < 10 := by
          refine JsonText.natDigits_lt n d ?_
          rw [hdigits]
          exact List.mem_cons_self
        have hbyte : ∀ d < 10, d ≠ 0 → digitByte d ≠ zero := by decide
        exact ⟨.run ds (by rw [hfirst]; exact hbyte d hlt hhead), hspell⟩

theorem exists_intText (z : Int) (e : Option Exponent) : ∃ n : Numeral,
    n.spell = JsonText.utf8 (JsonText.intText z) ++ exponentText e := by
  obtain ⟨-, i, hi⟩ := exists_natText z.natAbs
  by_cases hz : z < 0
  · refine ⟨⟨true, i, none, e⟩, ?_⟩
    rw [JsonText.intText, if_pos hz, Numeral.spell, hi]
    rfl
  · refine ⟨⟨false, i, none, e⟩, ?_⟩
    rw [JsonText.intText, if_neg hz, Numeral.spell, hi]
    rfl

theorem exists_numeral (n : Number) :
    ∃ m : Numeral, m.spell = JsonText.utf8 (JsonText.numberText n) := by
  cases n with
  | posInt n =>
      obtain ⟨m, hm⟩ := exists_intText n.toNat none
      exact ⟨m, hm.trans (List.append_nil _)⟩
  | negInt n =>
      obtain ⟨m, hm⟩ := exists_intText (-(n.val : Int) - 1) none
      exact ⟨m, hm.trans (List.append_nil _)⟩
  | float d =>
      obtain ⟨⟨ds, hds⟩, -⟩ := exists_natText d.exponent.natAbs
      by_cases hneg : d.exponent < 0
      · obtain ⟨m, hm⟩ := exists_intText d.mantissa
          (some ⟨⟨101, rfl⟩, some ⟨minus, rfl⟩, ds⟩)
        refine ⟨m, hm.trans ?_⟩
        rw [JsonText.numberText, JsonText.intText, JsonText.intText, if_pos hneg,
          JsonText.utf8_append]
        show _ ++ (101 :: minus :: ds.spell) = _
        rw [hds]
        rfl
      · obtain ⟨m, hm⟩ := exists_intText d.mantissa (some ⟨⟨101, rfl⟩, none, ds⟩)
        refine ⟨m, hm.trans ?_⟩
        rw [JsonText.numberText, JsonText.utf8_append]
        show _ ++ (101 :: ds.spell) = _ ++ (101 :: JsonText.utf8 (JsonText.intText d.exponent))
        have hexp : JsonText.intText d.exponent = JsonText.natText d.exponent.natAbs := by
          rw [JsonText.intText, if_neg hneg]
        rw [hds, hexp]

theorem exists_piece (c : Char) :
    ∃ p : Piece, p.spell = JsonText.utf8 (JsonText.escape c) := by
  have hhex : ∀ n < 16, ∃ b : HexByte,
      String.utf8EncodeChar (ByteText.hexChar n) = [b.val] := by
    have hall : ∀ n < 16, isHexByte (ByteText.hexChar n).toUInt8 = true
        ∧ String.utf8EncodeChar (ByteText.hexChar n) = [(ByteText.hexChar n).toUInt8] := by
      decide
    exact fun n hn => ⟨⟨_, (hall n hn).1⟩, (hall n hn).2⟩
  rw [JsonText.escape]
  by_cases hq : c = '"'
  · rw [if_pos hq]
    exact ⟨.escape quote rfl, rfl⟩
  rw [if_neg hq]
  by_cases hb : c = '\\'
  · rw [if_pos hb]
    exact ⟨.escape backslash rfl, rfl⟩
  rw [if_neg hb]
  by_cases hc : c.toNat < 32
  · rw [if_pos hc]
    obtain ⟨hi, hhi⟩ := hhex (c.toNat / 16) (by omega)
    obtain ⟨lo, hlo⟩ := hhex (c.toNat % 16) (by omega)
    refine ⟨.unicode ⟨48, rfl⟩ ⟨48, rfl⟩ hi lo, ?_⟩
    show _ = String.utf8EncodeChar '\\' ++ (String.utf8EncodeChar 'u'
      ++ (String.utf8EncodeChar '0' ++ (String.utf8EncodeChar '0'
        ++ (String.utf8EncodeChar (ByteText.hexChar (c.toNat / 16))
          ++ (String.utf8EncodeChar (ByteText.hexChar (c.toNat % 16)) ++ [])))))
    rw [hhi, hlo]
    rfl
  · rw [if_neg hc]
    refine ⟨.plain c ?_, (List.flatMap_singleton String.utf8EncodeChar c).symm⟩
    simp only [isPlainChar, Bool.and_eq_true, decide_eq_true_eq, bne_iff_ne, ne_eq]
    exact ⟨⟨by omega, hq⟩, hb⟩

theorem exists_pieces (cs : List Char) :
    ∃ s : List Piece, piecesText s = JsonText.utf8 (JsonText.charsText cs) := by
  induction cs with
  | nil => exact ⟨[], rfl⟩
  | cons c cs ih =>
      obtain ⟨s, hs⟩ := ih
      obtain ⟨p, hp⟩ := exists_piece c
      refine ⟨p :: s, ?_⟩
      rw [piecesText, JsonText.charsText, JsonText.utf8_append, hp, hs]

theorem exists_stringText (t : String) :
    ∃ s : List Piece, quote :: piecesText s = JsonText.utf8 (JsonText.stringText t) := by
  obtain ⟨s, hs⟩ := exists_pieces t.toList
  exact ⟨s, by rw [hs]; rfl⟩

/-- The printed fields are the members of an object, once their values are
    JSON. -/
theorem exists_members {k : String} {v : Value} {rest : List (String × Value)}
    (h : ∀ kv ∈ (k, v) :: rest, IsJson (JsonText.toVec kv.2)) :
    ∃ members : Members, members.spell ++ [closeBrace]
      = JsonText.utf8 (JsonText.fieldsText ((k, v) :: rest)) := by
  obtain ⟨key, hkey⟩ := exists_stringText k
  obtain ⟨d, hd⟩ := h _ List.mem_cons_self
  have hd : d.spell = JsonText.utf8 (JsonText.text v) := hd
  induction rest generalizing k v key d with
  | nil =>
      refine ⟨.last [] key [] [] d [], ?_⟩
      have htext : JsonText.fieldsText [(k, v)]
          = JsonText.stringText k ++ ([':'] ++ (JsonText.text v ++ ['}'])) := rfl
      rw [htext, JsonText.utf8_append, JsonText.utf8_append, JsonText.utf8_append, ← hkey, ← hd,
        Members.spell]
      simp only [spaces, List.map_nil, List.nil_append, List.append_nil, List.append_assoc,
        List.cons_append]
      rfl
  | cons kv rest ih =>
      obtain ⟨k', v'⟩ := kv
      have hrest : ∀ kv ∈ (k', v') :: rest, IsJson (JsonText.toVec kv.2) :=
        fun kv hkv => h kv (List.mem_cons_of_mem _ hkv)
      obtain ⟨key', hkey'⟩ := exists_stringText k'
      obtain ⟨d', hd'⟩ := hrest _ List.mem_cons_self
      obtain ⟨more, hmore⟩ := ih hrest key' hkey' d' hd' hd'
      refine ⟨.more [] key [] [] d [] more, ?_⟩
      have htext : JsonText.fieldsText ((k, v) :: (k', v') :: rest)
          = JsonText.stringText k ++ ([':'] ++ (JsonText.text v
            ++ ([','] ++ JsonText.fieldsText ((k', v') :: rest)))) := rfl
      rw [htext, JsonText.utf8_append, JsonText.utf8_append, JsonText.utf8_append,
        JsonText.utf8_append, ← hkey, ← hd, ← hmore, Members.spell]
      simp only [spaces, List.map_nil, List.nil_append, List.append_assoc, List.cons_append]
      rfl

mutual

/-- **What the printer writes is one JSON value.** -/
theorem isJson_toVec (v : Value) : IsJson (JsonText.toVec v) := by
  match v with
  | .null => exact ⟨.word .null, by rw [Doc.spell]; rfl⟩
  | .bool true => exact ⟨.word .true, by rw [Doc.spell]; rfl⟩
  | .bool false => exact ⟨.word .false, by rw [Doc.spell]; rfl⟩
  | .number n =>
      obtain ⟨m, hm⟩ := exists_numeral n
      exact ⟨.number m, by rw [Doc.spell, hm]; rfl⟩
  | .string t =>
      obtain ⟨s, hs⟩ := exists_stringText t
      exact ⟨.string s, by rw [Doc.spell, hs]; rfl⟩
  | .array items =>
      rw [JsonText.toVec_array]
      exact isJson_arrayText (isJson_items items)
  | .object fields =>
      have hfields := isJson_fields fields
      cases fields with
      | nil => exact ⟨.emptyObject [], by rw [Doc.spell]; rfl⟩
      | cons kv rest =>
          obtain ⟨members, hmembers⟩ := exists_members hfields
          exact ⟨.object members, by rw [Doc.spell, hmembers]; rfl⟩

theorem isJson_items (items : List Value) : ∀ e ∈ items.map JsonText.toVec, IsJson e := by
  match items with
  | [] =>
      intro e he
      cases he
  | v :: rest =>
      intro e he
      rcases List.mem_cons.mp he with rfl | he
      · exact isJson_toVec v
      · exact isJson_items rest e he

theorem isJson_fields (fields : List (String × Value)) :
    ∀ kv ∈ fields, IsJson (JsonText.toVec kv.2) := by
  match fields with
  | [] =>
      intro kv hkv
      cases hkv
  | (k, v) :: rest =>
      intro kv hkv
      rcases List.mem_cons.mp hkv with rfl | hkv
      · exact isJson_toVec v
      · exact isJson_fields rest kv hkv

end

/-! ### The codec that reads any JSON text -/

theorem rawSlices_arrayText {es : List Bytes} (h : ∀ e ∈ es, IsJson e) :
    (rawSlices (arrayText es)).map (List.map RawSlice.bytes) = some es := by
  cases es with
  | nil => rfl
  | cons e rest =>
      obtain ⟨items, hspell, hdocs⟩ := exists_array h
      have hnone : ∀ b ∈ ([] : Bytes), isJsonSpace b = true := fun b hb => by cases hb
      have hread := rawSlices_spaced hnone hnone items
      rw [List.append_nil, List.nil_append, hspell] at hread
      rw [hread, Option.map_some, List.map_map]
      exact congrArg some ((items.map_marks (arrayText (e :: rest)) _).trans hdocs)

/-- The compact printer, with raw readers for every JSON text. -/
def rawCodec : Codec where
  toVec := JsonText.toVec
  fromSlice := JsonText.fromSlice
  rawValue text := (rawSlice text).map RawSlice.bytes
  rawArray text := (rawSlices text).map (List.map RawSlice.bytes)
  refloat := id
  fromSlice_toVec := JsonText.fromSlice_printed
  toVec_array := JsonText.toVec_array
  rawArray_arrayText vs := rawSlices_arrayText (isJson_items vs)

/-- Every JSON text comes back byte for byte from both raw readers. -/
def rawReader : RawReader rawCodec where
  IsValue := IsJson
  rawValue_spaced := by
    rintro before e after ⟨d, rfl⟩ hbefore hafter
    show (rawSlice (before ++ d.spell ++ after)).map RawSlice.bytes = some d.spell
    rw [rawSlice_spaced hbefore hafter d]
    rfl
  rawArray_join := rawSlices_arrayText
  isValue_join := isJson_arrayText

end JsonGrammar
