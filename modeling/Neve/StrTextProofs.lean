import Mathlib

/-! # Splitting and trimming text

    The string operations that a configuration reader needs, each by its
    characters.  A text splits at the first separator exactly as it was put together
    (`splitOnce_iff`), and what follows the first separator does not move it
    (`splitOnce_append`). -/

namespace StrText

/-! ## At the first separator -/

/-- The characters before and after the first `c`. -/
def splitOnceList (c : Char) : List Char → Option (List Char × List Char)
  | [] => none
  | d :: rest =>
      if d = c then some ([], rest)
      else (splitOnceList c rest).map fun halves => (d :: halves.1, halves.2)

/-- `str::split_once`. -/
def splitOnce (c : Char) (s : String) : Option (String × String) :=
  (splitOnceList c s.toList).map fun halves => (String.ofList halves.1, String.ofList halves.2)

theorem splitOnceList_append {c : Char} {before after : List Char} (h : c ∉ before) :
    splitOnceList c (before ++ c :: after) = some (before, after) := by
  induction before with
  | nil =>
      rw [List.nil_append, splitOnceList, if_pos rfl]
  | cons d before ih =>
      rw [List.mem_cons, not_or] at h
      rw [List.cons_append, splitOnceList, if_neg (Ne.symm h.1), ih h.2]
      rfl

theorem splitOnceList_eq_some {c : Char} {s before after : List Char}
    (h : splitOnceList c s = some (before, after)) : s = before ++ c :: after ∧ c ∉ before := by
  induction s generalizing before with
  | nil => cases h
  | cons d s ih =>
      rw [splitOnceList] at h
      by_cases hd : d = c
      · rw [if_pos hd] at h
        obtain ⟨rfl, rfl⟩ := Prod.mk.inj (Option.some.inj h)
        exact ⟨congrArg (· :: s) hd, List.not_mem_nil⟩
      · rw [if_neg hd] at h
        obtain ⟨⟨before', after'⟩, hs, heq⟩ := Option.map_eq_some_iff.mp h
        obtain ⟨rfl, rfl⟩ := Prod.mk.inj heq
        obtain ⟨rfl, hmem⟩ := ih hs
        refine ⟨rfl, ?_⟩
        rw [List.mem_cons, not_or]
        exact ⟨Ne.symm hd, hmem⟩

theorem splitOnceList_eq_none {c : Char} {s : List Char} :
    splitOnceList c s = none ↔ c ∉ s := by
  induction s with
  | nil => simp [splitOnceList]
  | cons d s ih =>
      rw [splitOnceList, List.mem_cons, not_or]
      by_cases hd : d = c
      · rw [if_pos hd]
        simp [hd]
      · rw [if_neg hd, Option.map_eq_none_iff, ih]
        exact ⟨fun h => ⟨Ne.symm hd, h⟩, fun h => h.2⟩

/-- **Splitting undoes joining** at a separator that the first part does not hold. -/
theorem splitOnce_iff {c : Char} {s before after : String} :
    splitOnce c s = some (before, after) ↔
      s.toList = before.toList ++ c :: after.toList ∧ c ∉ before.toList := by
  simp only [splitOnce]
  constructor
  · intro h
    obtain ⟨⟨b, a⟩, hs, heq⟩ := Option.map_eq_some_iff.mp h
    obtain ⟨rfl, rfl⟩ := Prod.mk.inj heq
    rw [String.toList_ofList, String.toList_ofList]
    exact splitOnceList_eq_some hs
  · rintro ⟨hs, hmem⟩
    rw [hs, splitOnceList_append hmem, Option.map_some, String.ofList_toList,
      String.ofList_toList]

theorem splitOnce_eq_none {c : Char} {s : String} : splitOnce c s = none ↔ c ∉ s.toList := by
  rw [splitOnce, Option.map_eq_none_iff, splitOnceList_eq_none]

/-- More text at the end stays at the end. -/
theorem splitOnce_append {c : Char} {s before after : String}
    (h : splitOnce c s = some (before, after)) (more : String) :
    splitOnce c (s ++ more) = some (before, after ++ more) := by
  obtain ⟨hs, hmem⟩ := splitOnce_iff.mp h
  refine splitOnce_iff.mpr ⟨?_, hmem⟩
  rw [String.toList_append, String.toList_append, hs, List.append_assoc, List.cons_append]

/-! ## The other operations -/

/-- The characters before and after the first occurrence of `sub`. -/
def splitOnceSubList (sub : List Char) : List Char → Option (List Char × List Char)
  | [] => if sub = [] then some ([], []) else none
  | c :: rest =>
      if sub <+: c :: rest then some ([], (c :: rest).drop sub.length)
      else (splitOnceSubList sub rest).map fun halves => (c :: halves.1, halves.2)

/-- `str::split_once` at a substring. -/
def splitOnceSub (sub s : String) : Option (String × String) :=
  (splitOnceSubList sub.toList s.toList).map fun halves =>
    (String.ofList halves.1, String.ofList halves.2)

/-- `str::split` at every `c`. -/
def split (c : Char) (s : String) : List String := (s.toList.splitOn c).map String.ofList

/-- `str::contains` of a substring. -/
def contains (s sub : String) : Bool := decide (sub.toList <:+: s.toList)

/-- `str::strip_prefix`. -/
def stripPrefix (start s : String) : Option String :=
  if start.toList <+: s.toList then some (String.ofList (s.toList.drop start.toList.length))
  else none

/-- `str::trim_start_matches` of a character. -/
def trimStartMatches (c : Char) (s : String) : String :=
  String.ofList (s.toList.dropWhile (· = c))

/-- `str::trim_end_matches` of a character. -/
def trimEndMatches (c : Char) (s : String) : String :=
  String.ofList (s.toList.rdropWhile (· = c))

/-- A character of the `White_Space` property. -/
def isWhiteSpace (c : Char) : Bool :=
  (9 ≤ c.val && c.val ≤ 13) || c.val == 32 || c.val == 0x85 || c.val == 0xA0
    || c.val == 0x1680 || (0x2000 ≤ c.val && c.val ≤ 0x200A) || c.val == 0x2028
    || c.val == 0x2029 || c.val == 0x202F || c.val == 0x205F || c.val == 0x3000

/-- `str::trim`. -/
def trim (s : String) : String :=
  String.ofList ((s.toList.dropWhile isWhiteSpace).rdropWhile isWhiteSpace)

def asciiLower (c : Char) : Char :=
  if 65 ≤ c.val ∧ c.val ≤ 90 then Char.ofNat (c.toNat + 32) else c

/-- `str::eq_ignore_ascii_case`. -/
def eqIgnoreAsciiCase (s s' : String) : Bool :=
  s.toList.map asciiLower == s'.toList.map asciiLower

/-- `str::parse::<bool>`. -/
def parseBool (s : String) : Option Bool :=
  if s = "true" then some true else if s = "false" then some false else none

/-- The number that a nonempty list of digits spells, if it fits 64 bits. -/
def readDigits (digits : List Char) : Option Nat :=
  let n := digits.foldl (fun n d => n * 10 + (d.toNat - 48)) 0
  if digits = [] ∨ ¬ digits.all Char.isDigit ∨ 2 ^ 64 ≤ n then none else some n

/-- Digits, without a plus sign before them. -/
def unsigned : List Char → List Char
  | '+' :: rest => rest
  | cs => cs

/-- `str::parse::<u64>`. -/
def parseU64 (s : String) : Option Nat := readDigits (unsigned s.toList)

theorem parseU64_lt {s : String} {n : Nat} (h : parseU64 s = some n) : n < 2 ^ 64 := by
  simp only [parseU64, readDigits] at h
  by_cases hbad : unsigned s.toList = [] ∨ ¬ (unsigned s.toList).all Char.isDigit = true ∨
      2 ^ 64 ≤ (unsigned s.toList).foldl (fun n d => n * 10 + (d.toNat - 48)) 0
  · rw [if_pos hbad] at h
    cases h
  · rw [if_neg hbad] at h
    rw [not_or, not_or] at hbad
    rw [← Option.some.inj h]
    exact Nat.lt_of_not_le hbad.2.2

/-- What trimming takes off is white space. -/
theorem trim_spaces (s : String) :
    ∃ before after, s.toList = before ++ (trim s).toList ++ after ∧
      (∀ c ∈ before, isWhiteSpace c = true) ∧ ∀ c ∈ after, isWhiteSpace c = true := by
  refine ⟨s.toList.takeWhile isWhiteSpace,
    (s.toList.dropWhile isWhiteSpace).rtakeWhile isWhiteSpace, ?_, ?_, ?_⟩
  · rw [trim, String.toList_ofList, List.append_assoc, List.rdropWhile_append_rtakeWhile,
      List.takeWhile_append_dropWhile]
  · intro c hc
    exact List.mem_takeWhile_imp hc
  · intro c hc
    exact List.mem_rtakeWhile_imp hc

/-- A text that neither starts nor ends with white space is its own trimming. -/
theorem trim_eq_self {s : String} {first last : Char} (hfirst : s.toList.head? = some first)
    (hlast : s.toList.getLast? = some last) (hf : isWhiteSpace first = false)
    (hl : isWhiteSpace last = false) : trim s = s := by
  have hdrop : s.toList.dropWhile isWhiteSpace = s.toList := by
    obtain ⟨rest, hrest⟩ := List.head?_eq_some_iff.mp hfirst
    rw [hrest, List.dropWhile_cons_of_neg (by simp [hf])]
  have hrdrop : s.toList.rdropWhile isWhiteSpace = s.toList := by
    obtain ⟨rest, hrest⟩ := List.getLast?_eq_some_iff.mp hlast
    rw [hrest, List.rdropWhile_concat_neg _ _ _ (by simp [hl])]
  rw [trim, hdrop, hrdrop, String.ofList_toList]

/-- The pieces of a split, put together again. -/
theorem toList_of_split {c : Char} {s : String} {parts : List String}
    (h : split c s = parts) : s.toList = [c].intercalate (parts.map String.toList) := by
  rw [← h, split, List.map_map]
  have hid : String.toList ∘ String.ofList = id := by
    funext cs
    exact String.toList_ofList
  rw [hid, List.map_id, List.intercalate_splitOn]

/-- Splitting undoes joining pieces without a separator. -/
theorem split_of_toList {c : Char} {s : String} {parts : List (List Char)}
    (h : s.toList = [c].intercalate parts) (hfree : ∀ part ∈ parts, c ∉ part)
    (hne : parts ≠ []) : split c s = parts.map String.ofList := by
  rw [split, h, List.splitOn_intercalate c hfree hne]

end StrText
