import Neve.JsonGrammarProofs
import Neve.RecordProofs

/-! # The record codec on every JSON text

    Elements are joined by raw concatenation, so getting them back rests on
    the grammar: whatever brackets, commas, quotes and escapes an element
    holds, the joined text comes apart in one way only.  A read hands out the
    element's range within the record; the range always lies in the record and
    holds the element (`Element.deref_of_at`). -/

namespace NeveRecord

open JsonValue JsonGrammar

/-- A byte range of a record. -/
structure Span where
  start : Nat
  stop : Nat
  deriving DecidableEq, Repr

/-- The bytes of a range that lies within the record. -/
def Span.get (span : Span) (record : Bytes) : Option Bytes :=
  if span.start ≤ span.stop ∧ span.stop ≤ record.length then
    some ((record.drop span.start).take (span.stop - span.start))
  else none

/-- `split`, each element still borrowed from the record. -/
def splitSlices (record : Bytes) : Except String (List RawSlice) :=
  match rawSlices record with
  | none => .error "decoding stored record as a JSON array"
  | some parts =>
      if parts.length < 2 then
        .error (s!"stored record has {parts.length} element(s); every record layout has at " ++
            "least a block and one derived element")
      else .ok parts

/-- `element`, still borrowed from the record. -/
def elementSlice (record : Bytes) (idx : Nat) : Except String (Option RawSlice) :=
  if isBareBlock record then
    if idx ≠ BLOCK then .ok none
    else match rawSlice record with
      | none => .error "decoding stored bare block"
      | some block => .ok (some block)
  else do
    let parts ← splitSlices record
    .ok parts[idx]?

/-- Byte range of element `idx` within `record`. -/
def elementSpan (record : Bytes) (idx : Nat) : Except String (Option Span) :=
  match elementSlice record idx with
  | .error e => .error e
  | .ok none => .ok none
  | .ok (some part) => .ok (some ⟨part.start, part.start + part.bytes.length⟩)

/-- One element of a stored record: the record and where the element is. -/
structure Element where
  record : Bytes
  span : Span

/-- Locate element `idx` in a record, once. -/
def Element.at (record : Bytes) (idx : Nat) : Except String (Option Element) :=
  match elementSpan record idx with
  | .error e => .error e
  | .ok none => .ok none
  | .ok (some span) => .ok (some ⟨record, span⟩)

/-- The element's bytes. -/
def Element.deref (e : Element) : Bytes := (e.span.get e.record).getD []

/-! ## A borrowed element is the element -/

theorem rawArray_eq (record : Bytes) :
    rawCodec.rawArray record = (rawSlices record).map (List.map RawSlice.bytes) := rfl

theorem rawValue_eq (record : Bytes) :
    rawCodec.rawValue record = (rawSlice record).map RawSlice.bytes := rfl

theorem split_eq_map (record : Bytes) :
    split rawCodec record = (splitSlices record).map (List.map RawSlice.bytes) := by
  rw [split, splitSlices, rawArray_eq]
  cases rawSlices record with
  | none => rfl
  | some parts =>
      show (if (parts.map RawSlice.bytes).length < 2 then _ else _) = _
      rw [List.length_map]
      dsimp only
      by_cases hlen : parts.length < 2
      · rw [if_pos hlen, if_pos hlen]
        rfl
      · rw [if_neg hlen, if_neg hlen]
        rfl

/-- `element` forgets where the slice stands. -/
theorem element_eq_map (record : Bytes) (idx : Nat) :
    element rawCodec record idx
      = (elementSlice record idx).map (Option.map RawSlice.bytes) := by
  rw [element, elementSlice]
  by_cases hbare : isBareBlock record = true
  · rw [if_pos hbare, if_pos hbare]
    by_cases hidx : idx ≠ BLOCK
    · rw [if_pos hidx, if_pos hidx]
      rfl
    · rw [if_neg hidx, if_neg hidx]
      rw [rawValue_eq]
      cases rawSlice record <;> rfl
  · rw [if_neg hbare, if_neg hbare, split_eq_map]
    cases hs : splitSlices record with
    | error e => rfl
    | ok parts => exact congrArg Except.ok List.getElem?_map

/-- What is read lies in the record. -/
theorem elementSlice_within {record : Bytes} {idx : Nat} {part : RawSlice}
    (h : elementSlice record idx = .ok (some part)) : part.Within record := by
  rw [elementSlice] at h
  by_cases hbare : isBareBlock record = true
  · rw [if_pos hbare] at h
    by_cases hidx : idx ≠ BLOCK
    · rw [if_pos hidx] at h
      cases h
    · rw [if_neg hidx] at h
      cases hs : rawSlice record with
      | none =>
          rw [hs] at h
          cases h
      | some block =>
          rw [hs] at h
          obtain rfl := Option.some.inj (Except.ok.inj h)
          exact rawSlice_within hs
  · rw [if_neg hbare, splitSlices] at h
    cases hs : rawSlices record with
    | none =>
        rw [hs] at h
        cases h
    | some parts =>
        rw [hs] at h
        dsimp only at h
        by_cases hlen : parts.length < 2
        · rw [if_pos hlen] at h
          cases h
        · rw [if_neg hlen] at h
          have hget : parts[idx]? = some part := Except.ok.inj h
          exact rawSlices_within hs part (List.mem_of_getElem? hget)

/-- The range of a slice of the record holds the slice. -/
theorem Span.get_within {part : RawSlice} {record : Bytes} (h : part.Within record) :
    (Span.mk part.start (part.start + part.bytes.length)).get record = some part.bytes := by
  obtain ⟨hlen, hbytes⟩ := h
  rw [Span.get, if_pos ⟨Nat.le_add_right _ _, hlen⟩]
  show some ((record.drop part.start).take (part.start + part.bytes.length - part.start)) = _
  rw [Nat.add_sub_cancel_left, hbytes]

/-- The range of an element, where there is one, holds it. -/
theorem elementSpan_of_element {record : Bytes} {idx : Nat} {found : Option Bytes}
    (h : element rawCodec record idx = .ok found) :
    ∃ span : Option Span, elementSpan record idx = .ok span
      ∧ span.map (Span.get · record) = found.map some := by
  rw [element_eq_map] at h
  cases hs : elementSlice record idx with
  | error e =>
      rw [hs] at h
      cases h
  | ok slice =>
      rw [hs] at h
      obtain rfl := Except.ok.inj h
      cases slice with
      | none => exact ⟨none, by rw [elementSpan, hs], rfl⟩
      | some part =>
          refine ⟨some ⟨part.start, part.start + part.bytes.length⟩,
            by rw [elementSpan, hs], ?_⟩
          exact congrArg some (Span.get_within (elementSlice_within hs))

/-- **A view derefs to its element**: locating and then viewing reads what
    `element` reads. -/
theorem Element.at_of_element {record : Bytes} {idx : Nat} {found : Option Bytes}
    (h : element rawCodec record idx = .ok found) :
    ∃ view : Option Element, Element.at record idx = .ok view
      ∧ view.map Element.deref = found := by
  obtain ⟨span, hspan, hget⟩ := elementSpan_of_element h
  cases span with
  | none =>
      refine ⟨none, by rw [Element.at, hspan], ?_⟩
      cases found with
      | none => rfl
      | some e => cases hget
  | some span =>
      cases found with
      | none => cases hget
      | some e =>
          have hbytes : span.get record = some e := Option.some.inj hget
          refine ⟨some ⟨record, span⟩, by rw [Element.at, hspan], ?_⟩
          show some ((span.get record).getD []) = some e
          rw [hbytes]
          rfl

/-! ## Both layouts -/

/-- Elements that are one JSON value each come back from the joined record. -/
theorem element_encode_json {es : List Bytes} (hlen : 2 ≤ es.length)
    (hes : ∀ e ∈ es, IsJson e) (idx : Nat) :
    element rawCodec (encode es) idx = .ok es[idx]? := by
  have hraw : rawCodec.rawArray (encode es) = some es := rawReader.rawArray_join hes
  have hsplit : split rawCodec (encode es) = .ok es := by
    rw [split, hraw]
    dsimp only
    rw [if_neg (by omega)]
  rw [element, not_isBareBlock_encode, if_neg Bool.false_ne_true, hsplit]
  rfl

/-- An object, with whitespace around it, is told from an element array. -/
theorem isBareBlock_of_object {b : Bytes} (h : IsJsonObject b) : isBareBlock b = true := by
  obtain ⟨d, before, after, hobject, rfl, hbefore, -⟩ := h
  obtain ⟨inner, hspell⟩ := hobject.spell_eq
  rw [hspell, List.append_assoc, List.cons_append]
  exact isBareBlock_spaced hbefore _

/-- A bare block is its own element 0, the whitespace around it left out. -/
theorem element_object {b : Bytes} (h : IsJsonObject b) :
    element rawCodec b BLOCK = .ok (some (JsonText.trimSpace b)) := by
  have hbare := isBareBlock_of_object h
  obtain ⟨d, before, after, hobject, rfl, hbefore, hafter⟩ := h
  obtain ⟨inner, hspell⟩ := hobject.spell_eq
  have htrim : JsonText.trimSpace (before ++ d.spell ++ after) = d.spell :=
    JsonText.trimSpace_ends ⟨openBrace, _, hspell, rfl⟩
      ⟨openBrace :: inner, closeBrace, hspell, rfl⟩ hbefore hafter
  have hraw : rawCodec.rawValue (before ++ d.spell ++ after) = some d.spell :=
    rawReader.rawValue_spaced ⟨d, rfl⟩ hbefore hafter
  rw [element, if_pos hbare, if_neg (not_not.mpr rfl), hraw, htrim]

theorem element_object_derived {b : Bytes} (h : IsJsonObject b) {idx : Nat}
    (hidx : idx ≠ BLOCK) : element rawCodec b idx = .ok none := by
  rw [element, if_pos (isBareBlock_of_object h), if_pos hidx]

/-- **The record codec round trip.**  Any two or more JSON values joined into a
    record come back byte for byte, by value, by range and through a view; the
    record is a JSON array of exactly these items and never taken for a bare
    block.  A bare block reads as its own element 0 with nothing derived and is
    never taken for a combined record. -/
theorem record_round_trip :
    (∀ es : List Bytes, 2 ≤ es.length → (∀ e ∈ es, IsJson e) →
      (∀ (i : Nat) (h : i < es.length),
        element rawCodec (encode es) i = .ok (some es[i])
        ∧ (∃ span, elementSpan (encode es) i = .ok (some span)
          ∧ span.get (encode es) = some es[i])
        ∧ ∃ view, Element.at (encode es) i = .ok (some view) ∧ view.deref = es[i])
      ∧ (∀ i, es.length ≤ i →
        element rawCodec (encode es) i = .ok none
        ∧ elementSpan (encode es) i = .ok none ∧ Element.at (encode es) i = .ok none)
      ∧ isBareBlock (encode es) = false ∧ isCombinedRecord (encode es) = true
      ∧ ∃ items : Items, (Doc.array items).spell = encode es
        ∧ items.docs.map Doc.spell = es)
    ∧ ∀ b : Bytes, IsJsonObject b →
      element rawCodec b 0 = .ok (some (JsonText.trimSpace b))
      ∧ (∀ i, i ≠ 0 → element rawCodec b i = .ok none)
      ∧ isCombinedRecord b = false := by
  constructor
  · intro es hlen hes
    have hread := element_encode_json hlen hes
    refine ⟨?_, ?_, rfl, rfl, ?_⟩
    · intro i hi
      have hi := hread i |>.trans (congrArg Except.ok (List.getElem?_eq_getElem hi))
      refine ⟨hi, ?_, ?_⟩
      · obtain ⟨span, hspan, hget⟩ := elementSpan_of_element hi
        cases span with
        | none => cases hget
        | some span => exact ⟨span, hspan, Option.some.inj hget⟩
      · obtain ⟨view, hview, hderef⟩ := Element.at_of_element hi
        cases view with
        | none => cases hderef
        | some view => exact ⟨view, hview, Option.some.inj hderef⟩
    · intro i hi
      have hi := hread i |>.trans (congrArg Except.ok (List.getElem?_eq_none hi))
      refine ⟨hi, ?_, ?_⟩
      · obtain ⟨span, hspan, hget⟩ := elementSpan_of_element hi
        rw [hspan, Option.map_eq_none_iff.mp hget]
      · obtain ⟨view, hview, hderef⟩ := Element.at_of_element hi
        rw [hview, Option.map_eq_none_iff.mp hderef]
    · cases es with
      | nil => exact absurd hlen (by decide)
      | cons e rest => exact exists_array hes
  · intro b hb
    refine ⟨element_object hb, fun i hi => element_object_derived hb hi, ?_⟩
    rw [isCombinedRecord, isBareBlock_of_object hb]
    rfl

/-- A block whose text has brackets and commas of its own, and logs. -/
def sampleElements : List Value :=
  [.object [("hash", .string "],[\""), ("transactions", .array [.null, .bool true])],
    .array [.object []]]

/-- The logs come back from behind the block; an object with blanks around it is no record. -/
theorem record_round_trip_block_logs :
    element rawCodec (encode (sampleElements.map JsonText.toVec)) 1
      = .ok (some (JsonText.toVec (.array [.object []]))) ∧
    isCombinedRecord (encode (sampleElements.map JsonText.toVec)) = true ∧
    isCombinedRecord ([32] ++ JsonText.toVec (.object []) ++ [10]) = false := by
  obtain ⟨hrecord, hbare⟩ := record_round_trip
  obtain ⟨hread, -, -, hcombined, -⟩ :=
    hrecord (sampleElements.map JsonText.toVec) (Nat.le_refl 2) (isJson_items sampleElements)
  have hspaced : IsJsonObject ([32] ++ JsonText.toVec (.object []) ++ [10]) := by
    refine ⟨.emptyObject [], [32], [10], trivial, by rw [Doc.spell]; rfl, ?_, ?_⟩
    · intro b hb
      rw [List.mem_singleton.mp hb]
      rfl
    · intro b hb
      rw [List.mem_singleton.mp hb]
      rfl
  exact ⟨(hread 1 (Nat.le_refl 2)).1, hcombined, (hbare _ hspaced).2.2⟩

end NeveRecord
