import Neve.EthRpcProofs

/-! # Log filters — what a filter is meant to match

    On a node a constraint that is empty matches anything, and a filter with more topic
    positions than a log has topics matches it never.  Here an empty list matches nothing,
    and positions left open at the end of a filter are not counted.  The two agree on a
    log exactly if its other constraints rule it out, or the filter has neither of the two
    or both (`logMatches_iff_geth`). -/

namespace NeveEthRpc

open JsonValue StrText

/-! ## What a node matches -/

/-- The values a constraint lists. -/
def OneOrMany.values : OneOrMany → List String
  | .One s => [s]
  | .Many v => v

/-- A constraint lists a text, up to ASCII case. -/
def OneOrMany.Contains (c : OneOrMany) (candidate : String) : Prop :=
  ∃ s ∈ c.values, eqIgnoreAsciiCase s candidate = true

/-- A constraint is met by what a log has in its place, if it has something: it is an
    empty list, or contains that. -/
def OneOrMany.Allows (c : OneOrMany) (found : Option String) : Prop :=
  c = .Many [] ∨ ∃ candidate, found = some candidate ∧ c.Contains candidate

/-- The text at a topic position of a log. -/
def topicAt (log : Value) (i : Nat) : Option String := ((logTopics log)[i]?).bind Value.asStr

section Filter

variable (log : Value) (address : Option OneOrMany) (topics : Option (List (Option OneOrMany)))

/-- The log meets each constraint of the filter, position by position. -/
structure Meets : Prop where
  address : ∀ c ∈ address, c.Allows (some (logAddress log))
  topics : ∀ slots ∈ topics, ∀ (i : Nat) (c : OneOrMany),
    slots[i]? = some (some c) → c.Allows (topicAt log i)

/-- The filter has no more topic positions than the log has topics. -/
def Fits : Prop := ∀ slots ∈ topics, slots.length ≤ (logTopics log).length

/-- No constraint of the filter is an empty list. -/
structure NoEmptyList (address : Option OneOrMany)
    (topics : Option (List (Option OneOrMany))) : Prop where
  address : ∀ c ∈ address, c ≠ .Many []
  topics : ∀ slots ∈ topics, ∀ (i : Nat) (c : OneOrMany), slots[i]? = some (some c) →
    c ≠ .Many []

/-- **`eth_getLogs` as a node has it.**  The address constraint is absent, an empty list,
    or contains the log's address; the topic constraint is absent, or no longer than the
    log's topics and null, an empty list, or a list with the log's topic at each position. -/
structure GethMatches : Prop where
  address : ∀ c ∈ address, c.Allows (some (logAddress log))
  topics : ∀ slots ∈ topics, slots.length ≤ (logTopics log).length ∧
    ∀ (i : Nat) (c : OneOrMany), slots[i]? = some (some c) → c.Allows (topicAt log i)

end Filter

/-! ## What is matched here -/

section Matching

variable {log : Value} {address : Option OneOrMany} {topics : Option (List (Option OneOrMany))}

theorem OneOrMany.matches_iff {c : OneOrMany} {candidate : String} :
    c.matches candidate = true ↔ c.Contains candidate := by
  cases c with
  | One s =>
      simp only [OneOrMany.matches, OneOrMany.Contains, OneOrMany.values, List.mem_singleton,
        exists_eq_left]
  | Many v =>
      simp only [OneOrMany.matches, OneOrMany.Contains, OneOrMany.values, List.any_eq_true]

/-- An empty list contains nothing. -/
theorem OneOrMany.Contains.not_empty {c : OneOrMany} {candidate : String}
    (h : c.Contains candidate) : c ≠ .Many [] := by
  rintro rfl
  obtain ⟨s, hs, -⟩ := h
  cases hs

/-- What a constraint contains is what it allows and more than nothing. -/
theorem OneOrMany.contains_iff {c : OneOrMany} {found : Option String} :
    (∃ candidate, found = some candidate ∧ c.Contains candidate)
      ↔ c.Allows found ∧ c ≠ .Many [] := by
  constructor
  · rintro ⟨candidate, hfound, hc⟩
    exact ⟨Or.inr ⟨candidate, hfound, hc⟩, hc.not_empty⟩
  · rintro ⟨hempty | hc, hne⟩
    · exact absurd hempty hne
    · exact hc

theorem topicMatches_iff {slot : Option OneOrMany} {i : Nat} :
    topicMatches log i slot = true
      ↔ ∀ c, slot = some c → c.Allows (topicAt log i) ∧ c ≠ .Many [] := by
  cases slot with
  | none => simp [topicMatches]
  | some c =>
      have hiff : topicMatches log i (some c) = true
          ↔ ∃ candidate, topicAt log i = some candidate ∧ c.Contains candidate := by
        simp only [topicMatches, topicAt]
        cases ((logTopics log)[i]?).bind Value.asStr with
        | none => simp
        | some topic => simp [OneOrMany.matches_iff]
      rw [hiff, OneOrMany.contains_iff]
      constructor
      · rintro h c' hc'
        rw [← Option.some.inj hc']
        exact h
      · intro h
        exact h c rfl

theorem addressMatches_iff :
    addressMatches log address = true
      ↔ ∀ c ∈ address, c.Allows (some (logAddress log)) ∧ c ≠ .Many [] := by
  cases address with
  | none => simp [addressMatches]
  | some c =>
      have hc : (∃ candidate, some (logAddress log) = some candidate ∧ c.Contains candidate)
          ↔ c.Allows (some (logAddress log)) ∧ c ≠ .Many [] := OneOrMany.contains_iff
      simpa [addressMatches, OneOrMany.matches_iff] using hc

theorem topicsMatch_iff :
    topicsMatch log topics = true
      ↔ ∀ slots ∈ topics, ∀ (i : Nat) (c : OneOrMany), slots[i]? = some (some c) →
          c.Allows (topicAt log i) ∧ c ≠ .Many [] := by
  cases topics with
  | none => simp [topicsMatch]
  | some slots =>
      rw [topicsMatch, List.all_eq_true]
      constructor
      · intro h slots' hslots i c hi
        rw [← Option.some.inj hslots] at hi
        have hmem : (some c, i) ∈ slots.zipIdx := List.mem_zipIdx_iff_getElem?.mpr hi
        exact topicMatches_iff.mp (h (some c, i) hmem) c rfl
      · rintro h ⟨slot, i⟩ hmem
        have hi := List.mem_zipIdx_iff_getElem?.mp hmem
        exact topicMatches_iff.mpr fun c hc => h slots rfl i c (hc ▸ hi)

/-- **What is matched here**: a log that meets every constraint, of a filter without
    empty lists. -/
theorem logMatches_iff :
    logMatches log address topics = true
      ↔ Meets log address topics ∧ NoEmptyList address topics := by
  rw [logMatches, Bool.and_eq_true_iff, addressMatches_iff, topicsMatch_iff]
  constructor
  · rintro ⟨ha, ht⟩
    exact ⟨⟨fun c hc => (ha c hc).1, fun slots hs i c hi => (ht slots hs i c hi).1⟩,
      ⟨fun c hc => (ha c hc).2, fun slots hs i c hi => (ht slots hs i c hi).2⟩⟩
  · rintro ⟨hm, hn⟩
    exact ⟨fun c hc => ⟨hm.address c hc, hn.address c hc⟩,
      fun slots hs i c hi => ⟨hm.topics slots hs i c hi, hn.topics slots hs i c hi⟩⟩

theorem gethMatches_iff :
    GethMatches log address topics ↔ Meets log address topics ∧ Fits log topics := by
  constructor
  · intro h
    exact ⟨⟨h.address, fun slots hs => (h.topics slots hs).2⟩,
      fun slots hs => (h.topics slots hs).1⟩
  · rintro ⟨hm, hf⟩
    exact ⟨hm.address, fun slots hs => ⟨hf slots hs, hm.topics slots hs⟩⟩

end Matching

/-- **Where filtering is a node's**: on a log that meets the filter's constraints, exactly
    if the filter has an empty list just where it has more positions than the log has
    topics; on any other log always. -/
theorem logMatches_iff_geth (log : Value) (address : Option OneOrMany)
    (topics : Option (List (Option OneOrMany))) :
    (logMatches log address topics = true ↔ GethMatches log address topics)
      ↔ (Meets log address topics → (NoEmptyList address topics ↔ Fits log topics)) := by
  rw [logMatches_iff, gethMatches_iff]
  tauto

/-- A log with one topic. -/
def sampleLog : Value :=
  .object [("address", .string "0xaaa"), ("topics", .array [.string "0x01"])]

/-- **The two ways filtering parts from a node's**: an empty list of addresses matches
    nothing, and a filter of two open positions matches a log of one topic. -/
theorem filters_part_from_geth :
    (logMatches sampleLog (some (.Many [])) none = false ∧
      GethMatches sampleLog (some (.Many [])) none) ∧
    logMatches sampleLog none (some [none, none]) = true ∧
      ¬GethMatches sampleLog none (some [none, none]) := by
  refine ⟨⟨rfl, ⟨?_, ?_⟩⟩, rfl, fun h => ?_⟩
  · intro c hc
    exact Or.inl (Option.some.inj hc).symm
  · intro slots hs
    cases hs
  · have hlen := (h.topics [none, none] rfl).1
    exact absurd hlen (by decide)

end NeveEthRpc
