import Neve.TipTagsProofs

/-! # `eth_getLogs` — exact or declined

    A range of logs is read in chunks of 256 heights, and answered only where every height
    of it has its logs.  Scanning in chunks is scanning at once (`scanLogs_eq`), and the
    answer to a filter is an error, a miss, or the matching logs of exactly the heights it
    selects (`getLogs_exact`). -/

namespace NeveEthRpc

open JsonValue ByteText NeveRecord NeveStorage NeveStorageMap NeveFrontier Outcome

/-! ## What is asked for -/

/-- A height named by a tag or a number. -/
inductive Names (s : Storage) (tag : String) : Nat → Prop
  | tip (htag : tag ∈ tipTags) (hpos : 0 < s.highWater) : Names s tag s.highWater
  | number (htip : tag ∉ tipTags) (hun : tag ∉ unsupportedTags) (height : Nat)
      (hnumber : blockNumberArg tag = some height) : Names s tag height

/-- A tag that names no height: it stands for the tip of a store whose mark is zero, is
    not supported, or is no number. -/
inductive BadTag (s : Storage) (tag : String) : Prop
  | tip (htag : tag ∈ tipTags) (hzero : s.highWater = 0)
  | unsupported (htag : tag ∈ unsupportedTags)
  | number (htip : tag ∉ tipTags) (hun : tag ∉ unsupportedTags)
      (hnumber : blockNumberArg tag = none)

/-- The tag a filter gives for an end of its range. -/
def LogFilter.fromTag (filter : LogFilter) : String := filter.fromBlock.getD "latest"

def LogFilter.toTag (filter : LogFilter) : String := filter.toBlock.getD "latest"

/-- A filter that is refused. -/
inductive Refused (s : Storage) (filter : LogFilter) : Prop
  | hash (blockHash e : String) (hhash : filter.blockHash = some blockHash)
      (hbad : parseHash blockHash = .error e)
  | fromTag (hhash : filter.blockHash = none) (hbad : BadTag s filter.fromTag)
  | toTag (hhash : filter.blockHash = none) (hbad : BadTag s filter.toTag)
  | reversed (hhash : filter.blockHash = none) (a b : Nat) (ha : Names s filter.fromTag a)
      (hb : Names s filter.toTag b) (hlt : b < a)
  | tooLarge (hhash : filter.blockHash = none) (a b : Nat) (ha : Names s filter.fromTag a)
      (hb : Names s filter.toTag b) (hlarge : MAX_GETLOGS_RANGE < b - a + 1)

/-- The heights a filter selects: the one its hash is indexed at, or a range within what
    the store holds without a gap. -/
inductive Selects (s : Storage) (filter : LogFilter) : Nat → Nat → Prop
  | hash (blockHash : String) (arr : Bytes32) (height : Nat)
      (hhash : filter.blockHash = some blockHash) (harr : parseHash blockHash = .ok arr)
      (hheight : s.heightOfHash arr = .ok (some height)) : Selects s filter height height
  | range (a b : Nat) (hhash : filter.blockHash = none) (ha : Names s filter.fromTag a)
      (hb : Names s filter.toTag b) (hle : a ≤ b) (hsmall : b - a + 1 ≤ MAX_GETLOGS_RANGE)
      (hmin : s.minHeight ≤ a) (htip : b ≤ s.maxContiguousHeight) : Selects s filter a b

/-- The logs stored at a height. -/
def LogsAt (J : Codec) (s : Storage) (height : Nat) (logs : List Value) : Prop :=
  ∃ bytes, s.getElement J height C_LOGS = .ok (some bytes) ∧
    J.fromSlice bytes = some (.array logs)

/-- **An exact answer**: every selected height has its logs, and the list is of those that
    match, height by height and in the order they are stored. -/
def Answers (J : Codec) (s : Storage) (filter : LogFilter) (out : List Value) : Prop :=
  ∃ a b, Selects s filter a b ∧ ∃ logs : Nat → List Value,
    (∀ height, a ≤ height → height ≤ b → LogsAt J s height (logs height)) ∧
    out = ((List.range' a (b + 1 - a)).flatMap logs).filter
      fun log => logMatches log filter.address filter.topics

/-! ## Scanning -/

section Scan

variable {J : Codec} {R : RawReader J} {s : Storage} {filter : LogFilter}

/-- Going through logs elements that are arrays. -/
theorem collectLogs_arrays {elements : List Bytes} {logs : List (List Value)}
    (h : elements.map J.fromSlice = logs.map fun items => some (.array items))
    (out : List Value) :
    collectLogs J filter elements out
      = .ok (out ++ logs.flatten.filter
          fun log => logMatches log filter.address filter.topics) := by
  induction elements generalizing logs out with
  | nil =>
      cases logs with
      | nil => simp [collectLogs]
      | cons items rest => cases h
  | cons bytes rest ih =>
      cases logs with
      | nil => cases h
      | cons items logs =>
          obtain ⟨hhead, htail⟩ := List.cons.inj h
          rw [collectLogs, hhead]
          dsimp only
          rw [ih htail]
          simp [matchingLogs, Value.asArray]

/-- The logs a map holds at a height. -/
def logsIn (J : Codec) (M : RecordMap) (height : Nat) : Option (List Value) :=
  ((M.element height C_LOGS).bind J.fromSlice).bind Value.asArray

/-- A map whose records are the C-chain's has its logs wherever it has the element. -/
theorem logsIn_of_element {M : RecordMap}
    (hrec : ∀ k elements, M k = some elements → CRecord J elements) {height : Nat}
    {bytes : Bytes} (h : M.element height C_LOGS = some bytes) :
    ∃ items, J.fromSlice bytes = some (.array items) ∧ logsIn J M height = some items := by
  obtain ⟨elements, hm, he⟩ := Option.bind_eq_some_iff.mp h
  obtain ⟨items, hitems⟩ := (hrec height elements hm).logs bytes he
  refine ⟨items, hitems, ?_⟩
  rw [logsIn, h, Option.bind_some, hitems]
  rfl

/-- Reading the elements of some heights is reading their logs. -/
theorem logs_of_elements {M : RecordMap}
    (hrec : ∀ k elements, M k = some elements → CRecord J elements) {heights : List Nat}
    {elements : List Bytes} (h : heights.mapM (M.element · C_LOGS) = some elements) :
    ∃ logs, elements.map J.fromSlice = logs.map (fun items => some (.array items)) ∧
      heights.mapM (logsIn J M) = some logs := by
  rw [mapM_eq_some_iff] at h
  induction heights generalizing elements with
  | nil =>
      cases elements with
      | nil => exact ⟨[], rfl, rfl⟩
      | cons e rest => cases h
  | cons k heights ih =>
      cases elements with
      | nil => cases h
      | cons e rest =>
          obtain ⟨hk, hrest⟩ := List.cons.inj h
          obtain ⟨items, hitems, hlogs⟩ := logsIn_of_element hrec hk
          obtain ⟨logs, hmap, hmapM⟩ := ih hrest
          refine ⟨items :: logs, ?_, ?_⟩
          · rw [List.map_cons, List.map_cons, hitems, hmap]
          · rw [List.mapM_cons, hlogs, hmapM]
            rfl

theorem no_logs_of_no_elements {M : RecordMap} {heights : List Nat}
    (h : heights.mapM (M.element · C_LOGS) = none) : heights.mapM (logsIn J M) = none := by
  obtain ⟨k, hk, hnone⟩ := mapM_eq_none_iff.mp h
  refine mapM_eq_none_iff.mpr ⟨k, hk, ?_⟩
  rw [logsIn, hnone]
  rfl

theorem chunkEnd_eq {c b : Nat} (hcb : c ≤ b) (hb : b < u64Max) :
    chunkEnd c b = min (c + 255) b := by
  simp only [chunkEnd, saturatingAdd, GETLOGS_READ_CHUNK]
  omega

/-- **A scan in chunks is one scan.**  Induction over the chunks: what is still to be read
    starts where the last one ended. -/
theorem scanLogs_eq {M : RecordMap} (hM : Refines R s M)
    (hrec : ∀ k elements, M k = some elements → CRecord J elements) {b : Nat}
    (hb : b < u64Max) (fuel : Nat) {c : Nat} (hmin : s.minHeight ≤ c) (hc : c ≤ b + 1)
    (hfuel : b + 1 - c < fuel)
    (out : List Value) :
    scanLogs J s filter b fuel c out
      = some (.ok (((List.range' c (b + 1 - c)).mapM (logsIn J M)).map fun logs =>
          .array (out ++ logs.flatten.filter
            fun log => logMatches log filter.address filter.topics))) := by
  induction fuel generalizing c out with
  | zero => exact absurd hfuel (Nat.not_lt_zero _)
  | succ fuel ih =>
      rw [scanLogs]
      by_cases hle : c ≤ b
      · rw [if_pos hle]
        obtain ⟨e, he⟩ : ∃ e, chunkEnd c b = e := ⟨_, rfl⟩
        have hend := (chunkEnd_eq hle hb).symm.trans he
        have hce : c ≤ e := by omega
        have heb : e ≤ b := by omega
        rw [he, hM.readElementRange hmin hce]
        -- the heights of this chunk, then those of the chunks still to come
        have hsplit : List.range' c (b + 1 - c)
            = List.range' c (e + 1 - c) ++ List.range' (e + 1) (b + 1 - (e + 1)) := by
          have hlen : b + 1 - c = (e + 1 - c) + (b + 1 - (e + 1)) := by omega
          have hstart : c + (e + 1 - c) = e + 1 := by omega
          rw [hlen, ← List.range'_append_1, hstart]
        rw [hsplit, List.mapM_append]
        -- one height without logs makes the whole answer a miss
        cases hchunk : (List.range' c (e + 1 - c)).mapM (M.element · C_LOGS) with
        | none =>
            rw [no_logs_of_no_elements hchunk]
            rfl
        | some elements =>
            obtain ⟨logs, hmap, hmapM⟩ := logs_of_elements hrec hchunk
            have hnext : saturatingAdd e 1 = e + 1 := by
              simp only [saturatingAdd]
              omega
            dsimp only
            rw [collectLogs_arrays hmap]
            dsimp only
            rw [hnext, ih (by omega) (by omega) (by omega), hmapM]
            cases (List.range' (e + 1) (b + 1 - (e + 1))).mapM (logsIn J M) with
            | none => rfl
            | some more =>
                show some (Except.ok (some (Value.array _)))
                  = some (Except.ok (some (Value.array _)))
                rw [List.flatten_append, List.filter_append, List.append_assoc]
      · rw [if_neg hle]
        -- past the last height nothing is left to read
        have hnil : b + 1 - c = 0 := by omega
        rw [hnil]
        show _ = some (Except.ok (some (Value.array (out ++ []))))
        rw [List.append_nil]

end Scan

/-! ## Tags and ranges -/

section Range

variable {s : Storage} {filter : LogFilter}

theorem resolveBlockTag_ok_iff {tag : String} {n : Nat} :
    resolveBlockTag s tag = .ok n ↔ Names s tag n := by
  constructor
  · intro h
    simp only [resolveBlockTag] at h
    by_cases htip : tag ∈ tipTags
    · rw [if_pos htip] at h
      by_cases hzero : s.highWater = 0
      · rw [if_pos hzero] at h
        cases h
      · rw [if_neg hzero] at h
        rw [← Except.ok.inj h]
        exact .tip htip (Nat.pos_of_ne_zero hzero)
    · rw [if_neg htip] at h
      by_cases hun : tag ∈ unsupportedTags
      · rw [if_pos hun] at h
        cases h
      · rw [if_neg hun] at h
        cases hn : blockNumberArg tag with
        | none => rw [hn] at h; cases h
        | some height =>
            rw [hn] at h
            rw [← Except.ok.inj h]
            exact .number htip hun height hn
  · intro h
    cases h with
    | tip htag hpos => exact resolveBlockTag_tip htag hpos
    | number htip hun _ hnumber => rw [resolveBlockTag, if_neg htip, if_neg hun, hnumber]

theorem resolveBlockTag_error_iff {tag : String} :
    (∃ e, resolveBlockTag s tag = .error e) ↔ BadTag s tag := by
  constructor
  · rintro ⟨e, h⟩
    simp only [resolveBlockTag] at h
    by_cases htip : tag ∈ tipTags
    · rw [if_pos htip] at h
      by_cases hzero : s.highWater = 0
      · exact .tip htip hzero
      · rw [if_neg hzero] at h
        cases h
    · rw [if_neg htip] at h
      by_cases hun : tag ∈ unsupportedTags
      · exact .unsupported hun
      · rw [if_neg hun] at h
        cases hn : blockNumberArg tag with
        | none => exact .number htip hun hn
        | some height => rw [hn] at h; cases h
  · intro h
    cases h with
    | tip htag hzero => exact ⟨_, resolveBlockTag_tip_zero htag hzero⟩
    | unsupported hun =>
        have htip : tag ∉ tipTags := by
          intro hmem
          have hdisjoint : ∀ t ∈ unsupportedTags, t ∉ tipTags := by decide
          exact hdisjoint tag hun hmem
        exact ⟨_, by rw [resolveBlockTag, if_neg htip, if_pos hun]⟩
    | number htip hun hnumber =>
        exact ⟨_, by rw [resolveBlockTag, if_neg htip, if_neg hun, hnumber]⟩

/-- A tag names a height or is bad, and never both. -/
theorem names_or_badTag (s : Storage) (tag : String) :
    (∃ n, resolveBlockTag s tag = .ok n ∧ Names s tag n) ∨
      ∃ e, resolveBlockTag s tag = .error e ∧ BadTag s tag := by
  cases h : resolveBlockTag s tag with
  | ok n => exact Or.inl ⟨n, rfl, resolveBlockTag_ok_iff.mp h⟩
  | error e => exact Or.inr ⟨e, rfl, resolveBlockTag_error_iff.mp ⟨e, h⟩⟩

theorem saturatingAdd_one_large {n : Nat} :
    MAX_GETLOGS_RANGE < saturatingAdd n 1 ↔ MAX_GETLOGS_RANGE < n + 1 := by
  simp only [MAX_GETLOGS_RANGE, saturatingAdd, u64Max]
  omega

/-- What becomes of a filter. -/
inductive Ranged (s : Storage) (filter : LogFilter) : Except String (Option (Nat × Nat)) → Prop
  | refused (e : String) (h : Refused s filter) : Ranged s filter (.error e)
  | missed (h : ¬Refused s filter) (hno : ¬∃ a b, Selects s filter a b) :
      Ranged s filter (.ok none)
  | selected (h : ¬Refused s filter) (a b : Nat) (hsel : Selects s filter a b)
      (honly : ∀ a' b', Selects s filter a' b' → a' = a ∧ b' = b) :
      Ranged s filter (.ok (some (a, b)))

/-- A filter by hash is refused for its hash only. -/
theorem Refused.of_hash {blockHash : String} (hhash : filter.blockHash = some blockHash)
    (hr : Refused s filter) : ∃ e, parseHash blockHash = .error e := by
  cases hr with
  | hash blockHash' e hhash' hbad =>
      rw [hhash] at hhash'
      exact ⟨e, Option.some.inj hhash' ▸ hbad⟩
  | fromTag hnone _ => rw [hhash] at hnone; cases hnone
  | toTag hnone _ => rw [hhash] at hnone; cases hnone
  | reversed hnone _ _ _ _ _ => rw [hhash] at hnone; cases hnone
  | tooLarge hnone _ _ _ _ _ => rw [hhash] at hnone; cases hnone

/-- A filter by hash selects the height its hash is indexed at. -/
theorem Selects.of_hash {blockHash : String} {arr : Bytes32} {a b : Nat}
    (hhash : filter.blockHash = some blockHash) (harr : parseHash blockHash = .ok arr)
    (hsel : Selects s filter a b) : s.heightOfHash arr = .ok (some a) ∧ b = a := by
  cases hsel with
  | hash blockHash' arr' _ hhash' harr' hheight =>
      rw [hhash] at hhash'
      rw [← Option.some.inj hhash', harr] at harr'
      rw [Except.ok.inj harr']
      exact ⟨hheight, rfl⟩
  | range _ _ hnone _ _ _ _ _ _ => rw [hhash] at hnone; cases hnone

/-- A filter by hash. -/
theorem getLogsRange_hash {blockHash : String} (hhash : filter.blockHash = some blockHash)
    (hindex : ∀ entry ∈ s.hashToHeight, entry.2.length = 8) :
    Ranged s filter (getLogsRange s filter) := by
  cases harr : parseHash blockHash with
  | error e =>
      simp only [getLogsRange, hhash, harr]
      exact .refused e (.hash blockHash e hhash harr)
  | ok arr =>
      have hnr : ¬Refused s filter := by
        intro hr
        obtain ⟨e, hbad⟩ := hr.of_hash hhash
        rw [harr] at hbad
        cases hbad
      simp only [getLogsRange, hhash, harr, bind, Except.bind]
      cases hlook : s.heightOfHash arr with
      | error e =>
          -- an index entry of another length than the writes make
          simp only [Storage.heightOfHash] at hlook
          cases hentry : s.hashToHeight.lookup arr with
          | none => rw [hentry] at hlook; cases hlook
          | some slice =>
              rw [hentry] at hlook
              have hmem : (arr, slice) ∈ s.hashToHeight := mem_of_lookup hentry
              dsimp only at hlook
              rw [if_neg (not_not.mpr (hindex _ hmem))] at hlook
              cases hlook
      | ok found =>
          cases found with
          | none =>
              refine .missed hnr ?_
              rintro ⟨a, b, hsel⟩
              rw [(hsel.of_hash hhash harr).1] at hlook
              cases hlook
          | some height =>
              refine .selected hnr height height
                (.hash blockHash arr height hhash harr hlook) ?_
              intro a b hsel
              obtain ⟨ha, rfl⟩ := hsel.of_hash hhash harr
              rw [ha] at hlook
              have heq := Option.some.inj (Except.ok.inj hlook)
              exact ⟨heq, heq⟩

/-- A tag names one height. -/
theorem Names.unique {tag : String} {a b : Nat} (ha : Names s tag a) (hb : Names s tag b) :
    a = b := by
  have h := (resolveBlockTag_ok_iff.mpr ha).symm.trans (resolveBlockTag_ok_iff.mpr hb)
  exact Except.ok.inj h

/-- A tag that names a height is not bad. -/
theorem Names.not_bad {tag : String} {a : Nat} (ha : Names s tag a) : ¬BadTag s tag := by
  intro hbad
  obtain ⟨e, he⟩ := resolveBlockTag_error_iff.mpr hbad
  rw [resolveBlockTag_ok_iff.mpr ha] at he
  cases he

/-- A filter by a range in order and of the allowed size is not refused. -/
theorem Refused.not_range {a b : Nat} (hr : Refused s filter) (hhash : filter.blockHash = none)
    (ha : Names s filter.fromTag a) (hb : Names s filter.toTag b) (hle : a ≤ b)
    (hsmall : b - a + 1 ≤ MAX_GETLOGS_RANGE) : False := by
  cases hr with
  | hash _ _ hsome _ => rw [hhash] at hsome; cases hsome
  | fromTag _ hbad => exact ha.not_bad hbad
  | toTag _ hbad => exact hb.not_bad hbad
  | reversed _ a' b' ha' hb' hlt =>
      rw [ha'.unique ha, hb'.unique hb] at hlt
      omega
  | tooLarge _ a' b' ha' hb' hlarge =>
      rw [ha'.unique ha, hb'.unique hb] at hlarge
      omega

/-- A filter that is refused selects nothing. -/
theorem Refused.not_selects {a b : Nat} (hr : Refused s filter) (hsel : Selects s filter a b) :
    False := by
  cases hsel with
  | hash blockHash arr _ hhash harr _ =>
      obtain ⟨e, hbad⟩ := hr.of_hash hhash
      rw [harr] at hbad
      cases hbad
  | range _ _ hhash ha hb hle hsmall _ _ => exact hr.not_range hhash ha hb hle hsmall

/-- A filter by range. -/
theorem getLogsRange_range (hhash : filter.blockHash = none) :
    Ranged s filter (getLogsRange s filter) := by
  simp only [getLogsRange, hhash]
  rcases names_or_badTag s filter.fromTag with ⟨a, hra, ha⟩ | ⟨e, hre, hbad⟩
  case inr =>
    rw [show resolveBlockTag s (filter.fromBlock.getD "latest") = .error e from hre]
    exact .refused e (.fromTag hhash hbad)
  rcases names_or_badTag s filter.toTag with ⟨b, hrb, hb⟩ | ⟨e, hre, hbad⟩
  case inr =>
    rw [show resolveBlockTag s (filter.fromBlock.getD "latest") = .ok a from hra,
      show resolveBlockTag s (filter.toBlock.getD "latest") = .error e from hre]
    exact .refused e (.toTag hhash hbad)
  rw [show resolveBlockTag s (filter.fromBlock.getD "latest") = .ok a from hra,
    show resolveBlockTag s (filter.toBlock.getD "latest") = .ok b from hrb]
  -- a range of legal length is not refused
  have hrefused : a ≤ b → b - a + 1 ≤ MAX_GETLOGS_RANGE → ¬Refused s filter :=
    fun hle hsmall hr => hr.not_range hhash ha hb hle hsmall
  show Ranged s filter (if b < a then _ else _)
  by_cases hlt : b < a
  · rw [if_pos hlt]
    exact .refused _ (.reversed hhash a b ha hb hlt)
  rw [if_neg hlt]
  by_cases hlarge : MAX_GETLOGS_RANGE < saturatingAdd (b - a) 1
  · rw [if_pos hlarge]
    exact .refused _ (.tooLarge hhash a b ha hb (saturatingAdd_one_large.mp hlarge))
  rw [if_neg hlarge]
  have hle : a ≤ b := Nat.le_of_not_lt hlt
  have hsmall : b - a + 1 ≤ MAX_GETLOGS_RANGE := by
    rw [saturatingAdd_one_large] at hlarge
    omega
  -- legal but not held whole: a miss
  by_cases hout : a < s.minHeight ∨ s.maxContiguousHeight < b
  · rw [if_pos hout]
    refine .missed (hrefused hle hsmall) ?_
    rintro ⟨a', b', hsel⟩
    cases hsel with
    | hash _ _ _ hsome _ _ => rw [hhash] at hsome; cases hsome
    | range _ _ _ ha' hb' _ _ hmin htip =>
        rw [ha'.unique ha] at hmin
        rw [hb'.unique hb] at htip
        omega
  · rw [if_neg hout]
    -- held whole: the tags name this range and no other
    refine .selected (hrefused hle hsmall) a b
      (.range a b hhash ha hb hle hsmall (by omega) (by omega)) ?_
    intro a' b' hsel
    cases hsel with
    | hash _ _ _ hsome _ _ => rw [hhash] at hsome; cases hsome
    | range _ _ _ ha' hb' _ _ _ _ => exact ⟨ha'.unique ha, hb'.unique hb⟩

end Range

/-! ## Answers -/

section Answers

variable {J : Codec} {R : RawReader J} {s : Storage} {filter : LogFilter}

/-- What a store that stands for a map has of the logs at a height. -/
theorem logsAt_iff {M : RecordMap} (hM : Refines R s M) {height : Nat} {logs : List Value} :
    LogsAt J s height logs ↔ logsIn J M height = some logs := by
  simp only [LogsAt, logsIn]
  rw [hM.getElement height C_LOGS]
  constructor
  · rintro ⟨bytes, hbytes, hlogs⟩
    rw [Except.ok.inj hbytes, Option.bind_some, hlogs]
    rfl
  · intro h
    obtain ⟨v, hv, hitems⟩ := Option.bind_eq_some_iff.mp h
    obtain ⟨bytes, hbytes, hslice⟩ := Option.bind_eq_some_iff.mp hv
    refine ⟨bytes, by rw [hbytes], ?_⟩
    rw [hslice, Value.asArray_eq_some hitems]

/-- The heights a filter selects are in order, few, not below the store's first and not
    the last there is. -/
theorem Selects.bounds (h : CStore R s) {a b : Nat} (hsel : Selects s filter a b) :
    s.minHeight ≤ a ∧ a ≤ b ∧ b < u64Max ∧ b + 1 - a ≤ MAX_GETLOGS_RANGE := by
  cases hsel with
  | hash blockHash arr _ hhash harr hheight =>
      have hfew : a + 1 - a ≤ MAX_GETLOGS_RANGE := by
        rw [Nat.add_sub_cancel_left]
        decide
      simp only [Storage.heightOfHash] at hheight
      cases hentry : s.hashToHeight.lookup arr with
      | none => rw [hentry] at hheight; cases hheight
      | some slice =>
          rw [hentry] at hheight
          have hmem : (arr, slice) ∈ s.hashToHeight := mem_of_lookup hentry
          obtain ⟨hlen, hlt⟩ := h.index _ hmem
          have hmin := (h.indexed _ hmem).2
          dsimp only at hheight hlen hlt hmin
          rw [if_neg (not_not.mpr hlen)] at hheight
          rw [← Option.some.inj (Except.ok.inj hheight)] at hfew ⊢
          exact ⟨hmin, le_refl _, hlt, hfew⟩
  | range _ _ hhash ha hb hle hsmall hmin htip =>
      refine ⟨hmin, hle, ?_, by omega⟩
      rcases Nat.eq_zero_or_pos b with hzero | hpos
      · rw [hzero]
        decide
      · cases hst : s.store with
        | none =>
            simp only [Storage.maxContiguousHeight, hst, Option.map_none, Option.getD_none] at htip
            omega
        | some st =>
            have hlo : st.minHeight ≤ b := by
              simp only [Storage.minHeight, hst, Option.map_some, Option.getD_some] at hmin
              omega
            exact h.bounded b (NeveRangeReplay.has_of_le_maxContiguous hst hlo htip (Or.inl hpos))

/-- The answer to a filter that selects heights. -/
theorem answers_iff {M : RecordMap} (hM : Refines R s M) {a b : Nat}
    (hsel : Selects s filter a b)
    (honly : ∀ a' b', Selects s filter a' b' → a' = a ∧ b' = b) (out : List Value) :
    Answers J s filter out ↔
      ∃ logs, (List.range' a (b + 1 - a)).mapM (logsIn J M) = some logs ∧
      out = logs.flatten.filter fun log => logMatches log filter.address filter.topics := by
  constructor
  · rintro ⟨a', b', hsel', logs, hlogs, rfl⟩
    obtain ⟨rfl, rfl⟩ := honly a' b' hsel'
    refine ⟨(List.range' a' (b' + 1 - a')).map logs, ?_, by rw [List.flatMap_def]⟩
    rw [mapM_eq_some_iff, List.map_map]
    refine List.map_congr_left fun k hk => ?_
    have hmem := List.mem_range'_1.mp hk
    exact (logsAt_iff hM).mp (hlogs k (by omega) (by omega))
  · rintro ⟨logs, hmapM, rfl⟩
    rw [mapM_eq_some_iff] at hmapM
    refine ⟨a, b, hsel, fun k => (logsIn J M k).getD [], ?_, ?_⟩
    · intro k hlo hhi
      have hmem : logsIn J M k ∈ logs.map some := by
        rw [← hmapM]
        exact List.mem_map_of_mem (List.mem_range'_1.mpr ⟨hlo, by omega⟩)
      obtain ⟨items, -, hitems⟩ := List.mem_map.mp hmem
      refine (logsAt_iff hM).mpr ?_
      show logsIn J M k = some ((logsIn J M k).getD [])
      rw [← hitems, Option.getD_some]
    · have hlogs : (List.range' a (b + 1 - a)).map (fun k => (logsIn J M k).getD []) = logs := by
        have hget := congrArg (List.map fun found : Option (List Value) => found.getD []) hmapM
        rw [List.map_map, List.map_map] at hget
        rw [show logs = logs.map ((fun found : Option (List Value) => found.getD []) ∘ some) from
          (List.map_id logs).symm]
        exact hget
      rw [List.flatMap_def, hlogs]

/-- **`eth_getLogs` is exact or declines.**  Over any C-chain store at rest: without logs
    ingested it is always a miss; with them it is an error exactly for a filter that is
    refused, a list exactly where every selected height has its logs, and then the list is
    of those that match; and a miss otherwise.  It never takes more than one read of a
    chunk for each height asked for. -/
theorem getLogs_exact (h : CStore R s) (filter : LogFilter) {fuel : Nat}
    (hfuel : MAX_GETLOGS_RANGE < fuel) :
    getLogs J s false filter fuel = some (.ok none) ∧
    ((∃ e, getLogs J s true filter fuel = some (.error e)) ↔ Refused s filter) ∧
    (∀ v, getLogs J s true filter fuel = some (.ok (some v)) ↔
      ∃ out, Answers J s filter out ∧ v = .array out) ∧
    (getLogs J s true filter fuel = some (.ok none) ↔
      ¬Refused s filter ∧ ¬∃ out, Answers J s filter out) := by
  refine ⟨rfl, ?_⟩
  obtain ⟨M, hM, hrec⟩ := h.records
  -- the range is refused, missed, or names the heights that the filter selects
  have hranged : Ranged s filter (getLogsRange s filter) := by
    cases hhash : filter.blockHash with
    | none => exact getLogsRange_range hhash
    | some blockHash => exact getLogsRange_hash hhash fun entry hentry => (h.index entry hentry).1
  simp only [getLogs, Bool.not_true, Bool.false_eq_true, if_false]
  generalize getLogsRange s filter = ranged at hranged
  cases hranged with
  | refused e hr =>
      -- a refused filter selects nothing, so nothing answers it
      have hno : ∀ out, ¬Answers J s filter out := fun out hans => by
        obtain ⟨a, b, hsel, -⟩ := hans
        exact hr.not_selects hsel
      refine ⟨⟨fun _ => hr, fun _ => ⟨e, rfl⟩⟩, fun v => ⟨fun hv => ?_, ?_⟩,
        fun hv => ?_, ?_⟩
      · cases hv
      · rintro ⟨out, hans, -⟩
        exact absurd hans (hno out)
      · cases hv
      · rintro ⟨hnr, -⟩
        exact absurd hr hnr
  | missed hnr hsel =>
      have hno : ¬∃ out, Answers J s filter out :=
        fun ⟨out, a, b, hab, _⟩ => hsel ⟨a, b, hab⟩
      refine ⟨⟨?_, fun hr => absurd hr hnr⟩, fun v => ⟨fun hv => ?_, ?_⟩,
        fun _ => ⟨hnr, hno⟩,
        fun _ => rfl⟩
      · rintro ⟨e, he⟩
        cases he
      · cases hv
      · rintro ⟨out, hans, -⟩
        exact absurd ⟨out, hans⟩ hno
  | selected hnr a b hsel honly =>
      -- few enough heights for the fuel, all at or below the top
      obtain ⟨hmin, hle, hlast, hfew⟩ := hsel.bounds h
      have hstart : a ≤ b + 1 := Nat.le_succ_of_le hle
      have hchunks : b + 1 - a < fuel := Nat.lt_of_le_of_lt hfew hfuel
      have hscan : scanLogs J s filter b fuel a [] = _ :=
        scanLogs_eq hM hrec hlast fuel hmin hstart hchunks []
      have hans := answers_iff hM hsel honly
      dsimp only
      rw [hscan]
      simp only [List.nil_append]
      -- the scan is a list exactly if every height of the range has its logs
      cases hlogs : (List.range' a (b + 1 - a)).mapM (logsIn J M) with
      | none =>
          have hno : ¬∃ out, Answers J s filter out := fun ⟨out, hout⟩ => by
            obtain ⟨logs, hsome, -⟩ := (hans out).mp hout
            rw [hlogs] at hsome
            cases hsome
          refine ⟨⟨?_, fun hr => absurd hr hnr⟩, fun v => ⟨fun hv => ?_, ?_⟩,
            fun _ => ⟨hnr, hno⟩, fun _ => rfl⟩
          · rintro ⟨e, he⟩
            cases he
          · cases hv
          · rintro ⟨out, hout, -⟩
            exact absurd ⟨out, hout⟩ hno
      | some logs =>
          have hout := (hans _).mpr ⟨logs, hlogs, rfl⟩
          refine ⟨⟨?_, fun hr => absurd hr hnr⟩, fun v => ⟨fun hv => ?_, ?_⟩,
            fun hv => ?_, ?_⟩
          · rintro ⟨e, he⟩
            cases he
          · exact ⟨_, hout, (Option.some.inj (Except.ok.inj (Option.some.inj hv))).symm⟩
          · rintro ⟨out, hout', rfl⟩
            obtain ⟨logs', hlogs', rfl⟩ := (hans out).mp hout'
            rw [hlogs] at hlogs'
            rw [← Option.some.inj hlogs']
            rfl
          · cases hv
          · rintro ⟨-, hno⟩
            exact absurd ⟨_, hout⟩ hno

end Answers

/-- A log of a contract. -/
def logOf (address : String) : Value := .object [("address", .string address)]

/-- The logs of the block at a height: both contracts log, the second one first from
    height 6. -/
def loggedAt (height : Nat) : List Value :=
  if height ≤ 5 then [logOf "0xaa", logOf "0xbb"] else [logOf "0xbb", logOf "0xaa"]

/-- The put of such a block. -/
def loggedPut (height : Nat) : Put :=
  ⟨.none, height, Vector.replicate 32 1, [],
    [[123, 125], JsonText.toVec (.array (loggedAt height))]⟩

theorem isPrinted_array (vs : List Value) : JsonText.IsPrinted (JsonText.toVec (.array vs)) := by
  refine ⟨⟨_, rfl⟩, ?_, ?_⟩
  · rw [JsonText.toVec_array]
    exact ⟨openBracket, _, rfl, rfl⟩
  · rw [JsonText.toVec_array]
    exact ⟨openBracket :: joinComma (vs.map JsonText.toVec), closeBracket, rfl, rfl⟩

theorem cPut_logged {height : Nat} (h : height < u64Max) :
    CPut JsonText.spacedReader (loggedPut height) where
  values := by
    intro e he
    rcases List.mem_cons.mp he with rfl | he
    · exact isPrinted_object
    · rw [List.mem_singleton.mp he]
      exact isPrinted_array _
  height := h
  record := {
    block := by
      intro e he
      rw [← Option.some.inj he]
      exact ⟨.object [], rfl⟩
    logs := by
      intro e he
      rw [← Option.some.inj he]
      exact ⟨_, JsonText.fromSlice_toVec _⟩ }

/-- The blocks at the heights 5 and 6. -/
def loggedPuts : List Put := [loggedPut 5, loggedPut 6]

def logged : Storage :=
  loggedPuts.foldl (fun s p => (s.put p.fault p.height p.hash p.txHashes p.elements).2)
    (Storage.fresh memory .C none)

theorem cPut_loggedPuts : ∀ p ∈ loggedPuts, CPut JsonText.spacedReader p := by
  intro p hp
  rcases List.mem_cons.mp hp with rfl | hp
  · exact cPut_logged (by decide)
  · rw [List.mem_singleton.mp hp]
    exact cPut_logged (by decide)

theorem logsAt_logged {height : Nat} (h : height = 5 ∨ height = 6) :
    LogsAt JsonText.spacedCodec logged height (loggedAt height) := by
  have hM : Refines JsonText.spacedReader logged (loggedPuts.foldl putMap fun _ => none) :=
    Refines.run (s := Storage.fresh memory .C none) (fun _ => .missing)
      (fun p hp => (cPut_loggedPuts p hp).values) rfl
  refine ⟨JsonText.toVec (.array (loggedAt height)), ?_, JsonText.fromSlice_toVec _⟩
  rw [hM.getElement]
  rcases h with rfl | rfl
  · rfl
  · rfl

/-- The filter that asks for the first contract's logs, from a height to the tip. -/
def contractFilter (fromBlock : String) : LogFilter :=
  ⟨some fromBlock, some "latest", none, some (.One "0xAA"), none⟩

/-- In a store of two blocks that both contracts log in, the first contract's logs from height
    5 on are one of each block.  A filter from `earliest` is refused, and without
    stored logs the first is a miss. -/
theorem getLogs_exact_two_blocks :
    getLogs JsonText.spacedCodec logged true (contractFilter "0x5") 2049
        = some (.ok (some (.array [logOf "0xaa", logOf "0xaa"]))) ∧
    (∃ e, getLogs JsonText.spacedCodec logged true (contractFilter "earliest") 2049
        = some (.error e)) ∧
    getLogs JsonText.spacedCodec logged false (contractFilter "0x5") 2049
        = some (.ok none) := by
  have hstore : CStore JsonText.spacedReader logged :=
    (cStore_fresh _ memory .C none).run cPut_loggedPuts
  have hfive : Names logged "0x5" 5 := .number (by decide) (by decide) 5 (by decide)
  have htip : Names logged "latest" 6 := .tip (by decide) (by decide)
  have hanswer : Answers JsonText.spacedCodec logged (contractFilter "0x5")
      [logOf "0xaa", logOf "0xaa"] := by
    refine ⟨5, 6, .range 5 6 rfl hfive htip (by decide) (by decide) (by decide) (by decide),
      loggedAt, ?_, rfl⟩
    intro height hlo hhi
    exact logsAt_logged (by omega)
  obtain ⟨hoff, -, hlist, -⟩ :=
    getLogs_exact hstore (contractFilter "0x5") (show MAX_GETLOGS_RANGE < 2049 by decide)
  obtain ⟨-, herror, -⟩ :=
    getLogs_exact hstore (contractFilter "earliest") (show MAX_GETLOGS_RANGE < 2049 by decide)
  exact ⟨(hlist (.array _)).mpr ⟨_, hanswer, rfl⟩,
    herror.mpr (.fromTag rfl (.unsupported (by decide))), hoff⟩

end NeveEthRpc
