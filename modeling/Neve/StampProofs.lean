import Neve.JsonTextProofs
import Neve.RecordProofs
import Neve.RunProofs

/-! # Store stamps — what an open binds a data dir to

    A data dir carries up to three stamps (chain, network identity and format
    version), checked and completed by every open.  The stamps of older builds
    may be missing, and each has its own rule for what to make of that.  Block
    data with no identity must never be adopted; the check for it sits in one
    arm of the format-version match, so it is missed exactly by a data dir whose
    format version is stamped and whose identity is not (`honest_iff`). -/

namespace NeveStamp

open JsonValue ByteText NeveRecord

/-! ## Text -/

/-- A byte slice as text, if it is valid UTF-8. -/
def fromUtf8 (slice : Bytes) : Option String :=
  (JsonText.chars slice).map String.ofList

def asBytes (s : String) : Bytes := JsonText.utf8 s.toList

theorem fromUtf8_asBytes (s : String) : fromUtf8 (asBytes s) = some s := by
  simp only [fromUtf8, asBytes]
  rw [JsonText.chars_utf8, Option.map_some, String.ofList_toList]

/-- `str::parse::<u32>`. -/
def parseU32 (s : String) : Option Nat := parseDecimal (2 ^ 32) s.toList

/-- On-disk record-format version of a chain's store. -/
def formatVersion : Chain → Nat
  | .C => 1
  | .P => 1

/-! ## The data dir -/

/-- What an open looks at: the three stamps, and whether the blockstore's index
    file exists. -/
structure Disk where
  chain : Option Bytes
  identity : Option Bytes
  formatVersion : Option Bytes
  hasBlockData : Bool

/-- Any stamp or block data means the store is not fresh. -/
def Disk.populated (disk : Disk) : Bool :=
  disk.hasBlockData || disk.identity.isSome || disk.formatVersion.isSome

/-- How an open ends: with a handle, refused over what it found, or failed at
    some write or read of its own. -/
inductive Outcome where
  | opened
  | refused (reason : String)
  | failed (reason : String)

/-- Where an open goes wrong, if it does: writing one of the stamps, syncing
    them, or opening the blockstore. -/
inductive StampFault where
  | none
  | chain
  | identity
  | formatVersion
  | persist
  | blockstore
  deriving DecidableEq

section Open

variable (dataDir : String)

/-- A store holds exactly one chain's blocks; a populated store without the
    stamp is older than the second chain. -/
def checkChain (disk : Disk) (chain : Chain) : Except String Unit :=
  match disk.chain with
  | some slice =>
      match fromUtf8 slice with
      | none => .error "meta/chain is not valid UTF-8"
      | some stored =>
          if stored ≠ chain.asStr then
            .error (s!"data dir {dataDir} is stamped for the {stored} chain, refusing to open " ++
                s!"it as the {chain.asStr} chain; each chain needs its own data dir")
          else .ok ()
  | none =>
      if disk.populated ∧ chain ≠ .C then
        .error (s!"data dir {dataDir} holds data written before multi-chain support, which is " ++
            s!"C-chain data, so it cannot be opened as the {chain.asStr} chain; point " ++
            s!"--{chain.asStr}-data-dir somewhere else")
      else .ok ()

/-- The network identity must match a previously stamped value. -/
def checkIdentity (disk : Disk) (chain : Chain) (identity : String) : Except String Unit :=
  match disk.identity with
  | none => .ok ()
  | some slice =>
      match fromUtf8 slice with
      | none => .error "meta/chain_id is not valid UTF-8"
      | some stored =>
          if stored ≠ identity then
            .error (s!"data dir {dataDir} is stamped for {chain.asStr} network {stored}, " ++
                s!"refusing to open with network {identity}")
          else .ok ()

/-- The layout must be this build's.  Without the stamp, a store whose identity
    was verified is adopted, and block data of no known network is refused. -/
def checkFormat (disk : Disk) (chain : Chain) : Except String Unit :=
  match disk.formatVersion with
  | some slice =>
      match fromUtf8 slice with
      | none => .error "meta/format_version is not valid UTF-8"
      | some stored =>
          match parseU32 stored with
          | none => .error s!"meta/format_version {repr stored} is not a u32"
          | some storedVer =>
              if storedVer ≠ formatVersion chain then
                .error (s!"data dir {dataDir} was written with on-disk format version " ++
                    s!"{storedVer} but this build requires version {formatVersion chain} for " ++
                    s!"the {chain.asStr} chain; the record layout changed and there is no " ++
                    "migration — delete the data dir and let neve resync")
              else .ok ()
  | none =>
      if disk.identity.isSome then .ok ()
      else if disk.hasBlockData then
        .error (s!"data dir {dataDir} holds block data with no network stamp, so there is no " ++
            "way to verify which network it belongs to; it predates network stamping — delete " ++
            "the data dir and let neve resync")
      else .ok ()

/-- Write the stamps that are missing, chain first, then sync.  A write that
    fails leaves the stamps before it. -/
def stampMissing (disk : Disk) (fault : StampFault) (chain : Chain) (identity : String) :
    Bool × Disk :=
  let d1 := { disk with chain := some (disk.chain.getD (asBytes chain.asStr)) }
  let d2 := { d1 with identity := some (disk.identity.getD (asBytes identity)) }
  let version := asBytes (toString (formatVersion chain))
  let d3 := { d2 with formatVersion := some (disk.formatVersion.getD version) }
  if disk.chain.isNone ∧ fault = .chain then (false, disk)
  else if disk.identity.isNone ∧ fault = .identity then (false, d1)
  else if disk.formatVersion.isNone ∧ fault = .formatVersion then (false, d2)
  else if (disk.chain.isNone ∨ disk.identity.isNone ∨ disk.formatVersion.isNone) ∧
      fault = .persist then (false, d3)
  else (true, d3)

/-- Verify the stamps, writing those a fresh or older store lacks. -/
def verifyAndStampMeta (disk : Disk) (fault : StampFault) (chain : Chain)
    (identity : String) : Outcome × Disk :=
  match (do
    checkChain dataDir disk chain
    checkIdentity dataDir disk chain identity
    checkFormat dataDir disk chain) with
  | .error reason => (.refused reason, disk)
  | .ok () =>
      match stampMissing disk fault chain identity with
      | (false, disk') => (.failed "meta", disk')
      | (true, disk') => (.opened, disk')

/-- Open (or create) a chain's storage. -/
def openStorage (disk : Disk) (fault : StampFault) (chain : Chain) (identity : String) :
    Outcome × Disk :=
  match verifyAndStampMeta dataDir disk fault chain identity with
  | (.opened, disk') =>
      if disk.hasBlockData ∧ fault = .blockstore then (.failed "opening blockstore", disk')
      else (.opened, disk')
  | (out, disk') => (out, disk')

end Open

/-! ## What the checks accept -/

/-- The chain stamp is this chain's, or missing where that is allowed. -/
def ChainFits (disk : Disk) (chain : Chain) : Prop :=
  (∃ slice, disk.chain = some slice ∧ fromUtf8 slice = some chain.asStr) ∨
    (disk.chain = none ∧ (disk.populated → chain = .C))

def IdentityFits (disk : Disk) (identity : String) : Prop :=
  ∀ slice, disk.identity = some slice → fromUtf8 slice = some identity

/-- The format stamp spells the version this build writes for the chain. -/
def FormatStamped (disk : Disk) (chain : Chain) : Prop :=
  ∃ slice text, disk.formatVersion = some slice ∧ fromUtf8 slice = some text ∧
    parseU32 text = some (formatVersion chain)

section Checks

variable {dataDir : String} {disk disk' : Disk} {chain : Chain} {identity : String}
  {fault : StampFault}

theorem checkChain_ok_iff : checkChain dataDir disk chain = .ok () ↔ ChainFits disk chain := by
  simp only [checkChain, ChainFits]
  cases hc : disk.chain with
  | none =>
      dsimp only
      -- no stamp: only a C-chain may have written what is there
      by_cases h : disk.populated ∧ chain ≠ .C
      · rw [if_pos h]
        constructor
        · intro he
          cases he
        · rintro (⟨slice, hs, -⟩ | ⟨-, hC⟩)
          · cases hs
          · exact absurd (hC h.1) h.2
      · rw [if_neg h]
        constructor
        · intro _
          refine Or.inr ⟨rfl, ?_⟩
          intro hp
          by_contra hne
          exact h ⟨hp, hne⟩
        · intro _
          rfl
  | some slice =>
      dsimp only
      -- a stamp that is not text, or the name of another chain, is refused
      cases ht : fromUtf8 slice with
      | none =>
          constructor
          · intro he
            cases he
          · rintro (⟨slice', hs, ht'⟩ | ⟨hs, -⟩)
            · rw [← Option.some.inj hs, ht] at ht'
              cases ht'
            · cases hs
      | some stored =>
          dsimp only
          by_cases h : stored ≠ chain.asStr
          · rw [if_pos h]
            constructor
            · intro he
              cases he
            · rintro (⟨slice', hs, ht'⟩ | ⟨hs, -⟩)
              · rw [← Option.some.inj hs, ht] at ht'
                exact absurd (Option.some.inj ht') h
              · cases hs
          · rw [if_neg h]
            constructor
            · intro _
              exact Or.inl ⟨slice, rfl, by rw [ht, not_not.mp h]⟩
            · intro _
              rfl

theorem checkIdentity_ok_iff :
    checkIdentity dataDir disk chain identity = .ok () ↔ IdentityFits disk identity := by
  simp only [checkIdentity, IdentityFits]
  cases hc : disk.identity with
  | none =>
      constructor
      · intro _ slice hs
        cases hs
      · intro _
        rfl
  | some slice =>
      dsimp only
      cases ht : fromUtf8 slice with
      | none =>
          constructor
          · intro he
            cases he
          · intro h
            have := h slice rfl
            rw [ht] at this
            cases this
      | some stored =>
          dsimp only
          by_cases h : stored ≠ identity
          · rw [if_pos h]
            constructor
            · intro he
              cases he
            · intro hall
              have := hall slice rfl
              rw [ht] at this
              exact absurd (Option.some.inj this) h
          · rw [if_neg h]
            constructor
            · intro _ slice' hs
              rw [← Option.some.inj hs, ht, not_not.mp h]
            · intro _
              rfl

/-- What the format check lets through: the right version, or no stamp beside an
    identity or an empty blockstore. -/
theorem checkFormat_ok_iff :
    checkFormat dataDir disk chain = .ok () ↔
      FormatStamped disk chain ∨
        (disk.formatVersion = none ∧ (disk.identity.isSome ∨ disk.hasBlockData = false)) := by
  simp only [checkFormat, FormatStamped]
  cases hf : disk.formatVersion with
  | none =>
      dsimp only
      have hno : ¬ ∃ slice text, (none : Option Bytes) = some slice ∧
          fromUtf8 slice = some text ∧ parseU32 text = some (formatVersion chain) := by
        rintro ⟨slice, text, hs, -⟩
        cases hs
      rw [or_iff_right hno]
      cases hi : disk.identity.isSome with
      | true => simp
      | false =>
          cases hb : disk.hasBlockData with
          | true => simp
          | false => simp
  | some slice =>
      dsimp only
      have hno : ¬ ((some slice : Option Bytes) = none ∧
          (disk.identity.isSome ∨ disk.hasBlockData = false)) := by
        rintro ⟨hs, -⟩
        cases hs
      rw [or_iff_left hno]
      constructor
      · intro he
        cases ht : fromUtf8 slice with
        | none => rw [ht] at he; cases he
        | some stored =>
            rw [ht] at he
            dsimp only at he
            cases hp : parseU32 stored with
            | none => rw [hp] at he; cases he
            | some ver =>
                rw [hp] at he
                dsimp only at he
                by_cases hv : ver ≠ formatVersion chain
                · rw [if_pos hv] at he; cases he
                · exact ⟨slice, stored, rfl, ht, by rw [hp, not_not.mp hv]⟩
      · rintro ⟨slice', text, hs, ht, hp⟩
        rw [Option.some.inj hs, ht]
        dsimp only
        rw [hp]
        exact if_neg (not_not.mpr rfl)

/-- Everything an open must find before it stamps anything. -/
structure Accepts (disk : Disk) (chain : Chain) (identity : String) : Prop where
  chain_fits : ChainFits disk chain
  identity_fits : IdentityFits disk identity
  format_fits : FormatStamped disk chain ∨
    (disk.formatVersion = none ∧ (disk.identity.isSome ∨ disk.hasBlockData = false))

/-- The disk left behind differs from the one found only in stamps that were
    missing. -/
structure Stamps (disk : Disk) (chain : Chain) (identity : String) (disk' : Disk) :
    Prop where
  chain_eq : disk'.chain = disk.chain ∨
    (disk.chain = none ∧ disk'.chain = some (asBytes chain.asStr))
  identity_eq : disk'.identity = disk.identity ∨
    (disk.identity = none ∧ disk'.identity = some (asBytes identity))
  hasBlockData_eq : disk'.hasBlockData = disk.hasBlockData

theorem stamps_stampMissing :
    Stamps disk chain identity (stampMissing disk fault chain identity).2 := by
  have hchain : some (disk.chain.getD (asBytes chain.asStr)) = disk.chain ∨
      (disk.chain = none ∧
        some (disk.chain.getD (asBytes chain.asStr)) = some (asBytes chain.asStr)) := by
    cases disk.chain with
    | none => exact Or.inr ⟨rfl, rfl⟩
    | some slice => exact Or.inl rfl
  have hident : some (disk.identity.getD (asBytes identity)) = disk.identity ∨
      (disk.identity = none ∧
        some (disk.identity.getD (asBytes identity)) = some (asBytes identity)) := by
    cases disk.identity with
    | none => exact Or.inr ⟨rfl, rfl⟩
    | some slice => exact Or.inl rfl
  simp only [stampMissing]
  by_cases h1 : disk.chain.isNone ∧ fault = .chain
  · rw [if_pos h1]
    exact ⟨Or.inl rfl, Or.inl rfl, rfl⟩
  rw [if_neg h1]
  by_cases h2 : disk.identity.isNone ∧ fault = .identity
  · rw [if_pos h2]
    exact ⟨hchain, Or.inl rfl, rfl⟩
  rw [if_neg h2]
  by_cases h3 : disk.formatVersion.isNone ∧ fault = .formatVersion
  · rw [if_pos h3]
    exact ⟨hchain, hident, rfl⟩
  rw [if_neg h3]
  by_cases h4 : (disk.chain.isNone ∨ disk.identity.isNone ∨ disk.formatVersion.isNone) ∧
      fault = .persist
  · rw [if_pos h4]
    exact ⟨hchain, hident, rfl⟩
  · rw [if_neg h4]
    exact ⟨hchain, hident, rfl⟩

/-- Once all stamps are written the chain and the identity are there. -/
theorem stampMissing_true (h : (stampMissing disk fault chain identity).1 = true) :
    (stampMissing disk fault chain identity).2.chain.isSome ∧
      (stampMissing disk fault chain identity).2.identity.isSome := by
  simp only [stampMissing] at h ⊢
  by_cases h1 : disk.chain.isNone ∧ fault = .chain
  · rw [if_pos h1] at h
    cases h
  rw [if_neg h1] at h ⊢
  by_cases h2 : disk.identity.isNone ∧ fault = .identity
  · rw [if_pos h2] at h
    cases h
  rw [if_neg h2] at h ⊢
  by_cases h3 : disk.formatVersion.isNone ∧ fault = .formatVersion
  · rw [if_pos h3] at h
    cases h
  rw [if_neg h3] at h ⊢
  by_cases h4 : (disk.chain.isNone ∨ disk.identity.isNone ∨ disk.formatVersion.isNone) ∧
      fault = .persist
  · rw [if_pos h4] at h
    cases h
  · rw [if_neg h4]
    exact ⟨rfl, rfl⟩

/-- Every way an open can end. -/
inductive OpenEffect (disk : Disk) (chain : Chain) (identity : String) :
    Outcome → Disk → Prop where
  | refused (reason : String) : ¬ Accepts disk chain identity →
      OpenEffect disk chain identity (.refused reason) disk
  | failed (reason : String) (disk' : Disk) : Accepts disk chain identity →
      Stamps disk chain identity disk' → OpenEffect disk chain identity (.failed reason) disk'
  | opened (disk' : Disk) : Accepts disk chain identity →
      Stamps disk chain identity disk' → disk'.chain.isSome → disk'.identity.isSome →
      OpenEffect disk chain identity .opened disk'

theorem checks_ok_iff :
    (do
      checkChain dataDir disk chain
      checkIdentity dataDir disk chain identity
      checkFormat dataDir disk chain) = .ok () ↔ Accepts disk chain identity := by
  constructor
  · intro h
    cases hc : checkChain dataDir disk chain with
    | error e => rw [hc] at h; cases h
    | ok u =>
        rw [hc] at h
        cases hi : checkIdentity dataDir disk chain identity with
        | error e => rw [hi] at h; cases h
        | ok u' =>
            rw [hi] at h
            exact ⟨checkChain_ok_iff.mp hc, checkIdentity_ok_iff.mp hi,
              checkFormat_ok_iff.mp h⟩
  · rintro ⟨hc, hi, hf⟩
    rw [checkChain_ok_iff.mpr hc, checkIdentity_ok_iff.mpr hi, checkFormat_ok_iff.mpr hf]
    rfl

/-- **The spec of an open.** -/
theorem openStorage_effect (dataDir : String) (disk : Disk) (fault : StampFault)
    (chain : Chain) (identity : String) :
    OpenEffect disk chain identity (openStorage dataDir disk fault chain identity).1
      (openStorage dataDir disk fault chain identity).2 := by
  simp only [openStorage, verifyAndStampMeta]
  have hiff := @checks_ok_iff dataDir disk chain identity
  generalize (do
      checkChain dataDir disk chain
      checkIdentity dataDir disk chain identity
      checkFormat dataDir disk chain) = result at hiff
  cases result with
  | error reason =>
      refine .refused reason ?_
      intro hacc
      cases hiff.mpr hacc
  | ok u =>
      have hacc := hiff.mp rfl
      have hst : Stamps disk chain identity (stampMissing disk fault chain identity).2 :=
        stamps_stampMissing
      have htrue : (stampMissing disk fault chain identity).1 = true → _ := stampMissing_true
      generalize stampMissing disk fault chain identity = out at hst htrue
      obtain ⟨ok, disk'⟩ := out
      cases ok with
      | false => exact .failed _ disk' hacc hst
      | true =>
          dsimp only
          by_cases hb : disk.hasBlockData ∧ fault = .blockstore
          · rw [if_pos hb]
            exact .failed _ disk' hacc hst
          · rw [if_neg hb]
            exact .opened disk' hacc hst (htrue rfl).1 (htrue rfl).2

/-- With nothing going wrong, what is accepted is opened. -/
theorem openStorage_of_accepts (dataDir : String) (h : Accepts disk chain identity) :
    (openStorage dataDir disk .none chain identity).1 = .opened := by
  simp only [openStorage, verifyAndStampMeta]
  rw [checks_ok_iff.mpr h]
  simp [stampMissing]

end Checks

/-! ## Sequences of opens -/

/-- A data dir over time, with the opens that succeeded so far. -/
structure DataDir where
  disk : Disk
  opened : List (Chain × String)

/-- An open, or the first block written through an open handle. -/
inductive Action where
  | openAs (chain : Chain) (identity : String) (fault : StampFault)
  | ingest

def DataDir.start (disk : Disk) : DataDir := ⟨disk, []⟩

def step (dataDir : String) (d : DataDir) : Action → Option DataDir
  | .openAs chain identity fault =>
      match openStorage dataDir d.disk fault chain identity with
      | (.opened, disk') => some ⟨disk', (chain, identity) :: d.opened⟩
      | (_, disk') => some { d with disk := disk' }
  | .ingest =>
      if d.opened = [] then none
      else some { d with disk := { d.disk with hasBlockData := true } }

/-- What an open may do to the data dir it finds: open block data only under the
    identity that data is stamped with, open one store under one chain and
    identity, take a populated store without a chain stamp for nothing but a
    C-chain store, and leave the stamps alone when it refuses. -/
def Honest (dataDir : String) (d : DataDir) : Action → Prop
  | .openAs chain identity fault =>
      ((openStorage dataDir d.disk fault chain identity).1 = .opened →
        (d.disk.hasBlockData = true →
          ∃ slice, d.disk.identity = some slice ∧ fromUtf8 slice = some identity) ∧
        (∀ earlier ∈ d.opened, earlier = (chain, identity)) ∧
        (d.disk.populated = true → d.disk.chain = none → chain = .C)) ∧
      ∀ reason, (openStorage dataDir d.disk fault chain identity).1 = .refused reason →
        (openStorage dataDir d.disk fault chain identity).2.chain = d.disk.chain ∧
        (openStorage dataDir d.disk fault chain identity).2.identity = d.disk.identity ∧
        (openStorage dataDir d.disk fault chain identity).2.formatVersion
          = d.disk.formatVersion
  | .ingest => True

/-- Block data of no known network behind a format stamp that some open will
    take for its own. -/
def Unclaimed (disk : Disk) : Prop :=
  disk.hasBlockData = true ∧ disk.identity = none ∧
    ∃ chain, ChainFits disk chain ∧ FormatStamped disk chain

/-- The invariant: no unclaimed block data, and the stamps are those of every
    open that succeeded. -/
structure Bound (d : DataDir) : Prop where
  claimed : ¬ Unclaimed d.disk
  chain : ∀ e ∈ d.opened, ∃ slice, d.disk.chain = some slice ∧
    fromUtf8 slice = some e.1.asStr
  identity : ∀ e ∈ d.opened, ∃ slice, d.disk.identity = some slice ∧
    fromUtf8 slice = some e.2

section Runs

variable {disk disk' : Disk} {chain : Chain} {identity : String}

/-- Claimed block data is accepted only under its own identity. -/
theorem Accepts.identity_of_data (h : Accepts disk chain identity) (hno : ¬ Unclaimed disk)
    (hdata : disk.hasBlockData = true) :
    ∃ slice, disk.identity = some slice ∧ fromUtf8 slice = some identity := by
  cases hi : disk.identity with
  | some slice => exact ⟨slice, rfl, h.identity_fits slice hi⟩
  | none =>
      rcases h.format_fits with hf | ⟨-, hsome | hempty⟩
      · exact absurd ⟨hdata, hi, chain, h.chain_fits, hf⟩ hno
      · rw [hi] at hsome
        cases hsome
      · rw [hdata] at hempty
        cases hempty

/-- Stamping what was missing leaves no block data unclaimed. -/
theorem Stamps.claimed (hs : Stamps disk chain identity disk')
    (h : Accepts disk chain identity) (hno : ¬ Unclaimed disk) : ¬ Unclaimed disk' := by
  rintro ⟨hdata, hnone, -⟩
  rw [hs.hasBlockData_eq] at hdata
  obtain ⟨slice, hi, -⟩ := h.identity_of_data hno hdata
  rcases hs.identity_eq with heq | ⟨-, heq⟩
  · rw [hnone, hi] at heq
    cases heq
  · rw [hnone] at heq
    cases heq

/-- Stamps that are there stay. -/
theorem Stamps.keeps_chain (hs : Stamps disk chain identity disk') {slice : Bytes}
    (h : disk.chain = some slice) : disk'.chain = some slice := by
  rcases hs.chain_eq with heq | ⟨hnone, -⟩
  · rw [heq, h]
  · rw [h] at hnone
    cases hnone

theorem Stamps.keeps_identity (hs : Stamps disk chain identity disk') {slice : Bytes}
    (h : disk.identity = some slice) : disk'.identity = some slice := by
  rcases hs.identity_eq with heq | ⟨hnone, -⟩
  · rw [heq, h]
  · rw [h] at hnone
    cases hnone

/-- The chain stamp after an open that succeeded is that chain's. -/
theorem Stamps.chain_text (hs : Stamps disk chain identity disk')
    (h : Accepts disk chain identity) (hsome : disk'.chain.isSome) :
    ∃ slice, disk'.chain = some slice ∧ fromUtf8 slice = some chain.asStr := by
  rcases hs.chain_eq with heq | ⟨-, heq⟩
  · rcases h.chain_fits with ⟨slice, hc, ht⟩ | ⟨hc, -⟩
    · exact ⟨slice, heq.trans hc, ht⟩
    · rw [heq, hc] at hsome
      cases hsome
  · exact ⟨_, heq, fromUtf8_asBytes chain.asStr⟩

theorem Stamps.identity_text (hs : Stamps disk chain identity disk')
    (h : Accepts disk chain identity) (hsome : disk'.identity.isSome) :
    ∃ slice, disk'.identity = some slice ∧ fromUtf8 slice = some identity := by
  rcases hs.identity_eq with heq | ⟨-, heq⟩
  · obtain ⟨slice, hi⟩ := Option.isSome_iff_exists.mp hsome
    exact ⟨slice, hi, h.identity_fits slice (heq ▸ hi)⟩
  · exact ⟨_, heq, fromUtf8_asBytes identity⟩

/-- Stamping keeps the invariant for the opens there were. -/
theorem Bound.stamps {d : DataDir} (h : Bound d) (hacc : Accepts d.disk chain identity)
    (hs : Stamps d.disk chain identity disk') : Bound { d with disk := disk' } where
  claimed := hs.claimed hacc h.claimed
  chain e he := by
    obtain ⟨slice, hc, ht⟩ := h.chain e he
    exact ⟨slice, hs.keeps_chain hc, ht⟩
  identity e he := by
    obtain ⟨slice, hi, ht⟩ := h.identity e he
    exact ⟨slice, hs.keeps_identity hi, ht⟩

/-- **The step lemma.** -/
theorem Bound.step {dataDir : String} {d d' : DataDir} {a : Action} (h : Bound d)
    (hstep : NeveStamp.step dataDir d a = some d') : Bound d' := by
  cases a with
  | openAs chain identity fault =>
      simp only [NeveStamp.step] at hstep
      have heff := openStorage_effect dataDir d.disk fault chain identity
      generalize openStorage dataDir d.disk fault chain identity = out at heff hstep
      obtain ⟨outcome, disk'⟩ := out
      cases heff with
      | refused reason _ =>
          rw [← Option.some.inj hstep]
          exact h
      | failed reason _ hacc hs =>
          rw [← Option.some.inj hstep]
          exact h.stamps hacc hs
      | opened _ hacc hs hc hi =>
          rw [← Option.some.inj hstep]
          have hold := h.stamps hacc hs
          refine ⟨hold.claimed, ?_, ?_⟩
          · intro e he
            rcases List.mem_cons.mp he with rfl | he
            · exact hs.chain_text hacc hc
            · exact hold.chain e he
          · intro e he
            rcases List.mem_cons.mp he with rfl | he
            · exact hs.identity_text hacc hi
            · exact hold.identity e he
  | ingest =>
      simp only [NeveStamp.step] at hstep
      by_cases hempty : d.opened = []
      · rw [if_pos hempty] at hstep
        cases hstep
      · rw [if_neg hempty] at hstep
        rw [← Option.some.inj hstep]
        refine ⟨?_, h.chain, h.identity⟩
        -- somebody opened the store before writing to it, and that left an identity
        rintro ⟨-, hnone, -⟩
        obtain ⟨e, he⟩ := List.exists_mem_of_ne_nil _ hempty
        obtain ⟨slice, hi, -⟩ := h.identity e he
        have hnone : d.disk.identity = none := hnone
        rw [hi] at hnone
        cases hnone

/-- What the invariant says about the next open. -/
theorem Bound.honest (dataDir : String) {d : DataDir} (h : Bound d) (a : Action) :
    Honest dataDir d a := by
  cases a with
  | ingest => exact trivial
  | openAs chain identity fault =>
      have heff := openStorage_effect dataDir d.disk fault chain identity
      simp only [Honest]
      generalize openStorage dataDir d.disk fault chain identity = out at heff
      obtain ⟨outcome, disk'⟩ := out
      refine ⟨?_, ?_⟩
      · intro hopened
        cases heff with
        | refused reason _ => cases hopened
        | failed reason _ _ _ => cases hopened
        | opened _ hacc hs hc hi =>
            refine ⟨hacc.identity_of_data h.claimed, ?_, ?_⟩
            · rintro ⟨chain', identity'⟩ he
              obtain ⟨c, hc', hct⟩ := h.chain _ he
              obtain ⟨i, hi', hit⟩ := h.identity _ he
              rw [hacc.identity_fits i hi'] at hit
              rcases hacc.chain_fits with ⟨c', hcc, hct'⟩ | ⟨hnone, -⟩
              · rw [hc', Option.some.injEq] at hcc
                rw [hcc, hct'] at hct
                rw [Chain.asStr_inj (Option.some.inj hct), Option.some.inj hit]
              · rw [hc'] at hnone
                cases hnone
            · intro hpop hnone
              rcases hacc.chain_fits with ⟨c', hcc, -⟩ | ⟨-, hC⟩
              · rw [hnone] at hcc
                cases hcc
              · exact hC hpop
      · intro reason hrefused
        cases heff with
        | refused reason _ => exact ⟨rfl, rfl, rfl⟩
        | failed reason _ _ _ => cases hrefused
        | opened _ _ _ _ _ => cases hrefused

end Runs

/-- **When stamping is honest.** Over every sequence of opens (with block data
    written in between), every open behaves as it should exactly when the data
    dir did not start out with unclaimed block data. -/
theorem honest_iff (dataDir : String) (disk : Disk) :
    (∀ as, Run.Meets (step dataDir) (Honest dataDir) (DataDir.start disk) as) ↔
      ¬ Unclaimed disk := by
  constructor
  · rintro hall ⟨hdata, hnone, chain, hchain, hformat⟩
    have hacc : Accepts disk chain "" := by
      refine ⟨hchain, ?_, Or.inl hformat⟩
      intro slice hs
      rw [hnone] at hs
      cases hs
    obtain ⟨⟨hopen, -⟩, -⟩ := hall [.openAs chain "" .none]
    obtain ⟨slice, hs, -⟩ := (hopen (openStorage_of_accepts dataDir hacc)).1 hdata
    have hs : disk.identity = some slice := hs
    rw [hnone] at hs
    cases hs
  · intro hno as
    have hinit : Bound (DataDir.start disk) :=
      ⟨hno, fun _ he => (by cases he), fun _ he => (by cases he)⟩
    exact Run.meets_of_invariant (fun d a hd => hd.honest dataDir a)
      (fun _ _ _ hd hs => hd.step hs) hinit

/-- Block data beside nothing but a format stamp: the first open binds it to
    whatever network it was given. -/
theorem honest_fails_format_only :
    ¬ ∀ (dataDir : String) (disk : Disk) (as : List Action),
      Run.Meets (step dataDir) (Honest dataDir) (DataDir.start disk) as := by
  intro hall
  have hacc : Accepts ⟨none, none, some [49], true⟩ .C "43113" := by
    refine ⟨Or.inr ⟨rfl, fun _ => rfl⟩, ?_, Or.inl ⟨[49], "1", rfl, ?_, ?_⟩⟩
    · intro slice hs
      cases hs
    · exact fromUtf8_asBytes "1"
    · decide
  obtain ⟨⟨hopen, -⟩, -⟩ :=
    hall "data" ⟨none, none, some [49], true⟩ [.openAs .C "43113" .none]
  obtain ⟨slice, hs, -⟩ := (hopen (openStorage_of_accepts "data" hacc)).1 rfl
  cases hs

end NeveStamp
