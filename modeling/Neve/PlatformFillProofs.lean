import Neve.PlatformIngestProofs
import Neve.JsonTextProofs

/-! # The P-chain's range fill — an exact resolved prefix

    A range fill hands blocks to the store one at a time, holding a reward proposal until
    the block after it has been fetched.  Beside the fill stands the list of what it hands
    over, in order, with how each write went (`fillWrites`); the store it leaves is what
    these writes make of the store it found.

    Whatever is fetched and however the writes go, the list is a gapless prefix of the
    range with every proposal resolved by the block after it (`fill_range_prefix`).  The
    rewards of a committed one are the upstream's own as long as its reply has them
    (`committed_rewards_iff`): a reply without any is taken for one of none. -/

namespace NevePlatformIngest

open JsonValue ByteText NeveRecord NeveStorage NevePlatformCodec

/-! ## The writes of a fill -/

/-- A block handed to the store with its rewards element, and whether that went through. -/
structure Write where
  block : FetchedBlock
  rewards : Bytes
  ok : Bool

/-- Hand a block to a store. -/
def Write.of (s : Storage) (fault : Fault) (block : FetchedBlock) (rewards : Bytes) : Write :=
  ⟨block, rewards, (storeBlock s fault block rewards).1.isSome⟩

section Writes

variable (J : Codec) (sha256 : Bytes → Bytes32)

/-- The write that settles a held proposal, if there is one and it is resolved. -/
def pendingWrites (fault : Nat → Fault) (s : Storage) (pending : Option FetchedBlock)
    (outcome : BlockKind) (utxos : String → Option Value) : List Write :=
  match pending with
  | none => []
  | some proposal =>
      match resolveReward J proposal outcome utxos with
      | none => []
      | some rewards => [Write.of s (fault proposal.height) proposal rewards]

/-- The writes made while one height of a run is processed. -/
def stepWrites (listening : Bool) (fault : Nat → Fault) (tip : Nat) (p : Pipeline)
    (pending : Option FetchedBlock) (height : Nat) (r : HeightReply) : List Write :=
  match fetchBlock J sha256 height r with
  | none => []
  | some fetched =>
      pendingWrites J fault p.storage pending fetched.kind r.utxos ++
        match settlePending J listening fault tip p pending fetched.kind r.utxos with
        | (false, _) => []
        | (true, p1) =>
            if fetched.rewardStakingTx.isSome then []
            else [Write.of p1.storage (fault fetched.height) fetched EMPTY_ARRAY]

/-- The writes of a run, in order. -/
def fillWrites (listening : Bool) (fault : Nat → Fault) (tip : Nat) :
    Pipeline → Option FetchedBlock → List (Nat × HeightReply) → List Write
  | _, _, [] => []
  | p, pending, (height, r) :: rest =>
      stepWrites J sha256 listening fault tip p pending height r ++
        match fillStep J sha256 listening fault tip p pending height r with
        | (false, _, _) => []
        | (true, p', pending') => fillWrites listening fault tip p' pending' rest

/-- The heights `a` to `b` with what upstream answers for each. -/
def answers (replies : Nat → HeightReply) (a b : Nat) : List (Nat × HeightReply) :=
  (List.range' a (b + 1 - a)).map fun height => (height, replies height)

end Writes

/-- A store after writes: each goes as it is recorded to go. -/
inductive Performed (fault : Nat → Fault) : Storage → List Write → Storage → Prop
  | nil (s : Storage) : Performed fault s [] s
  | cons {s s' : Storage} {ws : List Write} (block : FetchedBlock) (rewards : Bytes)
      (rest : Performed fault (storeBlock s (fault block.height) block rewards).2 ws s') :
      Performed fault s (Write.of s (fault block.height) block rewards :: ws) s'

theorem Performed.append {fault : Nat → Fault} {s s' s'' : Storage} {ws ws' : List Write}
    (h : Performed fault s ws s') (h' : Performed fault s' ws' s'') :
    Performed fault s (ws ++ ws') s'' := by
  induction h with
  | nil => exact h'
  | cons block rewards _ ih => exact .cons block rewards (ih h')

/-- Writes that all went through but for the last, if the run is cut short. -/
def UpTo (ok : Bool) (ws : List Write) : Prop :=
  ∃ written failed, ws = written ++ failed ∧ (∀ w ∈ written, w.ok = true) ∧
    (∀ w ∈ failed, w.ok = false) ∧ failed.length ≤ 1 ∧ (ok = true → failed = [])

theorem UpTo.nil (ok : Bool) : UpTo ok [] :=
  ⟨[], [], rfl, by simp, by simp, by simp, fun _ => rfl⟩

theorem UpTo.single {ok : Bool} {w : Write} (h : w.ok = ok) : UpTo ok [w] := by
  cases ok with
  | true => exact ⟨[w], [], rfl, by simpa using h, by simp, by simp, fun _ => rfl⟩
  | false => exact ⟨[], [w], rfl, by simp, by simpa using h, by simp, fun h' => by cases h'⟩

theorem UpTo.all {ws : List Write} (h : UpTo true ws) : ∀ w ∈ ws, w.ok = true := by
  obtain ⟨written, failed, rfl, hok, -, -, hnone⟩ := h
  rw [hnone rfl, List.append_nil]
  exact hok

theorem UpTo.append {ok : Bool} {ws ws' : List Write} (h : UpTo true ws) (h' : UpTo ok ws') :
    UpTo ok (ws ++ ws') := by
  obtain ⟨written, failed, rfl, hok, hbad, hone, hdone⟩ := h'
  refine ⟨ws ++ written, failed, (List.append_assoc ..).symm, ?_, hbad, hone, hdone⟩
  intro w hw
  rcases List.mem_append.mp hw with hw | hw
  · exact h.all w hw
  · exact hok w hw

/-! ## What a write may be -/

section Resolved

variable (J : Codec) (sha256 : Bytes → Bytes32) (replies : Nat → HeightReply)

/-- The rewards element that the block after a proposal gives it. -/
inductive Resolved (next : FetchedBlock) (utxos : Option Value) : Bytes → Prop
  | abort (hkind : next.kind = .Abort) : Resolved next utxos EMPTY_ARRAY
  | commit (hkind : next.kind = .Commit) (result : Value) (hutxos : utxos = some result) :
      Resolved next utxos (J.toVec (rewardUtxos result))

/-- **A resolved write**, of a run up to `last`: the block upstream gives for its height;
    if it is a reward proposal then with the rewards element that the block after it gives
    it, which was fetched in this run, and with the empty array otherwise. -/
structure IsResolved (last : Nat) (w : Write) : Prop where
  within : w.block.height ≤ last
  fetched : fetchBlock J sha256 w.block.height (replies w.block.height) = some w.block
  plain : w.block.rewardStakingTx = none → w.rewards = EMPTY_ARRAY
  reward : ∀ stakingTx, w.block.rewardStakingTx = some stakingTx →
    w.block.height < last ∧
      ∃ next,
        fetchBlock J sha256 (w.block.height + 1) (replies (w.block.height + 1)) = some next ∧
        Resolved J next ((replies (w.block.height + 1)).utxos stakingTx) w.rewards

/-- What upstream leaves unanswered of a run from `first` to `last`: a height, or the
    outcome of a reward proposal before the last one. -/
inductive Unanswered (first last : Nat) : Prop
  | block (height : Nat) (hfirst : first ≤ height) (hlast : height ≤ last)
      (hfetch : fetchBlock J sha256 height (replies height) = none)
  | reward (height : Nat) (hfirst : first ≤ height) (hlast : height < last)
      (proposal next : FetchedBlock) (stakingTx : String)
      (hproposal : fetchBlock J sha256 height (replies height) = some proposal)
      (htx : proposal.rewardStakingTx = some stakingTx)
      (hnext : fetchBlock J sha256 (height + 1) (replies (height + 1)) = some next)
      (hopen : ¬(next.kind = .Abort ∨
        next.kind = .Commit ∧ ((replies (height + 1)).utxos stakingTx).isSome = true))

/-- The proposal held once a height was processed: its block, if it is one. -/
def heldAfter (height : Nat) : Option FetchedBlock :=
  (fetchBlock J sha256 height (replies height)).filter (·.rewardStakingTx.isSome)

/-- What may be held when a run from `first` on is about to process `height`. -/
def HeldAt (first height : Nat) (pending : Option FetchedBlock) : Prop :=
  pending = none ∨ first < height ∧ pending = heldAfter J sha256 replies (height - 1)

end Resolved

/-- The first height not written yet when the run is about to process `height`. -/
def unwritten (pending : Option FetchedBlock) (height : Nat) : Nat :=
  if pending.isSome then height - 1 else height

section Fill

variable {J : Codec} {sha256 : Bytes → Bytes32} {listening : Bool} {fault : Nat → Fault}
  {tip : Nat} {replies : Nat → HeightReply} {first last : Nat}

/-- **A stretch of a fill**: its writes make one store of the other, go up from `start`
    without a gap, each resolved; `ok` says whether it reached `stop`, and where it did
    not, a write failed or upstream left something unanswered. -/
structure Stretch (J : Codec) (sha256 : Bytes → Bytes32) (fault : Nat → Fault)
    (replies : Nat → HeightReply) (first last : Nat) (start : Nat) (s : Storage)
    (ws : List Write) (ok : Bool) (stop : Nat) (s' : Storage) : Prop where
  performed : Performed fault s ws s'
  upTo : UpTo ok ws
  resolved : ∀ w ∈ ws, IsResolved J sha256 replies last w
  heights : ws.map (·.block.height) = List.range' start ws.length
  reached : ok = true → start + ws.length = stop
  cut : ok = false → (∃ w ∈ ws, w.ok = false) ∨ Unanswered J sha256 replies first last

theorem Stretch.nil (start : Nat) (s : Storage) :
    Stretch J sha256 fault replies first last start s [] true start s :=
  ⟨.nil s, .nil true, by simp, rfl, fun _ => rfl, fun hok => Bool.noConfusion hok⟩

/-- Nothing is written where upstream leaves something unanswered. -/
theorem Stretch.unanswered (h : Unanswered J sha256 replies first last) (start stop : Nat)
    (s : Storage) : Stretch J sha256 fault replies first last start s [] false stop s :=
  ⟨.nil s, .nil false, by simp, rfl, fun hok => Bool.noConfusion hok, fun _ => Or.inr h⟩

theorem Stretch.append {start mid stop : Nat} {s s' s'' : Storage} {ws ws' : List Write}
    {ok : Bool} (h : Stretch J sha256 fault replies first last start s ws true mid s')
    (h' : Stretch J sha256 fault replies first last mid s' ws' ok stop s'') :
    Stretch J sha256 fault replies first last start s (ws ++ ws') ok stop s'' where
  performed := h.performed.append h'.performed
  upTo := h.upTo.append h'.upTo
  resolved := by
    intro w hw
    rcases List.mem_append.mp hw with hw | hw
    · exact h.resolved w hw
    · exact h'.resolved w hw
  heights := by
    rw [List.map_append, h.heights, h'.heights, ← h.reached rfl, List.range'_append_1,
      List.length_append]
  reached := by
    intro hok
    rw [List.length_append, ← h'.reached hok, ← h.reached rfl, Nat.add_assoc]
  cut := by
    intro hok
    rcases h'.cut hok with ⟨w, hw, hbad⟩ | hopen
    · exact Or.inl ⟨w, List.mem_append_right _ hw, hbad⟩
    · exact Or.inr hopen

/-- A stretch from `start` on stays within the run. -/
theorem Stretch.length_le {start stop : Nat} {s s' : Storage} {ws : List Write} {ok : Bool}
    (h : Stretch J sha256 fault replies first last start s ws ok stop s') :
    ws.length ≤ last + 1 - start := by
  cases hlen : ws.length with
  | zero => exact Nat.zero_le _
  | succ n =>
      have hmem : start + n ∈ ws.map (·.block.height) := by
        rw [h.heights, hlen]
        exact List.mem_range'_1.mpr ⟨by omega, by omega⟩
      obtain ⟨w, hw, heq⟩ := List.mem_map.mp hmem
      have hle := (h.resolved w hw).within
      omega

theorem Stretch.start_le {start stop : Nat} {s s' : Storage} {ws : List Write} {ok : Bool}
    (h : Stretch J sha256 fault replies first last start s ws ok stop s') {w : Write}
    (hw : w ∈ ws) : start ≤ w.block.height := by
  have hmem : w.block.height ∈ ws.map (·.block.height) := List.mem_map_of_mem hw
  rw [h.heights] at hmem
  exact (List.mem_range'_1.mp hmem).1

/-- A stretch is cut short by a write that fails or by upstream. -/
theorem Stretch.done {start stop : Nat} {s s' : Storage} {ws : List Write} {ok : Bool}
    (h : Stretch J sha256 fault replies first last start s ws ok stop s')
    (hopen : ¬Unanswered J sha256 replies first last) (hwrites : ∀ w ∈ ws, w.ok = true) :
    ok = true := by
  cases hok : ok with
  | true => rfl
  | false =>
      rcases h.cut hok with ⟨w, hw, hbad⟩ | hun
      · rw [hwrites w hw] at hbad
        cases hbad
      · exact absurd hun hopen

/-- A write of a resolved block is a stretch of its own. -/
theorem emit_stretch (fault : Nat → Fault) (first : Nat) (listening : Bool) (tip : Nat)
    (p : Pipeline) {block : FetchedBlock} {rewards : Bytes}
    (h : ∀ ok, IsResolved J sha256 replies last ⟨block, rewards, ok⟩) :
    let out := emit J listening p (fault block.height) block rewards tip
    Stretch J sha256 fault replies first last block.height p.storage
      [Write.of p.storage (fault block.height) block rewards] out.1 (block.height + 1)
      out.2.storage := by
  have hok : (Write.of p.storage (fault block.height) block rewards).ok
      = (emit J listening p (fault block.height) block rewards tip).1 := by
    simp only [emit, Write.of]
    cases hs : storeBlock p.storage (fault block.height) block rewards with
    | mk stored s' => cases stored <;> rfl
  refine ⟨?_, .single hok, ?_, rfl, fun _ => rfl, ?_⟩
  · rw [emit_storage]
    exact .cons block rewards (.nil _)
  · intro w hw
    rw [List.mem_singleton.mp hw]
    exact h _
  · intro hbad
    exact Or.inl ⟨_, List.mem_singleton_self _, hok.trans hbad⟩

/-- The rewards element of a proposal is what its outcome gives it. -/
theorem resolveReward_resolved {proposal next : FetchedBlock} {stakingTx : String}
    (htx : proposal.rewardStakingTx = some stakingTx) {utxos : String → Option Value}
    {rewards : Bytes} (h : resolveReward J proposal next.kind utxos = some rewards) :
    Resolved J next (utxos stakingTx) rewards := by
  simp only [resolveReward, htx] at h
  cases hk : next.kind with
  | Abort =>
      rw [hk] at h
      rw [← Option.some.inj h]
      exact .abort hk
  | Commit =>
      rw [hk] at h
      obtain ⟨result, hutxos, heq⟩ := Option.map_eq_some_iff.mp h
      rw [← heq]
      exact .commit hk result hutxos
  | Proposal => rw [hk] at h; cases h
  | Other => rw [hk] at h; cases h

theorem resolveReward_eq_none {proposal next : FetchedBlock} {stakingTx : String}
    (htx : proposal.rewardStakingTx = some stakingTx) {utxos : String → Option Value}
    (h : resolveReward J proposal next.kind utxos = none) :
    ¬(next.kind = .Abort ∨ next.kind = .Commit ∧ (utxos stakingTx).isSome = true) := by
  rintro (hk | ⟨hk, hsome⟩)
  · simp [resolveReward, htx, hk] at h
  · obtain ⟨result, hutxos⟩ := Option.isSome_iff_exists.mp hsome
    simp [resolveReward, htx, hk, hutxos] at h

/-- A proposal is held by the height before. -/
theorem heldAfter_eq_some {height : Nat} {proposal : FetchedBlock}
    (h : heldAfter J sha256 replies height = some proposal) :
    fetchBlock J sha256 height (replies height) = some proposal ∧ proposal.height = height ∧
      ∃ stakingTx, proposal.rewardStakingTx = some stakingTx := by
  obtain ⟨hfetch, hreward⟩ := Option.filter_eq_some_iff.mp h
  exact ⟨hfetch, fetchBlock_height hfetch, Option.isSome_iff_exists.mp hreward⟩

/-- **Settling the held proposal**: at most the one write of it, resolved by the block
    just fetched. -/
theorem settlePending_stretch (fault : Nat → Fault) (listening : Bool) (tip : Nat) {height : Nat}
    (hlast : height ≤ last) (p : Pipeline) {pending : Option FetchedBlock}
    {next : FetchedBlock} (hheld : HeldAt J sha256 replies first height pending)
    (hnext : fetchBlock J sha256 height (replies height) = some next) :
    let out := settlePending J listening fault tip p pending next.kind (replies height).utxos
    Stretch J sha256 fault replies first last (unwritten pending height) p.storage
      (pendingWrites J fault p.storage pending next.kind (replies height).utxos) out.1 height
      out.2.storage := by
  cases pending with
  | none => exact .nil height p.storage
  | some proposal =>
      rcases hheld with hnone | ⟨hfirst, heq⟩
      · cases hnone
      -- a proposal that is held is the block of the height before
      obtain ⟨hfetch, hheight, stakingTx, htx⟩ := heldAfter_eq_some heq.symm
      have hsucc : height - 1 + 1 = height := by omega
      have hstart : unwritten (some proposal) height = proposal.height := by
        rw [hheight]
        rfl
      simp only [settlePending, pendingWrites]
      cases hr : resolveReward J proposal next.kind (replies height).utxos with
      | none =>
          -- the node does not say what the reward came to
          refine .unanswered (.reward (height - 1) (by omega) (by omega) proposal next stakingTx
            hfetch htx ?_ ?_) _ _ _
          · rw [hsucc]
            exact hnext
          · rw [hsucc]
            exact resolveReward_eq_none htx hr
      | some rewards =>
          -- resolved by the block that follows it and that block's UTXOs
          have hresolved :
              ∀ ok, IsResolved J sha256 replies last ⟨proposal, rewards, ok⟩ := by
            intro ok
            refine ⟨?_, ?_, ?_, ?_⟩
            · show proposal.height ≤ last
              omega
            · show fetchBlock J sha256 proposal.height (replies proposal.height) = some proposal
              rw [hheight]
              exact hfetch
            · intro hnone
              rw [show proposal.rewardStakingTx = none from hnone] at htx
              cases htx
            · intro tx htx'
              refine ⟨?_, next, ?_, ?_⟩
              · show proposal.height < last
                omega
              · show fetchBlock J sha256 (proposal.height + 1) (replies (proposal.height + 1))
                  = some next
                rw [hheight, hsucc]
                exact hnext
              · show Resolved J next ((replies (proposal.height + 1)).utxos tx) rewards
                rw [hheight, hsucc]
                exact resolveReward_resolved htx' hr
          have hone := emit_stretch fault first listening tip p hresolved
          rw [hstart]
          rw [hheight, hsucc] at hone
          rw [hheight]
          exact hone

/-- **One height of a run**: the proposal before it is settled, then it is held or
    written. -/
theorem fillStep_stretch (fault : Nat → Fault) (listening : Bool) (tip : Nat) {height : Nat}
    (hfirst : first ≤ height) (hlast : height ≤ last) (p : Pipeline)
    {pending : Option FetchedBlock} (hheld : HeldAt J sha256 replies first height pending) :
    let out := fillStep J sha256 listening fault tip p pending height (replies height)
    Stretch J sha256 fault replies first last (unwritten pending height) p.storage
      (stepWrites J sha256 listening fault tip p pending height (replies height)) out.1
      (unwritten out.2.2 (height + 1)) out.2.1.storage ∧
    (out.1 = true → out.2.2 = heldAfter J sha256 replies height) := by
  simp only [fillStep, stepWrites, heldAfter]
  cases hf : fetchBlock J sha256 height (replies height) with
  | none => exact ⟨.unanswered (.block height hfirst hlast hf) _ _ _, fun h => by cases h⟩
  | some fetched =>
  have hsettled := settlePending_stretch fault listening tip hlast p hheld hf
  dsimp only at hsettled ⊢
  cases hs : settlePending J listening fault tip p pending fetched.kind
      (replies height).utxos with
  | mk ok p1 =>
  rw [hs] at hsettled
  cases ok with
  | false =>
      rw [List.append_nil]
      -- the proposal before was not settled: the step ends there
      exact ⟨{ hsettled with reached := fun h => by cases h }, fun h => by cases h⟩
  | true =>
  dsimp only at hsettled ⊢
  by_cases hreward : fetched.rewardStakingTx.isSome = true
  · rw [if_pos hreward, if_pos hreward, List.append_nil]
    -- a block that rewards is held until the next height settles it
    refine ⟨hsettled, fun _ => ?_⟩
    rw [Option.filter_some, if_pos hreward]
  · rw [if_neg hreward, if_neg hreward]
    have hheight := fetchBlock_height hf
    -- any other block is written at once, with no rewards
    have hresolved : ∀ ok, IsResolved J sha256 replies last ⟨fetched, EMPTY_ARRAY, ok⟩ := by
      intro ok
      refine ⟨?_, ?_, fun _ => rfl, ?_⟩
      · show fetched.height ≤ last
        omega
      · show fetchBlock J sha256 fetched.height (replies fetched.height) = some fetched
        rw [hheight]
        exact hf
      · intro tx htx
        rw [show fetched.rewardStakingTx = some tx from htx] at hreward
        exact absurd rfl hreward
    have hone := emit_stretch fault first listening tip p1 hresolved
    dsimp only at hone
    cases he : emit J listening p1 (fault fetched.height) fetched EMPTY_ARRAY tip with
    | mk ok p2 =>
    rw [he, hheight] at hone
    rw [hheight]
    refine ⟨hsettled.append hone, fun _ => ?_⟩
    rw [Option.filter_some, if_neg hreward]

/-- Where a run of `n` heights from `height` on ends that is not cut short: one past its
    last height, or at it while that is held. -/
def runEnd (J : Codec) (sha256 : Bytes → Bytes32) (replies : Nat → HeightReply)
    (pending : Option FetchedBlock) (height n : Nat) : Nat :=
  if n = 0 then unwritten pending height
  else unwritten (heldAfter J sha256 replies (height + n - 1)) (height + n)

theorem runEnd_of_le {pending : Option FetchedBlock} {a b : Nat} (hab : a ≤ b) :
    runEnd J sha256 replies pending a (b + 1 - a)
      = if (heldAfter J sha256 replies b).isSome = true then b else b + 1 := by
  have hsome : b + 1 - a ≠ 0 := by omega
  have hlast : a + (b + 1 - a) - 1 = b := by omega
  have hend : a + (b + 1 - a) = b + 1 := by omega
  simp only [runEnd]
  rw [if_neg hsome, hlast, hend]
  rfl

/-- **A whole run**, by the heights still to come. -/
theorem fillRange_stretch (fault : Nat → Fault) (listening : Bool) (tip n : Nat) {height : Nat}
    (hfirst : first ≤ height) (hlast : ∀ k < n, height + k ≤ last) (p : Pipeline)
    {pending : Option FetchedBlock} (hheld : HeldAt J sha256 replies first height pending) :
    let run := (List.range' height n).map fun h => (h, replies h)
    let out := fillRange J sha256 listening fault tip p pending run
    Stretch J sha256 fault replies first last (unwritten pending height) p.storage
      (fillWrites J sha256 listening fault tip p pending run) out.1
      (runEnd J sha256 replies pending height n) out.2.storage := by
  -- the stretch of the first height, then that of the rest, end to start
  induction n generalizing height p pending with
  | zero => exact .nil _ p.storage
  | succ n ih =>
      obtain ⟨hstep, hnext⟩ := fillStep_stretch fault listening tip hfirst
        (hlast 0 (Nat.succ_pos n)) p hheld
      dsimp only at hstep hnext ⊢
      rw [List.range'_succ, List.map_cons, fillRange_cons, fillWrites]
      cases hout : fillStep J sha256 listening fault tip p pending height (replies height) with
      | mk ok rest =>
      obtain ⟨p', pending'⟩ := rest
      rw [hout] at hstep hnext
      cases ok with
      | false =>
          rw [List.append_nil]
          -- cut short: nothing is said about the end of the run
          exact { hstep with reached := fun hok => Bool.noConfusion hok }
      | true =>
          have hpending' : pending' = heldAfter J sha256 replies height := hnext rfl
          have hheld' : HeldAt J sha256 replies first (height + 1) pending' :=
            Or.inr ⟨by omega, hpending'⟩
          have hlast' : ∀ k < n, height + 1 + k ≤ last := by
            intro k hk
            have hle := hlast (k + 1) (by omega)
            omega
          have hrest := ih (by omega) hlast' p' hheld'
          have hend : runEnd J sha256 replies pending height (n + 1)
              = runEnd J sha256 replies pending' (height + 1) n := by
            simp only [runEnd]
            rw [if_neg (Nat.succ_ne_zero n)]
            cases n with
            | zero =>
                rw [if_pos rfl, hpending']
                rfl
            | succ m =>
                rw [if_neg (Nat.succ_ne_zero m)]
                congr 1
                · congr 1
                  omega
                · omega
          rw [hend]
          exact hstep.append hrest

/-- A range fill that holds nothing yet. -/
theorem fillRange_answers (J : Codec) (sha256 : Bytes → Bytes32) (listening : Bool)
    (fault : Nat → Fault) (tip : Nat) (replies : Nat → HeightReply) (p : Pipeline)
    (a b : Nat) :
    let out := fillRange J sha256 listening fault tip p none (answers replies a b)
    Stretch J sha256 fault replies a b a p.storage
      (fillWrites J sha256 listening fault tip p none (answers replies a b)) out.1
      (runEnd J sha256 replies none a (b + 1 - a)) out.2.storage := by
  have hheld : HeldAt J sha256 replies a a none := Or.inl rfl
  have hin : ∀ k < b + 1 - a, a + k ≤ b := fun k hk => by omega
  exact fillRange_stretch fault listening tip (b + 1 - a) (le_refl a) hin p hheld

/-- Upstream answers a run in full: every height of it is fetched, and every reward
    proposal before its end is followed by an abort, or by a commit for which the UTXOs
    are fetched. -/
structure Answered (J : Codec) (sha256 : Bytes → Bytes32) (replies : Nat → HeightReply)
    (a b : Nat) : Prop where
  fetched : ∀ height, a ≤ height → height ≤ b →
    (fetchBlock J sha256 height (replies height)).isSome = true
  resolved : ∀ height, a ≤ height → height < b → ∀ proposal next stakingTx,
    fetchBlock J sha256 height (replies height) = some proposal →
    proposal.rewardStakingTx = some stakingTx →
    fetchBlock J sha256 (height + 1) (replies (height + 1)) = some next →
    next.kind = .Abort ∨
      next.kind = .Commit ∧ ((replies (height + 1)).utxos stakingTx).isSome = true

theorem Answered.not_unanswered {a b : Nat} (h : Answered J sha256 replies a b) :
    ¬Unanswered J sha256 replies a b := by
  intro hopen
  cases hopen with
  | block height hfirst hlast hfetch =>
      have hsome := h.fetched height hfirst hlast
      rw [hfetch] at hsome
      cases hsome
  | reward height hfirst hlast proposal next stakingTx hproposal htx hnext hopen =>
      exact hopen (h.resolved height hfirst hlast proposal next stakingTx hproposal htx hnext)

/-- **The range fill writes an exact resolved prefix.**  For any range, replies and
    faults: the store left is what the writes make of the store found; they are of the
    heights from `a` up, one each, and all went through but for the last of a run that is
    cut short; each is of a resolved block.  Where upstream answers in full and no write
    fails, they reach `b`, which is left out exactly if its block is a reward proposal. -/
theorem fill_range_prefix (J : Codec) (sha256 : Bytes → Bytes32) (listening : Bool)
    (fault : Nat → Fault) (tip : Nat) (replies : Nat → HeightReply) (p : Pipeline)
    (a b : Nat) :
    let out := fillRange J sha256 listening fault tip p none (answers replies a b)
    let ws := fillWrites J sha256 listening fault tip p none (answers replies a b)
    Performed fault p.storage ws out.2.storage ∧
    ws.map (·.block.height) = List.range' a ws.length ∧ ws.length ≤ b + 1 - a ∧
    UpTo out.1 ws ∧
    (∀ w ∈ ws, IsResolved J sha256 replies b w) ∧
    (Answered J sha256 replies a b → (∀ w ∈ ws, w.ok = true) →
      out.1 = true ∧
        ws.length
          = if a ≤ b ∧ (heldAfter J sha256 replies b).isSome then b - a else b + 1 - a) := by
  have hrun := fillRange_answers J sha256 listening fault tip replies p a b
  dsimp only at hrun ⊢
  have hlen : (fillWrites J sha256 listening fault tip p none (answers replies a b)).length
      ≤ b + 1 - a := hrun.length_le
  refine ⟨hrun.performed, hrun.heights, hlen, hrun.upTo, hrun.resolved,
    fun hanswered hwrites => ?_⟩
  have hdone := hrun.done hanswered.not_unanswered hwrites
  refine ⟨hdone, ?_⟩
  have hreached : a + (fillWrites J sha256 listening fault tip p none
      (answers replies a b)).length = runEnd J sha256 replies none a (b + 1 - a) :=
    hrun.reached hdone
  by_cases hab : a ≤ b
  · rw [runEnd_of_le hab] at hreached
    by_cases hreward : (heldAfter J sha256 replies b).isSome = true
    · rw [if_pos hreward] at hreached
      rw [if_pos ⟨hab, hreward⟩]
      omega
    · rw [if_neg hreward] at hreached
      rw [if_neg fun h => hreward h.2]
      omega
  · rw [if_neg fun h => hab h.1]
    omega

end Fill

/-- A reward proposal at height 7 and the block that aborts it at height 8. -/
def abortedReplies (sha256 : Bytes → Bytes32) (height : Nat) : HeightReply :=
  if height = 7 then agreeingReply sha256 [] 7 rewardFields
  else agreeingReply sha256 [0, 0, 0, 0, 0, 1] 8 []

theorem answered_aborted (J : Codec) (sha256 : Bytes → Bytes32) :
    Answered J sha256 (abortedReplies sha256) 7 8 where
  fetched := by
    intro height ha hb
    obtain rfl | rfl : height = 7 ∨ height = 8 := by omega
    · exact Option.isSome_of_eq_some (fetchBlock_agreeing J sha256 [] 7 rewardFields)
    · exact Option.isSome_of_eq_some (fetchBlock_agreeing J sha256 [0, 0, 0, 0, 0, 1] 8 [])
  resolved := by
    intro height ha hb proposal next stakingTx _ _ hnext
    obtain rfl : height = 7 := by omega
    have hblock := fetchBlock_agreeing J sha256 [0, 0, 0, 0, 0, 1] 8 []
    have hkind : blockKind [0, 0, 0, 0, 0, 1] = .Abort := by decide +kernel
    rw [Option.some.inj (hnext.symm.trans hblock), hkind]
    exact Or.inl rfl

/-- Both are written: the proposal once the block after it came. -/
theorem fill_range_prefix_aborted :
    (fillRange JsonText.codec sampleSha256 false (fun _ => .none) 8
        ⟨Storage.fresh memory .P (some 7), 0, []⟩ none
        (answers (abortedReplies sampleSha256) 7 8)).1 = true ∧
      (fillWrites JsonText.codec sampleSha256 false (fun _ => .none) 8
        ⟨Storage.fresh memory .P (some 7), 0, []⟩ none
        (answers (abortedReplies sampleSha256) 7 8)).length = 2 := by
  obtain ⟨-, -, -, -, -, hanswered⟩ := fill_range_prefix JsonText.codec sampleSha256 false
    (fun _ => .none) 8 (abortedReplies sampleSha256)
    ⟨Storage.fresh memory .P (some 7), 0, []⟩ 7 8
  have hwrites : (fillWrites JsonText.codec sampleSha256 false (fun _ => .none) 8
      ⟨Storage.fresh memory .P (some 7), 0, []⟩ none
      (answers (abortedReplies sampleSha256) 7 8)).map Write.ok = [true, true] := by
    decide +kernel
  have hfree : heldAfter JsonText.codec sampleSha256 (abortedReplies sampleSha256) 8 = none :=
    rfl
  obtain ⟨hok, hlen⟩ := hanswered (answered_aborted _ _) fun w hw => by
    have hmem : w.ok ∈ [true, true] := hwrites ▸ List.mem_map_of_mem hw
    simpa using hmem
  refine ⟨hok, hlen.trans ?_⟩
  rw [hfree]
  rfl

/-! ## Committed rewards -/

/-- A `getRewardUTXOs` result with an array of UTXOs. -/
def HasUtxos (result : Value) : Prop :=
  ∃ items, result.get "utxos" = some (.array items)

/-- A rewards element that is the array of UTXOs of a result. -/
def FromReply (J : Codec) (result : Value) (rewards : Bytes) : Prop :=
  ∃ items, result.get "utxos" = some (.array items) ∧ rewards = J.toVec (.array items)

/-- The rewards of a committed proposal are whatever is made of the result. -/
theorem resolveReward_commit {J : Codec} {proposal : FetchedBlock} {stakingTx : String}
    (htx : proposal.rewardStakingTx = some stakingTx) {utxos : String → Option Value}
    {result : Value} (hresult : utxos stakingTx = some result) :
    resolveReward J proposal .Commit utxos = some (J.toVec (rewardUtxos result)) := by
  simp only [resolveReward, htx, hresult, Option.map_some]

theorem fromReply_of_hasUtxos (J : Codec) {result : Value} (h : HasUtxos result) :
    FromReply J result (J.toVec (rewardUtxos result)) := by
  obtain ⟨items, hitems⟩ := h
  refine ⟨items, hitems, ?_⟩
  rw [rewardUtxos, hitems, Option.getD_some]

/-- The rewards given to a committed proposal come from the result asked for. -/
theorem Resolved.of_commit {J : Codec} {next : FetchedBlock} {utxos : Option Value}
    {rewards : Bytes} (h : Resolved J next utxos rewards) (hkind : next.kind = .Commit) :
    ∃ result, utxos = some result ∧ rewards = J.toVec (rewardUtxos result) := by
  cases h with
  | abort habort =>
      rw [hkind] at habort
      cases habort
  | commit _ result hutxos => exact ⟨result, hutxos, rfl⟩

/-- **Committed rewards come from the upstream** exactly as far as its replies have an
    array of UTXOs: a result without one is not refused, whatever else it has.  In a run
    whose results all have one, each committed proposal is written with the UTXOs of the
    result for its staking transaction. -/
theorem committed_rewards_iff (J : Codec) (sha256 : Bytes → Bytes32) :
    (∀ (proposal : FetchedBlock) stakingTx utxos result,
      proposal.rewardStakingTx = some stakingTx → utxos stakingTx = some result →
      ((∀ rewards, resolveReward J proposal .Commit utxos = some rewards →
          FromReply J result rewards) ↔ HasUtxos result)) ∧
    ∀ listening fault tip (replies : Nat → HeightReply) p a b,
      (∀ height, a ≤ height → height < b → ∀ proposal next stakingTx result,
        fetchBlock J sha256 height (replies height) = some proposal →
        proposal.rewardStakingTx = some stakingTx →
        fetchBlock J sha256 (height + 1) (replies (height + 1)) = some next →
        next.kind = .Commit → (replies (height + 1)).utxos stakingTx = some result →
        HasUtxos result) →
      ∀ w ∈ fillWrites J sha256 listening fault tip p none (answers replies a b),
        ∀ stakingTx next, w.block.rewardStakingTx = some stakingTx →
        fetchBlock J sha256 (w.block.height + 1) (replies (w.block.height + 1)) = some next →
        next.kind = .Commit →
        ∃ result, (replies (w.block.height + 1)).utxos stakingTx = some result ∧
          FromReply J result w.rewards := by
  constructor
  · intro proposal stakingTx utxos result htx hresult
    constructor
    · intro h
      obtain ⟨items, hitems, -⟩ := h _ (resolveReward_commit htx hresult)
      exact ⟨items, hitems⟩
    · intro h rewards hrewards
      rw [resolveReward_commit htx hresult] at hrewards
      rw [← Option.some.inj hrewards]
      exact fromReply_of_hasUtxos J h
  · intro listening fault tip replies p a b hreplies w hw stakingTx next htx hnext hkind
    have hrun := fillRange_answers J sha256 listening fault tip replies p a b
    have hresolved := hrun.resolved w hw
    obtain ⟨hlast, next', hnext', hrewards⟩ := hresolved.reward stakingTx htx
    rw [hnext] at hnext'
    obtain rfl := Option.some.inj hnext'
    obtain ⟨result, hresult, heq⟩ := hrewards.of_commit hkind
    refine ⟨result, hresult, ?_⟩
    rw [heq]
    exact fromReply_of_hasUtxos J (hreplies w.block.height (hrun.start_le hw) hlast w.block next
      stakingTx result hresolved.fetched htx hnext hkind hresult)

/-- A reward proposal. -/
def sampleProposal : FetchedBlock where
  height := 7
  bytesJson := []
  json := []
  id := Vector.replicate 32 0
  txIds := []
  timestamp := none
  kind := .Proposal
  rewardStakingTx := some "staked"

/-- **A reward that came without UTXOs is recorded as none**, and one whose UTXOs are no
    array is recorded as that. -/
theorem reward_without_utxos_recorded :
    resolveReward JsonText.codec sampleProposal .Commit (fun _ => some (.object []))
      = some EMPTY_ARRAY ∧
    resolveReward JsonText.codec sampleProposal .Commit
        (fun _ => some (.object [("utxos", .null)]))
      = some (JsonText.codec.toVec .null) ∧
    ¬∀ rewards, resolveReward JsonText.codec sampleProposal .Commit
        (fun _ => some (.object [])) = some rewards →
      FromReply JsonText.codec (.object []) rewards := by
  refine ⟨rfl, rfl, fun h => ?_⟩
  obtain ⟨items, hitems, -⟩ := h EMPTY_ARRAY rfl
  cases hitems

end NevePlatformIngest
