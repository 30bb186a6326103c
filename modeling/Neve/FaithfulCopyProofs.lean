import Neve.EthReadBackProofs
import Neve.GetLogsProofs
import Neve.FillLoopProofs
import Neve.LogsSourcesProofs

/-! # A faithful copy — what a C-chain instance serves is what its upstream has

    A direct instance is told of blocks and logs by many requests: the head's body, the
    logs of a live height, a run's window, a height's receipts.  They arrive out of order,
    are joined in a buffer, written twice or not at all, and a write may fail at any of its
    stages.  Of an upstream whose chain does not change and that answers truthfully, or not
    at all, the store only ever holds that upstream's blocks with that upstream's logs
    (`Copied`).  So a read that is answered is answered as the upstream would answer it: a
    block or a transaction by any selector (`reads_are_upstreams`), and the logs of a
    filter, even while the instance goes on between the chunks (`logs_are_upstreams`). -/

namespace NeveFaithfulCopy

open JsonValue ByteText NeveRecord NeveStorage NeveIngestWrite NeveEthIngest NeveEthBackfill
open NeveJoinBuffer NeveFrontier NeveEthInstance NeveEthRpc Outcome

/-! ## The upstream -/

/-- A chain as its node has it: a block for each height, the receipts of its transactions,
    and the logs of a range, which are those of the receipts.  Each transaction has a hash,
    and their positions fit 32 bits. -/
structure Upstream where
  block : Nat → Value
  receipts : Nat → List Value
  getLogs : Nat → Nat → Value
  agree : SourcesAgree receipts getLogs 0 (2 ^ 64 - 1)
  hashed : ∀ height, ∀ tx ∈ transactions (block height), (txHash tx).isSome
  few : ∀ height, (transactions (block height)).length ≤ 2 ^ 32

namespace Upstream

variable (up : Upstream)

/-- The logs of a block. -/
def logs (height : Nat) : List Value := blockLogs (up.receipts height)

/-- What the logs half of a record is to hold. -/
def logsHalf (cfg : IngestCfg) (height : Nat) : List Value :=
  if cfg.ingestLogs then up.logs height else []

/-- The put of a block, under the hash that it has. -/
def call (cfg : IngestCfg) (height : Nat) (hash : Bytes32) : PutCall :=
  ⟨.C, height, hash, extractTxHashes (up.block height), up.block height,
    [.array (up.logsHalf cfg height)]⟩

/-- The puts there are. -/
def Calls (cfg : IngestCfg) (c : PutCall) : Prop :=
  ∃ height hash, height < 2 ^ 64 ∧ txHash (up.block height) = some hash ∧
    c = up.call cfg height hash

/-- A half held for a height is the upstream's. -/
def Half (J : Codec) (height : Nat) : Pending → Prop
  | .block b => b.bytes = J.toVec (up.block height) ∧
      txHash (up.block height) = some b.hash ∧ b.txHashes = extractTxHashes (up.block height)
  | .logs l => l.bytes = J.toVec (.array (up.logs height))

/-- What an upstream may answer: nothing, or the truth.  A live frame leads to the block of
    its height; everything else a step meets is free. -/
def Truthful (cfg : IngestCfg) (i : Instance) : Action → Prop
  | .ingest (.frame v body _ _) => ∀ height hash block,
      liveBlock v body = some (height, hash, block) → block = up.block height
  | .ingest (.logs result _ _) => ∀ height reply, i.task = .awaitingLogs height →
      fetchRpc result = some reply →
      reply = match cfg.logsSource with
        | .Receipts => .array (up.receipts height)
        | .GetLogs => up.getLogs height height
  | .backfill (.loadRange result) => ∀ next stop target reply,
      i.phase = .loading next stop target → fetchRpc result = some reply →
      reply = up.getLogs next stop
  | .backfill (.fetch height block receipts) =>
      (∀ reply, fetchRpc block = some reply → reply = up.block height) ∧
        ∀ reply, fetchRpc receipts = some reply → reply = .array (up.receipts height)
  | _ => True

end Upstream

section Halves

variable {J : Codec} {cfg : IngestCfg} {up : Upstream} {height next stop : Nat}

theorem Calls.lawful (sha256 : Bytes → Bytes32) {c : PutCall} (h : up.Calls cfg c) :
    c.Lawful sha256 := by
  obtain ⟨height, hash, hlt, hhash, rfl⟩ := h
  exact ⟨hlt, hhash, rfl, rfl⟩

/-- A reply to the request for a range, inside the heights there are. -/
theorem getLogs_range (hle : next ≤ stop) (hstop : stop < 2 ^ 64) :
    up.getLogs next stop
      = .array ((List.range' next (stop + 1 - next)).flatMap up.logs) :=
  up.agree.reply next stop (Nat.zero_le next) hle (Nat.le_pred_of_lt hstop)

theorem getLogs_one (hlt : height < 2 ^ 64) :
    up.getLogs height height = .array (up.logs height) := by
  rw [getLogs_range (Nat.le_refl height) hlt, Nat.add_sub_cancel_left]
  simp

/-- What is read of a logs request of one height, from either source. -/
theorem logs_of_reply {result : Option Value} {logs : Value} (hlt : height < 2 ^ 64)
    (htrue : ∀ reply, fetchRpc result = some reply →
      reply = match cfg.logsSource with
        | .Receipts => .array (up.receipts height)
        | .GetLogs => up.getLogs height height)
    (h : fetchLogsForHeight cfg.logsSource result = some logs) :
    logs = .array (up.logs height) := by
  cases hsource : cfg.logsSource with
  | Receipts =>
      rw [hsource] at h htrue
      obtain ⟨reply, hreply, rfl⟩ := Option.map_eq_some_iff.mp h
      rw [htrue reply hreply]
      rfl
  | GetLogs =>
      rw [hsource] at h htrue
      rw [htrue logs h]
      exact getLogs_one hlt

/-- **The window of a run** holds for each of its heights the logs of that height. -/
theorem bucket_window (hstop : stop < 2 ^ 64) (hlo : next ≤ height) (hhi : height ≤ stop) :
    (LogWindow.load (up.getLogs next stop)).bucket height = up.logs height := by
  rw [getLogs_range (Nat.le_trans hlo hhi) hstop, bucket_load]
  refine logsNaming_flatMap List.nodup_range' ?_ ?_
  · intro k hk log hlog
    have hmem := List.mem_range'_1.mp hk
    have hlt : k < 2 ^ 64 := by omega
    rw [blockNumberOf, up.agree.number k (Nat.zero_le k) (Nat.le_pred_of_lt hlt) log hlog,
      Option.bind_some, quantity_lowerHexText hlt]
  · exact List.mem_range'_1.mpr ⟨hlo, by omega⟩

end Halves

/-! ## The invariant -/

/-- The outcomes of the fetch stage are the upstream's blocks, with the logs of their
    receipts when they come with each height. -/
def FetchedFrom (up : Upstream) (cfg : IngestCfg) (fetched : List (Nat × Option Fetched)) :
    Prop :=
  ∀ height f, (height, some f) ∈ fetched → f = .Skip ∨
    f = .Block height (up.block height)
      (if cfg.perHeightLogs then some (.array (up.logs height)) else none)

/-- What the phase of the backfill task adds: heights of 64 bits, and a window that was
    loaded for the run it serves. -/
def PhaseCopied (up : Upstream) (cfg : IngestCfg) (i : Instance) : Prop :=
  match i.phase with
  | .top => True
  | .highWater hw => hw < 2 ^ 64
  | .contiguous hw _ => hw < 2 ^ 64
  | .loading next stop _ => next ≤ stop ∧ stop < 2 ^ 64
  | .filling next stop _ cursor fetched =>
      next ≤ cursor ∧ cursor ≤ stop ∧ stop < 2 ^ 64 ∧
        (cfg.windowed = true → i.logs = LogWindow.load (up.getLogs next stop)) ∧
        FetchedFrom up cfg fetched

/-- Every put was of one of the upstream's blocks, so the store begins at a height of 64
    bits. -/
structure Upstream.Held (up : Upstream) (J : Codec) (cfg : IngestCfg) (s : Storage) : Prop where
  traced : Traced J (up.Calls cfg) s
  floor : FloorFits s

/-- Everything stored, buffered or on its way to the store is the upstream's. -/
structure Copied (J : Codec) (up : Upstream) (cfg : IngestCfg) (i : Instance) : Prop where
  storage : up.Held J cfg i.storage
  pending : ∀ height half, i.pending.lookup height = some half → up.Half J height half
  direct : i.bootstrapping = false
  task : ∀ height, i.task = .awaitingLogs height → height < 2 ^ 64 ∧ cfg.ingestLogs = true
  tip : i.tip.height < 2 ^ 64
  phase : PhaseCopied up cfg i

section Writes

variable {J : Codec} {cfg : IngestCfg} {up : Upstream} {s : Storage} {height : Nat}
  {block : Value} {hash : Bytes32}

theorem held_put (fault : Fault) (h : up.Held J cfg s) (hlt : height < 2 ^ 64)
    (hhash : txHash (up.block height) = some hash) :
    up.Held J cfg (s.put fault height hash (extractTxHashes (up.block height))
      [J.toVec (up.block height), J.toVec (.array (up.logsHalf cfg height))]).2 := by
  have hcall : up.Calls cfg (up.call cfg height hash) := ⟨height, hash, hlt, hhash, rfl⟩
  exact ⟨h.traced.put fault hcall (Calls.lawful (fun _ => hash) hcall),
    h.floor.wrote hlt (Or.inr ⟨fault, hash, _, _, rfl⟩)⟩

/-- A live block, written at once. -/
theorem held_persistBlock (fault : Fault) (expected : String)
    (h : up.Held J cfg s) (hlt : height < 2 ^ 64) (hoff : ¬ cfg.ingestLogs = true) :
    up.Held J cfg (persistBlock J s fault height expected (up.block height)).2 := by
  simp only [persistBlock]
  cases hp : prepareBlock J expected (up.block height) with
  | none => exact h
  | some p =>
      obtain ⟨hhash, hids, hbytes⟩ := prepareBlock_eq_some hp
      have hput := held_put fault h hlt hhash
      rw [Upstream.logsHalf, if_neg hoff, J.toVec_nil] at hput
      dsimp only
      rw [hids, hbytes]
      exact hput

/-- A fetched block, with the logs half that belongs to it. -/
theorem held_persistBackfilled (fault : Fault) (h : up.Held J cfg s)
    (hlt : height < 2 ^ 64) :
    up.Held J cfg (persistBackfilled J s fault height (up.block height)
      (J.toVec (.array (up.logsHalf cfg height)))).2 := by
  simp only [persistBackfilled]
  cases hs : ((up.block height).get "hash").bind Value.asStr with
  | none => exact h
  | some bodyHash =>
      cases hd : decodeHash bodyHash with
      | error e =>
          dsimp only
          rw [hd]
          exact h
      | ok hash =>
          have hhash : txHash (up.block height) = some hash := by
            rw [txHash, hs, Option.bind_some, hd]
            rfl
          dsimp only
          rw [hd]
          exact held_put fault h hlt hhash

end Writes

/-! ## The join buffer -/

section Join

variable {P : Nat → Pending → Prop} {pending : PendingMap} {call : Call}

/-- What is known of the halves that arrive and of those held, of each by its height, is
    known of those held afterwards and of the two halves that a write joins. -/
theorem locked_halves (maxEntries now : Nat)
    (hpending : ∀ height half, pending.lookup height = some half → P height half)
    (hcall : ∀ since, P call.height (call.pending since)) :
    (∀ height half, (locked maxEntries pending now call).2.lookup height = some half →
      P height half) ∧
    ∀ hash txHashes blockBytes logs first since,
      (locked maxEntries pending now call).1
        = .write hash txHashes blockBytes logs first since →
      (∃ t, P call.height (.block ⟨hash, txHashes, blockBytes, t⟩)) ∧
        ∃ t, P call.height (.logs ⟨logs, t⟩) := by
  have herase : ∀ height half, (pending.erase call.height).lookup height = some half →
      P height half := by
    intro height half h
    by_cases hk : height = call.height
    · rw [hk, AList.lookup_erase] at h
      cases h
    · rw [AList.lookup_erase_ne hk] at h
      exact hpending height half h
  have hinsert : ∀ since height half,
      ((pending.erase call.height).insert call.height (call.pending since)).lookup height
        = some half → P height half := by
    intro since height half h
    by_cases hk : height = call.height
    · rw [hk, AList.lookup_insert] at h
      rw [hk, ← Option.some.inj h]
      exact hcall since
    · rw [AList.lookup_insert_ne hk] at h
      exact herase height half h
  -- completed, replaced, deferred with the map reset, or buffered
  rcases locked_cases maxEntries now pending call with
    ⟨held, act, hlookup, hcomplete, heq⟩ | ⟨held, -, -, heq⟩ | ⟨-, -, heq⟩ |
      ⟨-, -, heq⟩
  · rw [heq]
    refine ⟨herase, ?_⟩
    intro hash txHashes blockBytes logs first since hact
    dsimp only at hact
    subst hact
    have hheld := hpending _ _ hlookup
    have hcame := hcall since
    cases call with
    | block height hash' txHashes' blockBytes' =>
        cases held with
        | block b => cases hcomplete
        | logs l =>
            simp only [Call.complete, Option.some.injEq, WriteAct.write.injEq] at hcomplete
            obtain ⟨rfl, rfl, rfl, rfl, -⟩ := hcomplete
            exact ⟨⟨since, hcame⟩, l.since, hheld⟩
    | logs height logsBytes =>
        cases held with
        | logs l => cases hcomplete
        | block b =>
            simp only [Call.complete, Option.some.injEq, WriteAct.write.injEq] at hcomplete
            obtain ⟨rfl, rfl, rfl, rfl, -⟩ := hcomplete
            exact ⟨⟨b.since, hheld⟩, since, hcame⟩
  · rw [heq]
    exact ⟨hinsert held.since, fun _ _ _ _ _ _ h => (nomatch h)⟩
  · rw [heq]
    refine ⟨?_, fun _ _ _ _ _ _ h => (nomatch h)⟩
    intro height half h
    rw [AList.lookup_empty] at h
    cases h
  · rw [heq]
    exact ⟨hinsert now, fun _ _ _ _ _ _ h => (nomatch h)⟩

end Join

/-! ## Steps -/

section Steps

variable {J : Codec} {cfg : IngestCfg} {up : Upstream} {i i' : Instance}

/-- What the join buffer decides to write is the upstream's put. -/
theorem held_apply {s : Storage} {height : Nat} {act : WriteAct} (fault : Fault)
    (h : up.Held J cfg s) (hlt : height < 2 ^ 64) (hlogs : cfg.ingestLogs = true)
    (hwrite : ∀ hash txHashes blockBytes logs first since,
      act = .write hash txHashes blockBytes logs first since →
      (∃ t, up.Half J height (.block ⟨hash, txHashes, blockBytes, t⟩)) ∧
        ∃ t, up.Half J height (.logs ⟨logs, t⟩)) :
    up.Held J cfg (apply s fault height act).2 := by
  cases act with
  | write hash txHashes blockBytes logs first since =>
      obtain ⟨⟨_, hblock, hhash, hids⟩, _, hbytes⟩ := hwrite _ _ _ _ _ _ rfl
      dsimp only [Upstream.Half] at hblock hhash hids hbytes
      have hput := held_put fault h hlt hhash
      rw [Upstream.logsHalf, if_pos hlogs] at hput
      rw [apply_write_state, hblock, hids, hbytes]
      exact hput
  | buffered => exact h
  | deferred => exact h

theorem Copied.bufferBlock {expected : String} {height now : Nat} {p : PreparedBlock}
    (fault : Fault) (h : Copied J up cfg i) (hlt : height < 2 ^ 64)
    (hlogs : cfg.ingestLogs = true) (hp : prepareBlock J expected (up.block height) = some p) :
    Copied J up cfg (bufferBlock cfg i height now fault p) := by
  obtain ⟨hhash, hids, hbytes⟩ := prepareBlock_eq_some hp
  let call : Call := .block height p.hash p.txHashes p.bytes
  have hcall : ∀ t, up.Half J call.height (call.pending t) := fun _ => ⟨hbytes, hhash, hids⟩
  obtain ⟨hpending, hwrite⟩ :=
    locked_halves cfg.joinBufferCap now h.pending hcall
  have hstorage := held_apply fault h.storage hlt hlogs hwrite
  simp only [NeveEthInstance.bufferBlock, onBlock]
  split
  · rename_i heq
    rw [heq] at hstorage
    exact ⟨hstorage, hpending, h.direct, h.task, h.tip, h.phase⟩
  · rename_i heq
    rw [heq] at hstorage
    exact ⟨hstorage, hpending, h.direct, h.task, h.tip, h.phase⟩
  · rename_i heq
    rw [heq] at hstorage
    refine ⟨hstorage, hpending, rfl, ?_, h.tip, h.phase⟩
    intro k hk
    rw [← Task.awaitingLogs.inj hk]
    exact ⟨hlt, hlogs⟩

theorem Copied.bufferLogs {height now : Nat} (fault : Fault) (h : Copied J up cfg i)
    (hlt : height < 2 ^ 64) (hlogs : cfg.ingestLogs = true) :
    Copied J up cfg
      (bufferLogs J cfg i height now fault (.array (up.logs height))) := by
  let call : Call := .logs height (J.toVec (.array (up.logs height)))
  have hcall : ∀ t, up.Half J call.height (call.pending t) := fun _ => rfl
  obtain ⟨hpending, hwrite⟩ :=
    locked_halves cfg.joinBufferCap now h.pending hcall
  exact ⟨held_apply fault h.storage hlt hlogs hwrite, hpending, rfl,
    fun k hk => (nomatch hk), h.tip, h.phase⟩

/-- A direct instance is past its bootstrap from the start. -/
theorem Copied.no_bootstrap (h : Copied J up cfg i) : i.task ≠ .bootstrap := by
  intro htask
  have hdirect := h.direct
  rw [Instance.bootstrapping, htask] at hdirect
  cases hdirect

theorem Copied.no_stream (h : Copied J up cfg i) (target : Nat) :
    i.task ≠ .streaming target := by
  intro htask
  have hdirect := h.direct
  rw [Instance.bootstrapping, htask] at hdirect
  cases hdirect

/-- **A step of the ingest task** keeps the copy. -/
theorem copied_ingest {a : IngestAction} (h : Copied J up cfg i)
    (htrue : up.Truthful cfg i (.ingest a)) (hstep : ingestStep J cfg i a = some i') :
    Copied J up cfg i' := by
  cases ingestStep_turn hstep with
  | untold htask => exact absurd htask h.no_bootstrap
  | reached target htask _ => exact absurd htask h.no_bootstrap
  | behind target htask _ => exact absurd htask h.no_bootstrap
  | ended target fault htask => exact absurd htask (h.no_stream target)
  | streamed target v fault htask => exact absurd htask (h.no_stream target)
  | ignored v body now fault htask hlive => exact h
  | unprepared v body now fault height hash block htask hlive _ hp => exact h
  | buffered v body now fault height hash block p htask hlive hlogs hp =>
      obtain rfl := htrue height hash block hlive
      exact h.bufferBlock fault (classifyFrame_height_lt (liveBlock_height hlive)) hlogs hp
  | persisted v body now fault height hash block htask hlive hoff =>
      obtain rfl := htrue height hash block hlive
      have hlt := classifyFrame_height_lt (liveBlock_height hlive)
      exact ⟨held_persistBlock fault hash h.storage hlt hoff, h.pending, rfl,
        fun k hk => (nomatch hk), h.tip, h.phase⟩
  | unanswered result now fault height htask hlogs =>
      exact ⟨h.storage, h.pending, rfl, fun k hk => (nomatch hk), h.tip, h.phase⟩
  | joined result now fault height logs htask hlogs =>
      obtain ⟨hlt, hingest⟩ := h.task height htask
      obtain rfl := logs_of_reply hlt (fun reply => htrue height reply htask) hlogs
      have hreplies : Copied J up cfg { i with
          replies := (result.map (LogsReply.ofHeight cfg.logsSource height)).toList
            ++ i.replies } := ⟨h.storage, h.pending, h.direct, h.task, h.tip, h.phase⟩
      exact hreplies.bufferLogs fault hlt hingest

theorem Copied.endIteration (h : Copied J up cfg i) (sleep : Option Sleep) :
    Copied J up cfg (i.endIteration sleep) :=
  ⟨h.storage, h.pending, h.direct, h.task, h.tip, trivial⟩

/-- On to the next height of a run. -/
theorem Copied.fillFrom {next stop cursor : Nat} {fetched : List (Nat × Option Fetched)}
    (target : Nat) (h : Copied J up cfg i) (hcursor : next ≤ cursor) (hstop : stop < 2 ^ 64)
    (hwindow : cfg.windowed = true → i.logs = LogWindow.load (up.getLogs next stop))
    (hfetched : FetchedFrom up cfg fetched) :
    Copied J up cfg (i.fillFrom next stop target cursor fetched) := by
  simp only [Instance.fillFrom]
  by_cases hend : stop < cursor
  · rw [if_pos hend]
    exact h.endIteration none
  · rw [if_neg hend]
    exact ⟨h.storage, h.pending, h.direct, h.task, h.tip, hcursor, Nat.le_of_not_lt hend, hstop,
      hwindow, hfetched⟩

/-- The logs half of a fetched block is that of its height. -/
theorem logsHalf_copied {w : LogWindow} {next stop height : Nat} (hstop : stop < 2 ^ 64)
    (hlo : next ≤ height) (hhi : height ≤ stop)
    (hwindow : cfg.windowed = true → w = LogWindow.load (up.getLogs next stop)) :
    (logsHalf J cfg w height
      (if cfg.perHeightLogs then some (.array (up.logs height)) else none)).1
      = J.toVec (.array (up.logsHalf cfg height)) := by
  cases hingest : cfg.ingestLogs with
  | false =>
      simp only [logsHalf, hingest, Upstream.logsHalf, Bool.false_eq_true, if_false]
      exact J.toVec_nil.symm
  | true =>
      cases hsource : cfg.logsSource with
      | Receipts =>
          have hper : cfg.perHeightLogs = true := by
            simp [IngestCfg.perHeightLogs, hingest, hsource]
          rw [if_pos hper]
          simp only [logsHalf, hingest, Upstream.logsHalf, if_true, LogWindow.serialize]
      | GetLogs =>
          have hper : ¬ cfg.perHeightLogs = true := by
            simp [IngestCfg.perHeightLogs, hsource]
          have hwin : cfg.windowed = true := by
            simp [IngestCfg.windowed, hingest, hsource]
          rw [if_neg hper]
          simp only [logsHalf, hingest, Upstream.logsHalf, if_true]
          rw [serialized_eq, hwindow hwin, bucket_window hstop hlo hhi]

theorem fetchedFrom_cons {fetched : List (Nat × Option Fetched)} {height : Nat}
    {block receipts : Option Value} (h : FetchedFrom up cfg fetched)
    (hblock : ∀ reply, fetchRpc block = some reply → reply = up.block height)
    (hreceipts : ∀ reply, fetchRpc receipts = some reply →
      reply = .array (up.receipts height)) (s : Storage) :
    FetchedFrom up cfg ((height, fetchOne J cfg s height block receipts) :: fetched) := by
  intro k f hmem
  rcases List.mem_cons.mp hmem with heq | hmem
  · obtain ⟨rfl, hf⟩ := Prod.mk.inj heq
    rcases fetchOne_cases hf.symm with ⟨hskip, -⟩ | ⟨v, logs, rfl, hv, hlogs⟩
    · exact Or.inl hskip
    · right
      rw [hblock v hv]
      by_cases hper : cfg.perHeightLogs = true
      · rw [if_pos hper] at hlogs ⊢
        obtain ⟨r, hr, rfl⟩ := hlogs
        rw [hreceipts r hr]
        rfl
      · rw [if_neg hper] at hlogs ⊢
        rw [hlogs]
  · exact h k f hmem

theorem highWater_copied {s : Storage} (h : up.Held J cfg s) :
    s.highWater < 2 ^ 64 := by
  refine NeveFillLoop.highWater_lt ⟨h.floor, fun k hk => ?_⟩
  obtain ⟨raw, hraw⟩ := Storage.has_iff_rawAt.mp hk
  obtain ⟨c, ⟨height, hash, hlt, -, rfl⟩, -, rfl, -⟩ := h.traced.record k raw hraw
  exact hlt

/-- **A step of the backfill task** keeps the copy. -/
theorem copied_backfill {a : BackfillAction} (h : Copied J up cfg i)
    (htrue : up.Truthful cfg i (.backfill a)) (hstep : backfillStep J cfg i a = some i') :
    Copied J up cfg i' := by
  cases backfillStep_turn hstep with
  | cold htop _ hcold => exact ⟨h.storage, h.pending, h.direct, h.task, h.tip, trivial⟩
  | highWater htop _ hwarm =>
      exact ⟨h.storage, h.pending, h.direct, h.task, h.tip, highWater_copied h.storage⟩
  | contiguous hw heq =>
      have hphase := h.phase
      simp only [PhaseCopied, heq] at hphase
      exact ⟨h.storage, h.pending, h.direct, h.task, h.tip, hphase⟩
  | decided aged response hw rawContiguous tip heq hread =>
      have hphase := h.phase
      simp only [PhaseCopied, heq] at hphase
      have htip := NeveFillLoop.readTip_lt h.tip cfg hw rawContiguous aged response
      rw [hread] at htip
      simp only [Instance.decide]
      split
      · exact ⟨h.storage, h.pending, h.direct, h.task, htip, trivial⟩
      · exact ⟨h.storage, h.pending, h.direct, h.task, htip, trivial⟩
      · rename_i next stop target hmeasure
        obtain ⟨-, hle, hstop⟩ := measure_fill hphase htip hmeasure
        by_cases hwin : cfg.windowed = true
        · rw [if_pos hwin]
          exact ⟨h.storage, h.pending, h.direct, h.task, htip, hle, hstop⟩
        · rw [if_neg hwin]
          have hdecided : Copied J up cfg { i with
              tip := tip, behindTip := target - (next - 1) } :=
            ⟨h.storage, h.pending, h.direct, h.task, htip, h.phase⟩
          exact hdecided.fillFrom target (Nat.le_refl next) hstop
            (fun hw => absurd hw hwin) fun _ _ hmem => by cases hmem
  | unanswered result next stop target heq hlogs => exact h.endIteration _
  | loaded result logs next stop target heq hlogs =>
      have hphase := h.phase
      simp only [PhaseCopied, heq] at hphase
      obtain rfl := htrue next stop target logs heq hlogs
      have hloaded : Copied J up cfg { i with
          logs := LogWindow.load (up.getLogs next stop)
          replies := .getLogs next stop (up.getLogs next stop) :: i.replies } := by
        refine ⟨h.storage, h.pending, h.direct, h.task, h.tip, ?_⟩
        simp only [PhaseCopied, heq]
        exact hphase
      exact hloaded.fillFrom target (Nat.le_refl next) hphase.2 (fun _ => rfl)
        fun _ _ hmem => by cases hmem
  | fetched height block receipts next stop target cursor outcomes heq _ _ _ _ =>
      have hphase := h.phase
      simp only [PhaseCopied, heq] at hphase
      obtain ⟨hcursor, hin, hstop, hwindow, hfetched⟩ := hphase
      exact ⟨h.storage, h.pending, h.direct, h.task, h.tip, hcursor, hin, hstop, hwindow,
        fetchedFrom_cons hfetched htrue.1 htrue.2 i.storage⟩
  | consumed fault next stop target cursor outcomes outcome heq hlookup =>
      have hphase := h.phase
      simp only [PhaseCopied, heq] at hphase
      obtain ⟨hcursor, hin, hstop, hwindow, hfetched⟩ := hphase
      have hnext : next ≤ cursor + 1 := Nat.le_succ_of_le hcursor
      cases outcome with
      | none => exact h.endIteration _
      | some f =>
          rcases hfetched cursor f (mem_of_lookup hlookup) with rfl | rfl
          · exact h.fillFrom target hnext hstop hwindow hfetched
          · have hlt : cursor < 2 ^ 64 := Nat.lt_of_le_of_lt hin hstop
            have hstorage := held_persistBackfilled fault h.storage hlt
            rw [← logsHalf_copied (J := J) hstop hcursor hin hwindow] at hstorage
            simp only [consume]
            split
            · rename_i hput
              rw [hput] at hstorage
              have hfailed : Copied J up cfg { i with storage := _ } :=
                ⟨hstorage, h.pending, h.direct, h.task, h.tip, h.phase⟩
              exact hfailed.endIteration _
            · rename_i hput
              rw [hput] at hstorage
              have hwritten : Copied J up cfg { i with
                  storage := _, behindTip := target - cursor } :=
                ⟨hstorage, h.pending, h.direct, h.task, h.tip, h.phase⟩
              exact hwritten.fillFrom target hnext hstop hwindow hfetched

end Steps

/-! ## Runs -/

/-- The states a direct instance can get to: it begins over a fresh store, goes on step by
    step, and may be stopped and started again over the store it has. -/
inductive Reached (J : Codec) (up : Upstream) (cfg : IngestCfg) : Instance → Prop where
  | fresh (blockdb : Blockdb) :
      Reached J up cfg (.start cfg (Storage.fresh blockdb .C cfg.floor))
  | step {i i' : Instance} (a : Action) (h : Reached J up cfg i)
      (htrue : up.Truthful cfg i a) (hstep : step J cfg i a = some i') : Reached J up cfg i'
  | restart {i : Instance} (h : Reached J up cfg i) : Reached J up cfg (.start cfg i.storage)

section Runs

variable {J : Codec} {cfg : IngestCfg} {up : Upstream} {i i' : Instance}

theorem copied_start {s : Storage} (hdirect : cfg.subscribeBlocks = false)
    (h : up.Held J cfg s) : Copied J up cfg (.start cfg s) := by
  have htask : (Instance.start cfg s).task = .live := by
    simp only [Instance.start, hdirect, Bool.false_eq_true, if_false]
  refine ⟨h, ?_, ?_, ?_, Nat.two_pow_pos 64, trivial⟩
  · intro height half hlookup
    rw [show (Instance.start cfg s).pending = ∅ from rfl, AList.lookup_empty] at hlookup
    cases hlookup
  · rw [Instance.bootstrapping, htask]
  · intro height hawait
    rw [htask] at hawait
    cases hawait

/-- **The run lemma**: whatever is reached is a copy. -/
theorem Reached.copied (hdirect : cfg.subscribeBlocks = false) (h : Reached J up cfg i) :
    Copied J up cfg i := by
  induction h with
  | fresh blockdb =>
      refine copied_start hdirect ⟨traced_fresh blockdb .C cfg.floor, ?_⟩
      intro st hst
      cases hst
  | step a _ htrue hstep ih =>
      cases a with
      | ingest a => exact copied_ingest ih htrue hstep
      | backfill a => exact copied_backfill ih htrue hstep
  | restart _ ih => exact copied_start hdirect ih.storage

theorem Reached.run {actions : List Action} (h : Reached J up cfg i)
    (htrue : Run.Meets (NeveEthInstance.step J cfg) (up.Truthful cfg) i actions)
    (hrun : Run.exec (NeveEthInstance.step J cfg) i actions = some i') :
    Reached J up cfg i' := by
  induction actions generalizing i with
  | nil =>
      rw [← Option.some.inj hrun]
      exact h
  | cons a rest ih =>
      obtain ⟨i1, hstep, hrest⟩ := Run.exec_cons hrun
      exact ih (.step a h htrue.1 hstep) (htrue.2 i1 hstep) hrest

end Runs

/-! ## Blocks and transactions -/

/-- The height a selector names: by its number, or by the hash that the upstream's block
    of that height has. -/
def Upstream.Named (up : Upstream) (s : Storage) (height : Nat) : BlockSelector → Prop
  | .Number tag => resolveBlockTag s tag = .ok height
  | .Height h => h = height
  | .Hash text => ∃ key, parseHash text = .ok key ∧ txHash (up.block height) = some key

section Reads

variable {J : Codec} {cfg : IngestCfg} {up : Upstream} {s : Storage} {pending : PendingMap}

/-- A stored record is the upstream's, byte for byte. -/
theorem record_copied (h : up.Held J cfg s) {height : Nat} {raw : Bytes}
    (hraw : s.rawAt height = some raw) :
    raw = encode ([up.block height, .array (up.logsHalf cfg height)].map J.toVec) := by
  obtain ⟨c, ⟨k, hash, -, -, rfl⟩, -, rfl, rfl⟩ := h.traced.record height raw hraw
  rfl

/-- A block read by its height, from the store or from the buffer. -/
theorem readBlockValue_copied (h : up.Held J cfg s)
    (hpending : ∀ height half, pending.lookup height = some half → up.Half J height half)
    {height : Nat} {v : Value}
    (hread : readBlockValue J s (NeveJoinBuffer.bufferedBlock pending) height = .ok (some v)) :
    v = (up.block height).mapFloat J.refloat := by
  cases hraw : s.rawAt height with
  | some raw =>
      have hrecord := record_copied h hraw
      rw [hrecord] at hraw
      have hlen : 1 ≤ [Value.array (up.logsHalf cfg height)].length := Nat.le_refl 1
      rw [readBlockValue_of_rawAt J _ hlen hraw] at hread
      exact (Option.some.inj (Except.ok.inj hread)).symm
  | none =>
      have hmiss := (Storage.getByHeight_eq_none_iff J s height).mpr hraw
      simp only [readBlockValue, NeveJoinBuffer.bufferedBlock] at hread
      rw [hmiss] at hread
      dsimp only [bind, Except.bind] at hread
      cases hhalf : pending.lookup height with
      | none =>
          rw [hhalf] at hread
          cases hread
      | some half =>
          rw [hhalf] at hread
          have hcopied := hpending height half hhalf
          cases half with
          | logs l => cases hread
          | block b =>
              dsimp only at hread
              rw [hcopied.1, J.fromSlice_toVec] at hread
              exact (Option.some.inj (Except.ok.inj hread)).symm

/-- A hash is indexed to a height whose block has it. -/
theorem heightOfHash_copied (h : up.Held J cfg s) {key : Bytes32} {height : Nat}
    (hindex : s.heightOfHash key = .ok (some height)) :
    height < 2 ^ 64 ∧ txHash (up.block height) = some key := by
  simp only [Storage.heightOfHash] at hindex
  cases hlook : s.hashToHeight.lookup key with
  | none =>
      rw [hlook] at hindex
      cases hindex
  | some slice =>
      rw [hlook] at hindex
      obtain ⟨c, ⟨k, hash, hlt, hhash, rfl⟩, -, rfl, rfl, -⟩ :=
        h.traced.block key slice (mem_of_lookup hlook)
      have hlen : ¬ (toLeBytes 8 k).length ≠ 8 := not_not.mpr (toLeBytes_length 8 k)
      dsimp only [Upstream.call] at hindex
      rw [if_neg hlen, Storage.height_of_entry hlt] at hindex
      rw [← Option.some.inj (Except.ok.inj hindex)]
      exact ⟨hlt, hhash⟩

/-- **A block by any selector**. -/
theorem selectBlock_copied (h : up.Held J cfg s)
    (hpending : ∀ height half, pending.lookup height = some half → up.Half J height half)
    {sel : BlockSelector} {v : Value}
    (hread : selectBlock J s (NeveJoinBuffer.bufferedBlock pending) sel = .ok (some v)) :
    ∃ height, up.Named s height sel ∧ v = (up.block height).mapFloat J.refloat := by
  cases sel with
  | Height k => exact ⟨k, rfl, readBlockValue_copied h hpending hread⟩
  | Number tag =>
      obtain ⟨k, htag, hread⟩ := bind_eq_ok hread
      exact ⟨k, htag, readBlockValue_copied h hpending hread⟩
  | Hash text =>
      obtain ⟨key, hkey, hread⟩ := bind_eq_ok hread
      obtain ⟨found, hfound, hread⟩ := bind_eq_ok hread
      obtain ⟨index, hindex, hfound⟩ := bind_eq_ok hfound
      cases index with
      | none =>
          obtain rfl := Except.ok.inj hfound
          cases hread
      | some k =>
          refine ⟨k, ⟨key, hkey, (heightOfHash_copied h hindex).2⟩, ?_⟩
          cases hraw : s.rawAt k with
          | none =>
              obtain rfl := Except.ok.inj
                (((Storage.getByHeight_eq_none_iff J s k).mpr hraw).symm.trans hfound)
              cases hread
          | some raw =>
              have hlen : 1 ≤ [Value.array (up.logsHalf cfg k)].length := Nat.le_refl 1
              have hrecord := record_copied h hraw
              rw [hrecord] at hraw
              obtain rfl := Except.ok.inj
                ((s.getByHeight_of_rawAt J hlen hraw).symm.trans hfound)
              dsimp only at hread
              rw [J.fromSlice_toVec] at hread
              exact (Option.some.inj (Except.ok.inj hread)).symm

/-- A transaction is located at its position in the upstream's block. -/
theorem getTxLocation_copied (h : up.Held J cfg s) {key : Bytes32}
    {height idx : Nat} (hloc : s.getTxLocation key = .ok (some (height, idx))) :
    ∃ tx, (transactions (up.block height))[idx]? = some tx ∧ txHash tx = some key := by
  obtain ⟨slice, hmem, hslice⟩ := NeveTxIndex.getTxLocation_eq_some hloc
  obtain ⟨c, pos, ⟨k, hash, hlt, -, rfl⟩, -, hid, rfl, -⟩ := h.traced.tx key slice hmem
  have hpacked : NeveTxIndex.Packed txHash (transactions (up.block k)) := by
    intro m j hmj hj
    obtain ⟨tx, htx, -⟩ := Option.bind_eq_some_iff.mp (Option.eq_some_of_isSome hj)
    have hm : m < (transactions (up.block k)).length :=
      Nat.lt_trans hmj (List.getElem?_eq_some_iff.mp htx).1
    rw [List.getElem?_eq_getElem hm, Option.bind_some]
    exact up.hashed k _ (List.getElem_mem hm)
  obtain ⟨tx, htx, hkey⟩ := hpacked.getElem_filterMap hid
  have hpos : pos < 2 ^ 32 :=
    Nat.lt_of_lt_of_le (List.getElem?_eq_some_iff.mp htx).1 (up.few k)
  rw [show (up.call cfg k hash).height = k from rfl, Storage.location_of_entry hlt hpos]
    at hslice
  obtain ⟨rfl, rfl⟩ := Prod.mk.inj hslice
  exact ⟨tx, htx, hkey⟩

end Reads

/-- **Reads are the upstream's.**  In every state that is reached, whatever went wrong on
    the way, with the join buffer read in that state or in any other: what a read projects
    out of a block, it projects out of the upstream's block of the height that its selector
    names, floats reread; and a transaction given for a hash is one of the upstream's that
    has that hash. -/
theorem reads_are_upstreams {J : Codec} {up : Upstream} {cfg : IngestCfg}
    (hdirect : cfg.subscribeBlocks = false) {i i' : Instance} (hi : Reached J up cfg i)
    (hi' : Reached J up cfg i') :
    (∀ (R : Type) (sel : BlockSelector) (project : Value → Except String (Option R)) (r : R),
      lookupBlock J i.storage (bufferedBlock i'.pending) sel project = .ok (some r) →
      ∃ height, up.Named i.storage height sel ∧
        project ((up.block height).mapFloat J.refloat) = .ok (some r)) ∧
    ∀ hash tx,
      getTransactionByHashText J i.storage (bufferedBlock i'.pending) hash = .ok (some tx) →
      ∃ key height t, parseHash hash = .ok key ∧ t ∈ transactions (up.block height) ∧
        txHash t = some key ∧ tx = t.mapFloat J.refloat := by
  have hstorage := (hi.copied hdirect).storage
  have hpending := (hi'.copied hdirect).pending
  constructor
  · intro R sel project r hread
    obtain ⟨found, hsel, hread⟩ := bind_eq_ok hread
    cases found with
    | none => cases hread
    | some v =>
        obtain ⟨height, hnamed, rfl⟩ := selectBlock_copied hstorage hpending hsel
        exact ⟨height, hnamed, hread⟩
  · intro hash tx hread
    obtain ⟨key, hkey, hread⟩ := bind_eq_ok hread
    obtain ⟨found, hloc, hread⟩ := bind_eq_ok hread
    cases found with
    | none => cases hread
    | some loc =>
        obtain ⟨height, idx⟩ := loc
        obtain ⟨t, ht, hhash⟩ := getTxLocation_copied hstorage hloc
        refine ⟨key, height, t, hkey, List.mem_of_getElem? ht, hhash, ?_⟩
        obtain ⟨found, hblock, hread⟩ := bind_eq_ok hread
        cases found with
        | none => cases hread
        | some v =>
            dsimp only at hread
            rw [readBlockValue_copied hstorage hpending hblock, nthTransaction_eq,
              transactions_mapFloat, List.getElem?_map, ht] at hread
            exact (Option.some.inj (Except.ok.inj hread)).symm

/-! ## Logs -/

section Scan

variable (J : Codec)

/-- The scan of `eth_getLogs` while the instance goes on: the `n`-th chunk is read in the
    `n`-th store. -/
def scanLogsDuring (storage : Nat → Storage) (filter : LogFilter) (toHeight : Nat) :
    Nat → Nat → Nat → List Value → Option (Except String (Option Value))
  | 0, _, _, _ => none
  | fuel + 1, n, chunkStart, out =>
      if chunkStart ≤ toHeight then
        match (storage n).readElementRange J chunkStart (chunkEnd chunkStart toHeight)
            C_LOGS with
        | .error e => some (.error s!"storage error: {e}")
        | .ok none => some (.ok none)
        | .ok (some perHeight) =>
            match collectLogs J filter perHeight out with
            | .error e => some (.error e)
            | .ok out =>
                scanLogsDuring storage filter toHeight fuel (n + 1)
                  (saturatingAdd (chunkEnd chunkStart toHeight) 1) out
      else some (.ok (some (.array out)))

/-- `eth_getLogs` whose range is decided in one store and read in others. -/
def getLogsDuring (s : Storage) (storage : Nat → Storage) (ingestsLogs : Bool)
    (filter : LogFilter) (fuel : Nat) : Option (Except String (Option Value)) :=
  if !ingestsLogs then some (.ok none)
  else
    match getLogsRange s filter with
    | .error e => some (.error e)
    | .ok none => some (.ok none)
    | .ok (some (fromHeight, toHeight)) =>
        scanLogsDuring J storage filter toHeight fuel 0 fromHeight []

theorem scanLogsDuring_const (s : Storage) (filter : LogFilter) (toHeight fuel : Nat) :
    ∀ n chunkStart out, scanLogsDuring J (fun _ => s) filter toHeight fuel n chunkStart out
      = scanLogs J s filter toHeight fuel chunkStart out := by
  induction fuel with
  | zero => exact fun _ _ _ => rfl
  | succ fuel ih =>
      intro n chunkStart out
      rw [scanLogsDuring, scanLogs]
      by_cases hle : chunkStart ≤ toHeight
      · rw [if_pos hle, if_pos hle]
        cases s.readElementRange J chunkStart (chunkEnd chunkStart toHeight) C_LOGS with
        | error e => rfl
        | ok found =>
            cases found with
            | none => rfl
            | some perHeight =>
                dsimp only
                cases collectLogs J filter perHeight out with
                | error e => rfl
                | ok out' => exact ih (n + 1) _ out'
      · rw [if_neg hle, if_neg hle]

/-- At rest it is `eth_getLogs`. -/
theorem getLogsDuring_const (s : Storage) (ingestsLogs : Bool) (filter : LogFilter)
    (fuel : Nat) :
    getLogsDuring J s (fun _ => s) ingestsLogs filter fuel
      = getLogs J s ingestsLogs filter fuel := by
  rw [getLogsDuring, getLogs]
  cases ingestsLogs with
  | false => rfl
  | true =>
      cases getLogsRange s filter with
      | error e => rfl
      | ok range =>
          cases range with
          | none => rfl
          | some heights =>
              obtain ⟨fromHeight, toHeight⟩ := heights
              exact scanLogsDuring_const J s filter toHeight fuel 0 fromHeight []

end Scan

/-- What a filter asks the upstream for: the block that has its hash, or the heights from
    one tag to the other, not too many. -/
def Upstream.Asked (up : Upstream) (s : Storage) (filter : LogFilter) (a b : Nat) : Prop :=
  match filter.blockHash with
  | some text => a = b ∧ ∃ key, parseHash text = .ok key ∧ txHash (up.block a) = some key
  | none => resolveBlockTag s filter.fromTag = .ok a ∧
      resolveBlockTag s filter.toTag = .ok b ∧ a ≤ b ∧ b - a < MAX_GETLOGS_RANGE

section Logs

variable {J : Codec} {cfg : IngestCfg} {up : Upstream} {s : Storage} {filter : LogFilter}
  {storage : Nat → Storage}

theorem element_copied (h : up.Held J cfg s) {height : Nat} {raw : Bytes}
    (hraw : s.rawAt height = some raw) :
    element J raw C_LOGS = .ok (some (J.toVec (.array (up.logsHalf cfg height)))) := by
  have hlen : 2 ≤ [up.block height, .array (up.logsHalf cfg height)].length := Nat.le_refl 2
  rw [record_copied h hraw, element_encode J hlen]
  rfl

/-- The logs elements of a chunk that is read are the upstream's. -/
theorem readElements_copied (h : up.Held J cfg s) {st : Store} (hst : s.store = some st)
    {heights : List Nat} {parts : List Bytes}
    (hread : Storage.readElements J st C_LOGS heights = .ok (some parts)) :
    parts = heights.map fun k => J.toVec (.array (up.logsHalf cfg k)) := by
  induction heights generalizing parts with
  | nil => exact (Option.some.inj (Except.ok.inj hread)).symm
  | cons height rest ih =>
      simp only [Storage.readElements] at hread
      cases hblock : st.readBlock height with
      | error e =>
          rw [hblock] at hread
          cases hread
      | ok found =>
          rw [hblock] at hread
          cases found with
          | none => cases hread
          | some raw =>
              have hraw : s.rawAt height = some raw := by
                rw [Storage.rawAt, hst, Option.bind_some, Store.stored_eq_some.mpr hblock]
              simp only [element_copied h hraw] at hread
              cases hrest : Storage.readElements J st C_LOGS rest with
              | error e =>
                  rw [hrest] at hread
                  cases hread
              | ok found =>
                  rw [hrest] at hread
                  cases found with
                  | none => cases hread
                  | some more =>
                      rw [← Option.some.inj (Except.ok.inj hread), ih hrest, List.map_cons]

theorem readElementRange_copied (h : up.Held J cfg s) {a b : Nat} {parts : List Bytes}
    (hread : s.readElementRange J a b C_LOGS = .ok (some parts)) :
    parts = (List.range' a (b + 1 - a)).map fun k => J.toVec (.array (up.logsHalf cfg k)) := by
  simp only [Storage.readElementRange] at hread
  cases hst : s.store with
  | none =>
      rw [hst] at hread
      cases hread
  | some st =>
      rw [hst] at hread
      exact readElements_copied h hst hread

/-- The logs of some heights that match a filter, as they are read back. -/
def Upstream.matching (up : Upstream) (J : Codec) (cfg : IngestCfg) (filter : LogFilter)
    (heights : List Nat) : List Value :=
  ((heights.flatMap (up.logsHalf cfg)).map (Value.mapFloat J.refloat)).filter
    fun log => logMatches log filter.address filter.topics

theorem collectLogs_copied (heights : List Nat) (out : List Value) :
    collectLogs J filter (heights.map fun k => J.toVec (.array (up.logsHalf cfg k))) out
      = .ok (out ++ up.matching J cfg filter heights) := by
  have hslices : (heights.map fun k => J.toVec (.array (up.logsHalf cfg k))).map J.fromSlice
      = (heights.map fun k => (up.logsHalf cfg k).map (Value.mapFloat J.refloat)).map
          fun items => some (.array items) := by
    rw [List.map_map, List.map_map]
    refine List.map_congr_left fun k _ => ?_
    show J.fromSlice (J.toVec (.array (up.logsHalf cfg k))) = _
    rw [J.toVec_array, J.fromSlice_arrayText]
    rfl
  rw [collectLogs_arrays hslices, Upstream.matching, List.map_flatMap, List.flatMap_def]

/-- **The scan**, chunk by chunk, each in whatever store it is read: induction over the
    chunks. -/
theorem scan_copied (h : ∀ n, up.Held J cfg (storage n)) {b : Nat}
    (hb : b < u64Max) {fuel n c : Nat} (hc : c ≤ b + 1) {out : List Value} {v : Value}
    (hscan : scanLogsDuring J storage filter b fuel n c out = some (.ok (some v))) :
    v = .array (out ++ up.matching J cfg filter (List.range' c (b + 1 - c))) := by
  induction fuel generalizing n c out with
  | zero => cases hscan
  | succ fuel ih =>
      simp only [scanLogsDuring] at hscan
      by_cases hle : c ≤ b
      · rw [if_pos hle] at hscan
        obtain ⟨e, he⟩ : ∃ e, chunkEnd c b = e := ⟨_, rfl⟩
        have hend := (chunkEnd_eq hle hb).symm.trans he
        rw [he] at hscan
        cases hread : (storage n).readElementRange J c e C_LOGS with
        | error message =>
            rw [hread] at hscan
            cases hscan
        | ok found =>
            rw [hread] at hscan
            cases found with
            | none => cases hscan
            | some parts =>
                obtain rfl := readElementRange_copied (h n) hread
                simp only [collectLogs_copied] at hscan
                have hnext : saturatingAdd e 1 = e + 1 := by
                  simp only [saturatingAdd]
                  omega
                rw [hnext] at hscan
                rw [ih (by omega) hscan, List.append_assoc]
                -- the heights of this chunk, then those of the chunks still to come
                have hsplit : List.range' c (b + 1 - c)
                    = List.range' c (e + 1 - c) ++ List.range' (e + 1) (b + 1 - (e + 1)) := by
                  have hlen : b + 1 - c = (e + 1 - c) + (b + 1 - (e + 1)) := by omega
                  have hstart : c + (e + 1 - c) = e + 1 := by omega
                  rw [hlen, ← List.range'_append_1, hstart]
                rw [hsplit]
                simp only [Upstream.matching, List.flatMap_append, List.map_append,
                  List.filter_append]
      · rw [if_neg hle] at hscan
        have hnil : b + 1 - c = 0 := by omega
        rw [hnil, ← Option.some.inj (Except.ok.inj (Option.some.inj hscan))]
        exact congrArg Value.array (List.append_nil out).symm

/-- A scan up to the last height there is gives no answer. -/
theorem scan_last {fuel n c : Nat} (hc : c ≤ u64Max) {out : List Value} {v : Value} :
    scanLogsDuring J storage filter u64Max fuel n c out ≠ some (.ok (some v)) := by
  induction fuel generalizing n c out with
  | zero => exact fun h => (nomatch h)
  | succ fuel ih =>
      intro hscan
      simp only [scanLogsDuring] at hscan
      rw [if_pos hc] at hscan
      cases hread : (storage n).readElementRange J c (chunkEnd c u64Max) C_LOGS with
      | error message =>
          rw [hread] at hscan
          cases hscan
      | ok found =>
          rw [hread] at hscan
          cases found with
          | none => cases hscan
          | some parts =>
              dsimp only at hscan
              cases hcollect : collectLogs J filter parts out with
              | error e =>
                  rw [hcollect] at hscan
                  cases hscan
              | ok out' =>
                  rw [hcollect] at hscan
                  exact ih (by simp only [saturatingAdd]; omega) hscan

theorem resolveBlockTag_lt (h : up.Held J cfg s) {tag : String} {n : Nat}
    (htag : resolveBlockTag s tag = .ok n) : n < 2 ^ 64 := by
  cases resolveBlockTag_ok_iff.mp htag with
  | tip _ _ => exact highWater_copied h
  | number _ _ _ hnumber => exact u64FromRadix16_lt hnumber

/-- The range that a filter is answered over is what it asks for. -/
theorem asked_of_range (h : up.Held J cfg s) {a b : Nat}
    (hrange : getLogsRange s filter = .ok (some (a, b))) :
    up.Asked s filter a b ∧ a ≤ b ∧ b < 2 ^ 64 := by
  simp only [getLogsRange] at hrange
  cases hhash : filter.blockHash with
  | some text =>
      rw [hhash] at hrange
      obtain ⟨key, hkey, hrange⟩ := bind_eq_ok hrange
      cases hindex : s.heightOfHash key with
      | error e =>
          rw [hindex] at hrange
          cases hrange
      | ok found =>
          rw [hindex] at hrange
          cases found with
          | none => cases hrange
          | some height =>
              obtain ⟨rfl, rfl⟩ := Prod.mk.inj (Option.some.inj (Except.ok.inj hrange))
              obtain ⟨hlt, hown⟩ := heightOfHash_copied h hindex
              refine ⟨?_, Nat.le_refl _, hlt⟩
              rw [Upstream.Asked, hhash]
              exact ⟨rfl, key, hkey, hown⟩
  | none =>
      rw [hhash] at hrange
      obtain ⟨x, hx, hrange⟩ := bind_eq_ok hrange
      obtain ⟨y, hy, hrange⟩ := bind_eq_ok hrange
      by_cases hlt : y < x
      · rw [if_pos hlt] at hrange
        cases hrange
      rw [if_neg hlt] at hrange
      by_cases hlarge : MAX_GETLOGS_RANGE < saturatingAdd (y - x) 1
      · rw [if_pos hlarge] at hrange
        cases hrange
      rw [if_neg hlarge] at hrange
      by_cases hout : x < s.minHeight ∨ s.maxContiguousHeight < y
      · rw [if_pos hout] at hrange
        cases hrange
      rw [if_neg hout] at hrange
      obtain ⟨rfl, rfl⟩ := Prod.mk.inj (Option.some.inj (Except.ok.inj hrange))
      rw [saturatingAdd_one_large] at hlarge
      refine ⟨?_, Nat.le_of_not_lt hlt, resolveBlockTag_lt h hy⟩
      rw [Upstream.Asked, hhash]
      exact ⟨hx, hy, Nat.le_of_not_lt hlt, by omega⟩

end Logs

/-- **Logs are the upstream's.**  In every state that is reached, and with each chunk of the
    scan read in that state or in any other: a list that `eth_getLogs` gives is that of the
    upstream for the range that the filter asks for, less the logs that do not match, floats
    reread. -/
theorem logs_are_upstreams {J : Codec} {up : Upstream} {cfg : IngestCfg}
    (hdirect : cfg.subscribeBlocks = false) {i : Instance} (hi : Reached J up cfg i)
    {during : Nat → Instance} (hduring : ∀ n, Reached J up cfg (during n))
    {filter : LogFilter} {fuel : Nat} {v : Value}
    (hread : getLogsDuring J i.storage (fun n => (during n).storage) cfg.ingestLogs filter fuel
      = some (.ok (some v))) :
    ∃ a b items, up.Asked i.storage filter a b ∧ up.getLogs a b = .array items ∧
      v = .array ((items.map (Value.mapFloat J.refloat)).filter
        fun log => logMatches log filter.address filter.topics) := by
  have hstorage := (hi.copied hdirect).storage
  have hchunks := fun n => ((hduring n).copied hdirect).storage
  simp only [getLogsDuring] at hread
  cases hingest : cfg.ingestLogs with
  | false =>
      rw [hingest] at hread
      cases hread
  | true =>
      rw [hingest] at hread
      simp only [Bool.not_true, Bool.false_eq_true, if_false] at hread
      cases hrange : getLogsRange i.storage filter with
      | error e =>
          rw [hrange] at hread
          cases hread
      | ok found =>
          rw [hrange] at hread
          cases found with
          | none => cases hread
          | some range =>
              obtain ⟨a, b⟩ := range
              obtain ⟨hasked, hle, hlt⟩ := asked_of_range hstorage hrange
              have hbelow : b < u64Max := by
                by_contra hge
                have heq : b = u64Max := by
                  simp only [u64Max] at hge ⊢
                  omega
                rw [heq] at hread hle
                exact scan_last hle hread
              have hv := scan_copied hchunks hbelow (Nat.le_succ_of_le hle) hread
              refine ⟨a, b, _, hasked, getLogs_range hle hlt, ?_⟩
              have hhalf : up.logsHalf cfg = up.logs := by
                funext k
                rw [Upstream.logsHalf, if_pos hingest]
              rw [hv, List.nil_append, Upstream.matching, hhalf]

/-! ## One height filled -/

/-- Each height has a block of one transaction, and height 5 a log. -/
def sampleUpstream : Upstream where
  block _ := NeveTxIndex.sampleBlock [NeveTxIndex.sampleTx]
  receipts := someReceipts
  getLogs := someGetLogs
  agree := by
    refine ⟨fun _ _ _ _ _ => rfl, ?_⟩
    intro height _ _ log hlog
    by_cases hfive : height = 5
    · subst hfive
      have htext : lowerHexText 5 = "0x5" := by decide
      rw [List.mem_singleton.mp hlog, htext]
      rfl
    · rw [someReceipts, if_neg hfive] at hlog
      cases hlog
  hashed := by
    intro _ tx htx
    rw [List.mem_singleton.mp htx, NeveTxIndex.txHash_sampleTx]
    rfl
  few _ := by decide

/-- Logs by windows, from height 5 on. -/
def windowedCfg : IngestCfg := ⟨true, .GetLogs, false, some 5, 1, 8⟩

/-- A pass that fills height 5. -/
def fillFive : List Action :=
  [.backfill .readHighWater, .backfill .readContiguous,
    .backfill (.readTip true (some (.object [("result", .string "0x5")]))),
    .backfill (.loadRange (some (someGetLogs 5 5))),
    .backfill (.fetch 5 (some (NeveTxIndex.sampleBlock [NeveTxIndex.sampleTx])) none),
    .backfill (.nextFetched .none)]

theorem truthful_fillFive :
    Run.Meets (NeveEthInstance.step JsonText.codec windowedCfg)
      (sampleUpstream.Truthful windowedCfg)
      (.start windowedCfg (Storage.fresh memory .C windowedCfg.floor)) fillFive := by
  refine Run.meets_cons trivial rfl (Run.meets_cons trivial rfl (Run.meets_cons trivial rfl
    (Run.meets_cons ?_ rfl (Run.meets_cons ?_ rfl (Run.meets_cons trivial rfl trivial)))))
  · intro next stop target reply hphase hreply
    have hloading : Phase.loading 5 5 5 = .loading next stop target := hphase
    obtain ⟨rfl, rfl, rfl⟩ := Phase.loading.inj hloading
    exact (Option.some.inj hreply).symm
  · refine ⟨?_, fun reply h => (nomatch h)⟩
    intro reply hreply
    exact (Option.some.inj hreply).symm

/-- A filter for a range without constraints. -/
def rangeFilter (fromBlock toBlock : String) : LogFilter :=
  ⟨some fromBlock, some toBlock, none, none, none⟩

theorem reached_five :
    ∃ i, Reached JsonText.codec sampleUpstream windowedCfg i ∧ (i.storage.rawAt 5).isSome ∧
      getLogsRange i.storage (rangeFilter "0x5" "0x5") = .ok (some (5, 5)) := by
  have hfacts : ((Run.exec (NeveEthInstance.step JsonText.codec windowedCfg)
      (.start windowedCfg (Storage.fresh memory .C windowedCfg.floor)) fillFive).map fun i =>
        ((i.storage.rawAt 5).isSome, getLogsRange i.storage (rangeFilter "0x5" "0x5")))
      = some (true, .ok (some (5, 5))) := rfl
  obtain ⟨i, hrun, hi⟩ := Option.map_eq_some_iff.mp hfacts
  obtain ⟨hraw, hrange⟩ := Prod.mk.inj hi
  exact ⟨i, (Reached.fresh memory).run truthful_fillFive hrun, hraw, hrange⟩

/-- The block is read back, by its height. -/
theorem reads_are_upstreams_five :
    ∃ i r, Reached JsonText.codec sampleUpstream windowedCfg i ∧
      readBlock JsonText.codec i.storage (bufferedBlock i.pending) (.Height 5) true
        = .ok (some r) ∧
      ∃ height, sampleUpstream.Named i.storage height (.Height 5) ∧
        shapeBlock ((sampleUpstream.block height).mapFloat JsonText.codec.refloat) true = r := by
  obtain ⟨i, hi, hstored, -⟩ := reached_five
  obtain ⟨raw, hraw⟩ := Option.isSome_iff_exists.mp hstored
  rw [record_copied (hi.copied rfl).storage hraw] at hraw
  have hblock : selectBlock JsonText.codec i.storage (bufferedBlock i.pending) (.Height 5)
      = .ok (some ((sampleUpstream.block 5).mapFloat JsonText.codec.refloat)) :=
    readBlockValue_of_rawAt JsonText.codec (bufferedBlock i.pending)
      (show 1 ≤ [Value.array (sampleUpstream.logsHalf windowedCfg 5)].length from Nat.le_refl 1)
      hraw
  have hread := lookupBlock_of_selected hblock fun v => Except.ok (some (shapeBlock v true))
  obtain ⟨height, hnamed, hshape⟩ :=
    (reads_are_upstreams rfl hi hi).1 Value (.Height 5) _ _ hread
  exact ⟨i, _, hi, hread, height, hnamed, Option.some.inj (Except.ok.inj hshape)⟩

/-- Its log is given for a range of that height. -/
theorem logs_are_upstreams_five :
    ∃ i, Reached JsonText.codec sampleUpstream windowedCfg i ∧
      getLogsDuring JsonText.codec i.storage (fun _ => i.storage) true
        (rangeFilter "0x5" "0x5") 2 = some (.ok (some (.array [logOfFive]))) ∧
      ∃ a b items, sampleUpstream.Asked i.storage (rangeFilter "0x5" "0x5") a b ∧
        sampleUpstream.getLogs a b = .array items := by
  obtain ⟨i, hi, hstored, hrange⟩ := reached_five
  obtain ⟨raw, hraw⟩ := Option.isSome_iff_exists.mp hstored
  obtain ⟨st, hst, hread⟩ := Option.bind_eq_some_iff.mp hraw
  have hchunk : i.storage.readElementRange JsonText.codec 5 5 C_LOGS
      = .ok (some ([5].map fun k => JsonText.codec.toVec
          (.array (sampleUpstream.logsHalf windowedCfg k)))) := by
    simp only [Storage.readElementRange, hst, Nat.add_sub_cancel_left, List.range'_one,
      Storage.readElements, Store.stored_eq_some.mp hread,
      element_copied (hi.copied rfl).storage hraw, List.map_cons, List.map_nil]
  have hread : getLogsDuring JsonText.codec i.storage (fun _ => i.storage) true
      (rangeFilter "0x5" "0x5") 2 = some (.ok (some (.array [logOfFive]))) := by
    simp only [getLogsDuring, Bool.not_true, Bool.false_eq_true, if_false, hrange]
    rw [scanLogsDuring, if_pos (Nat.le_refl 5), show chunkEnd 5 5 = 5 from rfl, hchunk]
    simp only [collectLogs_copied]
    rfl
  obtain ⟨a, b, items, hasked, hitems, -⟩ := logs_are_upstreams rfl hi (fun _ => hi) hread
  exact ⟨i, hi, hread, a, b, items, hasked, hitems⟩

end NeveFaithfulCopy
