import Neve.JsonTextProofs
import Neve.EthInstanceProofs

/-! # Logs provenance — where every stored logs element came from

    On disk an empty logs array means that the height emitted no logs, so it may
    only stand where upstream was asked and answered.  `Obtained` says that a
    logs element was built from an array reply that covered its height: the
    height's bucket of a window, the reply to the height's own `eth_getLogs`, or
    the logs flattened out of its receipts.

    Nothing but `Obtained` elements is stored as long as the bootstrap writes no
    block and every logs reply is an array; a block of the bootstrap gets an
    empty logs half that was never fetched, and a reply of another shape is
    taken for an empty one or stored as it is. -/

namespace NeveLogsProvenance

open JsonValue ByteText NeveRecord NeveStorage NeveEthIngest NeveEthBackfill
open NeveJoinBuffer NeveEthInstance Outcome

/-! ## Obtained logs -/

/-- The logs element `bytes` of `height` was built from one of the replies, an
    array that covered the height. -/
inductive Obtained (J : Codec) (replies : List LogsReply) (height : Nat) (bytes : Bytes) :
    Prop where
  | window (fromBlock toBlock : Nat) (items : List Value) :
      .getLogs fromBlock toBlock (.array items) ∈ replies →
      fromBlock ≤ height → height ≤ toBlock →
      bytes = ((LogWindow.load (.array items)).serialized J height).1 →
      Obtained J replies height bytes
  | getLogs (items : List Value) :
      .getLogs height height (.array items) ∈ replies → bytes = J.toVec (.array items) →
      Obtained J replies height bytes
  | receipts (items : List Value) :
      .receipts height (.array items) ∈ replies →
      bytes = J.toVec (logsFromReceipts (.array items)) →
      Obtained J replies height bytes

/-- Every record stored is a block with a logs element that was obtained. -/
def StoredLogs (J : Codec) (replies : List LogsReply) (s : Storage) : Prop :=
  ∀ height raw, s.rawAt height = some raw →
    ∃ block bytes, raw = encode [J.toVec block, bytes] ∧ Obtained J replies height bytes

section Lemmas

variable {J : Codec} {replies replies' : List LogsReply} {s : Storage} {height : Nat}
  {bytes : Bytes}

theorem Obtained.mono (h : Obtained J replies height bytes)
    (hsub : ∀ r ∈ replies, r ∈ replies') : Obtained J replies' height bytes := by
  cases h with
  | window fromBlock toBlock items hmem hlo hhi heq =>
      exact .window fromBlock toBlock items (hsub _ hmem) hlo hhi heq
  | getLogs items hmem heq => exact .getLogs items (hsub _ hmem) heq
  | receipts items hmem heq => exact .receipts items (hsub _ hmem) heq

/-- An obtained element is the compact spelling of a document. -/
theorem Obtained.toVec (h : Obtained J replies height bytes) : ∃ v, bytes = J.toVec v := by
  cases h with
  | window fromBlock toBlock items _ _ _ heq =>
      rw [heq]
      simp only [LogWindow.serialized]
      split
      · exact ⟨_, rfl⟩
      · exact ⟨.array [], J.toVec_nil.symm⟩
  | getLogs items _ heq => exact ⟨_, heq⟩
  | receipts items _ heq => exact ⟨_, heq⟩

theorem StoredLogs.mono (h : StoredLogs J replies s) (hsub : ∀ r ∈ replies, r ∈ replies') :
    StoredLogs J replies' s := by
  intro height raw hraw
  obtain ⟨block, bytes, heq, hobtained⟩ := h height raw hraw
  exact ⟨block, bytes, heq, hobtained.mono hsub⟩

/-- A put of a block with obtained logs keeps the store sound, however it ends. -/
theorem StoredLogs.put (h : StoredLogs J replies s) (fault : Fault) (hash : Bytes32)
    (txHashes : List Bytes32) (block : Value) (hobtained : Obtained J replies height bytes) :
    StoredLogs J replies (s.put fault height hash txHashes [J.toVec block, bytes]).2 := by
  intro k raw hraw
  rcases Storage.rawAt_put_cases hraw with hold | ⟨rfl, rfl⟩
  · exact h k raw hold
  · exact ⟨block, bytes, rfl, hobtained⟩

theorem StoredLogs.persistBackfilled (h : StoredLogs J replies s) (fault : Fault)
    (block : Value) (hobtained : Obtained J replies height bytes) :
    StoredLogs J replies
      (NeveEthIngest.persistBackfilled J s fault height block bytes).2 := by
  simp only [NeveEthIngest.persistBackfilled]
  split
  · exact h
  · split
    · exact h
    · exact h.put fault _ _ block hobtained

/-- What a read of the logs elements of some heights returns. -/
theorem StoredLogs.readElements {st : Store} (h : StoredLogs J replies s)
    (hst : s.store = some st) {heights : List Nat} {parts : List Bytes}
    (hread : Storage.readElements J st C_LOGS heights = .ok (some parts)) :
    ∀ (n : Nat) bytes, parts[n]? = some bytes →
      ∃ height, heights[n]? = some height ∧ Obtained J replies height bytes := by
  induction heights generalizing parts with
  | nil =>
      rw [← Option.some.inj (Except.ok.inj hread)]
      intro n bytes hn
      cases hn
  | cons height rest ih =>
      simp only [Storage.readElements] at hread
      cases hraw : st.readBlock height with
      | error e =>
          rw [hraw] at hread
          cases hread
      | ok found =>
      cases found with
      | none =>
          rw [hraw] at hread
          cases hread
      | some record =>
      rw [hraw] at hread
      obtain ⟨block, bytes0, heq, hobtained⟩ :=
        h height record (by simp [Storage.rawAt, hst, Store.stored_eq_some.mpr hraw])
      obtain ⟨v, hv⟩ := hobtained.toVec
      have helement : element J record C_LOGS = .ok (some bytes0) := by
        have hencode := element_encode J (show 2 ≤ [block, v].length from Nat.le_refl 2) C_LOGS
        rw [heq, hv]
        exact hencode
      simp only [helement] at hread
      cases hrest : Storage.readElements J st C_LOGS rest with
      | error e =>
          rw [hrest] at hread
          cases hread
      | ok out =>
      rw [hrest] at hread
      cases out with
      | none => cases hread
      | some tail =>
          rw [← Option.some.inj (Except.ok.inj hread)]
          intro n bytes hn
          cases n with
          | zero => exact ⟨height, rfl, (Option.some.inj hn) ▸ hobtained⟩
          | succ n => exact ih hrest n bytes hn

/-- **What `eth_getLogs` reads**: each height of a range it answers contributes
    logs that were obtained for it. -/
theorem StoredLogs.readElementRange (h : StoredLogs J replies s) {fromHeight toHeight : Nat}
    {parts : List Bytes}
    (hread : s.readElementRange J fromHeight toHeight C_LOGS = .ok (some parts)) :
    ∀ (n : Nat) bytes, parts[n]? = some bytes →
      Obtained J replies (fromHeight + n) bytes := by
  simp only [Storage.readElementRange] at hread
  cases hst : s.store with
  | none =>
      rw [hst] at hread
      cases hread
  | some st =>
      rw [hst] at hread
      intro n bytes hn
      obtain ⟨height, hheight, hobtained⟩ := h.readElements hst hread n bytes hn
      obtain ⟨hlt, heq⟩ := List.getElem?_eq_some_iff.mp hheight
      rw [List.getElem_range', Nat.one_mul] at heq
      rw [heq]
      exact hobtained

end Lemmas

/-! ## The join buffer -/

section Join

variable {B : Bytes → Prop} {L : Nat → Bytes → Prop}

/-- What is known of a half held for a height. -/
def HalfOk (B : Bytes → Prop) (L : Nat → Bytes → Prop) (height : Nat) : Pending → Prop
  | .block b => B b.bytes
  | .logs l => L height l.bytes

/-- What is known of an arriving half. -/
def CallOk (B : Bytes → Prop) (L : Nat → Bytes → Prop) : Call → Prop
  | .block _ _ _ blockBytes => B blockBytes
  | .logs height logsBytes => L height logsBytes

theorem halfOk_pending {call : Call} (h : CallOk B L call) (since : Nat) :
    HalfOk B L call.height (call.pending since) := by
  cases call with
  | block height hash txHashes blockBytes => exact h
  | logs height logsBytes => exact h

/-- What holds of the halves that arrive holds of the halves held, and of the
    two halves of each write. -/
theorem locked_ok (maxEntries now : Nat) {pending : PendingMap} {call : Call}
    (hpending : ∀ height half, pending.lookup height = some half → HalfOk B L height half)
    (hcall : CallOk B L call) :
    (∀ height half, (locked maxEntries pending now call).2.lookup height = some half →
      HalfOk B L height half) ∧
    ∀ hash txHashes blockBytes logs first since,
      (locked maxEntries pending now call).1
        = .write hash txHashes blockBytes logs first since →
      B blockBytes ∧ L call.height logs := by
  -- taking a half out of the map leaves the others
  have herase : ∀ height half, (pending.erase call.height).lookup height = some half →
      HalfOk B L height half := by
    intro height half h
    by_cases hk : height = call.height
    · rw [hk, AList.lookup_erase] at h
      cases h
    · rw [AList.lookup_erase_ne hk] at h
      exact hpending height half h
  -- putting the call's own half in adds one that is fine
  have hinsert : ∀ since height half,
      ((pending.erase call.height).insert call.height (call.pending since)).lookup height
        = some half → HalfOk B L height half := by
    intro since height half h
    by_cases hk : height = call.height
    · rw [hk, AList.lookup_insert] at h
      rw [hk, ← Option.some.inj h]
      exact halfOk_pending hcall since
    · rw [AList.lookup_insert_ne hk] at h
      exact herase height half h
  -- completed, replaced, deferred with the map reset, or buffered
  rcases locked_cases maxEntries now pending call with
    ⟨held, act, hlookup, hcomplete, heq⟩ | ⟨held, -, -, heq⟩ | ⟨-, -, heq⟩ |
      ⟨-, -, heq⟩
  · rw [heq]
    refine ⟨herase, ?_⟩
    intro hash txHashes blockBytes logs first since hact
    dsimp only at hact
    subst hact
    have hheld := hpending _ _ hlookup
    -- the pair written is the half that waited and the half that came
    cases call with
    | block height hash' txHashes' blockBytes' =>
        cases held with
        | block b => cases hcomplete
        | logs l =>
            simp only [Call.complete, Option.some.injEq, WriteAct.write.injEq] at hcomplete
            obtain ⟨-, -, rfl, rfl, -⟩ := hcomplete
            exact ⟨hcall, hheld⟩
    | logs height logsBytes =>
        cases held with
        | logs l => cases hcomplete
        | block b =>
            simp only [Call.complete, Option.some.injEq, WriteAct.write.injEq] at hcomplete
            obtain ⟨-, -, rfl, rfl, -⟩ := hcomplete
            exact ⟨hheld, hcall⟩
  · rw [heq]
    exact ⟨hinsert held.since, fun _ _ _ _ _ _ h => nomatch h⟩
  · rw [heq]
    refine ⟨?_, fun _ _ _ _ _ _ h => nomatch h⟩
    intro height half h
    rw [AList.lookup_empty] at h
    cases h
  · rw [heq]
    exact ⟨hinsert now, fun _ _ _ _ _ _ h => nomatch h⟩

end Join

/-! ## The invariant -/

/-- The outcomes of the fetch stage: logs are there exactly when they come with
    each height, and then from the receipts of that height. -/
def FetchedLogs (cfg : IngestCfg) (replies : List LogsReply)
    (fetched : List (Nat × Option Fetched)) : Prop :=
  ∀ height f, (height, some f) ∈ fetched → f = .Skip ∨
    ∃ v logs, f = .Block height v logs ∧
      if cfg.perHeightLogs then
        ∃ items, .receipts height (.array items) ∈ replies ∧
          logs = some (logsFromReceipts (.array items))
      else logs = none

/-- The window a run serves its heights from was loaded for that run. -/
def WindowLoaded (cfg : IngestCfg) (i : Instance) (next stop : Nat) : Prop :=
  cfg.windowed = true → ∃ items, .getLogs next stop (.array items) ∈ i.replies ∧
    i.logs = LogWindow.load (.array items)

def PhaseLogs (cfg : IngestCfg) (i : Instance) : Prop :=
  match i.phase with
  | .filling next stop _ cursor fetched =>
      next ≤ cursor ∧ cursor ≤ stop ∧ WindowLoaded cfg i next stop ∧
        FetchedLogs cfg i.replies fetched
  | _ => True

/-- Everything stored, buffered or on its way to the store has its logs from a
    reply that was received. -/
structure Provenance (J : Codec) (cfg : IngestCfg) (i : Instance) : Prop where
  storage : StoredLogs J i.replies i.storage
  pending : ∀ height half, i.pending.lookup height = some half →
    HalfOk (fun b => ∃ v, b = J.toVec v) (Obtained J i.replies) height half
  phase : PhaseLogs cfg i

/-- The reply was a JSON array. -/
def LogsReply.IsArray : LogsReply → Prop
  | .getLogs _ _ result => result.isArray = true
  | .receipts _ result => result.isArray = true

/-- The side condition of a step: the bootstrap streams no block with a well
    formed hash, and every logs reply received is an array. -/
def LogsCond (J : Codec) (cfg : IngestCfg) (i : Instance) : Action → Prop
  | .ingest (.oldBlock frame _) =>
      ∀ v height hash block, frame = some v →
        classifyFrame v = some (.NewBlock height hash block) → txHash block = none
  | .ingest (.logs result _ _) => ∀ v, fetchRpc result = some v → v.isArray = true
  | .backfill (.loadRange result) => ∀ v, fetchRpc result = some v → v.isArray = true
  | .backfill (.fetch height _ receipts) =>
      ∀ r ∈ receiptsReply J cfg i.storage height receipts, LogsReply.IsArray r
  | _ => True

section Steps

variable {J : Codec} {cfg : IngestCfg} {i i' : Instance}

theorem FetchedLogs.mono {replies replies' : List LogsReply}
    {fetched : List (Nat × Option Fetched)} (h : FetchedLogs cfg replies fetched)
    (hsub : ∀ r ∈ replies, r ∈ replies') : FetchedLogs cfg replies' fetched := by
  intro height f hmem
  rcases h height f hmem with hskip | ⟨v, logs, hblock, hlogs⟩
  · exact Or.inl hskip
  · refine Or.inr ⟨v, logs, hblock, ?_⟩
    split at hlogs
    · rename_i hper
      obtain ⟨items, hitems, heq⟩ := hlogs
      rw [if_pos hper]
      exact ⟨items, hsub _ hitems, heq⟩
    · rename_i hper
      rw [if_neg hper]
      exact hlogs

theorem PhaseLogs.mono (h : PhaseLogs cfg i) (hphase : i'.phase = i.phase)
    (hlogs : i'.logs = i.logs) (hsub : ∀ r ∈ i.replies, r ∈ i'.replies) :
    PhaseLogs cfg i' := by
  simp only [PhaseLogs, hphase] at h ⊢
  split at h
  · obtain ⟨hlo, hhi, hwindow, hfetched⟩ := h
    refine ⟨hlo, hhi, ?_, hfetched.mono hsub⟩
    intro hw
    obtain ⟨items, hmem, heq⟩ := hwindow hw
    exact ⟨items, hsub _ hmem, hlogs.trans heq⟩
  · trivial

/-- A bootstrap frame that brings no usable block changes nothing. -/
theorem bootstrapFrame_storage (J : Codec) (i : Instance) (target : Nat) (fault : Fault)
    {v : Value}
    (h : ∀ height hash block, classifyFrame v = some (.NewBlock height hash block) →
      txHash block = none) :
    (bootstrapFrame J i target v fault).storage = i.storage ∧
      (bootstrapFrame J i target v fault).pending = i.pending ∧
      (bootstrapFrame J i target v fault).replies = i.replies := by
  simp only [bootstrapFrame]
  split
  · rename_i height hash block hc
    have hkey := h height hash block hc
    have hnone : persistBackfilled J i.storage fault height block EMPTY_ARRAY
        = ((persistBackfilled J i.storage fault height block EMPTY_ARRAY).1, i.storage) := by
      simp only [txHash] at hkey
      simp only [persistBackfilled]
      cases hs : (block.get "hash").bind Value.asStr with
      | none => rfl
      | some bodyHash =>
          rw [hs] at hkey
          dsimp only
          cases hd : decodeHash bodyHash with
          | error e => rfl
          | ok hash =>
              simp only [Option.bind_some, hd, Except.toOption] at hkey
              cases hkey
    rw [hnone]
    split
    · rename_i heq
      rw [(Prod.mk.inj heq).2]
      exact ⟨rfl, rfl, rfl⟩
    · rename_i heq
      rw [(Prod.mk.inj heq).2]
      exact ⟨rfl, rfl, rfl⟩
  · exact ⟨rfl, rfl, rfl⟩

theorem StoredLogs.apply {replies : List LogsReply} {s : Storage} {act : WriteAct}
    (h : StoredLogs J replies s) (fault : Fault) (height : Nat)
    (hact : ∀ hash txHashes blockBytes logs first since,
      act = .write hash txHashes blockBytes logs first since →
      (∃ v, blockBytes = J.toVec v) ∧ Obtained J replies height logs) :
    StoredLogs J replies (NeveJoinBuffer.apply s fault height act).2 := by
  cases act with
  | write hash txHashes blockBytes logs first since =>
      obtain ⟨⟨v, rfl⟩, hobtained⟩ := hact _ _ _ _ _ _ rfl
      rw [apply_write_state]
      exact h.put fault hash txHashes v hobtained
  | buffered => exact h
  | deferred => exact h

/-- An array reply to the logs request of a live height obtains its logs. -/
theorem obtained_of_fetch {replies : List LogsReply} {result : Option Value} {logs : Value}
    {height : Nat} (hlogs : fetchLogsForHeight cfg.logsSource result = some logs)
    (harray : ∀ v, fetchRpc result = some v → v.isArray = true) :
    Obtained J ((result.map (LogsReply.ofHeight cfg.logsSource height)).toList ++ replies)
      height (J.toVec logs) := by
  have hresult : ∀ v, fetchRpc result = some v → result = some v := by
    intro v hv
    exact (Option.filter_eq_some_iff.mp hv).1
  simp only [fetchLogsForHeight] at hlogs
  cases hsource : cfg.logsSource with
  | Receipts =>
      rw [hsource] at hlogs
      obtain ⟨v, hv, rfl⟩ := Option.map_eq_some_iff.mp hlogs
      obtain ⟨items, rfl⟩ := Value.isArray_iff.mp (harray v hv)
      refine .receipts items ?_ rfl
      rw [hresult _ hv]
      exact List.mem_cons_self ..
  | GetLogs =>
      rw [hsource] at hlogs
      obtain ⟨items, rfl⟩ := Value.isArray_iff.mp (harray logs hlogs)
      refine .getLogs items ?_ rfl
      rw [hresult _ hlogs]
      exact List.mem_cons_self ..

theorem Provenance.bufferBlock {expectedHash : String} {block : Value} {p : PreparedBlock}
    (h : Provenance J cfg i) (hp : prepareBlock J expectedHash block = some p)
    (height now : Nat) (fault : Fault) :
    Provenance J cfg (bufferBlock cfg i height now fault p) := by
  have hcall : CallOk (fun b => ∃ v, b = J.toVec v) (Obtained J i.replies)
      (.block height p.hash p.txHashes p.bytes) :=
    ⟨block, (NeveIngestWrite.prepareBlock_eq_some hp).2.2⟩
  obtain ⟨hpending, hwrite⟩ := locked_ok cfg.joinBufferCap now h.pending hcall
  have hstorage := h.storage.apply fault height hwrite
  simp only [NeveEthInstance.bufferBlock, onBlock]
  split
  · rename_i heq
    rw [heq] at hstorage
    exact ⟨hstorage, hpending, h.phase⟩
  · rename_i heq
    rw [heq] at hstorage
    exact ⟨hstorage, hpending, h.phase⟩
  · rename_i heq
    rw [heq] at hstorage
    exact ⟨hstorage, hpending, h.phase⟩

/-- More replies take nothing away. -/
theorem Provenance.mono (h : Provenance J cfg i) (replies : List LogsReply) :
    Provenance J cfg { i with replies := replies ++ i.replies } := by
  have hsub : ∀ r ∈ i.replies, r ∈ replies ++ i.replies :=
    fun r hr => List.mem_append_right replies hr
  refine ⟨h.storage.mono hsub, ?_, h.phase.mono rfl rfl hsub⟩
  intro height half hlookup
  have hhalf := h.pending height half hlookup
  cases half with
  | block b => exact hhalf
  | logs l => exact Obtained.mono hhalf hsub

theorem Provenance.bufferLogs {logs : Value} (h : Provenance J cfg i) (height now : Nat)
    (fault : Fault) (hobtained : Obtained J i.replies height (J.toVec logs)) :
    Provenance J cfg (bufferLogs J cfg i height now fault logs) := by
  have hcall : CallOk (fun b => ∃ v, b = J.toVec v) (Obtained J i.replies)
      (.logs height (J.toVec logs)) := hobtained
  obtain ⟨hpending, hwrite⟩ := locked_ok cfg.joinBufferCap now h.pending hcall
  exact ⟨h.storage.apply fault height hwrite, hpending, h.phase⟩

/-- A step of the ingest task keeps the provenance. -/
theorem provenance_ingest {a : IngestAction} (hingest : cfg.ingestLogs = true)
    (h : Provenance J cfg i) (hcond : LogsCond J cfg i (.ingest a))
    (hstep : ingestStep J cfg i a = some i') : Provenance J cfg i' := by
  have heff := ingestStep_effect hstep
  cases ingestStep_turn hstep with
  | untold htask => exact ⟨h.storage, h.pending, h.phase⟩
  | reached target htask _ => exact ⟨h.storage, h.pending, h.phase⟩
  | behind target htask _ => exact ⟨h.storage, h.pending, h.phase⟩
  | ended target fault htask => exact ⟨h.storage, h.pending, h.phase⟩
  | streamed target v fault htask =>
      obtain ⟨hstorage, hpending, hreplies⟩ := bootstrapFrame_storage J i target fault
        fun height hash block hc => hcond v height hash block rfl hc
      exact ⟨hstorage ▸ hreplies ▸ h.storage, hpending ▸ hreplies ▸ h.pending,
        h.phase.mono heff.phase heff.logs fun r hr => hreplies ▸ hr⟩
  | ignored v body now fault htask hlive => exact h
  | unprepared v body now fault height hash block htask hlive _ hp => exact h
  | buffered v body now fault height hash block p htask hlive _ hp =>
      exact h.bufferBlock hp _ now fault
  | persisted v body now fault height hash block htask hlive hoff =>
      -- logs are ingested, so a live block is always buffered
      exact absurd hingest hoff
  | unanswered result now fault height htask hlogs => exact ⟨h.storage, h.pending, h.phase⟩
  | joined result now fault height logs htask hlogs =>
      -- the reply to the fetch is where these logs come from
      exact (h.mono _).bufferLogs height now fault (obtained_of_fetch hlogs hcond)

theorem Provenance.endIteration (h : Provenance J cfg i) (sleep : Option Sleep) :
    Provenance J cfg (i.endIteration sleep) := ⟨h.storage, h.pending, trivial⟩

theorem Provenance.fillFrom {next stop target cursor : Nat}
    {fetched : List (Nat × Option Fetched)}
    (h : StoredLogs J i.replies i.storage)
    (hpending : ∀ height half, i.pending.lookup height = some half →
      HalfOk (fun b => ∃ v, b = J.toVec v) (Obtained J i.replies) height half)
    (hcursor : next ≤ cursor) (hwindow : WindowLoaded cfg i next stop)
    (hfetched : FetchedLogs cfg i.replies fetched) :
    Provenance J cfg (i.fillFrom next stop target cursor fetched) := by
  simp only [Instance.fillFrom]
  by_cases hend : stop < cursor
  · rw [if_pos hend]
    exact ⟨h, hpending, trivial⟩
  · rw [if_neg hend]
    exact ⟨h, hpending, hcursor, Nat.le_of_not_lt hend, hwindow, hfetched⟩

/-- The logs half a fetched block is written with was obtained. -/
theorem obtained_logsHalf {next stop cursor : Nat} {fetched : List (Nat × Option Fetched)}
    {v : Value} {logs : Option Value} (hingest : cfg.ingestLogs = true)
    (hlo : next ≤ cursor) (hhi : cursor ≤ stop) (hwindow : WindowLoaded cfg i next stop)
    (hfetched : FetchedLogs cfg i.replies fetched)
    (hmem : (cursor, some (.Block cursor v logs)) ∈ fetched) :
    Obtained J i.replies cursor (logsHalf J cfg i.logs cursor logs).1 := by
  rcases hfetched cursor _ hmem with hskip | ⟨v', logs', hblock, hlogs⟩
  · cases hskip
  obtain ⟨-, -, rfl⟩ := Fetched.Block.inj hblock
  cases hsource : cfg.logsSource with
  | Receipts =>
      have hper : cfg.perHeightLogs = true := by
        simp [IngestCfg.perHeightLogs, hingest, hsource]
      rw [if_pos hper] at hlogs
      obtain ⟨items, hitems, rfl⟩ := hlogs
      refine .receipts items hitems ?_
      simp only [logsHalf, hingest, LogWindow.serialize]
  | GetLogs =>
      have hper : ¬ cfg.perHeightLogs = true := by
        simp [IngestCfg.perHeightLogs, hsource]
      have hwin : cfg.windowed = true := by
        simp [IngestCfg.windowed, hingest, hsource]
      rw [if_neg hper] at hlogs
      obtain ⟨items, hitems, hload⟩ := hwindow hwin
      refine .window next stop items hitems hlo hhi ?_
      simp only [logsHalf, hingest, hlogs, hload]

/-- A block fetched with its logs has a receipts reply to show for them. -/
theorem mem_receiptsReply {s : Storage} {height : Nat} {block receipts : Option Value}
    {v r : Value} {logs : Option Value}
    (h : fetchOne J cfg s height block receipts = some (.Block height v logs))
    (hper : cfg.perHeightLogs = true) (hr : fetchRpc receipts = some r) :
    .receipts height r ∈ receiptsReply J cfg s height receipts := by
  have hask : .receipts height r ∈ (if cfg.perHeightLogs
      then ((fetchRpc receipts).map (LogsReply.receipts height)).toList else []) := by
    rw [if_pos hper, hr]
    exact List.mem_singleton_self _
  simp only [fetchOne] at h
  simp only [receiptsReply]
  cases hget : s.getByHeight J height with
  | error e => exact hask
  | ok stored =>
      cases stored with
      | none => exact hask
      | some bytes =>
          rw [hget] at h
          exact nomatch Option.some.inj h

/-- The outcome of one fetch, with array receipts. -/
theorem fetchedLogs_of_fetchOne {s : Storage} {height : Nat} {block receipts : Option Value}
    {f : Fetched} (h : fetchOne J cfg s height block receipts = some f)
    (harray : ∀ r ∈ receiptsReply J cfg s height receipts, LogsReply.IsArray r)
    (replies : List LogsReply) :
    f = .Skip ∨ ∃ v logs, f = .Block height v logs ∧
      if cfg.perHeightLogs then
        ∃ items, .receipts height (.array items)
            ∈ receiptsReply J cfg s height receipts ++ replies ∧
          logs = some (logsFromReceipts (.array items))
      else logs = none := by
  rcases fetchOne_cases h with ⟨hskip, -⟩ | ⟨v, logs, rfl, -, hlogs⟩
  · exact Or.inl hskip
  · refine Or.inr ⟨v, logs, rfl, ?_⟩
    by_cases hper : cfg.perHeightLogs = true
    · rw [if_pos hper] at hlogs ⊢
      obtain ⟨r, hr, hlogs⟩ := hlogs
      have hmem := mem_receiptsReply h hper hr
      obtain ⟨items, rfl⟩ := Value.isArray_iff.mp (harray _ hmem)
      exact ⟨items, List.mem_append_left _ hmem, hlogs⟩
    · rw [if_neg hper] at hlogs ⊢
      exact hlogs

/-- A step of the backfill task keeps the provenance. -/
theorem provenance_backfill {a : BackfillAction} (hingest : cfg.ingestLogs = true)
    (h : Provenance J cfg i) (hcond : LogsCond J cfg i (.backfill a))
    (hstep : backfillStep J cfg i a = some i') : Provenance J cfg i' := by
  cases backfillStep_turn hstep with
  | cold htop _ hcold => exact ⟨h.storage, h.pending, trivial⟩
  | highWater htop _ hwarm => exact ⟨h.storage, h.pending, trivial⟩
  | contiguous hw heq => exact ⟨h.storage, h.pending, trivial⟩
  | decided aged response hw rawContiguous tip heq hread =>
      simp only [Instance.decide]
      split
      · exact ⟨h.storage, h.pending, trivial⟩
      · exact ⟨h.storage, h.pending, trivial⟩
      · by_cases hwin : cfg.windowed = true
        · rw [if_pos hwin]
          exact ⟨h.storage, h.pending, trivial⟩
        · rw [if_neg hwin]
          -- without a window of logs the fill starts with no reply to answer for
          exact Provenance.fillFrom h.storage h.pending (Nat.le_refl _)
            (fun hw => absurd hw hwin) fun _ _ hmem => nomatch hmem
  | unanswered result next stop target heq hlogs => exact h.endIteration _
  | loaded result logs next stop target heq hlogs =>
      obtain ⟨items, rfl⟩ := Value.isArray_iff.mp (hcond logs hlogs)
      -- the window's own reply joins those that logs may come from
      have hmono := h.mono [.getLogs next stop (.array items)]
      exact Provenance.fillFrom hmono.storage hmono.pending (Nat.le_refl _)
        (fun _ => ⟨items, List.mem_cons_self .., rfl⟩) fun _ _ hmem => nomatch hmem
  | fetched height block receipts next stop target cursor outcomes heq _ _ _ _ =>
      have hphase := h.phase
      simp only [PhaseLogs, heq] at hphase
      obtain ⟨hlo, hhi, hwindow, hfetched⟩ := hphase
      have hmono := h.mono (receiptsReply J cfg i.storage height receipts)
      have hsub : ∀ r ∈ i.replies,
          r ∈ receiptsReply J cfg i.storage height receipts ++ i.replies :=
        fun r hr => List.mem_append_right _ hr
      refine ⟨hmono.storage, hmono.pending, hlo, hhi, ?_, ?_⟩
      -- the replies only grow, so the window keeps the one it was loaded from
      · intro hw
        obtain ⟨items, hmem, hload⟩ := hwindow hw
        exact ⟨items, hsub _ hmem, hload⟩
      -- the new outcome has its logs from the receipts just fetched
      · intro k f hmem
        rcases List.mem_cons.mp hmem with hhd | hmem
        · obtain ⟨rfl, hf⟩ := Prod.mk.inj hhd
          exact fetchedLogs_of_fetchOne hf.symm hcond i.replies
        · exact hfetched.mono hsub k f hmem
  | consumed fault next stop target cursor outcomes outcome heq hlookup =>
      have hphase := h.phase
      simp only [PhaseLogs, heq] at hphase
      obtain ⟨hlo, hhi, hwindow, hfetched⟩ := hphase
      have hmem : (cursor, outcome) ∈ outcomes := mem_of_lookup hlookup
      cases outcome with
      | none => exact h.endIteration _
      | some f =>
          rcases hfetched cursor f hmem with rfl | ⟨v, logs, rfl, -⟩
          · exact Provenance.fillFrom h.storage h.pending (Nat.le_succ_of_le hlo) hwindow
              hfetched
          -- what is persisted: the window's logs of that height or its receipts'
          · have hobtained := obtained_logsHalf (J := J) hingest hlo hhi hwindow hfetched hmem
            have hstorage := h.storage.persistBackfilled fault v hobtained
            simp only [consume]
            split
            · rename_i hput
              rw [hput] at hstorage
              exact ⟨hstorage, h.pending, trivial⟩
            · rename_i hput
              rw [hput] at hstorage
              exact Provenance.fillFrom hstorage h.pending (Nat.le_succ_of_le hlo) hwindow
                hfetched

end Steps

/-! ## Runs -/

/-- **Logs provenance.** In every run over an empty store with log ingestion on,
    direct or mirroring, in which the bootstrap streams no usable block and every
    logs reply is an array: each stored record has a logs element obtained for
    its height, and so has each height that an `eth_getLogs` range read answers. -/
theorem stored_logs_obtained (J : Codec) (cfg : IngestCfg) (blockdb : Blockdb)
    (actions : List Action) (i : Instance) (hingest : cfg.ingestLogs = true)
    (hcond : Run.Meets (step J cfg) (LogsCond J cfg)
      (Instance.start cfg (Storage.fresh blockdb .C cfg.floor)) actions)
    (hrun : Run.exec (step J cfg) (Instance.start cfg (Storage.fresh blockdb .C cfg.floor))
      actions = some i) :
    (∀ height raw, i.storage.rawAt height = some raw →
      ∃ block bytes, raw = encode [J.toVec block, bytes] ∧
        Obtained J i.replies height bytes) ∧
    ∀ fromHeight toHeight parts,
      i.storage.readElementRange J fromHeight toHeight C_LOGS = .ok (some parts) →
      ∀ (n : Nat) bytes, parts[n]? = some bytes →
        Obtained J i.replies (fromHeight + n) bytes := by
  have hinit : Provenance J cfg (Instance.start cfg (Storage.fresh blockdb .C cfg.floor)) := by
    refine ⟨?_, ?_, trivial⟩
    · intro height raw h
      cases h
    · intro height half h
      rw [show (Instance.start cfg (Storage.fresh blockdb .C cfg.floor)).pending = ∅ from rfl,
        AList.lookup_empty] at h
      cases h
  have hstep : ∀ j a j', Provenance J cfg j → LogsCond J cfg j a →
      step J cfg j a = some j' → Provenance J cfg j' := by
    intro j a j' hinv hc h
    cases a with
    | ingest a => exact provenance_ingest hingest hinv hc h
    | backfill a => exact provenance_backfill hingest hinv hc h
  have hstored := (Run.exec_invariant (LogsCond J cfg) hstep hinit hcond hrun).storage
  exact ⟨hstored, fun _ _ _ hread => hstored.readElementRange hread⟩

/-- Log ingestion by windows, over a store with the given floor. -/
def windowCfg (subscribeBlocks : Bool) (floor : Option UInt64) : IngestCfg :=
  ⟨true, .GetLogs, subscribeBlocks, floor, 1, 8⟩

def zeroHash : String := hashText (Vector.replicate 32 0)

/-- A backfill of height 5 alone, whose window comes back empty. -/
def windowedFill : List Action :=
  [.backfill .readHighWater, .backfill .readContiguous,
    .backfill (.readTip true (some (.object [("result", .string "0x5")]))),
    .backfill (.loadRange (some (.array []))),
    .backfill (.fetch 5 (some (.object [("hash", .string zeroHash)])) none),
    .backfill (.nextFetched .none)]

/-- Height 5 is stored with the empty logs of the window that covered it. -/
theorem stored_logs_obtained_window :
    ∃ i, Run.exec (step JsonText.codec (windowCfg false (some 5)))
        (Instance.start (windowCfg false (some 5)) (Storage.fresh memory .C (some 5))) windowedFill
          = some i ∧
      ∃ raw block bytes, i.storage.rawAt 5 = some raw ∧
        raw = encode [JsonText.codec.toVec block, bytes] ∧
        Obtained JsonText.codec i.replies 5 bytes := by
  have hraw : ((Run.exec (step JsonText.codec (windowCfg false (some 5)))
      (Instance.start (windowCfg false (some 5)) (Storage.fresh memory .C (some 5)))
      windowedFill).bind fun i => i.storage.rawAt 5).isSome = true := rfl
  obtain ⟨raw, hraw⟩ := Option.isSome_iff_exists.mp hraw
  obtain ⟨i, hrun, hraw⟩ := Option.bind_eq_some_iff.mp hraw
  have hobtained :=
    (stored_logs_obtained JsonText.codec (windowCfg false (some 5)) memory windowedFill
    i rfl ?_ hrun).1 5 raw hraw
  · obtain ⟨block, bytes, heq, hobtained⟩ := hobtained
    exact ⟨i, hrun, raw, block, bytes, hraw, heq, hobtained⟩
  · refine Run.meets_cons trivial rfl (Run.meets_cons trivial rfl (Run.meets_cons trivial rfl
      (Run.meets_cons ?_ rfl (Run.meets_cons ?_ rfl (Run.meets_cons trivial rfl trivial)))))
    · intro v hv
      rw [← Option.some.inj hv]
      rfl
    · intro r hr
      cases hr

/-- A mirror whose bootstrap streams block 1. -/
def bootstrapRun : List Action :=
  [.ingest (.target (some 1)),
    .ingest (.oldBlock (some (.object [("method", .string "eth_subscription"),
      ("params", .object [("result", .object [("hash", .string zeroHash),
        ("number", .string "0x1"), ("transactions", .array [])])])])) .none)]

/-- The streamed block is stored with an empty logs half although no logs reply
    was ever received. -/
theorem stored_logs_invented :
    ¬ ∀ (J : Codec) (cfg : IngestCfg) (blockdb : Blockdb) (actions : List Action)
      (i : Instance),
      cfg.ingestLogs = true →
      Run.exec (step J cfg) (Instance.start cfg (Storage.fresh blockdb .C cfg.floor)) actions
        = some i →
      ∀ height raw, i.storage.rawAt height = some raw →
        ∃ block bytes, raw = encode [J.toVec block, bytes] ∧
          Obtained J i.replies height bytes := by
  intro hall
  have hraw : ((Run.exec (step JsonText.codec (windowCfg true none))
      (Instance.start (windowCfg true none) (Storage.fresh memory .C none))
      bootstrapRun).bind fun i => i.storage.rawAt 1).isSome = true := rfl
  have hreplies : (Run.exec (step JsonText.codec (windowCfg true none))
      (Instance.start (windowCfg true none) (Storage.fresh memory .C none))
      bootstrapRun).map (fun i => i.replies.length) = some 0 := rfl
  obtain ⟨raw, hraw⟩ := Option.isSome_iff_exists.mp hraw
  obtain ⟨i, hrun, hraw⟩ := Option.bind_eq_some_iff.mp hraw
  rw [hrun] at hreplies
  have hnil := List.length_eq_zero_iff.mp (Option.some.inj hreplies)
  obtain ⟨block, bytes, -, hobtained⟩ :=
    hall JsonText.codec (windowCfg true none) memory bootstrapRun i rfl hrun 1 raw hraw
  rw [hnil] at hobtained
  cases hobtained with
  | window fromBlock toBlock items hmem => cases hmem
  | getLogs items hmem => cases hmem
  | receipts items hmem => cases hmem

end NeveLogsProvenance
