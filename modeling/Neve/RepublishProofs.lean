import Neve.BootstrapProofs

/-! # Re-publishing — what a live path stores, it sends

    Blocks come in live on four paths: the C-chain's headers and whole blocks, with
    log ingestion and without, the P-chain's poll at the tip, and the P-chain
    mirror's `newRecords`.  Each is run with a subscriber attached, next to a list of
    the live blocks it stored and a list of the updates it sent (`Feed`).

    Three of them send every block they store.  The P-chain mirror sends nothing. -/

namespace NeveRepublish

open JsonValue ByteText NeveRecord NeveStorage NeveEthIngest NevePlatformIngest
open NeveEthBackfill (IngestCfg fetchLogsForHeight)
open NeveEthInstance (Instance Action BackfillAction ingestStep backfillStep ingestStep_turn
  backfillStep_turn liveBlock bootstrapFrame bufferBlock bufferLogs)
open NeveIngestWrite (prepareBlock_eq_some)
open NeveJoinBuffer (WriteAct onBlock onLogs apply locked_cases)
open NeveMirror (Upstream UpstreamAction FillRun Stage upstreamStep upstreamStep_turn)
open NeveMirrorFollow (recordOf_announce emptyReply fetchBlock_emptyReply storeBlock_ok)
open NevePlatformCodec (sampleSha256)
open NeveFrontier
open NeveRecordConsistency (persistRecord_some)
open NeveBootstrap (StreamEvent Outcome bootstrap notificationPayload blockFrame recordFrame
  handleRecord recordStream recordHeight handleRecord_fresh)

/-! ## A live path and what it leaves behind -/

/-- A block stored as a live one: the put that succeeded. -/
structure LiveWrite where
  height : Nat
  elements : List Bytes

/-- The live blocks stored and the updates sent on the live fan-out. -/
structure Live where
  written : List LiveWrite
  sent : List LiveUpdate

namespace Live

def nothing : Live := ⟨[], []⟩

def append (l l' : Live) : Live := ⟨l.written ++ l'.written, l.sent ++ l'.sent⟩

end Live

/-- A live ingest path: what a step does to its state, and what it stores and
    sends. -/
structure Path (σ α : Type*) where
  step : σ → α → Option σ
  live : σ → α → Live

/-- A path on its way, with everything it has stored and sent. -/
structure Feed (σ : Type*) where
  state : σ
  live : Live

def Feed.start {σ : Type*} (state : σ) : Feed σ := ⟨state, .nothing⟩

def Path.feed {σ α : Type*} (path : Path σ α) (f : Feed σ) (a : α) : Option (Feed σ) :=
  (path.step f.state a).map fun s => ⟨s, f.live.append (path.live f.state a)⟩

/-! ## The C-chain -/

section Eth

variable (J : Codec) (cfg : IngestCfg)

/-- Announce a live block; no record goes with it on this chain. -/
def announceBlock (listening : Bool) (block : Value) : List LiveUpdate :=
  if listening then [⟨block, none⟩] else []

/-- Log ingestion off: the block is announced once it is stored. -/
def persistBlockLive (listening : Bool) (s : Storage) (fault : Fault) (height : Nat)
    (expectedHash : String) (block : Value) : Live :=
  match prepareBlock J expectedHash block with
  | none => .nothing
  | some p =>
      match (s.put fault height p.hash p.txHashes [p.bytes, EMPTY_ARRAY]).1 with
      | .error _ => .nothing
      | .ok () => ⟨[⟨height, [p.bytes, EMPTY_ARRAY]⟩], announceBlock listening block⟩

/-- What carrying out a decision of the join buffer stores. -/
def applied (s : Storage) (fault : Fault) (height : Nat) : WriteAct → List LiveWrite
  | .write hash txHashes blockBytes logs _ _ =>
      match (s.put fault height hash txHashes [blockBytes, logs]).1 with
      | .error _ => []
      | .ok () => [⟨height, [blockBytes, logs]⟩]
  | _ => []

/-- Log ingestion on: the block is announced as soon as the buffer has it, before
    its logs are asked for. -/
def bufferBlockLive (listening : Bool) (i : Instance) (height now : Nat) (fault : Fault)
    (p : PreparedBlock) (block : Value) : Live :=
  let act := (onBlock cfg.joinBufferCap i.pending now height p.hash p.txHashes p.bytes).1
  match (apply i.storage fault height act).1 with
  | .error _ => .nothing
  | .ok .Deferred => .nothing
  | .ok _ => ⟨applied i.storage fault height act, announceBlock listening block⟩

/-- The logs complete the join; nothing more is sent. -/
def bufferLogsLive (i : Instance) (height now : Nat) (fault : Fault) (logs : Value) : Live :=
  ⟨applied i.storage fault height
    (onLogs cfg.joinBufferCap i.pending now height (J.toVec logs)).1, []⟩

/-- What a step of an instance stores and sends as live. -/
def ethLive (listening : Bool) (i : Instance) : Action → Live
  | .ingest (.frame v body now fault) =>
      match i.task with
      | .live =>
          match liveBlock v body with
          | none => .nothing
          | some (height, hash, block) =>
              if cfg.ingestLogs then
                match prepareBlock J hash block with
                | none => .nothing
                | some p => bufferBlockLive cfg listening i height now fault p block
              else persistBlockLive J listening i.storage fault height hash block
      | _ => .nothing
  | .ingest (.logs result now fault) =>
      match i.task with
      | .awaitingLogs height =>
          match fetchLogsForHeight cfg.logsSource result with
          | none => .nothing
          | some logs => bufferLogsLive J cfg i height now fault logs
      | _ => .nothing
  -- the bootstrap and the backfill task store blocks that are not live
  | _ => .nothing

/-- The C-chain's live path, in any instance: whatever it subscribed to, with or
    without log ingestion, its bootstrap and its backfill going on around it. -/
def ethPath : Path Instance Action where
  step := NeveEthInstance.step J cfg
  live := ethLive J cfg true

end Eth

/-! ## The P-chain -/

section Platform

variable (J : Codec) (sha256 : Bytes → Bytes32)

/-- A height at the tip is a live block. -/
def directWrites (u : Upstream) : UpstreamAction → List LiveWrite
  | .store fault =>
      match u.run with
      | some ⟨_, _, .storing fetched rewards _⟩ =>
          match (storeBlock u.storage fault fetched rewards).1 with
          | none => []
          | some height =>
              if u.tip ≤ fetched.height then
                [⟨height, [fetched.json, fetched.bytesJson, rewards]⟩]
              else []
      | _ => []
  | _ => []

/-- The direct poll of a node. -/
def directPath (floor : Option Nat) : Path Upstream UpstreamAction where
  step u a := (upstreamStep J sha256 floor true u a).map Prod.fst
  live u a :=
    ⟨directWrites u a, ((upstreamStep J sha256 floor true u a).bind Prod.snd).toList⟩

/-- Where a mirror's session stands. -/
structure MirrorSession where
  storage : Storage
  following : Bool

/-- What a mirror session meets: a bootstrap, frames of `newRecords`, the end of
    the connection. -/
inductive MirrorEvent where
  | bootstrap (health : Except String UInt64) (connect : Except String Unit)
      (events : List StreamEvent)
  | frame (v : Value) (fault : Fault)
  | disconnected

/-- One frame of the live tail: a record that does not verify is passed over. -/
def followFrame (s : Storage) (v : Value) (fault : Fault) : Option Nat × Storage :=
  match notificationPayload v with
  | none => (none, s)
  | some record => persistRecord J sha256 s (fun _ => fault) record

/-- Did a bootstrap catch up? -/
def caughtUp : Outcome → Bool
  | .ok => true
  | _ => false

/-- The elements `persist_record` writes of a record that verifies. -/
def recordElements (v : Value) : List Bytes :=
  match (notificationPayload v).bind Value.asArray with
  | some [blockJson, bytesJson, rewards] =>
      match verifyRecord J sha256 bytesJson blockJson with
      | .ok fetched => [fetched.json, fetched.bytesJson, J.toVec rewards]
      | .error _ => []
  | _ => []

/-- A mirror: catch up, then follow. -/
def mirrorStep (idleSecs : Nat) (floor : Option Nat) (m : MirrorSession) :
    MirrorEvent → Option MirrorSession
  | .bootstrap health connect events =>
      if m.following then none
      else
        let out := bootstrap J sha256 idleSecs floor m.storage health connect events
        some ⟨out.2, caughtUp out.1⟩
  | .frame v fault =>
      if m.following then some { m with storage := (followFrame J sha256 m.storage v fault).2 }
      else none
  | .disconnected => some { m with following := false }

/-- What `follow_tip` stores as live; it sends nothing. -/
def mirrorLive (m : MirrorSession) : MirrorEvent → Live
  | .frame v fault =>
      match (followFrame J sha256 m.storage v fault).1 with
      | none => .nothing
      | some height => ⟨[⟨height, recordElements J sha256 v⟩], []⟩
  | _ => .nothing

/-- The disk takes a record of the height: nothing fails on the way, and the height
    is not below the store's minimum. -/
def Takes (s : Storage) (fault : Fault) (height : Nat) : Prop :=
  3 = arity s.chain ∧ ¬ (s.store.isNone ∧ fault = .create) ∧ fault ≠ .write ∧
    fault ≠ .commit ∧ (s.openStore height).minHeight ≤ height

/-- While the mirror follows, a frame comes whose record verifies and which the disk
    takes. -/
def LiveRecord (m : MirrorSession) : MirrorEvent → Prop
  | .frame v fault => m.following = true ∧
      ∃ height, recordHeight J sha256 v = some height ∧ Takes m.storage fault height
  | _ => False

/-- The mirror of another neve. -/
def mirrorPath (idleSecs : Nat) (floor : Option Nat) : Path MirrorSession MirrorEvent where
  step := mirrorStep J sha256 idleSecs floor
  live := mirrorLive J sha256

end Platform

/-! ## What a subscriber receives -/

section Carries

variable (J : Codec)

/-- The update carries the block of the write. -/
def CarriesBlock (u : LiveUpdate) (w : LiveWrite) : Prop :=
  w.elements.head? = some (J.toVec u.block)

/-- The update carries the block of the write and the whole record. -/
def CarriesRecord (u : LiveUpdate) (w : LiveWrite) : Prop :=
  w.elements.head?.bind J.fromSlice = some u.block ∧ u.record.isSome ∧
    u.record = J.fromSlice (encode w.elements)

end Carries

/-- The block was sent, or the path goes on and whatever it does next sends it. -/
def SentOrNext {σ α : Type*} (path : Path σ α) (carries : LiveUpdate → LiveWrite → Prop)
    (f : Feed σ) (w : LiveWrite) : Prop :=
  (∃ u ∈ f.live.sent, carries u w) ∨
    (∃ a f', path.feed f a = some f') ∧
      ∀ a f', path.feed f a = some f' → ∃ u ∈ f'.live.sent, carries u w

/-- Every live block stored so far was sent, or is about to be. -/
def Republished {σ α : Type*} (path : Path σ α) (carries : LiveUpdate → LiveWrite → Prop)
    (f : Feed σ) : Prop :=
  ∀ w ∈ f.live.written, SentOrNext path carries f w

section Feeds

variable {σ α : Type*} {path : Path σ α} {f f' : Feed σ} {a : α}

/-- A step of a feed is a step of the path, with what it stores and sends. -/
theorem feed_eq_some (h : path.feed f a = some f') :
    path.step f.state a = some f'.state ∧ f'.live = f.live.append (path.live f.state a) := by
  obtain ⟨s, hstep, rfl⟩ := Option.map_eq_some_iff.mp h
  exact ⟨hstep, rfl⟩

theorem mem_sent_append {u : LiveUpdate} {l l' : Live} :
    u ∈ (l.append l').sent ↔ u ∈ l.sent ∨ u ∈ l'.sent :=
  List.mem_append

theorem mem_written_append {w : LiveWrite} {l l' : Live} :
    w ∈ (l.append l').written ↔ w ∈ l.written ∨ w ∈ l'.written :=
  List.mem_append

end Feeds

/-! ## The C-chain sends what it stores -/

section EthSteps

variable {J : Codec} {cfg : IngestCfg} {i i' : Instance}

/-- The backfill task leaves the ingest task and the join buffer alone. -/
theorem fillFrom_aside (i : Instance) (next stop target cursor : Nat)
    (fetched : List (Nat × Option NeveEthBackfill.Fetched)) :
    (i.fillFrom next stop target cursor fetched).task = i.task ∧
      (i.fillFrom next stop target cursor fetched).pending = i.pending := by
  simp only [Instance.fillFrom]
  by_cases hend : stop < cursor
  · rw [if_pos hend]
    exact ⟨rfl, rfl⟩
  · rw [if_neg hend]
    exact ⟨rfl, rfl⟩

theorem backfillStep_aside {a : BackfillAction} (h : backfillStep J cfg i a = some i') :
    i'.task = i.task ∧ i'.pending = i.pending := by
  cases backfillStep_turn h with
  | cold htop _ hcold => exact ⟨rfl, rfl⟩
  | highWater htop _ hwarm => exact ⟨rfl, rfl⟩
  | contiguous hw heq => exact ⟨rfl, rfl⟩
  | decided aged response hw rawContiguous tip heq hread =>
      simp only [Instance.decide]
      split
      · exact ⟨rfl, rfl⟩
      · exact ⟨rfl, rfl⟩
      · split
        · exact ⟨rfl, rfl⟩
        · exact fillFrom_aside ..
  | unanswered result next stop target heq hlogs => exact ⟨rfl, rfl⟩
  | loaded result logs next stop target heq hlogs => exact fillFrom_aside ..
  | fetched height block receipts next stop target cursor outcomes heq _ _ _ _ =>
      exact ⟨rfl, rfl⟩
  | consumed fault next stop target cursor outcomes outcome heq hlookup =>
      cases outcome with
      | none => exact ⟨rfl, rfl⟩
      | some f =>
          cases f with
          | Skip => exact fillFrom_aside ..
          | Block height block logs =>
              simp only [NeveEthInstance.consume]
              split
              · exact ⟨rfl, rfl⟩
              · exact fillFrom_aside ..

/-- Everything an instance's step can store and send as live: nothing, a block at
    once, a block through the join buffer, or the logs that complete it. -/
theorem ethStep_cases {a : Action} (h : NeveEthInstance.step J cfg i a = some i') :
    (ethLive J cfg true i a = .nothing ∧ ∀ k, i'.task = .awaitingLogs k →
      i.task = .awaitingLogs k ∧ i'.pending = i.pending) ∨
    (∃ fault height hash block, i'.task = .live ∧
      ethLive J cfg true i a = persistBlockLive J true i.storage fault height hash block ∧
      i'.storage = (persistBlock J i.storage fault height hash block).2) ∨
    (∃ height hash now fault p block, i.task = .live ∧ prepareBlock J hash block = some p ∧
      ethLive J cfg true i a = bufferBlockLive cfg true i height now fault p block ∧
      i' = bufferBlock cfg i height now fault p) ∨
    (∃ height now fault logs, i.task = .awaitingLogs height ∧ i'.task = .live ∧
      ethLive J cfg true i a = bufferLogsLive J cfg i height now fault logs ∧
      i'.storage = (apply i.storage fault height
        (onLogs cfg.joinBufferCap i.pending now height (J.toVec logs)).1).2) := by
  cases a with
  | backfill b =>
      refine Or.inl ⟨rfl, ?_⟩
      obtain ⟨htask, hpending⟩ := backfillStep_aside h
      intro k hk
      exact ⟨htask ▸ hk, hpending⟩
  | ingest b =>
      have hstep : ingestStep J cfg i b = some i' := h
      cases ingestStep_turn hstep with
      | untold htask => exact Or.inl ⟨rfl, fun k hk => nomatch hk⟩
      | reached target htask _ => exact Or.inl ⟨rfl, fun k hk => nomatch hk⟩
      | behind target htask _ => exact Or.inl ⟨rfl, fun k hk => nomatch hk⟩
      | ended target fault htask => exact Or.inl ⟨rfl, fun k hk => nomatch hk⟩
      | streamed target v fault htask =>
          refine Or.inl ⟨rfl, ?_⟩
          intro k hk
          -- a frame that names a height ends the stream or goes on with it
          simp only [bootstrapFrame] at hk
          split at hk
          · split at hk
            · cases hk
            · dsimp only at hk
              split at hk <;> cases hk
          · rw [htask] at hk
            cases hk
      | ignored v body now fault htask hlive =>
          refine Or.inl ⟨?_, fun k hk => ⟨hk, rfl⟩⟩
          simp only [ethLive, htask, hlive]
      | unprepared v body now fault height hash block htask hlive hlogs hp =>
          refine Or.inl ⟨?_, fun k hk => ⟨hk, rfl⟩⟩
          simp only [ethLive, htask, hlive, if_pos hlogs, hp]
      | buffered v body now fault height hash block p htask hlive hlogs hp =>
          refine Or.inr
            (Or.inr (Or.inl ⟨height, hash, now, fault, p, block, htask, hp, ?_, rfl⟩))
          simp only [ethLive, htask, hlive, if_pos hlogs, hp]
      | persisted v body now fault height hash block htask hlive hlogs =>
          refine Or.inr (Or.inl ⟨fault, height, hash, block, rfl, ?_, rfl⟩)
          simp only [ethLive, htask, hlive, if_neg hlogs]
      | unanswered result now fault height htask hlogs =>
          refine Or.inl ⟨?_, fun k hk => nomatch hk⟩
          simp only [ethLive, htask, hlogs]
      | joined result now fault height logs htask hlogs =>
          refine Or.inr (Or.inr (Or.inr ⟨height, now, fault, logs, htask, rfl, ?_, rfl⟩))
          simp only [ethLive, htask, hlogs]

/-- What a decision stores is the write it is. -/
theorem mem_applied {s : Storage} {fault : Fault} {height : Nat} {act : WriteAct}
    {w : LiveWrite} (hw : w ∈ applied s fault height act) :
    ∃ hash txHashes blockBytes logs first since,
      act = .write hash txHashes blockBytes logs first since ∧
        w = ⟨height, [blockBytes, logs]⟩ := by
  cases act with
  | buffered => cases hw
  | deferred => cases hw
  | write hash txHashes blockBytes logs first since =>
      refine ⟨hash, txHashes, blockBytes, logs, first, since, rfl, ?_⟩
      simp only [applied] at hw
      cases hput : (s.put fault height hash txHashes [blockBytes, logs]).1 with
      | error e =>
          rw [hput] at hw
          cases hw
      | ok u =>
          rw [hput] at hw
          exact List.mem_singleton.mp hw

theorem applied_stored {s : Storage} {fault : Fault} {height : Nat} {act : WriteAct}
    {w : LiveWrite} (hw : w ∈ applied s fault height act) :
    (apply s fault height act).2.rawAt w.height = some (encode w.elements) := by
  obtain ⟨hash, txHashes, blockBytes, logs, first, since, rfl, rfl⟩ := mem_applied hw
  simp only [applied] at hw
  simp only [apply]
  cases hput : s.put fault height hash txHashes [blockBytes, logs] with
  | mk result s' =>
      rw [hput] at hw
      cases result with
      | error e => cases hw
      | ok u => exact rawAt_of_put_ok hput

section Buffer

variable {maxEntries now height : Nat} {pending : NeveJoinBuffer.PendingMap}

/-- A block that completes its height at once is written as it came. -/
theorem onBlock_write {hash hash' : Bytes32} {txHashes txHashes' : List Bytes32}
    {blockBytes blockBytes' logs : Bytes} {first : NeveJoinBuffer.Half} {since : Nat}
    (h : (onBlock maxEntries pending now height hash txHashes blockBytes).1
      = .write hash' txHashes' blockBytes' logs first since) : blockBytes' = blockBytes := by
  rcases locked_cases maxEntries now pending (.block height hash txHashes blockBytes) with
    ⟨held, act, -, hcomplete, heq⟩ | ⟨held, -, -, heq⟩ | ⟨-, -, heq⟩ | ⟨-, -, heq⟩
  · rw [onBlock, heq] at h
    have hact : act = .write hash' txHashes' blockBytes' logs first since := h
    rw [hact] at hcomplete
    cases held with
    | block b => cases hcomplete
    | logs l =>
        cases hcomplete
        rfl
  · rw [onBlock, heq] at h
    cases h
  · rw [onBlock, heq] at h
    cases h
  · rw [onBlock, heq] at h
    cases h

/-- A block that the buffer holds after it came is that block. -/
theorem onBlock_lookup {hash : Bytes32} {txHashes : List Bytes32} {blockBytes : Bytes}
    {b : NeveJoinBuffer.PendingBlock}
    (h : (onBlock maxEntries pending now height hash txHashes blockBytes).2.lookup height
      = some (.block b)) : b.bytes = blockBytes := by
  have hinsert : ∀ since, ((pending.erase height).insert height
      (NeveJoinBuffer.Pending.block ⟨hash, txHashes, blockBytes, since⟩)).lookup height
        = some (.block b) → b.bytes = blockBytes := by
    intro since hlookup
    rw [AList.lookup_insert] at hlookup
    cases hlookup
    rfl
  rcases locked_cases maxEntries now pending (.block height hash txHashes blockBytes) with
    ⟨held, act, -, -, heq⟩ | ⟨held, -, -, heq⟩ | ⟨-, -, heq⟩ | ⟨-, -, heq⟩
  · rw [onBlock, heq] at h
    have hnone : (pending.erase height).lookup height = some (.block b) := h
    rw [AList.lookup_erase] at hnone
    cases hnone
  · rw [onBlock, heq] at h
    exact hinsert _ h
  · rw [onBlock, heq] at h
    cases h
  · rw [onBlock, heq] at h
    exact hinsert _ h

/-- Logs that complete a height are written with the block the buffer held. -/
theorem onLogs_write {logsBytes : Bytes} {hash : Bytes32} {txHashes : List Bytes32}
    {blockBytes logs : Bytes} {first : NeveJoinBuffer.Half} {since : Nat}
    (h : (onLogs maxEntries pending now height logsBytes).1
      = .write hash txHashes blockBytes logs first since) :
    ∃ b, pending.lookup height = some (.block b) ∧ b.bytes = blockBytes := by
  rcases locked_cases maxEntries now pending (.logs height logsBytes) with
    ⟨held, act, hlookup, hcomplete, heq⟩ | ⟨held, -, -, heq⟩ | ⟨-, -, heq⟩ |
      ⟨-, -, heq⟩
  · rw [onLogs, heq] at h
    have hact : act = .write hash txHashes blockBytes logs first since := h
    rw [hact] at hcomplete
    cases held with
    | logs l => cases hcomplete
    | block b =>
        cases hcomplete
        exact ⟨b, hlookup, rfl⟩
  · rw [onLogs, heq] at h
    cases h
  · rw [onLogs, heq] at h
    cases h
  · rw [onLogs, heq] at h
    cases h

end Buffer

/-- Log ingestion off: what is stored is announced. -/
theorem written_persistBlock {s : Storage} {fault : Fault} {height : Nat} {hash : String}
    {block : Value} {w : LiveWrite}
    (hw : w ∈ (persistBlockLive J true s fault height hash block).written) :
    ∃ u ∈ (persistBlockLive J true s fault height hash block).sent, CarriesBlock J u w := by
  simp only [persistBlockLive] at hw ⊢
  cases hp : prepareBlock J hash block with
  | none =>
      rw [hp] at hw
      cases hw
  | some p =>
      rw [hp] at hw
      dsimp only at hw ⊢
      cases hput : (s.put fault height p.hash p.txHashes [p.bytes, EMPTY_ARRAY]).1 with
      | error e =>
          rw [hput] at hw
          cases hw
      | ok u =>
          rw [hput] at hw
          refine ⟨⟨block, none⟩, List.mem_singleton.mpr rfl, ?_⟩
          rw [List.mem_singleton.mp hw]
          exact congrArg some (prepareBlock_eq_some hp).2.2

/-- Log ingestion on: a block that is stored at once is announced, and so is the one
    the logs are asked for. -/
theorem bufferBlock_announced {height now : Nat} {fault : Fault} {p : PreparedBlock}
    {hash : String} {block : Value} (hp : prepareBlock J hash block = some p)
    (htask : i.task = .live) :
    (∀ w ∈ (bufferBlockLive cfg true i height now fault p block).written,
      ∃ u ∈ (bufferBlockLive cfg true i height now fault p block).sent, CarriesBlock J u w) ∧
    (∀ k b, (bufferBlock cfg i height now fault p).task = .awaitingLogs k →
      (bufferBlock cfg i height now fault p).pending.lookup k = some (.block b) →
      ∃ u ∈ (bufferBlockLive cfg true i height now fault p block).sent,
        b.bytes = J.toVec u.block) := by
  have hbytes := (prepareBlock_eq_some hp).2.2
  simp only [bufferBlockLive, bufferBlock]
  generalize hout : onBlock cfg.joinBufferCap i.pending now height p.hash p.txHashes p.bytes
    = out
  cases happly : apply i.storage fault height out.1 with
  | mk result s =>
      cases result with
      | error e =>
          constructor
          · intro w hw
            cases hw
          · intro k b hk
            rw [htask] at hk
            cases hk
      | ok outcome =>
          -- a record written here carries the block that is announced here
          have hwritten : ∀ w ∈ applied i.storage fault height out.1,
              ∃ u ∈ announceBlock true block, CarriesBlock J u w := by
            intro w hw
            obtain ⟨hash', txHashes', blockBytes, logs, first, since, hact, rfl⟩ :=
              mem_applied hw
            rw [← hout] at hact
            refine ⟨⟨block, none⟩, List.mem_singleton.mpr rfl, ?_⟩
            rw [onBlock_write hact]
            exact congrArg some hbytes
          -- and so does the half that waits for its logs
          have hawaiting : ∀ b, out.2.lookup height = some (.block b) →
              ∃ u ∈ announceBlock true block, b.bytes = J.toVec u.block := by
            intro b hb
            rw [← hout] at hb
            exact ⟨⟨block, none⟩, List.mem_singleton.mpr rfl,
              (onBlock_lookup hb).trans hbytes⟩
          cases outcome with
          | Deferred =>
              constructor
              · intro w hw
                cases hw
              · intro k b hk
                rw [htask] at hk
                cases hk
          | Completed =>
              refine ⟨hwritten, ?_⟩
              intro k b hk hb
              cases hk
              exact hawaiting b hb
          | Buffered =>
              refine ⟨hwritten, ?_⟩
              intro k b hk hb
              cases hk
              exact hawaiting b hb

/-- What the C-chain counts as stored live is in the store. -/
theorem ethLive_stored {a : Action} {w : LiveWrite}
    (hw : w ∈ (ethLive J cfg true i a).written)
    (h : NeveEthInstance.step J cfg i a = some i') :
    i'.storage.rawAt w.height = some (encode w.elements) := by
  rcases ethStep_cases h with ⟨hnothing, -⟩ |
    ⟨fault, height, hash, block, -, heq, hstorage⟩ |
    ⟨height, hash, now, fault, p, block, -, -, heq, rfl⟩ |
    ⟨height, now, fault, logs, -, -, heq, hstorage⟩
  · rw [hnothing] at hw
    cases hw
  · rw [heq] at hw
    rw [hstorage]
    simp only [persistBlockLive] at hw
    simp only [persistBlock]
    -- stored at once: the put went through
    cases hp : prepareBlock J hash block with
    | none =>
        rw [hp] at hw
        cases hw
    | some p =>
        rw [hp] at hw
        dsimp only at hw ⊢
        cases hput : i.storage.put fault height p.hash p.txHashes [p.bytes, EMPTY_ARRAY] with
        | mk result s' =>
            rw [hput] at hw
            cases result with
            | error e => cases hw
            | ok u =>
                rw [List.mem_singleton.mp hw]
                exact rawAt_of_put_ok hput
  · rw [heq] at hw
    simp only [bufferBlockLive] at hw
    simp only [bufferBlock]
    -- stored through the buffer: only a call that completes a pair writes
    cases happly : apply i.storage fault height
        (onBlock cfg.joinBufferCap i.pending now height p.hash p.txHashes p.bytes).1 with
    | mk result s' =>
        rw [happly] at hw
        cases result with
        | error e => cases hw
        | ok outcome =>
            cases outcome with
            | Deferred => cases hw
            | Completed =>
                have hraw := applied_stored hw
                rw [happly] at hraw
                exact hraw
            | Buffered =>
                have hraw := applied_stored hw
                rw [happly] at hraw
                exact hraw
  · rw [heq] at hw
    rw [hstorage]
    exact applied_stored hw

/-- What holds of a C-chain feed: what was stored was sent, and while logs are
    awaited the block the buffer holds for them was. -/
structure EthSent (J : Codec) (f : Feed Instance) : Prop where
  written : ∀ w ∈ f.live.written, ∃ u ∈ f.live.sent, CarriesBlock J u w
  awaiting : ∀ k b, f.state.task = .awaitingLogs k →
    f.state.pending.lookup k = some (.block b) → ∃ u ∈ f.live.sent, b.bytes = J.toVec u.block

/-- **A step of the C-chain** keeps that. -/
theorem EthSent.step {f f' : Feed Instance} {a : Action} (hf : EthSent J f)
    (h : (ethPath J cfg).feed f a = some f') : EthSent J f' := by
  obtain ⟨hstep, hlive⟩ := feed_eq_some h
  change f'.live = f.live.append (ethLive J cfg true f.state a) at hlive
  have hold : ∀ {p : LiveUpdate → Prop}, (∃ u ∈ f.live.sent, p u) →
      ∃ u ∈ f'.live.sent, p u := by
    rintro p ⟨u, hu, hpu⟩
    exact ⟨u, hlive ▸ mem_sent_append.mpr (Or.inl hu), hpu⟩
  have hnew : ∀ {p : LiveUpdate → Prop},
    (∃ u ∈ (ethLive J cfg true f.state a).sent, p u) →
      ∃ u ∈ f'.live.sent, p u := by
    rintro p ⟨u, hu, hpu⟩
    exact ⟨u, hlive ▸ mem_sent_append.mpr (Or.inr hu), hpu⟩
  have hwritten : (∀ w ∈ (ethLive J cfg true f.state a).written,
      ∃ u ∈ f'.live.sent, CarriesBlock J u w) →
      ∀ w ∈ f'.live.written, ∃ u ∈ f'.live.sent, CarriesBlock J u w := by
    intro hstored w hw
    rw [hlive, mem_written_append] at hw
    rcases hw with hw | hw
    · exact hold (hf.written w hw)
    · exact hstored w hw
  rcases ethStep_cases hstep with ⟨hnothing, hsame⟩ |
    ⟨fault, height, hash, block, htask, heq, -⟩ |
    ⟨height, hash, now, fault, p, block, htask, hp, heq, hstate⟩ |
    ⟨height, now, fault, logs, htask, hdone, heq, -⟩
  · refine ⟨hwritten ?_, ?_⟩
    · intro w hw
      rw [hnothing] at hw
      cases hw
    · intro k b hk hb
      obtain ⟨hk', hpending⟩ := hsame k hk
      exact hold (hf.awaiting k b hk' (hpending ▸ hb))
  · refine ⟨hwritten ?_, ?_⟩
    · intro w hw
      rw [heq] at hw hnew
      exact hnew (written_persistBlock hw)
    · intro k b hk
      rw [htask] at hk
      cases hk
  · obtain ⟨hstored, hawaited⟩ := @bufferBlock_announced J cfg f.state height now
      fault p hash block hp htask
    rw [heq] at hnew
    refine ⟨hwritten ?_, ?_⟩
    · intro w hw
      rw [heq] at hw
      exact hnew (hstored w hw)
    · intro k b hk hb
      rw [hstate] at hk hb
      exact hnew (hawaited k b hk hb)
  · refine ⟨hwritten ?_, ?_⟩
    · intro w hw
      rw [heq] at hw
      -- the block the logs complete was announced when the buffer took it
      obtain ⟨hash, txHashes, blockBytes, logsBytes, first, since, hact, rfl⟩ := mem_applied hw
      obtain ⟨b, hb, rfl⟩ := onLogs_write hact
      obtain ⟨u, hu, hbytes⟩ := hold (hf.awaiting height b htask hb)
      exact ⟨u, hu, congrArg some hbytes⟩
    · intro k b hk
      rw [hdone] at hk
      cases hk

end EthSteps

/-! ## The P-chain's poll sends what it stores -/

section DirectSteps

variable {J : Codec} {sha256 : Bytes → Bytes32} {floor : Option Nat}

/-- Every block on its way through a run came through `verify`, and its rewards are
    a printed document. -/
def StageVerified (J : Codec) (sha256 : Bytes → Bytes32) : Stage → Prop
  | .fetching pending => ∀ proposal, pending = some proposal → Verified J sha256 proposal
  | .storing fetched rewards resolver =>
      Verified J sha256 fetched ∧ (∃ v, rewards = J.toVec v) ∧
        ∀ block, resolver = some block → Verified J sha256 block
  | .announcing fetched rewards resolver =>
      Verified J sha256 fetched ∧ (∃ v, rewards = J.toVec v) ∧
        ∀ block, resolver = some block → Verified J sha256 block

def RunVerified (J : Codec) (sha256 : Bytes → Bytes32) (run : Option FillRun) : Prop :=
  ∀ run', run = some run' → StageVerified J sha256 run'.stage

theorem runVerified_none : RunVerified J sha256 none := by
  intro run' h
  cases h

theorem runVerified_advance (run : FillRun) {pending : Option FetchedBlock}
    (hpending : ∀ proposal, pending = some proposal → Verified J sha256 proposal) :
    RunVerified J sha256 (run.advance pending) := by
  intro run' h
  simp only [FillRun.advance] at h
  split at h
  · rw [← Option.some.inj h]
    exact hpending
  · cases h

theorem runVerified_proceed (run : FillRun) {fetched : FetchedBlock}
    (hver : Verified J sha256 fetched) : RunVerified J sha256 (run.proceed fetched) := by
  intro run' h
  simp only [FillRun.proceed] at h
  split at h
  · refine runVerified_advance run ?_ run' h
    intro proposal heq
    rw [← Option.some.inj heq]
    exact hver
  · rw [← Option.some.inj h]
    refine ⟨hver, ⟨.array [], J.toVec_nil.symm⟩, ?_⟩
    intro block heq
    cases heq

theorem runVerified_resume (run : FillRun) {resolver : Option FetchedBlock}
    (hresolver : ∀ block, resolver = some block → Verified J sha256 block) :
    RunVerified J sha256 (run.resume resolver) := by
  cases resolver with
  | none =>
      refine runVerified_advance run ?_
      intro proposal heq
      cases heq
  | some block => exact runVerified_proceed run (hresolver block rfl)

theorem runVerified_handle (run : FillRun) {pending : Option FetchedBlock}
    {fetched : FetchedBlock} {utxos : String → Option Value}
    (hpending : ∀ proposal, pending = some proposal → Verified J sha256 proposal)
    (hver : Verified J sha256 fetched) :
    RunVerified J sha256 (run.handle J pending fetched utxos) := by
  cases pending with
  | none => exact runVerified_proceed run hver
  | some proposal =>
      intro run' h
      obtain ⟨rewards, hrewards, rfl⟩ := Option.map_eq_some_iff.mp h
      refine ⟨hpending proposal rfl, resolveReward_eq_some hrewards, ?_⟩
      intro block heq
      rw [← Option.some.inj heq]
      exact hver

/-- What is announced of a verified block carries the whole record. -/
theorem carriesRecord_announce {fetched : FetchedBlock} {rewards : Bytes} (height : Nat)
    (hver : Verified J sha256 fetched) (hrewards : ∃ v, rewards = J.toVec v) :
    ∃ u ∈ (announce J true fetched.json [fetched.json, fetched.bytesJson, rewards]).toList,
      CarriesRecord J u ⟨height, [fetched.json, fetched.bytesJson, rewards]⟩ := by
  obtain ⟨u, record, hsent, hrecord, -⟩ := recordOf_announce hver hrewards
  refine ⟨u, Option.mem_toList.mpr hsent, ?_⟩
  obtain ⟨block, hblock, rfl⟩ := Option.map_eq_some_iff.mp hsent
  refine ⟨hblock, ?_, rfl⟩
  rw [hrecord]
  rfl

/-- Everything a step of the poll can store and send. -/
theorem directStep_cases {u u' : Upstream} {a : UpstreamAction}
    (hrun : RunVerified J sha256 u.run)
    (h : (directPath J sha256 floor).step u a = some u') :
    RunVerified J sha256 u'.run ∧
      ((u.announcing = false ∧ (directPath J sha256 floor).live u a = .nothing) ∨
      (∃ stop cursor fetched rewards resolver,
        u'.run = some ⟨stop, cursor, .announcing fetched rewards resolver⟩ ∧
        (directPath J sha256 floor).live u a
          = ⟨[⟨fetched.height, [fetched.json, fetched.bytesJson, rewards]⟩], []⟩ ∧
        u.announcing = false ∧ u'.storage.rawAt fetched.height
          = some (encode [fetched.json, fetched.bytesJson, rewards])) ∨
      (∃ stop cursor fetched rewards resolver,
        u.run = some ⟨stop, cursor, .announcing fetched rewards resolver⟩ ∧
        (directPath J sha256 floor).live u a = ⟨[],
          (announce J true fetched.json
            [fetched.json, fetched.bytesJson, rewards]).toList⟩)) := by
  obtain ⟨⟨u1, sent⟩, hup, rfl⟩ := Option.map_eq_some_iff.mp h
  have hlive : (directPath J sha256 floor).live u a = ⟨directWrites u a, sent.toList⟩ := by
    simp only [directPath, hup, Option.bind_some]
  rw [hlive]
  dsimp only
  cases upstreamStep_turn hup with
  | unpolled elapsed polled hr =>
      have hquiet : u.announcing = false := by simp [Upstream.announcing, hr]
      exact ⟨runVerified_none, Or.inl ⟨hquiet, rfl⟩⟩
  | decided elapsed polled tip hr htip =>
      have hquiet : u.announcing = false := by simp [Upstream.announcing, hr]
      refine ⟨?_, Or.inl ⟨hquiet, rfl⟩⟩
      simp only [Upstream.decide]
      split
      · intro run' heq
        dsimp only at heq
        rw [hr] at heq
        cases heq
      · intro run' heq
        rw [← Option.some.inj heq]
        -- a run that was just opened holds no proposal
        intro proposal hpending
        cases hpending
  | failed reply stop cursor pending hr hfetch =>
      have hquiet : u.announcing = false := by
        simp [Upstream.announcing, hr, FillRun.announcing]
      exact ⟨runVerified_none, Or.inl ⟨hquiet, rfl⟩⟩
  | fetched reply stop cursor pending fetched hr hfetch =>
      have hquiet : u.announcing = false := by
        simp [Upstream.announcing, hr, FillRun.announcing]
      exact ⟨runVerified_handle _ (hrun _ hr) (fetchBlock_verified hfetch),
        Or.inl ⟨hquiet, rfl⟩⟩
  | unstored fault stop cursor fetched rewards resolver s' hr hstore =>
      have hquiet : u.announcing = false := by
        simp [Upstream.announcing, hr, FillRun.announcing]
      simp only [directWrites, hr, hstore]
      exact ⟨runVerified_none, Or.inl ⟨hquiet, rfl⟩⟩
  | stored fault stop cursor fetched rewards resolver height s' hr hstore =>
      have hquiet : u.announcing = false := by
        simp [Upstream.announcing, hr, FillRun.announcing]
      obtain ⟨hver, hrewards, hresolver⟩ := hrun _ hr
      have hheight : height = fetched.height := storeBlock_height hstore
      simp only [directWrites, hr, hstore]
      by_cases htip : u.tip ≤ fetched.height
      -- at or above the tip the record is announced next
      · rw [if_pos htip, if_pos htip, hheight]
        refine ⟨?_, Or.inr (Or.inl ⟨stop, cursor, fetched, rewards, resolver, rfl, rfl,
          hquiet, rawAt_of_storeBlock hstore⟩)⟩
        intro run' heq
        rw [← Option.some.inj heq]
        exact ⟨hver, hrewards, hresolver⟩
      -- below it the fill goes on in silence
      · rw [if_neg htip, if_neg htip]
        exact ⟨runVerified_resume _ hresolver, Or.inl ⟨hquiet, rfl⟩⟩
  | announced stop cursor fetched rewards resolver hr =>
      exact ⟨runVerified_resume _ (hrun _ hr).2.2,
        Or.inr (Or.inr ⟨stop, cursor, fetched, rewards, resolver, hr, rfl⟩)⟩

/-- What the poll counts as stored live is in the store. -/
theorem directLive_stored {u u' : Upstream} {a : UpstreamAction} {w : LiveWrite}
    (hrun : RunVerified J sha256 u.run)
    (hw : w ∈ ((directPath J sha256 floor).live u a).written)
    (h : (directPath J sha256 floor).step u a = some u') :
    u'.storage.rawAt w.height = some (encode w.elements) := by
  obtain ⟨-, ⟨-, heq⟩ | ⟨_, _, fetched, rewards, _, -, heq, -, hraw⟩ |
    ⟨_, _, _, _, _, -, heq⟩⟩ := directStep_cases hrun h
  · rw [heq] at hw
    cases hw
  · rw [heq] at hw
    rw [List.mem_singleton.mp hw]
    exact hraw
  · rw [heq] at hw
    cases hw

/-- A block stored at the tip that is still to be announced. -/
def Owed (u : Upstream) (w : LiveWrite) : Prop :=
  ∃ stop cursor fetched rewards resolver,
    u.run = some ⟨stop, cursor, .announcing fetched rewards resolver⟩ ∧
      w.elements = [fetched.json, fetched.bytesJson, rewards]

/-- What holds of a poll's feed: what was stored was sent, or is about to be. -/
structure DirectSent (J : Codec) (sha256 : Bytes → Bytes32) (f : Feed Upstream) : Prop where
  run : RunVerified J sha256 f.state.run
  written : ∀ w ∈ f.live.written,
    (∃ u ∈ f.live.sent, CarriesRecord J u w) ∨ Owed f.state w

theorem not_owed {u : Upstream} (h : u.announcing = false) (w : LiveWrite) : ¬ Owed u w := by
  rintro ⟨stop, cursor, fetched, rewards, resolver, hrun, -⟩
  simp only [Upstream.announcing, hrun, Option.any_some, FillRun.announcing] at h
  cases h

/-- The next step announces a block that is owed. -/
theorem Owed.next {f f' : Feed Upstream} {a : UpstreamAction} {w : LiveWrite}
    (hf : RunVerified J sha256 f.state.run) (howed : Owed f.state w)
    (h : (directPath J sha256 floor).feed f a = some f') :
    ∃ u ∈ f'.live.sent, CarriesRecord J u w := by
  obtain ⟨hstep, hlive⟩ := feed_eq_some h
  obtain ⟨stop, cursor, fetched, rewards, resolver, hrun, helements⟩ := howed
  have howed : Owed f.state w := ⟨stop, cursor, fetched, rewards, resolver, hrun, helements⟩
  obtain ⟨-, ⟨hquiet, -⟩ | ⟨_, _, _, _, _, -, -, hquiet, -⟩ |
    ⟨_, _, _, _, _, hrun', heq⟩⟩ := directStep_cases hf hstep
  · exact absurd howed (not_owed hquiet w)
  · exact absurd howed (not_owed hquiet w)
  · rw [hrun] at hrun'
    cases hrun'
    obtain ⟨hver, hrewards, -⟩ := hf _ hrun
    obtain ⟨u, hu, hcarries⟩ := carriesRecord_announce w.height hver hrewards
    refine ⟨u, ?_, ?_⟩
    · rw [hlive, heq]
      exact mem_sent_append.mpr (Or.inr hu)
    · rw [← helements] at hcarries
      exact hcarries

/-- **A step of the poll** keeps that. -/
theorem DirectSent.step {f f' : Feed Upstream} {a : UpstreamAction}
    (hf : DirectSent J sha256 f) (h : (directPath J sha256 floor).feed f a = some f') :
    DirectSent J sha256 f' := by
  obtain ⟨hstep, hlive⟩ := feed_eq_some h
  -- what was stored before has been sent by now, owed or not
  have hold : ∀ w ∈ f.live.written, ∃ u ∈ f'.live.sent, CarriesRecord J u w := by
    intro w hw
    rcases hf.written w hw with ⟨u, hu, hcarries⟩ | howed
    · exact ⟨u, hlive ▸ mem_sent_append.mpr (Or.inl hu), hcarries⟩
    · exact howed.next hf.run h
  obtain ⟨hrun, hcases⟩ := directStep_cases hf.run hstep
  refine ⟨hrun, ?_⟩
  intro w hw
  rw [hlive, mem_written_append] at hw
  rcases hw with hw | hw
  · exact Or.inl (hold w hw)
  rcases hcases with ⟨-, heq⟩ |
    ⟨stop, cursor, fetched, rewards, resolver, hrun', heq, -, -⟩ |
    ⟨stop, cursor, fetched, rewards, resolver, -, heq⟩
  · rw [heq] at hw
    cases hw
  · rw [heq] at hw
    rw [List.mem_singleton.mp hw]
    exact Or.inr ⟨stop, cursor, fetched, rewards, resolver, hrun', rfl⟩
  · rw [heq] at hw
    cases hw

/-- A block that is owed can be announced, and is whatever the poll does next. -/
theorem DirectSent.sentOrNext {f : Feed Upstream} (hf : DirectSent J sha256 f) {w : LiveWrite}
    (hw : w ∈ f.live.written) :
    SentOrNext (directPath J sha256 floor) (CarriesRecord J) f w := by
  rcases hf.written w hw with hsent | howed
  · exact Or.inl hsent
  · refine Or.inr ⟨?_, ?_⟩
    · obtain ⟨stop, cursor, fetched, rewards, resolver, hrun, -⟩ := howed
      refine ⟨.announce, ?_⟩
      simp only [Path.feed, directPath, upstreamStep, hrun, Option.map_some, Option.some.injEq]
      exact ⟨_, rfl⟩
    · intro a f' h
      exact howed.next hf.run h

end DirectSteps

/-! ## The P-chain's mirror sends nothing -/

section MirrorSteps

variable {J : Codec} {sha256 : Bytes → Bytes32} {idleSecs : Nat} {floor : Option Nat}

/-- **A step of the mirror** sends nothing. -/
theorem mirror_sent {f f' : Feed MirrorSession} {a : MirrorEvent} (hf : f.live.sent = [])
    (h : (mirrorPath J sha256 idleSecs floor).feed f a = some f') : f'.live.sent = [] := by
  obtain ⟨-, hlive⟩ := feed_eq_some h
  have hquiet : (mirrorLive J sha256 f.state a).sent = [] := by
    cases a with
    | bootstrap health connect events => rfl
    | disconnected => rfl
    | frame v fault =>
        simp only [mirrorLive]
        cases (followFrame J sha256 f.state.storage v fault).1 with
        | none => rfl
        | some height => rfl
  rw [hlive]
  change f.live.sent ++ (mirrorLive J sha256 f.state a).sent = []
  rw [hf, hquiet]
  rfl

/-- A mirror that follows an upstream does to its store what it does here with the
    frame of the record it reads, and counts the record as stored live. -/
theorem receive_follow (upstream : Storage) (m : NeveMirror.Mirror) {record v : Value}
    {fault : Fault} {socket : List Value} {ring : List LiveUpdate}
    (hs : m.session = .following (record :: socket) ring)
    (hp : notificationPayload v = some record) :
    ∃ m', NeveMirror.mirrorStep J sha256 floor upstream m (.receive fault) = some m' ∧
      m'.storage = (followFrame J sha256 m.storage v fault).2 ∧
      m'.mirrored = (followFrame J sha256 m.storage v fault).1.toList ++ m.mirrored := by
  simp only [NeveMirror.mirrorStep, hs, followFrame, hp]
  cases hpersist : persistRecord J sha256 m.storage (fun _ => fault) record with
  | mk stored s' =>
      cases stored with
      | none => exact ⟨_, rfl, rfl, rfl⟩
      | some height => exact ⟨_, rfl, rfl, rfl⟩

theorem storeBlock_some_iff {s : Storage} {fault : Fault} {fetched : FetchedBlock}
    {rewards : Bytes} :
    (storeBlock s fault fetched rewards).1.isSome = true ↔ Takes s fault fetched.height := by
  have hput : (∃ s', s.put fault fetched.height fetched.id fetched.txIds
      [fetched.json, fetched.bytesJson, rewards] = (.ok (), s')) ↔ Takes s fault fetched.height :=
    Storage.put_ok_iff
  rw [← hput]
  simp only [storeBlock]
  cases s.put fault fetched.height fetched.id fetched.txIds
      [fetched.json, fetched.bytesJson, rewards] with
  | mk result s' =>
      cases result with
      | error e =>
          constructor
          · intro h
            cases h
          · rintro ⟨s1, h⟩
            cases h
      | ok u =>
          constructor
          · intro _
            exact ⟨s', rfl⟩
          · intro _
            rfl

/-- The write of a record, by the height it verifies at. -/
theorem followFrame_isSome {s : Storage} {v : Value} {fault : Fault} :
    (followFrame J sha256 s v fault).1.isSome = true ↔
      ∃ height, recordHeight J sha256 v = some height ∧ Takes s fault height := by
  simp only [followFrame, recordHeight]
  cases hp : notificationPayload v with
  | none =>
      constructor
      · intro h
        cases h
      · rintro ⟨height, hheight, -⟩
        cases hheight
  | some record =>
      dsimp only
      constructor
      · intro h
        obtain ⟨height, hheight⟩ := Option.isSome_iff_exists.mp h
        obtain ⟨blockJson, bytesJson, rewards, fetched, hparts, hv, -, hstore⟩ :=
          persistRecord_some (Prod.ext_iff.mpr ⟨hheight, rfl⟩)
        have hsome : (storeBlock s fault fetched (J.toVec rewards)).1.isSome = true := by
          rw [hstore]
          rfl
        refine ⟨fetched.height, ?_, storeBlock_some_iff.mp hsome⟩
        simp only [Option.bind_some, hparts, hv, Except.toOption, Option.map_some]
      · rintro ⟨height, hheight, htakes⟩
        simp only [Option.bind_some] at hheight
        simp only [persistRecord]
        cases hparts : record.asArray with
        | none =>
            rw [hparts] at hheight
            cases hheight
        | some parts =>
            rw [hparts] at hheight
            dsimp only
            split at hheight
            · rename_i blockJson bytesJson rewards heq
              rw [Option.some.inj heq]
              dsimp only
              cases hv : verifyRecord J sha256 bytesJson blockJson with
              | error r =>
                  rw [hv] at hheight
                  cases hheight
              | ok fetched =>
                  rw [hv] at hheight
                  obtain rfl : fetched.height = height := Option.some.inj hheight
                  exact storeBlock_some_iff.mpr htakes
            · cases hheight

/-- **When a step stores live**: exactly a record the disk takes, while following. -/
theorem mirrorLive_written {m m' : MirrorSession} {a : MirrorEvent}
    (h : mirrorStep J sha256 idleSecs floor m a = some m') :
    (mirrorLive J sha256 m a).written = [] ↔ ¬ LiveRecord J sha256 m a := by
  cases a with
  | bootstrap health connect events =>
      constructor
      · intro _ hlive
        cases hlive
      · intro _
        rfl
  | disconnected =>
      constructor
      · intro _ hlive
        cases hlive
      · intro _
        rfl
  | frame v fault =>
      have hfollowing : m.following = true := by
        simp only [mirrorStep] at h
        split at h
        · assumption
        · cases h
      simp only [mirrorLive, LiveRecord, hfollowing, true_and, ← followFrame_isSome]
      cases (followFrame J sha256 m.storage v fault).1 with
      | none =>
          constructor
          · intro _ hlive
            cases hlive
          · intro _
            rfl
      | some height =>
          constructor
          · intro hnil
            cases hnil
          · intro hnot
            exact absurd rfl hnot

/-- What the mirror counts as stored is the record of the frame. -/
theorem mirrorLive_stored {m m' : MirrorSession} {a : MirrorEvent} {w : LiveWrite}
    (hw : w ∈ (mirrorLive J sha256 m a).written)
    (h : mirrorStep J sha256 idleSecs floor m a = some m') :
    m'.storage.rawAt w.height = some (encode w.elements) := by
  cases a with
  | bootstrap health connect events => cases hw
  | disconnected => cases hw
  | frame v fault =>
      simp only [mirrorStep] at h
      split at h
      · simp only [mirrorLive] at hw
        rw [← Option.some.inj h]
        dsimp only
        cases hfollow : followFrame J sha256 m.storage v fault with
        | mk stored s' =>
            rw [hfollow] at hw
            cases stored with
            | none => cases hw
            | some height =>
                rw [List.mem_singleton.mp hw]
                simp only [followFrame] at hfollow
                cases hp : notificationPayload v with
                | none =>
                    rw [hp] at hfollow
                    cases hfollow
                | some record =>
                    rw [hp] at hfollow
                    obtain ⟨blockJson, bytesJson, rewards, fetched, hparts, hv, rfl, hstore⟩ :=
                      persistRecord_some hfollow
                    simp only [recordElements, hp, Option.bind_some, hparts, hv]
                    exact rawAt_of_storeBlock hstore
      · cases h

/-- A mirror that has stored nothing live, so far. -/
def Silent (f : Feed MirrorSession) : Prop := f.live.sent = [] ∧ f.live.written = []

/-- The mirror has sent what it stored live as long as it has stored nothing. -/
theorem mirror_always_iff (idleSecs : Nat) (floor : Option Nat) {f : Feed MirrorSession}
    (hf : Silent f) (actions : List MirrorEvent) :
    Run.Always (mirrorPath J sha256 idleSecs floor).feed
        (Republished (mirrorPath J sha256 idleSecs floor) (CarriesRecord J)) f actions ↔
      Run.Meets (mirrorPath J sha256 idleSecs floor).feed
        (fun f a => ¬ LiveRecord J sha256 f.state a) f actions := by
  refine Run.always_iff_meets ?_ ?_ ?_ hf
  · rintro f ⟨-, hwritten⟩ w hw
    rw [hwritten] at hw
    cases hw
  · rintro f a f' ⟨hsent, hwritten⟩ hcond h
    obtain ⟨hstep, hlive⟩ := feed_eq_some h
    refine ⟨mirror_sent hsent h, ?_⟩
    have hnone := (mirrorLive_written hstep).mpr hcond
    rw [hlive]
    change f.live.written ++ (mirrorLive J sha256 f.state a).written = []
    rw [hwritten, hnone]
    rfl
  · rintro f a ⟨hsent, hwritten⟩ hcond
    have hlive : LiveRecord J sha256 f.state a := not_not.mp hcond
    obtain ⟨m', hstep⟩ : ∃ m', mirrorStep J sha256 idleSecs floor f.state a = some m' := by
      cases a with
      | bootstrap health connect events => cases hlive
      | disconnected => cases hlive
      | frame v fault =>
          simp only [mirrorStep, hlive.1, if_true]
          exact ⟨_, rfl⟩
    have hfeed : (mirrorPath J sha256 idleSecs floor).feed f a
        = some ⟨m', f.live.append (mirrorLive J sha256 f.state a)⟩ := by
      change (mirrorStep J sha256 idleSecs floor f.state a).map _ = _
      rw [hstep]
      rfl
    refine ⟨_, hfeed, ?_⟩
    intro hall
    have hsent' := mirror_sent hsent hfeed
    obtain ⟨w, hw⟩ := List.exists_mem_of_ne_nil _
      (fun hnil => hcond ((mirrorLive_written hstep).mp hnil))
    -- a mirror can be disconnected at any time, and that sends nothing
    rcases hall w (mem_written_append.mpr (Or.inr hw)) with ⟨u, hu, -⟩ | ⟨-, hnext⟩
    · rw [hsent'] at hu
      cases hu
    · obtain ⟨u, hu, -⟩ := hnext .disconnected _ rfl
      rw [mirror_sent hsent' (rfl : (mirrorPath J sha256 idleSecs floor).feed _ .disconnected
        = some _)] at hu
      cases hu

end MirrorSteps

/-! ## Every run -/

/-- **Re-publishing.** With a subscriber attached, in every run: every live block a
    C-chain instance has stored was sent; every live block a P-chain poll has stored
    was sent with its whole record, or is sent by the step that comes next.  A
    P-chain mirror has at every point sent what it stored live exactly in the runs in
    which it receives no live record that it stores. -/
theorem live_writes_republished (J : Codec) (sha256 : Bytes → Bytes32) :
    (∀ cfg storage actions f,
      Run.exec (ethPath J cfg).feed (.start (Instance.start cfg storage)) actions = some f →
      ∀ w ∈ f.live.written, ∃ u ∈ f.live.sent, CarriesBlock J u w) ∧
    (∀ floor storage actions f,
      Run.exec (directPath J sha256 floor).feed (.start (Upstream.start storage)) actions
        = some f →
      Republished (directPath J sha256 floor) (CarriesRecord J) f) ∧
    (∀ idleSecs floor storage actions,
      Run.Always (mirrorPath J sha256 idleSecs floor).feed
          (Republished (mirrorPath J sha256 idleSecs floor) (CarriesRecord J))
          (.start ⟨storage, false⟩) actions ↔
        Run.Meets (mirrorPath J sha256 idleSecs floor).feed
          (fun f a => ¬ LiveRecord J sha256 f.state a) (.start ⟨storage, false⟩) actions) := by
  refine ⟨?_, ?_, ?_⟩
  · intro cfg storage actions f hrun
    have hstart : EthSent J (Feed.start (Instance.start cfg storage)) := by
      constructor
      · intro w hw
        cases hw
      · intro k b hk hb
        cases hb
    exact (Run.exec_invariant_all (fun _ _ _ hf h => EthSent.step hf h) hstart hrun).written
  · intro floor storage actions f hrun
    have hstart : DirectSent J sha256 (Feed.start (Upstream.start storage)) := by
      constructor
      · exact runVerified_none
      · intro w hw
        cases hw
    intro w hw
    exact (Run.exec_invariant_all (fun _ _ _ hf h => DirectSent.step hf h) hstart
      hrun).sentOrNext hw
  · intro idleSecs floor storage actions
    exact mirror_always_iff idleSecs floor ⟨rfl, rfl⟩ actions

/-! ## Height 7 on each path -/

/-- A C-chain instance that writes blocks at once. -/
def plainCfg : IngestCfg where
  ingestLogs := false
  logsSource := .GetLogs
  subscribeBlocks := false
  backfillFloor := none
  fetchConcurrency := 1
  joinBufferCap := 1

/-- The mirror has nothing to catch up with. -/
theorem mirror_current (J : Codec) (sha256 : Bytes → Bytes32) :
    (mirrorPath J sha256 60 (some 7)).feed (.start ⟨Storage.fresh memory .P (some 7), false⟩)
        (.bootstrap (.ok 6) (.ok ()) [])
      = some ⟨⟨Storage.fresh memory .P (some 7), true⟩, .nothing⟩ := rfl

/-- It follows, and one record arrives. -/
theorem mirror_one_record (J : Codec) (sha256 : Bytes → Bytes32) :
    ∃ s', Run.exec (mirrorPath J sha256 60 (some 7)).feed
        (.start ⟨Storage.fresh memory .P (some 7), false⟩)
        [.bootstrap (.ok 6) (.ok ()) [], .frame (recordFrame sha256 7) .none]
      = some ⟨⟨s', true⟩,
        ⟨[⟨7, recordElements J sha256 (recordFrame sha256 7)⟩], []⟩⟩ := by
  obtain ⟨s', hhandle, -⟩ := handleRecord_fresh J sha256 (show 7 ≤ UInt64.toNat 7 by decide)
  have hfollow : followFrame J sha256 (Storage.fresh memory .P (some 7)) (recordFrame sha256 7)
      .none = (some 7, s') := by
    simp only [recordStream, handleRecord] at hhandle
    simp only [followFrame]
    cases hp : notificationPayload (recordFrame sha256 7) with
    | none =>
        rw [hp] at hhandle
        cases hhandle
    | some record =>
        rw [hp] at hhandle
        dsimp only at hhandle ⊢
        cases hpersist : persistRecord J sha256 (Storage.fresh memory .P (some 7)) (fun _ => .none)
            record with
        | mk stored s1 =>
            rw [hpersist] at hhandle
            cases stored with
            | none => cases hhandle
            | some height =>
                obtain ⟨rfl, rfl⟩ := NeveBootstrap.Handled.stored.inj hhandle
                rfl
  refine ⟨s', Run.exec_step (mirror_current J sha256) ?_⟩
  simp only [Run.exec, Path.feed, mirrorPath, mirrorStep, mirrorLive, hfollow]
  rfl

/-- The poll finds a tip, fetches it, and stores it. -/
theorem direct_one_block (J : Codec) (sha256 : Bytes → Bytes32) :
    ∃ f, Run.exec (directPath J sha256 none).feed
        (.start (Upstream.start (Storage.fresh memory .P none)))
        [.pass true (some 7), .fetch (emptyReply sha256 7), .store .none]
      = some f ∧ f.live.written.length = 1 := by
  obtain ⟨fetched, hfetch, hfree⟩ := fetchBlock_emptyReply J sha256 7
  have hheight : fetched.height = UInt64.toNat 7 := fetchBlock_height hfetch
  have hmin : ((Storage.fresh memory .P none).openStore fetched.height).minHeight
      ≤ fetched.height := Nat.le_refl _
  obtain ⟨s', hstore⟩ := storeBlock_ok EMPTY_ARRAY (s := Storage.fresh memory .P none) rfl hmin
  have hpass : (directPath J sha256 none).feed
      (.start (Upstream.start (Storage.fresh memory .P none))) (.pass true (some 7))
      = some ⟨⟨Storage.fresh memory .P none, 1, UInt64.toNat 7, true,
        some ⟨UInt64.toNat 7, UInt64.toNat 7, .fetching none⟩⟩, .nothing⟩ := rfl
  generalize UInt64.toNat 7 = height at hfetch hheight hpass
  have hfetched : (directPath J sha256 none).feed
      ⟨⟨Storage.fresh memory .P none, 1, height, true,
        some ⟨height, height, .fetching none⟩⟩, .nothing⟩
      (.fetch (emptyReply sha256 7))
      = some ⟨⟨Storage.fresh memory .P none, 1, height, true,
        some ⟨height, height, .storing fetched EMPTY_ARRAY none⟩⟩, .nothing⟩ := by
    simp [Path.feed, directPath, upstreamStep, directWrites, hfetch, FillRun.handle,
      FillRun.proceed, hfree, Live.append, Live.nothing]
  have hstored : (directPath J sha256 none).feed
      ⟨⟨Storage.fresh memory .P none, 1, height, true,
        some ⟨height, height, .storing fetched EMPTY_ARRAY none⟩⟩, .nothing⟩
      (.store .none)
      = some ⟨⟨s', 0, height, true,
        some ⟨height, height, .announcing fetched EMPTY_ARRAY none⟩⟩,
        ⟨[⟨fetched.height, [fetched.json, fetched.bytesJson, EMPTY_ARRAY]⟩], []⟩⟩ := by
    simp [Path.feed, directPath, upstreamStep, directWrites, hstore, hheight, Live.append,
      Live.nothing]
  exact ⟨_, Run.exec_step hpass (Run.exec_step hfetched (Run.exec_step hstored rfl)), rfl⟩

/-- A whole block arrives and is stored. -/
theorem eth_one_block :
    ∃ f, Run.exec (ethPath JsonText.codec plainCfg).feed
        (.start (Instance.start plainCfg (Storage.fresh memory .C (some 7))))
        [.ingest (.frame (blockFrame "0x7") none 0 .none)]
      = some f ∧ f.live.written.length = 1 :=
  ⟨_, rfl, rfl⟩

/-- The C-chain and the poll store a block of height 7; the mirror is current. -/
theorem live_writes_republished_seven :
    (∃ f, Run.exec (ethPath JsonText.codec plainCfg).feed
        (.start (Instance.start plainCfg (Storage.fresh memory .C (some 7))))
        [.ingest (.frame (blockFrame "0x7") none 0 .none)] = some f ∧
      f.live.written.length = 1 ∧
      ∀ w ∈ f.live.written, ∃ u ∈ f.live.sent, CarriesBlock JsonText.codec u w) ∧
    (∃ f, Run.exec (directPath JsonText.codec sampleSha256 none).feed
        (.start (Upstream.start (Storage.fresh memory .P none)))
        [.pass true (some 7), .fetch (emptyReply sampleSha256 7), .store .none] = some f ∧
      f.live.written.length = 1 ∧
      Republished (directPath JsonText.codec sampleSha256 none) (CarriesRecord JsonText.codec)
        f) ∧
    Run.Always (mirrorPath JsonText.codec sampleSha256 60 (some 7)).feed
      (Republished (mirrorPath JsonText.codec sampleSha256 60 (some 7))
        (CarriesRecord JsonText.codec)) (.start ⟨Storage.fresh memory .P (some 7), false⟩)
      [.bootstrap (.ok 6) (.ok ()) []] := by
  obtain ⟨heth, hdirect, hmirror⟩ := live_writes_republished JsonText.codec sampleSha256
  obtain ⟨f, hrun, hlen⟩ := direct_one_block JsonText.codec sampleSha256
  obtain ⟨g, hrun', hlen'⟩ := eth_one_block
  refine ⟨⟨g, hrun', hlen', heth _ _ _ _ hrun'⟩,
    ⟨f, hrun, hlen, hdirect _ _ _ _ hrun⟩, ?_⟩
  refine (hmirror _ _ _ _).mpr ⟨?_, ?_⟩
  · intro hlive
    cases hlive
  · intro _ _
    exact trivial

/-- A mirror that follows its upstream stores a live record and sends nothing. -/
theorem mirror_keeps_record_to_itself :
    ¬ ∀ (J : Codec) (sha256 : Bytes → Bytes32) (idleSecs : Nat) (floor : Option Nat)
      (storage : Storage) (actions : List MirrorEvent) (f : Feed MirrorSession),
      Run.exec (mirrorPath J sha256 idleSecs floor).feed (.start ⟨storage, false⟩) actions
        = some f →
      Republished (mirrorPath J sha256 idleSecs floor) (CarriesRecord J) f := by
  intro hall
  obtain ⟨s', hrun⟩ := mirror_one_record JsonText.codec sampleSha256
  rcases hall _ _ _ _ _ _ _ hrun _ (List.mem_singleton_self _) with ⟨u, hu, -⟩ | ⟨-, hnext⟩
  · cases hu
  · obtain ⟨u, hu, -⟩ := hnext .disconnected _ rfl
    cases hu

end NeveRepublish
