import Neve.BootstrapProofs
import Neve.RangeReplayProofs
import Neve.TxIndexProofs

/-! # P-chain replication — what a mirror's bootstrap copies

    One neve serves `oldRecords` from its store while its ingest goes on; another
    reads the notifications in the order they were sent, takes the record out of
    each, verifies its halves again and writes them to a store of its own.  What
    arrives is followed from the upstream's disk to the mirror's.

    When the mirror's bootstrap succeeds, every height of its range holds the
    upstream's record, verified again, under the same keys (`bootstrap_replicates`). -/

namespace NeveReplication

open JsonValue ByteText NeveRecord NeveStorage NevePlatformIngest NevePlatformCodec
open NeveFrontier (saturatingAdd u64Max storeBlock_stored)
open NeveRangeReplay (Request Handler Turn handlerStep handlerStep_turn readStored)
open NeveMirror (bootstrapStart)
open NeveRecordConsistency (persistRecord_some jsonHalf bytesHalf halvesAgree_jsonHalf)
open NeveBootstrap
open Outcome (mem_of_lookup)

/-! ## The wire -/

/-- What the libraries at both ends do with a printed document.  The sender takes a
    text that is one document as it is; its sink puts that text into a notification,
    and whoever parses the notification finds the document in it. -/
structure Wire (J : Codec) where
  frame : Bytes → Bytes
  rawValue_toVec : ∀ v, J.rawValue (J.toVec v) = some (J.toVec v)
  payload_frame : ∀ v, (J.fromSlice (frame (J.toVec v))).bind notificationPayload
    = some (v.mapFloat J.refloat)

/-- The upstream and its subscriber: the messages sent, how many of them have been
    read, and what the frame reader has given so far. -/
structure Link where
  upstream : NeveRangeReplay.System
  read : Nat
  events : List StreamEvent

/-- The upstream goes on; the next message is read; another frame is read (the ack, an
    error); the stream ends, or gives nothing for too long. -/
inductive LinkAction where
  | upstream (a : NeveRangeReplay.Action)
  | deliver (fault : Fault)
  | other (v : Value) (fault : Fault)
  | ended
  | idle

section Link

variable {J : Codec} (wire : Wire J) (req : Request)

def Link.start (upstream : Storage) : Link := ⟨.start upstream req, 0, []⟩

/-- One step of either side.  The socket keeps the order; a frame that is no JSON is
    passed over. -/
def linkStep (l : Link) : LinkAction → Option Link
  | .upstream a =>
      (NeveRangeReplay.step J req l.upstream a).map fun sys => { l with upstream := sys }
  | .deliver fault =>
      (l.upstream.handler.sent[l.read]?).map fun msg =>
        { l with
          read := l.read + 1
          events := l.events ++
            ((J.fromSlice (wire.frame msg)).map fun v => .frame v fault).toList }
  | .other v fault =>
      match notificationPayload v with
      | none => some { l with events := l.events ++ [.frame v fault] }
      | some _ => none
  | .ended => some { l with events := l.events ++ [.ended] }
  | .idle => some { l with events := l.events ++ [.idle] }

end Link

/-! ## Records as values -/

/-- The rewards element of a P-chain record. -/
def P_REWARDS : Nat := 2

section Values

variable (J : Codec) (sha256 : Bytes → Bytes32)

/-- One element of a stored record, parsed. -/
def elementAt (s : Storage) (height idx : Nat) : Option Value :=
  match s.getElement J height idx with
  | .ok (some text) => J.fromSlice text
  | _ => none

/-- What `verify` makes of the record at a height. -/
def fetchedAt (s : Storage) (height : Nat) : Option FetchedBlock := do
  let block ← elementAt J s height BLOCK
  let bytes ← elementAt J s height P_BYTES
  (verifyRecord J sha256 bytes block).toOption

/-- The record came through `verify`, and its numbers are integers. -/
def VerifiedRecord (height : Nat) (raw : Bytes) : Prop :=
  ∃ block bytes rewards expectHeight fetched,
    verify J sha256 bytes block expectHeight = .ok fetched ∧ fetched.height = height ∧
      raw = encode [fetched.json, fetched.bytesJson, J.toVec rewards] ∧
      block.integral = true ∧ bytes.integral = true ∧ rewards.integral = true

/-- Every record of the store did. -/
def CameThroughVerify (s : Storage) : Prop :=
  ∀ height raw, s.rawAt height = some raw → VerifiedRecord J sha256 height raw

/-- The record of a height is indexed under its keys: the entries are there, and a
    lookup gives the height, or a later one below `next` whose record has the key too. -/
structure Indexed (upstream mirror : Storage) (next height : Nat) (fetched : FetchedBlock) :
    Prop where
  id : (fetched.id, toLeBytes 8 height) ∈ mirror.hashToHeight
  txIds : ∀ idx key, fetched.txIds[idx]? = some key →
    (key, toLeBytes 8 height ++ toLeBytes 4 idx) ∈ mirror.txToBlock
  lookupId : ∃ k, height ≤ k ∧ k < next ∧
    (fetchedAt J sha256 upstream k).map FetchedBlock.id = some fetched.id ∧
    mirror.heightOfHash fetched.id = .ok (some k)
  lookupTx : ∀ key ∈ fetched.txIds, ∃ k idx, height ≤ k ∧ k < next ∧
    (fetchedAt J sha256 upstream k).bind (fun block => block.txIds[idx]?) = some key ∧
    mirror.getTxLocation key = .ok (some (k, idx % 2 ^ 32))

/-- The mirror holds the upstream's record of the height: the same values, element by
    element, verified again, and indexed under the same keys. -/
structure Mirrored (upstream mirror : Storage) (target height : Nat) : Prop where
  elements : ∀ idx, idx = BLOCK ∨ idx = P_BYTES ∨ idx = P_REWARDS →
    ∃ v, elementAt J upstream height idx = some v ∧ elementAt J mirror height idx = some v
  verified : ∃ fetched, fetchedAt J sha256 upstream height = some fetched ∧
    fetchedAt J sha256 mirror height = some fetched ∧ fetched.height = height ∧
    Indexed J sha256 upstream mirror (target + 1) height fetched

end Values

/-! ## A verified record, read anywhere -/

section Reading

variable {J : Codec} {sha256 : Bytes → Bytes32}

/-- A record with the values that verify to a block of its height. -/
structure Genuine (J : Codec) (sha256 : Bytes → Bytes32) (height : Nat) (raw : Bytes)
    (block bytes rewards : Value) (fetched : FetchedBlock) : Prop where
  raw : raw = encode ([block, bytes, rewards].map J.toVec)
  verified : verifyRecord J sha256 bytes block = .ok fetched
  height : fetched.height = height
  block : block.integral = true
  bytes : bytes.integral = true
  rewards : rewards.integral = true

/-- What came through `verify` verifies again, whatever height it was asked for. -/
theorem VerifiedRecord.genuine {height : Nat} {raw : Bytes}
    (h : VerifiedRecord J sha256 height raw) :
    ∃ block bytes rewards fetched, Genuine J sha256 height raw block bytes rewards fetched := by
  obtain ⟨block, bytes, rewards, expectHeight, fetched, hver, rfl, rfl, hblock, hbytes,
    hrewards⟩ := h
  obtain ⟨b, hagree, -, heq⟩ := verify_ok hver
  have hagain : verifyRecord J sha256 bytes block = .ok fetched := by
    rw [heq]
    refine verify_of_agree J hagree none ?_
    intro want hwant
    cases hwant
  refine ⟨block, bytes, rewards, fetched, ?_, hagain, rfl, hblock, hbytes, hrewards⟩
  rw [heq]
  rfl

namespace Genuine

variable {height : Nat} {raw : Bytes} {block bytes rewards : Value} {fetched : FetchedBlock}

/-- The record is the text of one document. -/
theorem raw_eq (h : Genuine J sha256 height raw block bytes rewards fetched) :
    raw = J.toVec (.array [block, bytes, rewards]) := by
  rw [h.raw, J.toVec_array]
  rfl

theorem mapFloat_eq (h : Genuine J sha256 height raw block bytes rewards fetched) :
    (Value.array [block, bytes, rewards]).mapFloat J.refloat = .array [block, bytes, rewards] := by
  refine mapFloat_of_integral _ _ ?_
  simp only [Value.integral, integralItems, h.block, h.bytes, h.rewards, Bool.and_self]

/-- It is written as the values verify. -/
theorem elements (h : Genuine J sha256 height raw block bytes rewards fetched) :
    raw = encode [fetched.json, fetched.bytesJson, J.toVec rewards] := by
  obtain ⟨b, -, -, heq⟩ := verify_ok h.verified
  rw [h.raw, heq]
  rfl

/-- Any store that holds it reads its values back. -/
theorem elementAt_eq (h : Genuine J sha256 height raw block bytes rewards fetched) {s : Storage}
    (hraw : s.rawAt height = some raw) (idx : Nat) :
    elementAt J s height idx = [block, bytes, rewards][idx]? := by
  have hread : s.getElement J height idx
      = .ok (([block, bytes, rewards].map J.toVec)[idx]?) := by
    rw [Storage.getElement_eq, hraw, h.raw]
    dsimp only
    rw [element_encode J (by show 2 ≤ 3; decide)]
  have hback : ∀ v : Value, v.integral = true → J.fromSlice (J.toVec v) = some v := by
    intro v hv
    rw [J.fromSlice_toVec, mapFloat_of_integral _ _ hv]
  simp only [elementAt, hread]
  match idx with
  | 0 => exact hback block h.block
  | 1 => exact hback bytes h.bytes
  | 2 => exact hback rewards h.rewards
  | idx + 3 => rfl

theorem fetchedAt_eq (h : Genuine J sha256 height raw block bytes rewards fetched) {s : Storage}
    (hraw : s.rawAt height = some raw) : fetchedAt J sha256 s height = some fetched := by
  have hblock : elementAt J s height BLOCK = some block := h.elementAt_eq hraw BLOCK
  have hbytes : elementAt J s height P_BYTES = some bytes := h.elementAt_eq hraw P_BYTES
  simp only [fetchedAt, hblock, hbytes, Option.bind_eq_bind, Option.bind_some, h.verified,
    Except.toOption]

/-- A notification of it carries its values. -/
theorem payload (h : Genuine J sha256 height raw block bytes rewards fetched) (wire : Wire J) :
    (J.fromSlice (wire.frame raw)).bind notificationPayload
      = some (.array [block, bytes, rewards]) := by
  rw [h.raw_eq, wire.payload_frame, h.mapFloat_eq]

end Genuine

end Reading

/-! ## What the upstream sends -/

section Sending

variable {J : Codec} {sha256 : Bytes → Bytes32} {start target : Nat}

/-- The request of a bootstrap. -/
def rangeRequest (start target : Nat) : Request := ⟨.oldRecords, some start, some target⟩

/-- What holds of the upstream while it replays a range: the cursor is as far as the
    messages sent, never past the end, and the range is as it was. -/
structure Serving (upstream : Storage) (start target : Nat) (sys : NeveRangeReplay.System) :
    Prop where
  cursor : sys.handler.h = min (start + sys.handler.sent.length) u64Max
  reading : sys.handler.phase = .readBlock → sys.handler.h ≤ target
  range : ∀ k, start ≤ k → k ≤ target → sys.storage.rawAt k = upstream.rawAt k

theorem serving_start (upstream : Storage) (hstart : start ≤ u64Max) :
    Serving upstream start target (.start upstream (rangeRequest start target)) := by
  constructor
  · exact (Nat.min_eq_left hstart).symm
  · intro h
    cases h
  · intro k _ _
    rfl

/-- **A step of the upstream**: a turn of the handler, or a put outside the range. -/
theorem Serving.step {upstream : Storage} {sys sys' : NeveRangeReplay.System}
    {a : NeveRangeReplay.Action} (h : Serving upstream start target sys)
    (hput : ∀ p, a = .put p → ¬ (start ≤ p.height ∧ p.height ≤ target))
    (hstep : NeveRangeReplay.step J (rangeRequest start target) sys a = some sys') :
    Serving upstream start target sys' := by
  cases a with
  | put p =>
      rw [← Option.some.inj hstep]
      refine ⟨h.cursor, h.reading, ?_⟩
      intro k hlo hhi
      have hk : k ≠ p.height := by
        rintro rfl
        exact hput p rfl ⟨hlo, hhi⟩
      exact (NeveStorageMap.rawAt_put_other hk).trans (h.range k hlo hhi)
  | handler =>
      rw [← Option.some.inj hstep]
      have hturn := handlerStep_turn J (rangeRequest start target) sys.storage sys.handler
      generalize handlerStep J (rangeRequest start target) sys.storage sys.handler = hd'
        at hturn
      have hcursor := h.cursor
      cases hturn with
      | send bytes msg hp hread hraw =>
          refine ⟨?_, ?_, h.range⟩
          · dsimp only
            rw [List.length_append, List.length_singleton, saturatingAdd, hcursor]
            omega
          · intro hphase
            cases hphase
      | next hp hle =>
          refine ⟨hcursor, ?_, h.range⟩
          intro _
          exact hle
      | rejected reason hp => exact ⟨hcursor, h.reading, h.range⟩
      | closed cause hp => exact ⟨hcursor, h.reading, h.range⟩
      | _ =>
          refine ⟨hcursor, ?_, h.range⟩
          intro hphase
          cases hphase

/-- The puts of a run are all outside the range. -/
def Beside (start target : Nat) (as : List NeveRangeReplay.Action) : Prop :=
  ∀ p, NeveRangeReplay.Action.put p ∈ as → ¬ (start ≤ p.height ∧ p.height ≤ target)

theorem Serving.run {upstream : Storage} {sys sys' : NeveRangeReplay.System}
    {as : List NeveRangeReplay.Action} (h : Serving upstream start target sys)
    (hputs : Beside start target as)
    (hrun : Run.exec (NeveRangeReplay.step J (rangeRequest start target)) sys as = some sys') :
    Serving upstream start target sys' := by
  refine Run.exec_invariant
    (fun _ a => ∀ p, a = .put p → ¬ (start ≤ p.height ∧ p.height ≤ target))
    (fun _ _ _ hs hput hstep => hs.step hput hstep) h (Run.meets_of_forall ?_ sys) hrun
  rintro a ha p rfl
  exact hputs p ha

/-- A payload that is the upstream's record of a height. -/
def IsRecord (J : Codec) (sha256 : Bytes → Bytes32) (upstream : Storage) (height : Nat)
    (payload : Value) : Prop :=
  ∃ raw block bytes rewards fetched, upstream.rawAt height = some raw ∧
    Genuine J sha256 height raw block bytes rewards fetched ∧
    payload = .array [block, bytes, rewards]

/-- **What is sent**: message by message, the records of the range from its start on. -/
theorem sent_record (wire : Wire J) {upstream : Storage}
    (hverified : CameThroughVerify J sha256 upstream) (hstart : start ≤ u64Max)
    {as : List NeveRangeReplay.Action} (hputs : Beside start target as)
    {sys : NeveRangeReplay.System}
    (hrun : Run.exec (NeveRangeReplay.step J (rangeRequest start target))
      (.start upstream (rangeRequest start target)) as = some sys)
    {i : Nat} {msg : Bytes} (hi : sys.handler.sent[i]? = some msg) :
    ∃ payload, (J.fromSlice (wire.frame msg)).bind notificationPayload = some payload ∧
      (start + i ≤ u64Max →
        start + i ≤ target ∧ IsRecord J sha256 upstream (start + i) payload) := by
  obtain ⟨before, after, mid, rfl, hmid, hphase, hlen, bytes, hread, hraw⟩ :=
    NeveRangeReplay.sent_moment hrun rfl hi
  have hserving := (serving_start upstream hstart).run
    (fun p hp => hputs p (List.mem_append_left _ hp)) hmid
  have hcursor := hserving.cursor
  have hle := hserving.reading hphase
  rw [hlen] at hcursor
  have hstored : mid.storage.rawAt mid.handler.h = some bytes := by
    have hrecord : mid.storage.getRecord mid.handler.h = some bytes := Except.ok.inj hread
    rw [Storage.getRecord_eq] at hrecord
    exact (Option.filter_eq_some_iff.mp hrecord).1
  rw [hserving.range _ (by omega) hle] at hstored
  obtain ⟨block, bytesValue, rewards, fetched, hgenuine⟩ := (hverified _ _ hstored).genuine
  obtain rfl : bytes = msg := by
    rw [hgenuine.raw_eq, wire.rawValue_toVec, ← hgenuine.raw_eq] at hraw
    exact Option.some.inj hraw
  refine ⟨_, hgenuine.payload wire, ?_⟩
  intro hbound
  rw [Nat.min_eq_left hbound] at hcursor
  rw [hcursor] at hle hstored hgenuine
  exact ⟨hle, bytes, block, bytesValue, rewards, fetched, hstored, hgenuine, rfl⟩

end Sending

/-! ## What the mirror reads -/

/-- What a stream event carries for the bootstrap. -/
def payloadOf : StreamEvent → Option Value
  | .frame v _ => notificationPayload v
  | _ => none

def payloads (events : List StreamEvent) : List Value := events.filterMap payloadOf

def LinkAction.upstreamAction : LinkAction → Option NeveRangeReplay.Action
  | .upstream a => some a
  | _ => none

section Link

variable {J : Codec} {sha256 : Bytes → Bytes32} (wire : Wire J)

/-- What the reader of a message finds in it. -/
def Wire.reading (msg : Bytes) : Option Value :=
  (J.fromSlice (wire.frame msg)).bind notificationPayload

/-- What was read is what was sent, up to the message read last. -/
structure InOrder (l : Link) : Prop where
  read : l.read ≤ l.upstream.handler.sent.length
  payloads : payloads l.events
    = (l.upstream.handler.sent.take l.read).filterMap wire.reading

/-- A turn of the upstream only adds to what it sent. -/
theorem sent_of_step {req : Request} {sys sys' : NeveRangeReplay.System}
    {a : NeveRangeReplay.Action} (h : NeveRangeReplay.step J req sys a = some sys') :
    sys.handler.sent <+: sys'.handler.sent := by
  cases a with
  | put p =>
      rw [← Option.some.inj h]
  | handler =>
      rw [← Option.some.inj h]
      have hsent := @NeveRangeReplay.handlerStep_sent J req sys.storage sys.handler
      rcases hsent with hsame | ⟨-, -, msg, -, -, hnew⟩
      · exact hsame ▸ List.prefix_rfl
      · exact ⟨[msg], hnew.symm⟩

/-- **A step of the link**: the order of the messages is kept. -/
theorem InOrder.step {req : Request} {l l' : Link} {a : LinkAction} (h : InOrder wire l)
    (hstep : linkStep wire req l a = some l') : InOrder wire l' := by
  obtain ⟨hread, hpay⟩ := h
  -- an event with nothing in it
  have hquiet : ∀ event, payloadOf event = none →
      InOrder wire { l with events := l.events ++ [event] } := by
    intro event hevent
    refine ⟨hread, ?_⟩
    rw [NeveReplication.payloads, List.filterMap_append, List.filterMap_cons_none hevent,
      List.filterMap_nil, List.append_nil]
    exact hpay
  cases a with
  | upstream a =>
      obtain ⟨sys, hsys, rfl⟩ := Option.map_eq_some_iff.mp hstep
      obtain ⟨more, hmore⟩ := sent_of_step hsys
      refine ⟨?_, ?_⟩
      · dsimp only
        rw [← hmore, List.length_append]
        omega
      · dsimp only
        rw [← hmore, List.take_append_of_le_length hread]
        exact hpay
  | deliver fault =>
      obtain ⟨msg, hmsg, rfl⟩ := Option.map_eq_some_iff.mp hstep
      have hlt : l.read < l.upstream.handler.sent.length :=
        (List.getElem?_eq_some_iff.mp hmsg).1
      refine ⟨hlt, ?_⟩
      have htake : l.upstream.handler.sent.take (l.read + 1)
          = l.upstream.handler.sent.take l.read ++ [msg] := by
        rw [List.take_add_one, hmsg, Option.toList_some]
      have hnew : (((J.fromSlice (wire.frame msg)).map fun v =>
            StreamEvent.frame v fault).toList).filterMap payloadOf
          = [msg].filterMap wire.reading := by
        simp only [List.filterMap_cons, List.filterMap_nil, Wire.reading]
        cases J.fromSlice (wire.frame msg) with
        | none => rfl
        | some v =>
            simp only [Option.map_some, Option.toList_some, Option.bind_some,
              List.filterMap_cons, List.filterMap_nil, payloadOf]
      dsimp only
      rw [htake, List.filterMap_append, ← hnew, ← hpay]
      exact List.filterMap_append ..
  | other v fault =>
      simp only [linkStep] at hstep
      cases hv : notificationPayload v with
      | none =>
          rw [hv] at hstep
          rw [← Option.some.inj hstep]
          exact hquiet (.frame v fault) hv
      | some payload =>
          rw [hv] at hstep
          cases hstep
  | ended =>
      rw [← Option.some.inj hstep]
      exact hquiet .ended rfl
  | idle =>
      rw [← Option.some.inj hstep]
      exact hquiet .idle rfl

/-- The upstream's part of a run is a run of its own. -/
theorem upstream_run {req : Request} {l l' : Link} {actions : List LinkAction}
    (hrun : Run.exec (linkStep wire req) l actions = some l') :
    Run.exec (NeveRangeReplay.step J req) l.upstream
      (actions.filterMap LinkAction.upstreamAction) = some l'.upstream := by
  induction actions generalizing l with
  | nil =>
      rw [← Option.some.inj hrun]
      rfl
  | cons a rest ih =>
      obtain ⟨l1, hstep, hrest⟩ := Run.exec_cons hrun
      have hlater := ih hrest
      cases a with
      | upstream a =>
          obtain ⟨sys, hsys, rfl⟩ := Option.map_eq_some_iff.mp hstep
          exact Run.exec_step hsys hlater
      | deliver fault =>
          obtain ⟨msg, -, rfl⟩ := Option.map_eq_some_iff.mp hstep
          exact hlater
      | other v fault =>
          simp only [linkStep] at hstep
          cases hv : notificationPayload v with
          | none =>
              rw [hv] at hstep
              rw [← Option.some.inj hstep] at hlater
              exact hlater
          | some payload =>
              rw [hv] at hstep
              cases hstep
      | ended =>
          rw [← Option.some.inj hstep] at hlater
          exact hlater
      | idle =>
          rw [← Option.some.inj hstep] at hlater
          exact hlater

theorem take_getElem? {α : Type*} {l : List α} {n i : Nat} {a : α}
    (h : (l.take n)[i]? = some a) : l[i]? = some a := by
  rw [List.getElem?_take] at h
  by_cases hi : i < n
  · rwa [if_pos hi] at h
  · rw [if_neg hi] at h
    cases h

/-- No put of the run is at a height of the range. -/
def PutsBeside (start target : Nat) (actions : List LinkAction) : Prop :=
  Beside start target (actions.filterMap LinkAction.upstreamAction)

/-- **What is read**: payload by payload, the records of the range from its start on. -/
theorem read_record {start target : Nat} {upstream : Storage}
    (hverified : CameThroughVerify J sha256 upstream) (hbound : target ≤ u64Max)
    (hle : start ≤ target) {actions : List LinkAction} (hputs : PutsBeside start target actions)
    {l : Link}
    (hrun : Run.exec (linkStep wire (rangeRequest start target))
      (Link.start (rangeRequest start target) upstream) actions = some l)
    {i : Nat} {payload : Value} (hi : (payloads l.events)[i]? = some payload)
    (hrange : start + i ≤ target) :
    IsRecord J sha256 l.upstream.storage (start + i) payload := by
  have hup := upstream_run wire hrun
  have hserving := (serving_start upstream (hle.trans hbound)).run hputs hup
  have horder : InOrder wire l := by
    refine Run.exec_invariant_all (fun _ _ _ h hstep => InOrder.step wire h hstep) ?_ hrun
    exact ⟨Nat.le_refl 0, rfl⟩
  -- every message has a payload, so positions are kept
  have hpacked : NeveTxIndex.Packed wire.reading (l.upstream.handler.sent.take l.read) := by
    intro j k hjk hk
    obtain ⟨last, hlast, -⟩ := Option.bind_eq_some_iff.mp (Option.some_get hk).symm
    have hlt := (List.getElem?_eq_some_iff.mp hlast).1
    have hmsg := List.getElem?_eq_getElem (hjk.trans hlt)
    obtain ⟨p, hp, -⟩ := sent_record wire hverified (hle.trans hbound) hputs hup
      (take_getElem? hmsg)
    rw [hmsg, Option.bind_some]
    exact Option.isSome_iff_exists.mpr ⟨p, hp⟩
  rw [horder.payloads] at hi
  obtain ⟨msg, hmsg, hp⟩ := hpacked.getElem_filterMap hi
  obtain ⟨p, hp', hrecord⟩ := sent_record wire hverified (hle.trans hbound) hputs hup
    (take_getElem? hmsg)
  obtain rfl : p = payload := Option.some.inj (hp'.symm.trans hp)
  obtain ⟨-, raw, block, bytes, rewards, fetched, hraw, hgenuine, heq⟩ :=
    hrecord (hrange.trans hbound)
  rw [← hserving.range (start + i) (Nat.le_add_right _ _) hrange] at hraw
  exact ⟨raw, block, bytes, rewards, fetched, hraw, hgenuine, heq⟩

end Link

/-! ## What the mirror writes -/

section Copying

variable {J : Codec} {sha256 : Bytes → Bytes32} {upstream : Storage} {start : Nat}

/-- Every height of the range below `next` is the upstream's. -/
def Copied (J : Codec) (sha256 : Bytes → Bytes32) (upstream mirror : Storage)
    (start next : Nat) : Prop :=
  ∀ k, start ≤ k → k < next → ∃ raw block bytes rewards fetched,
    upstream.rawAt k = some raw ∧ mirror.rawAt k = some raw ∧
      Genuine J sha256 k raw block bytes rewards fetched ∧
      Indexed J sha256 upstream mirror next k fetched

/-- The write of the next height keeps the entries of an earlier one, and its keys still
    lead to the range. -/
theorem Indexed.step {mirror mirror' : Storage} {next height : Nat} {fetched new : FetchedBlock}
    (h : Indexed J sha256 upstream mirror next height fetched) (hheight : height < next)
    (hbound : next < 2 ^ 64) (hnew : fetchedAt J sha256 upstream next = some new)
    (hids : mirror'.hashToHeight = (new.id, toLeBytes 8 next) :: mirror.hashToHeight)
    (htxs : mirror'.txToBlock
      = (Storage.txEntries next new.txIds).reverse ++ mirror.txToBlock) :
    Indexed J sha256 upstream mirror' (next + 1) height fetched := by
  constructor
  · rw [hids]
    exact List.mem_cons_of_mem _ h.id
  · intro idx key hkey
    rw [htxs]
    exact List.mem_append_right _ (h.txIds idx key hkey)
  · obtain ⟨k, hlo, hhi, hid, hlookup⟩ := h.lookupId
    rw [Storage.heightOfHash_of_cons hids hbound]
    by_cases hsame : fetched.id = new.id
    · refine ⟨next, hheight.le, Nat.lt_succ_self next, ?_, if_pos hsame⟩
      rw [hnew, Option.map_some, hsame]
    · exact ⟨k, hlo, Nat.lt_succ_of_lt hhi, hid, (if_neg hsame).trans hlookup⟩
  · intro key hkey
    obtain ⟨k, idx, hlo, hhi, hid, hlookup⟩ := h.lookupTx key hkey
    rcases Storage.getTxLocation_of_batch htxs hbound key with ⟨idx', hid', hnow⟩ |
      ⟨-, hnow⟩
    · refine ⟨next, idx', hheight.le, Nat.lt_succ_self next, ?_, hnow⟩
      rw [hnew, Option.bind_some, hid']
    · exact ⟨k, idx, hlo, Nat.lt_succ_of_lt hhi, hid, hnow.trans hlookup⟩

/-- The height just written is indexed. -/
theorem indexed_of_write {mirror mirror' : Storage} {next : Nat} {new : FetchedBlock}
    (hbound : next < 2 ^ 64) (hnew : fetchedAt J sha256 upstream next = some new)
    (hids : mirror'.hashToHeight = (new.id, toLeBytes 8 next) :: mirror.hashToHeight)
    (htxs : mirror'.txToBlock
      = (Storage.txEntries next new.txIds).reverse ++ mirror.txToBlock) :
    Indexed J sha256 upstream mirror' (next + 1) next new := by
  constructor
  · rw [hids]
    exact List.mem_cons_self ..
  · intro idx key hkey
    rw [htxs]
    refine List.mem_append_left _ (List.mem_reverse.mpr ?_)
    exact Storage.mem_txEntries.mpr ⟨idx, hkey, rfl⟩
  · refine ⟨next, Nat.le_refl next, Nat.lt_succ_self next, ?_, ?_⟩
    · rw [hnew, Option.map_some]
    · rw [Storage.heightOfHash_of_cons hids hbound, if_pos rfl]
  · intro key hkey
    rcases Storage.getTxLocation_of_batch htxs hbound key with ⟨idx, hid, hnow⟩ | ⟨hnot, -⟩
    · refine ⟨next, idx, Nat.le_refl next, Nat.lt_succ_self next, ?_, hnow⟩
      rw [hnew, Option.bind_some, hid]
    · exact absurd hkey hnot

/-- **One record**: the upstream's record of the next height, stored. -/
theorem Copied.step {mirror mirror' : Storage} {next height : Nat} {fault : Nat → Fault}
    {payload : Value} (h : Copied J sha256 upstream mirror start next) (hbound : next < 2 ^ 64)
    (hrecord : IsRecord J sha256 upstream next payload)
    (hpersist : persistRecord J sha256 mirror fault payload = (some height, mirror')) :
    height = next ∧ Copied J sha256 upstream mirror' start (next + 1) := by
  obtain ⟨raw, block, bytes, rewards, fetched, hraw, hgenuine, rfl⟩ := hrecord
  obtain ⟨block', bytes', rewards', fetched', hparts, hver, rfl, hstore⟩ :=
    persistRecord_some hpersist
  -- the payload has one reading
  injection hparts with hparts
  injection hparts with hblock htail
  injection htail with hbytes htail
  injection htail with hrewards _
  subst hblock hbytes hrewards
  obtain rfl : fetched = fetched' := Except.ok.inj (hgenuine.verified.symm.trans hver)
  have hheight := hgenuine.height
  obtain ⟨hraws, hids, htxs⟩ := storeBlock_stored hstore
  rw [hheight] at hraws hids htxs
  refine ⟨hheight, ?_⟩
  have hnew := hgenuine.fetchedAt_eq hraw
  intro k hlo hhi
  rcases Nat.lt_or_ge k next with hlt | hge
  · obtain ⟨raw', block', bytes', rewards', fetched', hup, hmir, hgen, hindexed⟩ := h k hlo hlt
    refine ⟨raw', block', bytes', rewards', fetched', hup, ?_, hgen, ?_⟩
    · rw [hraws k, if_neg (Nat.ne_of_lt hlt)]
      exact hmir
    · exact hindexed.step hlt hbound hnew hids htxs
  · obtain rfl : k = next := by omega
    refine ⟨raw, block, bytes, rewards, fetched, hraw, ?_, hgenuine, ?_⟩
    · rw [hraws k, if_pos rfl, hgenuine.elements]
    · exact indexed_of_write hbound hnew hids htxs

/-- **The whole stream**: by induction on the events, with the heights copied so far. -/
theorem streamLoop_copies {idleSecs target : Nat} (hbound : target ≤ u64Max)
    {events : List StreamEvent} {mirror mirror' : Storage} {next : Nat} (hnext : next ≤ target)
    (hread : ∀ i payload, (payloads events)[i]? = some payload → next + i ≤ target →
      IsRecord J sha256 upstream (next + i) payload)
    (h : Copied J sha256 upstream mirror start next)
    (hok : streamLoop (recordStream J sha256) idleSecs target mirror events = (.ok, mirror')) :
    Copied J sha256 upstream mirror' start (target + 1) := by
  induction events generalizing mirror next with
  | nil => cases hok
  | cons event rest ih =>
      cases event with
      | ended => cases hok
      | idle => cases hok
      | frame v fault =>
          simp only [streamLoop, recordStream, handleRecord] at hok
          cases hv : notificationPayload v with
          | none =>
              rw [hv] at hok
              -- a frame without a payload leaves the mirror as it was
              refine ih hnext ?_ h hok
              intro i payload hi
              refine hread i payload ?_
              rw [payloads,
                List.filterMap_cons_none (show payloadOf (.frame v fault) = none from hv)]
              exact hi
          | some payload =>
              have hcons : payloads (.frame v fault :: rest) = payload :: payloads rest :=
                List.filterMap_cons_some hv
              rw [hv] at hok
              dsimp only at hok
              cases hpersist : persistRecord J sha256 mirror (fun _ => fault) payload with
              | mk stored mirror1 =>
                  rw [hpersist] at hok
                  cases stored with
                  | none => cases hok
                  | some height =>
                      -- the first payload is the record of the height that comes next
                      have hrecord := hread 0 payload (by rw [hcons]; rfl) hnext
                      obtain ⟨rfl, hcopied⟩ := h.step
                        (by have := hnext.trans hbound; simp only [u64Max] at this; omega)
                        hrecord hpersist
                      dsimp only at hok
                      by_cases htarget : target ≤ height
                      -- the last height: the loop returns
                      · obtain rfl : height = target := Nat.le_antisymm hnext htarget
                        rw [if_pos htarget] at hok
                        rw [← (Prod.mk.inj hok).2]
                        exact hcopied
                      · rw [if_neg htarget] at hok
                        refine ih (Nat.lt_of_not_le htarget) ?_ hcopied hok
                        intro i later hi hrange
                        -- the payloads after this one are the records of the heights after it
                        have hshift : height + 1 + i = height + (i + 1) := by omega
                        rw [hshift] at hrange ⊢
                        refine hread (i + 1) later ?_ hrange
                        rw [hcons]
                        exact hi

/-- What is copied is mirrored. -/
theorem Copied.mirrored {mirror : Storage} {target height : Nat}
    (h : Copied J sha256 upstream mirror start (target + 1)) (hlo : start ≤ height)
    (hhi : height ≤ target) : Mirrored J sha256 upstream mirror target height := by
  obtain ⟨raw, block, bytes, rewards, fetched, hup, hmir, hgenuine, hindexed⟩ :=
    h height hlo (Nat.lt_succ_of_le hhi)
  constructor
  · intro idx hidx
    rw [hgenuine.elementAt_eq hup, hgenuine.elementAt_eq hmir]
    rcases hidx with rfl | rfl | rfl
    · exact ⟨block, rfl, rfl⟩
    · exact ⟨bytes, rfl, rfl⟩
    · exact ⟨rewards, rfl, rfl⟩
  · exact ⟨fetched, hgenuine.fetchedAt_eq hup, hgenuine.fetchedAt_eq hmir, hgenuine.height,
      hindexed⟩

end Copying

/-- **A bootstrap replicates.** Whatever goes on at the upstream beside the range, and
    however the messages are read: when the mirror's bootstrap returns with success, every
    height from the first it lacked to its target is the upstream's. -/
theorem bootstrap_replicates {J : Codec} {sha256 : Bytes → Bytes32} (wire : Wire J)
    {upstream mirror mirror' : Storage} (hverified : CameThroughVerify J sha256 upstream)
    (idleSecs : Nat) (backfillFloor : Option Nat) {target : UInt64}
    (connect : Except String Unit) {actions : List LinkAction} {l : Link}
    (hputs : PutsBeside (bootstrapStart mirror backfillFloor) target.toNat actions)
    (hrun : Run.exec (linkStep wire (rangeRequest (bootstrapStart mirror backfillFloor)
        target.toNat))
      (Link.start (rangeRequest (bootstrapStart mirror backfillFloor) target.toNat) upstream)
      actions = some l)
    (hok : bootstrap J sha256 idleSecs backfillFloor mirror (.ok target) connect l.events
      = (.ok, mirror')) :
    ∀ height, bootstrapStart mirror backfillFloor ≤ height → height ≤ target.toNat →
      Mirrored J sha256 l.upstream.storage mirror' target.toNat height := by
  intro height hlo hhi
  have hbound : target.toNat ≤ u64Max := by
    have := target.toNat_lt
    simp only [u64Max]
    omega
  have hle := hlo.trans hhi
  simp only [bootstrap, catchUp] at hok
  rw [if_neg (Nat.not_lt.mpr hle)] at hok
  cases connect with
  | error message => cases hok
  | ok u =>
      refine (streamLoop_copies hbound hle ?_ ?_ hok).mirrored hlo hhi
      · intro i payload hi hrange
        exact read_record wire hverified hbound hle hputs hrun hi hrange
      · -- nothing to be copied yet
        intro k hlo hhi
        omega

/-! ## A range of two records -/

/-- The notification of a `platform.subscription`. -/
def notification (result : Value) : Value :=
  .object [("method", .string "platform.subscription"), ("params", .object [("result", result)])]

/-- A sink that puts a document into a notification. -/
def textWire : Wire JsonText.codec where
  frame msg := JsonText.toVec (notification ((JsonText.fromSlice msg).getD .null))
  rawValue_toVec v := by
    change (JsonText.fromSlice (JsonText.toVec v)).map _ = _
    rw [JsonText.fromSlice_toVec]
    rfl
  payload_frame v := by
    change (JsonText.fromSlice (JsonText.toVec (notification
      ((JsonText.fromSlice (JsonText.toVec v)).getD .null)))).bind notificationPayload
      = some (v.mapFloat id)
    rw [JsonText.fromSlice_toVec, JsonText.fromSlice_toVec, JsonText.mapFloat_id]
    rfl

/-- The record of an empty block. -/
def recordText (height : UInt64) : Bytes :=
  encode ([jsonHalf sampleSha256 [] height [], bytesHalf [], .array []].map JsonText.codec.toVec)

/-- A store with one text at height 6 and one at height 7. -/
def storeOfTwo (six seven : Bytes) : Storage :=
  ⟨.P, some 6, memory, some (Store.holding 6 [(6, six), (7, seven)] (by simp)), [], []⟩

/-- The records at the heights 6 and 7. -/
def twoRecords : Storage := storeOfTwo (recordText 6) (recordText 7)

theorem genuine_recordText (height : UInt64) : ∃ fetched, Genuine JsonText.codec sampleSha256
    height.toNat (recordText height) (jsonHalf sampleSha256 [] height []) (bytesHalf [])
    (.array []) fetched := by
  have hagree := halvesAgree_jsonHalf sampleSha256 [] height []
  have hnone : ∀ want, (none : Option Nat) = some want → want = height.toNat := by
    intro want h
    cases h
  exact ⟨_, rfl, verify_of_agree JsonText.codec hagree none hnone, rfl, rfl, rfl, rfl⟩

theorem verifiedRecord_recordText (height : UInt64) :
    VerifiedRecord JsonText.codec sampleSha256 height.toNat (recordText height) := by
  obtain ⟨fetched, hgenuine⟩ := genuine_recordText height
  exact ⟨_, _, _, none, fetched, hgenuine.verified, hgenuine.height, hgenuine.elements,
    hgenuine.block, hgenuine.bytes, hgenuine.rewards⟩

theorem cameThroughVerify_twoRecords :
    CameThroughVerify JsonText.codec sampleSha256 twoRecords := by
  intro height raw hraw
  have hmem : (height, raw) ∈ [(6, recordText 6), (7, recordText 7)] :=
    mem_of_lookup ((Store.stored_holding height).symm.trans hraw)
  rcases List.mem_cons.mp hmem with heq | hmem
  · obtain ⟨rfl, rfl⟩ := Prod.mk.inj heq
    exact verifiedRecord_recordText 6
  · obtain ⟨rfl, rfl⟩ := Prod.mk.inj (List.mem_singleton.mp hmem)
    exact verifiedRecord_recordText 7

/-- **The turn that sends** a record. -/
theorem linkStep_sends {s : Storage} {height : UInt64} {raw : Bytes}
    (htext : raw = recordText height) (hraw : s.rawAt height.toNat = some raw) {req : Request}
    (hkind : req.kind = .oldRecords) (min contig read : Nat) (sent : List Bytes)
    (events : List StreamEvent) :
    linkStep textWire req
        ⟨⟨s, ⟨.readBlock, min, contig, height.toNat, sent⟩⟩, read, events⟩
        (.upstream .handler)
      = some ⟨⟨s, ⟨.readTarget, min, contig, saturatingAdd height.toNat 1,
        sent ++ [raw]⟩⟩, read, events⟩ := by
  obtain ⟨fetched, hgenuine⟩ := genuine_recordText height
  rw [← htext] at hgenuine
  have hread : readStored JsonText.codec .oldRecords s height.toNat = .ok (some raw) := by
    have hrecord : s.getRecord height.toNat = some raw := by
      rw [Storage.getRecord_eq, hraw, htext]
      rfl
    exact congrArg Except.ok hrecord
  have hself : JsonText.codec.rawValue raw = some raw := by
    rw [hgenuine.raw_eq]
    exact textWire.rawValue_toVec _
  simp only [linkStep, NeveRangeReplay.step, handlerStep, hkind, hread, hself, Option.map_some]

/-- The message that is read is the record's notification. -/
theorem linkStep_delivers {sys : NeveRangeReplay.System} {height : UInt64} {raw : Bytes}
    (htext : raw = recordText height) {read : Nat} (hsent : sys.handler.sent[read]? = some raw)
    (req : Request) (events : List StreamEvent) :
    linkStep textWire req ⟨sys, read, events⟩ (.deliver .none)
      = some ⟨sys, read + 1, events ++ [.frame (recordFrame sampleSha256 height) .none]⟩ := by
  obtain ⟨fetched, hgenuine⟩ := genuine_recordText height
  rw [← htext] at hgenuine
  have hframe : JsonText.codec.fromSlice (textWire.frame raw)
      = some (recordFrame sampleSha256 height) := by
    rw [hgenuine.raw_eq]
    change JsonText.fromSlice (JsonText.toVec (notification
      ((JsonText.fromSlice (JsonText.toVec (.array _))).getD .null))) = _
    rw [JsonText.fromSlice_toVec, JsonText.fromSlice_toVec]
    rfl
  simp only [linkStep, hsent, Option.map_some, hframe, Option.toList_some]

/-- The handler decides, reads the first record and sends it; the message is read; another
    block is stored upstream; the second record follows. -/
def twoActions (p : NeveStorageMap.Put) : List LinkAction :=
  [.upstream .handler, .upstream .handler, .upstream .handler, .upstream .handler,
    .upstream .handler, .deliver .none, .upstream (.put p), .upstream .handler,
    .upstream .handler, .deliver .none]

theorem putsBeside_twoActions {p : NeveStorageMap.Put} (hp : 7 < p.height) :
    PutsBeside 6 7 (twoActions p) := by
  intro q hq
  obtain rfl : p = q := by
    simpa [twoActions, LinkAction.upstreamAction] using hq
  exact fun h => absurd h.2 (Nat.not_le.mpr hp)

/-- A block above the range. -/
def latePut : NeveStorageMap.Put := ⟨.none, 9, sampleSha256 [], [], []⟩

theorem lt_latePut : 7 < latePut.height :=
  Nat.lt_of_lt_of_le (Nat.lt_succ_self 7) (Nat.le_succ 8)

/-- The events of the run are the notifications of both records. -/
theorem two_run {p : NeveStorageMap.Put} (hp : 7 < p.height) :
    ∃ l, Run.exec (linkStep textWire (rangeRequest 6 7))
        (Link.start (rangeRequest 6 7) twoRecords) (twoActions p) = some l ∧
      l.events = [.frame (recordFrame sampleSha256 6) .none,
        .frame (recordFrame sampleSha256 7) .none] := by
  -- what the texts are matters to the sending alone
  obtain ⟨six, hsix⟩ : ∃ raw, raw = recordText 6 := ⟨_, rfl⟩
  obtain ⟨seven, hseven⟩ : ∃ raw, raw = recordText 7 := ⟨_, rfl⟩
  rw [twoRecords, ← hsix, ← hseven]
  have hlater : ((storeOfTwo six seven).put p.fault p.height p.hash p.txHashes
      p.elements).2.rawAt 7 = some seven :=
    (NeveStorageMap.rawAt_put_other (Nat.ne_of_lt hp)).trans rfl
  have hsendSix : linkStep textWire (rangeRequest 6 7)
      ⟨⟨storeOfTwo six seven, ⟨.readBlock, 6, 7, 6, []⟩⟩, 0, []⟩ (.upstream .handler)
      = some ⟨⟨storeOfTwo six seven, ⟨.readTarget, 6, 7, 7, [six]⟩⟩, 0, []⟩ :=
    linkStep_sends hsix rfl rfl 6 7 0 [] []
  have hreadSix : linkStep textWire (rangeRequest 6 7)
      ⟨⟨storeOfTwo six seven, ⟨.readTarget, 6, 7, 7, [six]⟩⟩, 0, []⟩ (.deliver .none)
      = some ⟨⟨storeOfTwo six seven, ⟨.readTarget, 6, 7, 7, [six]⟩⟩, 1,
        [.frame (recordFrame sampleSha256 6) .none]⟩ :=
    linkStep_delivers hsix rfl _ []
  generalize hput : ((storeOfTwo six seven).put p.fault p.height p.hash p.txHashes
    p.elements).2 = later at hlater
  have hsendSeven : linkStep textWire (rangeRequest 6 7)
      ⟨⟨later, ⟨.readBlock, 6, 7, 7, [six]⟩⟩, 1,
        [.frame (recordFrame sampleSha256 6) .none]⟩ (.upstream .handler)
      = some ⟨⟨later, ⟨.readTarget, 6, 7, 8, [six, seven]⟩⟩, 1,
        [.frame (recordFrame sampleSha256 6) .none]⟩ :=
    linkStep_sends hseven hlater rfl 6 7 1 [six] _
  have hreadSeven : linkStep textWire (rangeRequest 6 7)
      ⟨⟨later, ⟨.readTarget, 6, 7, 8, [six, seven]⟩⟩, 1,
        [.frame (recordFrame sampleSha256 6) .none]⟩ (.deliver .none)
      = some ⟨⟨later, ⟨.readTarget, 6, 7, 8, [six, seven]⟩⟩, 2,
        [.frame (recordFrame sampleSha256 6) .none,
          .frame (recordFrame sampleSha256 7) .none]⟩ :=
    linkStep_delivers hseven rfl _ _
  have hwrite : linkStep textWire (rangeRequest 6 7)
      ⟨⟨storeOfTwo six seven, ⟨.readTarget, 6, 7, 7, [six]⟩⟩, 1,
        [.frame (recordFrame sampleSha256 6) .none]⟩ (.upstream (.put p))
      = some ⟨⟨later, ⟨.readTarget, 6, 7, 7, [six]⟩⟩, 1,
        [.frame (recordFrame sampleSha256 6) .none]⟩ := by
    rw [← hput]
    rfl
  exact ⟨_, Run.exec_step rfl (Run.exec_step rfl (Run.exec_step rfl (Run.exec_step rfl
    (Run.exec_step hsendSix (Run.exec_step hreadSix (Run.exec_step hwrite (Run.exec_step rfl
    (Run.exec_step hsendSeven (Run.exec_step hreadSeven (Run.exec_nil _)))))))))), rfl⟩

/-- The mirror that lacks both heights has them after the bootstrap. -/
theorem bootstrap_replicates_six_seven :
    ∃ (l : Link) (mirror' : Storage), bootstrap JsonText.codec sampleSha256 60 (some 6)
        (Storage.fresh memory .P (some 6)) (.ok 7) (.ok ()) l.events = (.ok, mirror') ∧
      Mirrored JsonText.codec sampleSha256 l.upstream.storage mirror' 7 6 ∧
      Mirrored JsonText.codec sampleSha256 l.upstream.storage mirror' 7 7 := by
  obtain ⟨l, hrun, hevents⟩ := two_run lt_latePut
  obtain ⟨mirror', hok, -⟩ := bootstrap_two_records JsonText.codec sampleSha256
  rw [← hevents] at hok
  have hstart : bootstrapStart (Storage.fresh memory .P (some 6)) (some 6) = 6 := rfl
  have htarget : UInt64.toNat 7 = 7 := rfl
  have hall := @bootstrap_replicates JsonText.codec sampleSha256 textWire _
    (Storage.fresh memory .P (some 6)) mirror' cameThroughVerify_twoRecords 60 (some 6) 7
    (.ok ()) (twoActions latePut) l
  rw [hstart, htarget] at hall
  have hboth := hall (putsBeside_twoActions lt_latePut) hrun hok
  exact ⟨l, mirror', hok, hboth 6 (Nat.le_refl 6) (Nat.le_succ 6),
    hboth 7 (Nat.le_succ 6) (Nat.le_refl 7)⟩

end NeveReplication
