import Neve.RepublishProofs
import Neve.SubscribeProofs

/-! # Chains of C-chain mirrors

    A neve follows another by subscribing to its live fan-out, once for every
    session, and announces to its own subscribers what it stores of it.  The two
    are run together: the upstream's ring and all its other subscribers, the
    socket of the session, and the instance downstream with its bootstrap and its
    backfill, in any order. -/

namespace NeveRelay

open JsonValue ByteText NeveRecord NeveStorage NevePlatformIngest BroadcastRing
open NeveEthBackfill (IngestCfg fetchRpc quantity)
open NeveEthInstance (Instance classifyFrame liveBlock WsEvent)
open NeveEthIngest (prepareBlock)
open NeveSubscribe NeveRepublish

/-! ## The link -/

/-- A notification of a subscription as it goes over the socket. -/
def notification (method : String) (subscription payload : Value) : Value :=
  .object [("jsonrpc", .string "2.0"), ("method", .string method),
    ("params", .object [("result", payload), ("subscription", subscription)])]

/-- An upstream's fan-out and the instance that follows it.  A session is the
    index of its subscriber and how many of its messages were read. -/
structure Link where
  up : Fanout
  down : Feed Instance
  session : Option (Nat × Nat)

/-- What can happen: anything upstream, the start of a session, the next message
    read from its socket, its end, and every other step downstream. -/
inductive LinkAction where
  | up (a : NeveSubscribe.Action)
  | connect
  | read (subscription : Value) (body : Option Value) (now : Nat) (fault : Fault)
  | disconnect
  | down (a : NeveEthInstance.Action)

/-- Is this step downstream the reading of a live frame? -/
def readsFrame : NeveEthInstance.Action → Bool
  | .ingest (.frame ..) => true
  | _ => false

section Steps

variable (J : Codec) (cfg : IngestCfg)

/-- The kind a neve follows its upstream by. -/
def subscribedKind : SubKind := if cfg.subscribeBlocks then .NewBlocks else .NewHeads

def linkStep (l : Link) : LinkAction → Option Link
  | .up a => (NeveSubscribe.step J .C l.up a).map fun up => { l with up := up }
  | .connect =>
      (NeveSubscribe.step J .C l.up (.subscribe ⟨subscribedKind cfg, none, none⟩)).map fun up =>
        { l with up := up, session := some (l.up.subscribers.length, 0) }
  | .read subscription body now fault =>
      l.session.bind fun (i, n) =>
      l.up.subscribers[i]?.bind fun s =>
      s.delivered[n]?.bind fun payload =>
      (J.fromSlice (J.toVec (notification "eth_subscription" subscription payload))).bind fun v =>
      ((ethPath J cfg).feed l.down (.ingest (.frame v body now fault))).map fun down =>
        { l with down := down, session := some (i, n + 1) }
  | .disconnect => some { l with session := none }
  | .down a =>
      if readsFrame a then none
      else ((ethPath J cfg).feed l.down a).map fun down => { l with down := down }

def Link.start (broadcast : Broadcast LiveUpdate) (i : Instance) : Link :=
  ⟨Fanout.new broadcast, Feed.start i, none⟩

end Steps

/-! ## One hop -/

/-- The hash a block names. -/
def blockHash (block : Value) : Option String := (block.get "hash").bind Value.asStr

/-- The hashes of the blocks of some updates. -/
def hashes (updates : List LiveUpdate) : List (Option String) :=
  updates.map fun u => blockHash u.block

section Hop

variable {J : Codec} {cfg : IngestCfg}

theorem blockHash_mapFloat (g : Decimal → Decimal) (block : Value) :
    blockHash (block.mapFloat g) = blockHash block :=
  Value.get_asStr_mapFloat g block "hash"

theorem lookup_filter_ne {k k' : String} (h : k ≠ k') (fields : List (String × Value)) :
    (fields.filter fun field => field.1 ≠ k').lookup k = fields.lookup k := by
  induction fields with
  | nil => rfl
  | cons field rest ih =>
      obtain ⟨name, v⟩ := field
      by_cases hname : name = k'
      · rw [List.filter_cons_of_neg (by simp [hname]), ih, List.lookup_cons,
          beq_eq_false_iff_ne.mpr (hname ▸ h)]
      · rw [List.filter_cons_of_pos (by simp [hname]), List.lookup_cons, List.lookup_cons, ih]

/-- Stripping a field leaves the others. -/
theorem get_removeField {k k' : String} (h : k ≠ k') (v : Value) :
    (removeField k' v).get k = v.get k := by
  cases v with
  | object fields => exact lookup_filter_ne h fields
  | _ => rfl

/-- Headers and whole blocks name the block's hash alike. -/
theorem blockHash_project {update : LiveUpdate} {payload : Value}
    (h : project update (subscribedKind cfg) = some payload) :
    blockHash payload = blockHash update.block := by
  simp only [subscribedKind] at h
  split at h
  · rw [← Option.some.inj h]
  · rw [← Option.some.inj h]
    simp only [blockHash]
    rw [get_removeField (by decide)]

/-- An event of a live frame. -/
theorem classifyFrame_notification {subscription payload v : Value} {event : WsEvent}
    (hv : J.fromSlice (J.toVec (notification "eth_subscription" subscription payload)) = some v)
    (hevent : classifyFrame v = some event) :
    ∃ height hash, blockHash payload = some hash ∧
      (event = .NewHead height hash ∨ ∃ block, event = .NewBlock height hash block) := by
  rw [J.fromSlice_toVec] at hv
  have hv' : v = .object [("jsonrpc", .string "2.0"), ("method", .string "eth_subscription"),
      ("params", .object [("result", payload.mapFloat J.refloat),
        ("subscription", subscription.mapFloat J.refloat)])] :=
    (Option.some.inj hv).symm
  rw [hv'] at hevent
  have hread : ((payload.mapFloat J.refloat).get "number").bind quantity >>= (fun height =>
      ((payload.mapFloat J.refloat).get "hash").bind Value.asStr >>= fun hash =>
        some (if ((payload.mapFloat J.refloat).get "transactions").isSome
          then WsEvent.NewBlock height hash (payload.mapFloat J.refloat)
          else .NewHead height hash)) = some event := hevent
  obtain ⟨height, -, hrest⟩ := Option.bind_eq_some_iff.mp hread
  obtain ⟨hash, hhash, hsome⟩ := Option.bind_eq_some_iff.mp hrest
  refine ⟨height, hash, ?_, ?_⟩
  · rw [← blockHash_mapFloat J.refloat]
    exact hhash
  · have heq := Option.some.inj hsome
    split at heq
    · exact Or.inr ⟨_, heq.symm⟩
    · exact Or.inl heq.symm

/-- The block a frame leads to goes by the hash of the frame's payload. -/
theorem liveBlock_hash {subscription payload v : Value} {body : Option Value} {height : Nat}
    {hash : String} {block : Value}
    (hv : J.fromSlice (J.toVec (notification "eth_subscription" subscription payload)) = some v)
    (hlive : liveBlock v body = some (height, hash, block)) :
    blockHash payload = some hash := by
  simp only [liveBlock] at hlive
  cases hevent : classifyFrame v with
  | none =>
      rw [hevent] at hlive
      cases hlive
  | some event =>
      obtain ⟨height', hash', hpayload, hkind⟩ := classifyFrame_notification hv hevent
      rw [hevent] at hlive
      rcases hkind with rfl | ⟨block', rfl⟩
      · obtain ⟨body', -, heq⟩ := Option.map_eq_some_iff.mp hlive
        obtain ⟨-, rfl, -⟩ := heq
        exact hpayload
      · obtain ⟨-, rfl, -⟩ := Option.some.inj hlive
        exact hpayload

/-- A block is only prepared under the hash it names itself. -/
theorem prepareBlock_blockHash {expectedHash : String} {block : Value}
    {p : NeveEthIngest.PreparedBlock} (h : prepareBlock J expectedHash block = some p) :
    blockHash block = some expectedHash := by
  simp only [prepareBlock] at h
  split at h
  · cases h
  · rename_i hsame
    have hname : (blockHash block).getD "" = expectedHash := not_not.mp hsame
    cases hb : blockHash block with
    | none =>
        rw [hb] at hname
        rw [← hname] at h
        cases h
    | some hash =>
        rw [hb] at hname
        rw [← hname]
        rfl

/-- A step downstream that reads no frame announces nothing. -/
theorem ethLive_quiet {i : Instance} {a : NeveEthInstance.Action}
    (h : readsFrame a = false) : (ethLive J cfg true i a).sent = [] := by
  cases a with
  | backfill b => rfl
  | ingest a =>
      cases a with
      | target health => rfl
      | oldBlock frame fault => rfl
      | frame v body now fault => cases h
      | logs result now fault =>
          simp only [ethLive]
          split
          · split <;> rfl
          · rfl

/-- Reading a frame announces at most one block, by the hash of its payload. -/
theorem ethLive_frame {i : Instance} {subscription payload v : Value} {body : Option Value}
    {now : Nat} {fault : Fault}
    (hv : J.fromSlice (J.toVec (notification "eth_subscription" subscription payload)) = some v) :
    hashes (ethLive J cfg true i (.ingest (.frame v body now fault))).sent = [] ∨
      hashes (ethLive J cfg true i (.ingest (.frame v body now fault))).sent
        = [blockHash payload] := by
  simp only [ethLive]
  split
  · split
    · exact Or.inl rfl
    · rename_i height hash block hlive
      rw [liveBlock_hash hv hlive]
      split
      · split
        · exact Or.inl rfl
        · rename_i p hp
          simp only [bufferBlockLive]
          split
          · exact Or.inl rfl
          · exact Or.inl rfl
          · refine Or.inr ?_
            show [blockHash block] = _
            rw [prepareBlock_blockHash hp]
      · simp only [persistBlockLive]
        split
        · exact Or.inl rfl
        · rename_i p hp
          split
          · exact Or.inl rfl
          · refine Or.inr ?_
            show [blockHash block] = _
            rw [prepareBlock_blockHash hp]
  · exact Or.inl rfl

end Hop

/-! ## Over every run -/

/-- The messages of a session from its `n`-th on are announcements past `bound`. -/
structure Reading (announced : List LiveUpdate) (bound n : Nat) (s : Subscriber) : Prop where
  reached : bound ≤ s.joined + (s.cursor - s.start)
  within : n ≤ s.delivered.length
  ahead : ((values s.received).drop n).Sublist
    ((announced.take (s.joined + (s.cursor - s.start))).drop bound)

/-- What was announced downstream comes from before `bound`, what the session has
    still to read from after it. -/
structure Behind (cfg : IngestCfg) (l : Link) (bound : Nat) : Prop where
  bound_le : bound ≤ l.up.announced.length
  sent : (hashes l.down.live.sent).Sublist (hashes (l.up.announced.take bound))
  session : ∀ i n, l.session = some (i, n) → ∃ s, l.up.subscribers[i]? = some s ∧
    s.kind = subscribedKind cfg ∧ Reading l.up.announced bound n s

structure LinkOk (cfg : IngestCfg) (l : Link) : Prop where
  fanout : ∃ history, FanoutOk .C l.up history
  behind : ∃ bound, Behind cfg l bound

section Run

variable {J : Codec} {cfg : IngestCfg}

theorem hashes_append (xs ys : List LiveUpdate) : hashes (xs ++ ys) = hashes xs ++ hashes ys :=
  List.map_append

/-- Every value received on this chain becomes one message. -/
theorem message_of_value {announced : List LiveUpdate} {s : Subscriber}
    (h : Streams announced s) (hkind : s.kind = subscribedKind cfg) {n : Nat} {payload : Value}
    (hn : s.delivered[n]? = some payload) :
    ∃ update, (values s.received)[n]? = some update ∧
      project update (subscribedKind cfg) = some payload := by
  have hlive : s.kind.isLive = true ∧
      (s.kind = .NewRecords → publishesLiveRecords .C = true) := by
    rw [hkind]
    simp only [subscribedKind]
    split
    · exact ⟨rfl, fun h => by cases h⟩
    · exact ⟨rfl, fun h => by cases h⟩
  have hannounces : ∀ update, Announces .C update := fun _ h => by cases h
  have hall : (values s.received).map (project · s.kind) = (payloads s.kind s.received).map some :=
    payloads_all fun update _ => project_isSome (hannounces update) hlive.1 hlive.2
  obtain ⟨owed, howed, -⟩ := h.owes
  have hlt := (List.getElem?_eq_some_iff.mp hn).1
  have hget : ((values s.received).map (project · s.kind))[n]? = some (some payload) := by
    rw [hall, List.getElem?_map, howed, List.getElem?_append_left hlt, hn]
    rfl
  rw [List.getElem?_map] at hget
  obtain ⟨update, hupdate, hp⟩ := Option.map_eq_some_iff.mp hget
  exact ⟨update, hupdate, hkind ▸ hp⟩

/-- A subscriber that goes on receives announcements past where it stood. -/
theorem Reading.later {announced announced' : List LiveUpdate} {bound n : Nat}
    {s s' : Subscriber} (h : Reading announced bound n s) (hs : Streams announced s)
    (hs' : Streams announced' s') (hlater : Later s s')
    (hmore : ∃ more, announced' = announced ++ more) : Reading announced' bound n s' := by
  obtain ⟨extra, hreceived⟩ := hlater.received
  obtain ⟨more, hdelivered⟩ := hlater.delivered
  obtain ⟨later, rfl⟩ := hmore
  have hseen := hs.follows.accounts
  have hle := (hs.follows.le (Nat.zero_le _)).2
  have hfollows := hs'.follows
  have hjoined := hs.joined_le
  have hreached := h.reached
  rw [hlater.joined, hreceived] at hfollows
  obtain ⟨mid, hold, hnew⟩ := hfollows.append_inv
  have hmid := hold.accounts
  have hstop := hnew.accounts
  have hlen : (announced.drop s.joined).length = announced.length - s.joined := List.length_drop
  obtain ⟨owed, howed, -⟩ := hs.owes
  have hwithin : n ≤ (values s.received).length := by
    have hpay : (payloads s.kind s.received).length ≤ (values s.received).length :=
      List.length_filterMap_le ..
    rw [howed, List.length_append] at hpay
    have := h.within
    omega
  refine ⟨?_, ?_, ?_⟩
  · rw [hlater.joined]
    omega
  · rw [hdelivered, List.length_append]
    exact Nat.le_trans h.within (Nat.le_add_right ..)
  · rw [hreceived, values_append, List.drop_append_of_le_length hwithin, hlater.joined]
    have hsplit : s.joined + (s'.cursor - s'.start)
        = s.joined + (s.cursor - s.start) + (s'.cursor - s'.start - mid) := by omega
    rw [hsplit, List.take_add, List.take_append_of_le_length (by omega),
      List.drop_append_of_le_length (by rw [List.length_take]; omega)]
    refine h.ahead.append ?_
    have hsub := hnew.sublist
    rw [List.drop_drop, show s.joined + mid = s.joined + (s.cursor - s.start) by omega] at hsub
    exact hsub

/-- The next message read moves the bound past its announcement. -/
theorem Reading.next {announced : List LiveUpdate} {bound n : Nat} {s : Subscriber}
    {update : LiveUpdate} (h : Reading announced bound n s) (hs : Streams announced s)
    (hlt : n < s.delivered.length) (hu : (values s.received)[n]? = some update) :
    ∃ skipped, update ∈ skipped ∧
      announced.take (bound + skipped.length) = announced.take bound ++ skipped ∧
      bound + skipped.length ≤ announced.length ∧
      Reading announced (bound + skipped.length) (n + 1) s := by
  obtain ⟨hn, hget⟩ := List.getElem?_eq_some_iff.mp hu
  have hahead := h.ahead
  rw [← List.getElem_cons_drop hn, hget] at hahead
  obtain ⟨skipped, rest, hsplit, hmem, hrest⟩ := List.cons_sublist_iff.mp hahead
  have hle := (hs.follows.le (Nat.zero_le _)).2
  rw [List.length_drop] at hle
  have hjoined := hs.joined_le
  have hreached := h.reached
  have hwhole : announced.take (s.joined + (s.cursor - s.start))
      = announced.take bound ++ (skipped ++ rest) := by
    have heq := List.take_append_drop bound (announced.take (s.joined + (s.cursor - s.start)))
    rw [List.take_take, Nat.min_eq_left hreached, hsplit] at heq
    exact heq.symm
  have hlen := congrArg List.length hwhole
  rw [List.length_append, List.length_append, List.length_take, List.length_take] at hlen
  refine ⟨skipped, hmem, ?_, by omega, by omega, hlt, ?_⟩
  · have htake := congrArg (List.take (bound + skipped.length)) hwhole
    rw [List.take_take, Nat.min_eq_left (by omega), ← List.append_assoc] at htake
    rw [htake]
    exact List.take_left' (by rw [List.length_append, List.length_take]; omega)
  · rw [hwhole, ← List.append_assoc, List.drop_left' (by
      rw [List.length_append, List.length_take]; omega)]
    exact hrest

theorem feed_sent {f f' : Feed Instance} {a : NeveEthInstance.Action}
    (h : (ethPath J cfg).feed f a = some f') :
    f'.live.sent = f.live.sent ++ (ethLive J cfg true f.state a).sent := by
  rw [(feed_eq_some h).2]
  rfl

theorem linkOk_start (broadcast : Broadcast LiveUpdate) (i : Instance) :
    LinkOk cfg (Link.start broadcast i) where
  fanout := ⟨[], fanoutOk_new⟩
  behind := ⟨0, Nat.le_refl _, List.Sublist.refl _, fun i n h => by cases h⟩

/-- Whatever happens upstream, what was announced downstream stays behind. -/
theorem Behind.up {l : Link} {up : Fanout} {a : NeveSubscribe.Action} {bound : Nat}
    (h : Behind cfg l bound) (hok : ∃ history, FanoutOk .C l.up history)
    (hstep : Stepped J .C l.up a up) : Behind cfg { l with up := up } bound := by
  obtain ⟨history, hfan⟩ := hok
  obtain ⟨history', hfan'⟩ := hfan.step hstep
  obtain ⟨⟨more, hmore⟩, hlater⟩ := hstep.later
  refine ⟨?_, ?_, ?_⟩
  · show bound ≤ up.announced.length
    rw [hmore, List.length_append]
    exact Nat.le_trans h.bound_le (Nat.le_add_right ..)
  · show (hashes l.down.live.sent).Sublist (hashes (up.announced.take bound))
    rw [hmore, List.take_append_of_le_length h.bound_le]
    exact h.sent
  · intro i n hin
    obtain ⟨s, hs, hkind, hreading⟩ := h.session i n hin
    obtain ⟨s', hs', hafter⟩ := hlater i s hs
    exact ⟨s', hs', hafter.kind.trans hkind, hreading.later
      (hfan.streams s (List.mem_of_getElem? hs)) (hfan'.streams s' (List.mem_of_getElem? hs'))
      hafter ⟨more, hmore⟩⟩

/-- The subscription of a mirror is one its upstream serves. -/
theorem subscribe_live (f : Fanout) :
    NeveSubscribe.step J .C f (.subscribe ⟨subscribedKind cfg, none, none⟩)
      = some { f with subscribers := f.subscribers ++ [f.newcomer (subscribedKind cfg)] } := by
  simp only [subscribedKind]
  split <;> rfl

/-- **Step lemma.** -/
theorem linkOk_step {l l' : Link} {a : LinkAction} (h : LinkOk cfg l)
    (hstep : linkStep J cfg l a = some l') : LinkOk cfg l' := by
  obtain ⟨history, hfan⟩ := h.fanout
  obtain ⟨bound, hbehind⟩ := h.behind
  cases a with
  | up a =>
      obtain ⟨up, hup, rfl⟩ := Option.map_eq_some_iff.mp hstep
      exact ⟨hfan.step (step_stepped hup), bound, hbehind.up h.fanout (step_stepped hup)⟩
  | connect =>
      obtain ⟨up, hup, rfl⟩ := Option.map_eq_some_iff.mp hstep
      have hbehind' := hbehind.up h.fanout (step_stepped hup)
      refine ⟨hfan.step (step_stepped hup), bound, hbehind'.bound_le, hbehind'.sent, ?_⟩
      intro i n hin
      obtain ⟨rfl, rfl⟩ := Prod.mk.inj (Option.some.inj hin)
      rw [subscribe_live] at hup
      rw [← Option.some.inj hup]
      refine ⟨l.up.newcomer (subscribedKind cfg), List.getElem?_concat_length .., rfl, ?_⟩
      exact ⟨Nat.le_trans hbehind.bound_le (Nat.le_add_right ..), Nat.zero_le _,
        List.nil_sublist _⟩
  | read subscription body now fault =>
      simp only [linkStep] at hstep
      obtain ⟨⟨i, n⟩, hsession, hstep⟩ := Option.bind_eq_some_iff.mp hstep
      obtain ⟨s, hs, hstep⟩ := Option.bind_eq_some_iff.mp hstep
      obtain ⟨payload, hpayload, hstep⟩ := Option.bind_eq_some_iff.mp hstep
      obtain ⟨v, hv, hstep⟩ := Option.bind_eq_some_iff.mp hstep
      obtain ⟨down, hdown, rfl⟩ := Option.map_eq_some_iff.mp hstep
      obtain ⟨s', hs', hkind, hreading⟩ := hbehind.session i n hsession
      rw [Option.some.inj (hs'.symm.trans hs)] at hkind hreading
      have hstream := hfan.streams s (List.mem_of_getElem? hs)
      obtain ⟨update, hupdate, hproject⟩ := message_of_value hstream hkind hpayload
      have hlt := (List.getElem?_eq_some_iff.mp hpayload).1
      obtain ⟨skipped, hmem, htake, hle, hnext⟩ := hreading.next hstream hlt hupdate
      refine ⟨h.fanout, bound + skipped.length, hle, ?_, ?_⟩
      · show (hashes down.live.sent).Sublist (hashes (l.up.announced.take _))
        rw [feed_sent hdown, hashes_append, htake, hashes_append]
        refine hbehind.sent.append ?_
        have hframe :
          hashes (ethLive J cfg true l.down.state (.ingest (.frame v body now fault))).sent
              = [] ∨
            hashes (ethLive J cfg true l.down.state (.ingest (.frame v body now fault))).sent
              = [blockHash payload] := ethLive_frame hv
        rcases hframe with hnone | hone
        · rw [hnone]
          exact List.nil_sublist _
        · rw [hone, blockHash_project hproject]
          exact List.singleton_sublist.mpr (List.mem_map_of_mem hmem)
      · intro i' n' hin
        obtain ⟨rfl, rfl⟩ := Prod.mk.inj (Option.some.inj hin)
        exact ⟨s, hs, hkind, hnext⟩
  | disconnect =>
      rw [← Option.some.inj hstep]
      exact ⟨h.fanout, bound, hbehind.bound_le, hbehind.sent, fun i n hin => by cases hin⟩
  | down a =>
      simp only [linkStep] at hstep
      split at hstep
      · cases hstep
      · rename_i hquiet
        obtain ⟨down, hdown, rfl⟩ := Option.map_eq_some_iff.mp hstep
        refine ⟨h.fanout, bound, hbehind.bound_le, ?_, hbehind.session⟩
        show (hashes down.live.sent).Sublist _
        rw [feed_sent hdown, ethLive_quiet (Bool.eq_false_iff.mpr hquiet), List.append_nil]
        exact hbehind.sent

/-- **Run lemma.** -/
theorem link_in_order {broadcast : Broadcast LiveUpdate} {i : Instance}
    {as : List LinkAction} {l : Link}
    (hrun : Run.exec (linkStep J cfg) (Link.start broadcast i) as = some l) :
    (hashes l.down.live.sent).Sublist (hashes l.up.announced) := by
  have hok : LinkOk cfg l := by
    refine Run.exec_invariant_all ?_ (linkOk_start broadcast i) hrun
    intro l a l' h hstep
    exact linkOk_step h hstep
  obtain ⟨bound, hbehind⟩ := hok.behind
  exact hbehind.sent.trans ((List.take_sublist ..).map _)

/-- What the last of `n` neves in a row announces, each following the one before
    it in some run, when the first announces `origin`. -/
inductive Relayed (J : Codec) (origin : List LiveUpdate) : Nat → List LiveUpdate → Prop where
  | origin : Relayed J origin 0 origin
  | hop {n : Nat} {cfg : IngestCfg} {broadcast : Broadcast LiveUpdate} {i : Instance}
      {as : List LinkAction} {l : Link} (h : Relayed J origin n l.up.announced)
      (hrun : Run.exec (linkStep J cfg) (Link.start broadcast i) as = some l) :
      Relayed J origin (n + 1) l.down.live.sent

/-- Down a chain of mirrors of any length, each reconnecting and lagging as it
    may, with its bootstrap and its backfill around: the blocks announced at the
    end are, by hash, blocks announced at the origin, in that order, none more
    often than there. -/
theorem relayed_in_order {origin last : List LiveUpdate} {n : Nat}
    (h : Relayed J origin n last) : (hashes last).Sublist (hashes origin) := by
  induction h with
  | origin => exact List.Sublist.refl _
  | hop _ hrun ih => exact (link_in_order hrun).trans ih

end Run

/-! ## One block through one mirror -/

def relayedBlock : Value :=
  .object [("number", .string "0x7"),
    ("hash", .string ("0x" ++ String.ofList (List.replicate 64 '0'))),
    ("transactions", .array [])]

/-- The mirror subscribes, the block is announced, and its header sent. -/
def sendOne : List LinkAction :=
  [.connect, .up (.turn 0 (.accept true)), .up (.announce ⟨relayedBlock, none⟩),
    .up (.turn 0 .receive), .up (.turn 0 (.sent true))]

/-- The mirror reads the header and fetches the block. -/
def readOne : LinkAction := .read (.string "0x1") (some relayedBlock) 0 .none

theorem sendOne_readOne :
    ∃ l, Run.exec (linkStep JsonText.codec plainCfg)
        (Link.start rings (Instance.start plainCfg (Storage.fresh memory .C (some 7))))
        (sendOne ++ [readOne]) = some l ∧
      l.up.announced = [⟨relayedBlock, none⟩] ∧ l.down.live.sent.length = 1 := by
  have hv : JsonText.codec.fromSlice (JsonText.codec.toVec (notification "eth_subscription"
      (.string "0x1") (removeField "transactions" relayedBlock)))
      = some (notification "eth_subscription" (.string "0x1")
          (removeField "transactions" relayedBlock)) := by
    rw [JsonText.codec.fromSlice_toVec]
    rfl
  have hsent : ∃ l, Run.exec (linkStep JsonText.codec plainCfg)
        (Link.start rings (Instance.start plainCfg (Storage.fresh memory .C (some 7))))
        sendOne = some l ∧ l.up.announced = [⟨relayedBlock, none⟩] ∧
      l.session = some (0, 0) ∧
      (l.up.subscribers[0]?.bind fun s => s.delivered[0]?)
        = some (removeField "transactions" relayedBlock) ∧
      l.down = Feed.start (Instance.start plainCfg (Storage.fresh memory .C (some 7))) :=
    ⟨_, rfl, rfl, rfl, rfl, rfl⟩
  obtain ⟨l, hrun, hann, hsession, hmsg, hdown⟩ := hsent
  obtain ⟨s, hs, hpayload⟩ := Option.bind_eq_some_iff.mp hmsg
  have hframe : ∃ down, (ethPath JsonText.codec plainCfg).feed
      (Feed.start (Instance.start plainCfg (Storage.fresh memory .C (some 7))))
      (.ingest (.frame (notification "eth_subscription" (.string "0x1")
        (removeField "transactions" relayedBlock)) (some relayedBlock) 0 .none)) = some down ∧
      down.live.sent.length = 1 := ⟨_, rfl, rfl⟩
  obtain ⟨down, hfeed, hlen⟩ := hframe
  have hread : linkStep JsonText.codec plainCfg l readOne = some ⟨l.up, down, some (0, 1)⟩ := by
    simp only [readOne, linkStep, hsession, hs, hpayload, hv, hdown, hfeed,
      Option.bind_some, Option.map_some]
  exact ⟨_, Run.exec_trans hrun (Run.exec_step hread rfl), hann, hlen⟩

theorem relayed_in_order_one :
    ∃ last, Relayed JsonText.codec [⟨relayedBlock, none⟩] 1 last ∧ last.length = 1 ∧
      (hashes last).Sublist (hashes [⟨relayedBlock, none⟩]) := by
  obtain ⟨l, hrun, hann, hlen⟩ := sendOne_readOne
  have hrelay : Relayed JsonText.codec [⟨relayedBlock, none⟩] 1 l.down.live.sent :=
    .hop (hann ▸ .origin) hrun
  exact ⟨_, hrelay, hlen, relayed_in_order hrelay⟩

end NeveRelay
