import Neve.EthBackfillProofs
import Neve.JsonTextProofs

/-! # Logs sources — one element by every route

    A height's logs reach the store from a window of `eth_getLogs`, from the block's
    receipts, or from either of them as the height arrives live.  A window keeps for each
    height the logs that name it, in the order of the reply (`bucket_load`); so against an
    upstream whose two endpoints agree, every route stores the same bytes
    (`logs_sources_agree`). -/

namespace NeveEthBackfill

open JsonValue ByteText NeveRecord NeveStorage

/-! ## The window as buckets -/

/-- The logs a window holds for a height. -/
def LogWindow.bucket (w : LogWindow) (height : Nat) : List Value :=
  (w.byHeight.lookup height).getD []

/-- The logs that name a height. -/
def logsNaming (height : Nat) (items : List Value) : List Value :=
  items.filter fun log => decide (blockNumberOf log = some height)

theorem bucket_push (w : LogWindow) (log : Value) (height : Nat) :
    (w.push log).bucket height = w.bucket height ++ logsNaming height [log] := by
  simp only [LogWindow.push, LogWindow.bucket, logsNaming]
  cases hn : blockNumberOf log with
  | none => simp [hn]
  | some k =>
      dsimp only
      by_cases hk : k = height
      · rw [hk, AList.lookup_insert]
        simp [hn, hk]
      · rw [AList.lookup_insert_ne (Ne.symm hk)]
        simp [hn, hk]

theorem bucket_foldl_push (items : List Value) (w : LogWindow) (height : Nat) :
    (items.foldl LogWindow.push w).bucket height = w.bucket height ++ logsNaming height items := by
  induction items generalizing w with
  | nil => simp [logsNaming]
  | cons log rest ih =>
      rw [List.foldl_cons, ih, bucket_push, List.append_assoc]
      simp only [logsNaming]
      rw [← List.filter_append, List.singleton_append]

/-- **A window holds the logs that name a height**, in the order of the reply. -/
theorem bucket_load (items : List Value) (height : Nat) :
    (LogWindow.load (.array items)).bucket height = logsNaming height items := by
  have hempty : LogWindow.empty.bucket height = [] := rfl
  rw [LogWindow.load, bucket_foldl_push, hempty, List.nil_append]

/-- What a window stores for a height is its bucket. -/
theorem serialized_eq (J : Codec) (w : LogWindow) (height : Nat) :
    (w.serialized J height).1 = J.toVec (.array (w.bucket height)) := by
  simp only [LogWindow.serialized, LogWindow.bucket]
  cases w.byHeight.lookup height with
  | none => exact J.toVec_nil.symm
  | some logs => rfl

/-! ## An upstream whose endpoints agree -/

/-- The logs of a block by its receipts. -/
def blockLogs (receipts : List Value) : List Value :=
  (receipts.filterMap fun r => (r.get "logs").bind Value.asArray).flatten

/-- Two endpoints that agree over the heights from `a` to `b`: the logs of a sub-range are
    those of its blocks' receipts, in order, and each names its block's height. -/
structure SourcesAgree (receipts : Nat → List Value) (getLogs : Nat → Nat → Value)
    (a b : Nat) : Prop where
  reply : ∀ x y, a ≤ x → x ≤ y → y ≤ b →
    getLogs x y = .array ((List.range' x (y + 1 - x)).flatMap fun h => blockLogs (receipts h))
  number : ∀ h, a ≤ h → h ≤ b → ∀ log ∈ blockLogs (receipts h),
    log.get "blockNumber" = some (.string (lowerHexText h))

theorem quantity_lowerHexText {n : Nat} (h : n < 2 ^ 64) :
    quantity (.string (lowerHexText n)) = some n := by
  have htrim : trimStart0x (lowerHexText n).toList = Nat.toDigits 16 n := by
    rw [lowerHexText, String.toList_ofList]
    exact trimStart0x_toDigits n
  show u64FromRadix16 (trimStart0x (lowerHexText n).toList) = some n
  rw [htrim, u64FromRadix16_toDigits h]

theorem logsNaming_eq_self {height : Nat} {logs : List Value}
    (h : ∀ log ∈ logs, blockNumberOf log = some height) : logsNaming height logs = logs :=
  List.filter_eq_self.mpr fun log hlog => decide_eq_true (h log hlog)

theorem logsNaming_eq_nil {height k : Nat} (hne : k ≠ height) {logs : List Value}
    (h : ∀ log ∈ logs, blockNumberOf log = some k) : logsNaming height logs = [] := by
  refine List.filter_eq_nil_iff.mpr fun log hlog => ?_
  rw [h log hlog, decide_eq_true_eq, Option.some.injEq]
  exact hne

/-- Out of the logs of different heights those that name one are that height's own. -/
theorem logsNaming_flatMap {heights : List Nat} {logs : Nat → List Value} {height : Nat}
    (hnodup : heights.Nodup)
    (h : ∀ k ∈ heights, ∀ log ∈ logs k, blockNumberOf log = some k)
    (hmem : height ∈ heights) :
    logsNaming height (heights.flatMap logs) = logs height := by
  induction heights with
  | nil => cases hmem
  | cons k rest ih =>
      obtain ⟨hk, hnodup⟩ := List.nodup_cons.mp hnodup
      have hrest : ∀ j ∈ rest, ∀ log ∈ logs j, blockNumberOf log = some j :=
        fun j hj => h j (List.mem_cons_of_mem _ hj)
      have hhead := h k (List.mem_cons_self ..)
      rw [List.flatMap_cons, logsNaming, List.filter_append]
      change logsNaming height (logs k) ++ logsNaming height (rest.flatMap logs) = logs height
      rcases List.mem_cons.mp hmem with rfl | hmem
      · have hnone : logsNaming height (rest.flatMap logs) = [] := by
          refine List.filter_eq_nil_iff.mpr fun log hlog => ?_
          obtain ⟨j, hj, hlog⟩ := List.mem_flatMap.mp hlog
          have hne : j ≠ height := fun heq => hk (heq ▸ hj)
          rw [hrest j hj log hlog, decide_eq_true_eq, Option.some.injEq]
          exact hne
        rw [logsNaming_eq_self hhead, hnone, List.append_nil]
      · have hne : k ≠ height := fun heq => hk (heq ▸ hmem)
        rw [logsNaming_eq_nil hne hhead, List.nil_append]
        exact ih hnodup hrest hmem

/-! ## The routes -/

/-- **Both logs sources store the same bytes.**  At every height of the range, in a run
    with a window over all of it, in a run from receipts, and live from either source, the
    logs are not refused and what is stored is the logs of the block, printed. -/
theorem logs_sources_agree (J : Codec) {receipts : Nat → List Value}
    {getLogs : Nat → Nat → Value} {a b : Nat} (hb : b < 2 ^ 64)
    (h : SourcesAgree receipts getLogs a b) {height : Nat} (hlo : a ≤ height)
    (hhi : height ≤ b) :
    let stored := J.toVec (.array (blockLogs (receipts height)))
    (∃ logs, fetchRpc (some (getLogs a b)) = some logs ∧
      ((LogWindow.load logs).serialized J height).1 = stored) ∧
    (∃ r, fetchRpc (some (.array (receipts height))) = some r ∧
      (LogWindow.serialize J (logsFromReceipts r)).1 = stored) ∧
    (∃ logs, fetchLogsForHeight .Receipts (some (.array (receipts height))) = some logs ∧
      J.toVec logs = stored) ∧
    (∃ logs, fetchLogsForHeight .GetLogs (some (getLogs height height)) = some logs ∧
      J.toVec logs = stored) := by
  intro stored
  have hwhole := h.reply a b (le_refl a) (Nat.le_trans hlo hhi) (le_refl b)
  have hone : getLogs height height = .array (blockLogs (receipts height)) := by
    rw [h.reply height height hlo (le_refl height) hhi, Nat.add_sub_cancel_left]
    simp
  have hnumber : ∀ k ∈ List.range' a (b + 1 - a), ∀ log ∈ blockLogs (receipts k),
      blockNumberOf log = some k := by
    intro k hk log hlog
    have hmem := List.mem_range'_1.mp hk
    rw [blockNumberOf, h.number k (by omega) (by omega) log hlog, Option.bind_some,
      quantity_lowerHexText (by omega)]
  have hheight : height ∈ List.range' a (b + 1 - a) :=
    List.mem_range'_1.mpr ⟨hlo, by omega⟩
  refine ⟨⟨_, by rw [hwhole]; rfl, ?_⟩, ⟨_, rfl, rfl⟩, ⟨_, rfl, rfl⟩,
    ⟨_, by rw [hone]; rfl, rfl⟩⟩
  rw [serialized_eq, bucket_load, logsNaming_flatMap List.nodup_range' hnumber hheight]

/-- One log of block 5. -/
def logOfFive : Value := .object [("blockNumber", .string "0x5"), ("data", .string "0x")]

/-- Block 5 has one receipt with a log in it and one without any; the others have none. -/
def someReceipts (height : Nat) : List Value :=
  if height = 5 then [.object [("logs", .array [logOfFive])], .object [("logs", .array [])]]
  else []

/-- The other endpoint over the same blocks. -/
def someGetLogs (x y : Nat) : Value :=
  .array ((List.range' x (y + 1 - x)).flatMap fun h => blockLogs (someReceipts h))

/-- At a height with a log and at one without. -/
theorem logs_sources_agree_sample :
    ((LogWindow.load (someGetLogs 4 6)).serialized JsonText.codec 5).1
      = JsonText.codec.toVec (.array [logOfFive]) ∧
    ((LogWindow.load (someGetLogs 4 6)).serialized JsonText.codec 6).1 = EMPTY_ARRAY := by
  have hagree : SourcesAgree someReceipts someGetLogs 4 6 := by
    refine ⟨fun _ _ _ _ _ => rfl, ?_⟩
    intro h _ _ log hlog
    by_cases hfive : h = 5
    · subst hfive
      have htext : lowerHexText 5 = "0x5" := by decide
      rw [List.mem_singleton.mp hlog, htext]
      rfl
    · rw [someReceipts, if_neg hfive] at hlog
      cases hlog
  obtain ⟨⟨logs, hlogs, hfive⟩, -⟩ := logs_sources_agree JsonText.codec (by decide) hagree
    (show 4 ≤ 5 by decide) (show 5 ≤ 6 by decide)
  obtain ⟨⟨logs', hlogs', hsix⟩, -⟩ := logs_sources_agree JsonText.codec (by decide) hagree
    (show 4 ≤ 6 by decide) (show 6 ≤ 6 by decide)
  rw [← Option.some.inj hlogs] at hfive
  rw [← Option.some.inj hlogs'] at hsix
  exact ⟨hfive, hsix.trans JsonText.codec.toVec_nil⟩

end NeveEthBackfill
