import Neve.JsonTextProofs

/-! # The 421 rewrite — which answers send a client elsewhere

    `NotFound421` buffers every JSON-RPC response and turns its status into 421 when the
    body is an object whose `result` is null, so that a front-end pool retries against a
    full node.  The body goes out as it came.

    The documented contract has a second case, an error with code -32601, and that one is
    not looked for: the contract is met by all responses but those (`contract_iff`). -/

namespace NeveMiddleware

open JsonValue

/-- The status of a response, and the version, headers and extensions that go with it. -/
structure Parts (H : Type) where
  status : Nat
  rest : H

/-- `StatusCode::MISDIRECTED_REQUEST`. -/
def MISDIRECTED_REQUEST : Nat := 421

section Layer

variable (J : Codec) {E H : Type}

/-- Whether the body is a JSON-RPC success envelope whose `result` is null. -/
def isResultNull (bytes : Bytes) : Bool :=
  match J.fromSlice bytes with
  -- plain text is what an overloaded server answers; it is left alone
  | none => false
  | some v =>
      match v.get "result" with
      | some .null => true
      | _ => false

/-- What the layer makes of the inner response; a body of `none` could not be read. -/
def call (res : Except E (Parts H × Option Bytes)) : Except E (Parts H × Bytes) :=
  match res with
  | .error e => .error e
  | .ok (parts, none) => .ok (parts, [])
  | .ok (parts, some bytes) =>
      if isResultNull J bytes then .ok ({ parts with status := MISDIRECTED_REQUEST }, bytes)
      else .ok (parts, bytes)

end Layer

/-! ## The contract -/

/-- An integer value, as `as_i64` reads it. -/
def asI64 : Value → Option Int
  | .number (.posInt n) => if n.toNat < 2 ^ 63 then some n.toNat else none
  | .number (.negInt n) => some (-(n.val + 1))
  | _ => none

def METHOD_NOT_FOUND : Int := -32601

/-- An error response for a method that is not implemented. -/
def MethodNotFound (v : Value) : Prop :=
  ((v.get "error").bind (Value.get "code")).bind asI64 = some METHOD_NOT_FOUND

instance (v : Value) : Decidable (MethodNotFound v) :=
  inferInstanceAs (Decidable (_ = _))

/-- What neve cannot answer with authority. -/
def Unanswered (v : Value) : Prop :=
  v.get "result" = some .null ∨ MethodNotFound v

/-- What the front-end pools rely on, of a response and what the layer makes of it. -/
structure Contract (J : Codec) {H : Type} (inner : Parts H × Option Bytes)
    (outer : Parts H × Bytes) : Prop where
  unanswered : ∀ bytes fields, inner.2 = some bytes →
    J.fromSlice bytes = some (.object fields) → Unanswered (.object fields) →
    outer.1.status = MISDIRECTED_REQUEST
  answered : ∀ bytes fields, inner.2 = some bytes →
    J.fromSlice bytes = some (.object fields) → ¬ Unanswered (.object fields) →
    outer.1.status = inner.1.status
  other : (∀ bytes fields, inner.2 = some bytes →
    J.fromSlice bytes ≠ some (.object fields)) → outer.1.status = inner.1.status
  rest : outer.1.rest = inner.1.rest
  body : ∀ bytes, inner.2 = some bytes → outer.2 = bytes

/-- A response that the rewrite overlooks: an object that reports an unknown method, with
    no null result beside it, under another status. -/
def Overlooked (J : Codec) {H : Type} (inner : Parts H × Option Bytes) : Prop :=
  inner.1.status ≠ MISDIRECTED_REQUEST ∧ ∃ bytes v, inner.2 = some bytes ∧
    J.fromSlice bytes = some v ∧ v.get "result" ≠ some .null ∧ MethodNotFound v

section Contract

variable {J : Codec} {E H : Type}

theorem isResultNull_iff {bytes : Bytes} :
    isResultNull J bytes = true ↔
      ∃ v, J.fromSlice bytes = some v ∧ v.get "result" = some .null := by
  simp only [isResultNull]
  cases J.fromSlice bytes with
  | none =>
      constructor
      · intro h
        cases h
      · rintro ⟨v, h, -⟩
        cases h
  | some v =>
      dsimp only
      constructor
      · intro h
        refine ⟨v, rfl, ?_⟩
        split at h
        · assumption
        · cases h
      · rintro ⟨w, hw, hnull⟩
        rw [Option.some.inj hw, hnull]

/-- Only an object has fields. -/
theorem eq_object_of_get {v w : Value} {k : String} (h : v.get k = some w) :
    ∃ fields, v = .object fields := by
  cases v with
  | object fields => exact ⟨fields, rfl⟩
  | _ => cases h

theorem MethodNotFound.eq_object {v : Value} (h : MethodNotFound v) :
    ∃ fields, v = .object fields := by
  obtain ⟨_, hcode, -⟩ := Option.bind_eq_some_iff.mp h
  obtain ⟨_, herror, -⟩ := Option.bind_eq_some_iff.mp hcode
  exact eq_object_of_get herror

/-- The body that was read goes out unchanged, under a status that says whether its
    result is null. -/
theorem call_read (parts : Parts H) (bytes : Bytes) :
    call J (.ok (parts, some bytes) : Except E (Parts H × Option Bytes))
      = .ok ({ parts with
          status := if isResultNull J bytes then MISDIRECTED_REQUEST else parts.status },
          bytes) := by
  show (if isResultNull J bytes = true then _ else _) = _
  by_cases hnull : isResultNull J bytes = true
  · rw [if_pos hnull, if_pos hnull]
  · rw [if_neg hnull, if_neg hnull]

/-- **When the 421 contract is met.** Every response the inner service gives comes out as
    the contract has it, but for those that report an unknown method. -/
theorem contract_iff (J : Codec) (inner : Parts H × Option Bytes) :
    (∃ outer, call J (.ok inner : Except E (Parts H × Option Bytes)) = .ok outer ∧
      Contract J inner outer) ↔ ¬ Overlooked J inner := by
  obtain ⟨parts, body⟩ := inner
  cases body with
  | none =>
      constructor
      · rintro - ⟨-, bytes, v, hbytes, -⟩
        cases hbytes
      · intro _
        refine ⟨_, rfl, ⟨?_, ?_, fun _ => rfl, rfl, ?_⟩⟩
        · intro bytes fields hbytes
          cases hbytes
        · intro bytes fields hbytes
          cases hbytes
        · intro bytes hbytes
          cases hbytes
  | some bytes =>
      rw [call_read]
      constructor
      · rintro ⟨outer, houter, hc⟩ ⟨hstatus, _, v, hbytes, hparse, hresult, hmethod⟩
        obtain rfl := Option.some.inj hbytes
        obtain ⟨fields, rfl⟩ := hmethod.eq_object
        -- not a null result, so the status stayed what it was
        have hkept : ¬ isResultNull J bytes = true := by
          rw [isResultNull_iff]
          rintro ⟨w, hw, hnull⟩
          rw [← Option.some.inj (hparse.symm.trans hw)] at hnull
          exact hresult hnull
        have h421 := hc.unanswered bytes fields rfl hparse (Or.inr hmethod)
        rw [← Except.ok.inj houter, if_neg hkept] at h421
        exact hstatus h421
      · intro hseen
        refine ⟨_, rfl, ⟨?_, ?_, ?_, rfl, ?_⟩⟩
        · intro _ fields hbytes hparse hunanswered
          obtain rfl := Option.some.inj hbytes
          dsimp only
          by_cases hresult : (Value.object fields).get "result" = some .null
          · rw [if_pos (isResultNull_iff.mpr ⟨_, hparse, hresult⟩)]
          · have hmethod := hunanswered.resolve_left hresult
            -- an unknown method is seen only under the status that is due anyway
            have hstatus : parts.status = MISDIRECTED_REQUEST := by
              by_contra hne
              exact hseen ⟨hne, bytes, _, rfl, hparse, hresult, hmethod⟩
            rw [hstatus, ite_self]
        · intro _ fields hbytes hparse hanswered
          obtain rfl := Option.some.inj hbytes
          refine if_neg ?_
          rw [isResultNull_iff]
          rintro ⟨w, hw, hnull⟩
          rw [← Option.some.inj (hparse.symm.trans hw)] at hnull
          exact hanswered (Or.inl hnull)
        · intro hother
          refine if_neg ?_
          rw [isResultNull_iff]
          rintro ⟨w, hw, hnull⟩
          obtain ⟨fields, rfl⟩ := eq_object_of_get hnull
          exact hother bytes fields rfl hw
        · intro _ hbytes
          exact Option.some.inj hbytes

end Contract

/-- The answer to a call of a method that is not registered. -/
def unknownMethod : Value :=
  .object [("error", .object [("code", .number (.negInt 32600)),
      ("message", .string "Method not found")]),
    ("id", .number (.posInt 1)), ("jsonrpc", .string "2.0")]

/-- It goes out with the status it came with. -/
theorem unknownMethod_overlooked :
    let inner : Parts Unit × Option Bytes := (⟨200, ()⟩, some (JsonText.toVec unknownMethod))
    call JsonText.codec (.ok inner : Except Empty (Parts Unit × Option Bytes))
        = .ok (⟨200, ()⟩, JsonText.toVec unknownMethod) ∧
      MethodNotFound unknownMethod ∧
      ¬ ∃ outer, call JsonText.codec (.ok inner : Except Empty (Parts Unit × Option Bytes))
        = .ok outer ∧ Contract JsonText.codec inner outer := by
  have hparse : JsonText.codec.fromSlice (JsonText.toVec unknownMethod) = some unknownMethod :=
    (JsonText.fromSlice_toVec unknownMethod).trans
      (congrArg some (JsonText.mapFloat_id unknownMethod))
  have hkept : ¬ isResultNull JsonText.codec (JsonText.toVec unknownMethod) = true := by
    rw [isResultNull_iff]
    rintro ⟨w, hw, hnull⟩
    rw [← Option.some.inj (hparse.symm.trans hw)] at hnull
    cases hnull
  have hmethod : MethodNotFound unknownMethod := rfl
  intro inner
  have hcall : call JsonText.codec (.ok inner : Except Empty (Parts Unit × Option Bytes))
      = .ok (⟨200, ()⟩, JsonText.toVec unknownMethod) := by
    rw [call_read, if_neg hkept]
  refine ⟨hcall, hmethod, ?_⟩
  rintro ⟨outer, houter, hc⟩
  rw [hcall] at houter
  have h421 := hc.unanswered _ _ rfl hparse (Or.inr hmethod)
  rw [← Except.ok.inj houter] at h421
  exact absurd h421 (by decide)

end NeveMiddleware
