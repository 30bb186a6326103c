import Neve.TokenRedactionProofs
import Neve.RequestPacingProofs

/-! # Startup handshakes — what a failure says of the URL

    Before a chain is served its upstream is asked which network it is on: `eth_chainId`
    on the C-chain, the block at height 0 on the P-chain.  An error is the chain of its
    texts, the context first.

    The P-chain's handshake redacts the URL in the one text that has it.  The C-chain's
    writes it out when the request cannot be sent, query and all
    (`handshake_query_iff`). -/

namespace NeveHandshake

open JsonValue ByteText StrText NevePlatformCodec
open NeveConfig (redactUrl redactUrl_query redactUrl_of_split)
open NeveRequestPacing (Dialect Reply usable)

/-! ## What upstream does -/

/-- How a request ends: it cannot be sent, or it is answered with a status, the seconds of
    a `Retry-After`, and a body that is read as JSON. -/
inductive Outcome (E : Type) where
  | failed (e : E)
  | answered (status : Nat) (retryAfter : Option Nat) (json : Except E Value)

/-- The texts of the HTTP client: a status, and the errors of a request to a URL (which
    may name it). -/
structure Client (E : Type) where
  showStatus : Nat → String
  sendError : E → String → List String
  jsonError : E → String → List String

variable {E : Type}

/-- 429 and 503 ask for a pause. -/
def throttles (status : Nat) : Bool := status == 429 || status == 503

def isSuccess (status : Nat) : Bool := decide (200 ≤ status ∧ status < 300)

/-! ## The C-chain: `eth_chainId` -/

/-- `u64::from_str_radix` past the sign: a digit is looked at before the number it makes. -/
def hexDigits : List Char → Nat → Except String Nat
  | [], acc => .ok acc
  | c :: rest, acc =>
      match hexDigit c with
      | none => .error "invalid digit found in string"
      | some d =>
          if 16 * acc + d < 2 ^ 64 then hexDigits rest (16 * acc + d)
          else .error "number too large to fit in target type"

/-- `u64::from_str_radix` with radix 16, and its errors. -/
def fromStrRadix16 (cs : List Char) : Except String Nat :=
  if cs = [] then .error "cannot parse integer from empty string"
  else if dropPlus cs = [] then .error "invalid digit found in string"
  else hexDigits (dropPlus cs) 0

/-- The chain ID in a reply. -/
def chainIdOf (v : Value) : Except (List String) Nat :=
  match (v.get "result").bind Value.asStr with
  | none => .error ["eth_chainId: missing 'result' string"]
  | some s =>
      match fromStrRadix16 (trimStart0x s.toList) with
      | .error e => .error ["eth_chainId: malformed hex", e]
      | .ok id => .ok id

/-- One pass of the loop: what it returns, or `none` where it waits a throttle out (up to
    `max_wait`, in nanoseconds) and asks again. -/
def chainIdAttempt (X : Client E) (rpcUrl : String) (maxWait : Nat) :
    Outcome E → Option (Except (List String) Nat)
  | .failed e =>
      some (.error (s!"eth_chainId request to {rpcUrl} failed" :: X.sendError e rpcUrl))
  | .answered status retryAfter json =>
      if throttles status then
        if NeveRequestPacing.tooLong maxWait retryAfter then
          some (.error [s!"eth_chainId throttled by upstream (status {X.showStatus status}, " ++
              s!"retry_after {retryAfter.getD 5}s exceeds max_wait {maxWait / 10 ^ 9}s); " ++
              "not waiting"])
        else none
      else if !isSuccess status then
        some (.error [s!"eth_chainId returned HTTP {X.showStatus status}"])
      else
        match json with
        | .error e => some (.error ("eth_chainId response decode" :: X.jsonError e rpcUrl))
        | .ok v => some (chainIdOf v)

/-- The upstream's chain ID; `none` while it has not answered for good. -/
def fetchChainId (X : Client E) (rpcUrl : String) (maxWait : Nat) :
    List (Outcome E) → Option (Except (List String) Nat)
  | [] => none
  | o :: rest =>
      match chainIdAttempt X rpcUrl maxWait o with
      | some answer => some answer
      | none => fetchChainId X rpcUrl maxWait rest

/-! ## The P-chain: block 0 -/

/-- What a call of `fetch_rpc` makes of an outcome. -/
def Outcome.reply : Outcome E → Reply
  | .failed _ => .unsent
  | .answered status retryAfter json =>
      if throttles status then .throttled retryAfter json.toOption
      else match json with
        | .error _ => .undecodable
        | .ok body => .decoded body

/-- `fetch_rpc` from its `attempt`-th request on: the result if there is one, or `none`
    while the call has not returned (it never does when a long throttle parks it). -/
def fetchRpc (maxWait : Nat) : Nat → List (Outcome E) → Option (Option Value)
  | _, [] => none
  | attempt, o :: rest =>
      match Dialect.platform.onReply maxWait attempt o.reply with
      | .answered result => some result
      | .pacing next => fetchRpc maxWait next rest
      | _ => none

/-- The `block` field of the block at height 0. -/
def fetchBlockEncoding (maxWait : Nat) (outcomes : List (Outcome E)) : Option (Option Value) :=
  (fetchRpc maxWait 0 outcomes).map (·.bind (·.get "block"))

/-- The ID of the genesis block in the form upstream has it. -/
def genesisIdOf (sha256 : Bytes → Bytes32) (rpcUrl : String) :
    Option Value → Except (List String) String
  | none =>
      .error [s!"could not fetch P-chain block 0 from {redactUrl rpcUrl}; is it a P-chain " ++
          "endpoint?"]
  | some bytesJson =>
      match bytesJson.asStr with
      | none => .error ["P-chain block 0 'block' field is not a string"]
      | some hex =>
          match hexncDecode hex with
          | .error e => .error ["decoding P-chain genesis bytes", e]
          | .ok bytes => .ok (blockIdOf sha256 bytes)

/-- The ID of the genesis block; `none` while the request has not returned. -/
def fetchGenesisId (sha256 : Bytes → Bytes32) (rpcUrl : String) (maxWait : Nat)
    (outcomes : List (Outcome E)) : Option (Except (List String) String) :=
  (fetchBlockEncoding maxWait outcomes).map (genesisIdOf sha256 rpcUrl)

/-! ## Two queries -/

/-- The same endpoint with a query. -/
def withQuery (base query : String) : String := base ++ "?" ++ query

/-- Redaction leaves nothing of the last query, whatever stands before it. -/
theorem redactUrl_withQuery (base query query' : String) :
    redactUrl (withQuery base query) = redactUrl (withQuery base query') := by
  cases h : splitOnce '?' base with
  | none =>
      have hmem := splitOnce_eq_none.mp h
      simp only [withQuery]
      rw [redactUrl_query hmem, redactUrl_query hmem]
  | some parts =>
      obtain ⟨before, after⟩ := parts
      simp only [withQuery]
      rw [String.append_assoc, String.append_assoc,
        redactUrl_of_split (splitOnce_append h ("?" ++ query)),
        redactUrl_of_split (splitOnce_append h ("?" ++ query'))]

/-- The P-chain's handshake knows the URL only as redacted. -/
theorem fetchGenesisId_withQuery (sha256 : Bytes → Bytes32) (maxWait : Nat)
    (base query query' : String) (outcomes : List (Outcome E)) :
    fetchGenesisId sha256 (withQuery base query) maxWait outcomes
      = fetchGenesisId sha256 (withQuery base query') maxWait outcomes := by
  have hsame : genesisIdOf sha256 (withQuery base query)
      = genesisIdOf sha256 (withQuery base query') := by
    funext fetched
    cases fetched with
    | none =>
        simp only [genesisIdOf]
        rw [redactUrl_withQuery base query query']
    | some bytesJson => rfl
  simp only [fetchGenesisId]
  rw [hsame]

/-- A throttle that the C-chain's handshake waits out. -/
def waitedOut (maxWait : Nat) : Outcome E → Bool
  | .failed _ => false
  | .answered status retryAfter _ =>
      throttles status && !NeveRequestPacing.tooLong maxWait retryAfter

/-- The outcome that ends the C-chain's handshake: the first that is not waited out. -/
def deciding (maxWait : Nat) (outcomes : List (Outcome E)) : Option (Outcome E) :=
  outcomes.find? (fun o => !waitedOut maxWait o)

/-- An outcome that keeps two URLs apart: a request that cannot be sent does, and a body
    that is no JSON does as far as the client's own error names the URL. -/
def TellsApart (X : Client E) (url url' : String) : Outcome E → Prop
  | .failed _ => url ≠ url'
  | .answered status _ json =>
      throttles status = false ∧ isSuccess status = true ∧
        ∃ e, json = .error e ∧ X.jsonError e url ≠ X.jsonError e url'

theorem chainIdAttempt_eq_none {X : Client E} {rpcUrl : String} {maxWait : Nat}
    {o : Outcome E} : chainIdAttempt X rpcUrl maxWait o = none ↔ waitedOut maxWait o = true := by
  cases o with
  | failed e => simp [chainIdAttempt, waitedOut]
  | answered status retryAfter json =>
      simp only [chainIdAttempt, waitedOut]
      cases throttles status with
      | true => cases NeveRequestPacing.tooLong maxWait retryAfter <;> simp
      | false =>
          cases isSuccess status with
          | false => simp
          | true => cases json <;> simp

/-- **Only the deciding outcome speaks.** -/
theorem fetchChainId_eq (X : Client E) (rpcUrl : String) (maxWait : Nat)
    (outcomes : List (Outcome E)) :
    fetchChainId X rpcUrl maxWait outcomes
      = (deciding maxWait outcomes).bind (chainIdAttempt X rpcUrl maxWait) := by
  induction outcomes with
  | nil => rfl
  | cons o rest ih =>
      simp only [fetchChainId, deciding]
      cases hw : waitedOut maxWait o with
      | true =>
          rw [chainIdAttempt_eq_none.mpr hw, List.find?_cons_of_neg (by simp [hw])]
          exact ih
      | false =>
          rw [List.find?_cons_of_pos (by simp [hw]), Option.bind_some]
          cases ha : chainIdAttempt X rpcUrl maxWait o with
          | none => rw [chainIdAttempt_eq_none.mp ha] at hw; cases hw
          | some answer => rfl

/-- **Where a pass of the loop tells two URLs apart.** -/
theorem chainIdAttempt_eq_iff (X : Client E) (url url' : String) (maxWait : Nat)
    (o : Outcome E) :
    chainIdAttempt X url maxWait o = chainIdAttempt X url' maxWait o
      ↔ ¬TellsApart X url url' o := by
  cases o with
  | failed e =>
      simp only [chainIdAttempt, TellsApart, not_not]
      constructor
      · intro h
        have htext := (List.cons.inj (Except.error.inj (Option.some.inj h))).1
        exact String.append_right_inj _ |>.mp (String.append_left_inj _ |>.mp htext)
      · intro h
        rw [h]
  | answered status retryAfter json =>
      simp only [chainIdAttempt, TellsApart]
      cases throttles status with
      | true => simp
      | false =>
          cases isSuccess status with
          | false => simp
          | true =>
              cases json with
              | ok v => simp
              | error e => simp

/-- **Handshake errors and the query**: for one endpoint with two queries, and the same
    outcomes upstream, the P-chain's handshake says the same always, and the C-chain's
    exactly when the deciding outcome does not tell the two URLs apart. -/
theorem handshake_query_iff (sha256 : Bytes → Bytes32) (X : Client E) (maxWait : Nat)
    (base query query' : String) (outcomes : List (Outcome E)) :
    fetchGenesisId sha256 (withQuery base query) maxWait outcomes
        = fetchGenesisId sha256 (withQuery base query') maxWait outcomes ∧
    (fetchChainId X (withQuery base query) maxWait outcomes
        = fetchChainId X (withQuery base query') maxWait outcomes
      ↔ ∀ o ∈ deciding maxWait outcomes,
          ¬TellsApart X (withQuery base query) (withQuery base query') o) := by
  refine ⟨fetchGenesisId_withQuery sha256 maxWait base query query' outcomes, ?_⟩
  rw [fetchChainId_eq, fetchChainId_eq]
  cases deciding maxWait outcomes with
  | none => simp
  | some o =>
      rw [Option.bind_some, Option.bind_some, chainIdAttempt_eq_iff]
      simp

/-- A client whose own errors never name the URL. -/
def quietClient : Client Unit where
  showStatus _ := "200 OK"
  sendError _ _ := ["error sending request"]
  jsonError _ _ := ["error decoding response body"]

/-- **The C-chain's handshake shows the token** of an upstream that is down. -/
theorem down_upstream_shows_token :
    fetchChainId quietClient (withQuery "https://upstream/ext/bc/C/rpc" "token=a") 0 [.failed ()]
      = some (.error ["eth_chainId request to https://upstream/ext/bc/C/rpc?token=a failed",
          "error sending request"]) ∧
    fetchChainId quietClient (withQuery "https://upstream/ext/bc/C/rpc" "token=a") 0 [.failed ()]
      ≠ fetchChainId quietClient (withQuery "https://upstream/ext/bc/C/rpc" "token=b") 0
          [.failed ()] := by
  decide +kernel

end NeveHandshake
