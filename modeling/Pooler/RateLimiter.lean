import Mathlib.Data.List.Basic

/-! `check_rpc_rate_limit` of `uniswap_functions.py`.

The loop over `PARSED_LIMITS` hits each limit in turn. A hit admits, denies (and the
window stats are then read for `retry_after`), or raises. The limits enter the decision only
through the outcomes of their hits, so the loop runs over those outcomes in
`PARSED_LIMITS` order. Loading the Lua scripts is assumed to succeed.
-/

set_option autoImplicit false

namespace Pooler

/-- An exception escaping `check_rpc_rate_limit`: the store's `ConnectionError`,
`TimeoutError` and `ResponseError`, any other exception, and the rate-limit
`RPCException(request=request_payload, response={}, underlying_exception=None,
extra_info=error_msg)`. -/
inductive RateLimitError where
  | connectionError
  | timeoutError
  | responseError
  | other (name : String)
  | rpcException (request extraInfo : String)
  deriving DecidableEq, Repr

/-- What `await custom_limiter.hit(each_lim, limit_incr_by, *[key_bits])` does; a denial
carries what the following `get_window_stats` does. -/
inductive HitOutcome where
  | admitted
  | denied (windowStats : Except RateLimitError Int)
  | raised (e : RateLimitError)

/-- The `for each_lim in PARSED_LIMITS` loop from a value of `can_request`: the number of
limits hit, and `can_request` after the loop or the exception that left it. Both `except`
clauses log and re-raise. -/
def hitLimits : List HitOutcome → Bool → Nat × Except RateLimitError Bool
  | [], canRequest => (0, .ok canRequest)
  | .admitted :: rest, _ => ((hitLimits rest true).1 + 1, (hitLimits rest true).2)
  | .denied (.ok _) :: _, _ => (1, .ok false)
  | .denied (.error e) :: _, _ => (1, .error e)
  | .raised e :: _, _ => (1, .error e)

/-- `check_rpc_rate_limit(redis_conn, request_payload, error_msg)`: the number of limits hit
and what the call returns or raises. -/
def checkRpcRateLimit (requestPayload errorMsg : String) (outcomes : List HitOutcome) :
    Nat × Except RateLimitError Bool :=
  let (hits, loop) := hitLimits outcomes false
  (hits, do
    let canRequest ← loop
    if !canRequest then throw (.rpcException requestPayload errorMsg)
    return canRequest)

/-! ## The loop -/

/-- Admitting hits only count and set `can_request`; the first other outcome decides. -/
theorem hitLimits_admitted_append (n : Nat) (rest : List HitOutcome) (canRequest : Bool) :
    hitLimits (List.replicate n .admitted ++ rest) canRequest =
      (n + (hitLimits rest (canRequest || decide (0 < n))).1,
        (hitLimits rest (canRequest || decide (0 < n))).2) := by
  induction n generalizing canRequest with
  | zero => simp
  | succ n ih =>
    simp only [List.replicate_succ, List.cons_append, hitLimits, List.append_eq, ih, Bool.true_or,
      Nat.succ_pos, decide_True, Bool.or_true, Prod.mk.injEq, and_true]
    omega

section Decision
variable (requestPayload errorMsg : String)

theorem checkRpcRateLimit_raised (n : Nat) (e : RateLimitError) (rest : List HitOutcome) :
    checkRpcRateLimit requestPayload errorMsg (List.replicate n .admitted ++ .raised e :: rest) =
      (n + 1, .error e) := by
  simp [checkRpcRateLimit, hitLimits_admitted_append, hitLimits]
  rfl

/-- An exception from a hit propagates, a store `ConnectionError` or `TimeoutError` as much
as any other, and no later limit is hit; with no limits at all the call raises the
rate-limit `RPCException`. -/
theorem checkRpcRateLimit_fails_closed (n : Nat) (e : RateLimitError) (rest : List HitOutcome) :
    checkRpcRateLimit requestPayload errorMsg [] = (0, .error (.rpcException requestPayload errorMsg)) ∧
      checkRpcRateLimit requestPayload errorMsg (List.replicate n .admitted ++ .raised e :: rest) =
        (n + 1, .error e) :=
  ⟨rfl, checkRpcRateLimit_raised requestPayload errorMsg n e rest⟩

end Decision

end Pooler
