import Attestia.Lib.JsonValue
import Attestia.Lib.Retry
import Attestia.Witness.Retry

/-!
# RPC calls of the observers

`errors.ts` and `retry.ts`: what an endpoint throws is classified by its text, and a call is run
again while what it throws is transient. The backoff between the attempts only takes time.
-/

namespace Attestia.ChainObserver

open Lib JsonNumber
open Witness (toLowerCase)

inductive ObserverErrorCode where
  | blockRangeTooLarge
  | invalidQuery
  | notConnected
  | rpcTimeout
  | rpcUnreachable
  | rateLimited
  | unsupportedChain
  | malformedResponse
  | rpcError
  deriving DecidableEq

structure ObserverError where
  code : ObserverErrorCode
  message : JsString
  hint : JsString
  chainId : Option JsString

/-- What a call to an endpoint throws. -/
inductive RpcThrown where
  | observerError (error : ObserverError)
  | error (name message : JsString)
  | value (text : JsString)

/-- `err instanceof Error ? err.message : String(err)`. -/
def RpcThrown.detail : RpcThrown → JsString
  | .observerError e => e.message
  | .error _ message => message
  | .value text => text

def RpcThrown.name : RpcThrown → JsString
  | .observerError _ => js "ObserverError"
  | .error name _ => name
  | .value _ => []

def includesAny (patterns : List String) (text : JsString) : Bool :=
  patterns.any fun pattern => js pattern <:+: text

def classifyRpcError (err : RpcThrown) : ObserverErrorCode :=
  let name := toLowerCase err.name
  let msg := toLowerCase err.detail
  if includesAny ["429", "too many requests", "rate limit", "rate-limit", "-32005",
      "limit exceeded"] msg then .rateLimited
  else if includesAny ["timeout"] name || includesAny ["timed out", "timeout", "etimedout"] msg then
    .rpcTimeout
  else if includesAny ["econnrefused", "enotfound", "econnreset", "eai_again", "ehostunreach",
      "enetunreach", "socket hang up", "fetch failed", "network error", "connection closed",
      "not connected", "websocket", "disconnected"] msg then .rpcUnreachable
  else if includesAny ["syntax"] name || includesAny ["unexpected token", "invalid json",
      "malformed", "cannot read properties", "is not valid json"] msg then .malformedResponse
  else .rpcError

/-- `RPC_ERROR_HINTS`. -/
def rpcErrorHint : ObserverErrorCode → JsString
  | .blockRangeTooLarge => js "Narrow the block range or chunk the scan into smaller windows."
  | .invalidQuery => js "Check the query parameters (e.g. fromBlock must be <= toBlock)."
  | .notConnected => js "Call connect() and await it before issuing queries."
  | .rpcTimeout => js "The RPC endpoint did not respond in time. " ++
      js "Increase timeoutMs, retry, or use a faster endpoint."
  | .rpcUnreachable => js "The RPC endpoint could not be reached. " ++
      js "Verify the rpcUrl, network connectivity, and that the node is up."
  | .rateLimited => js "The RPC endpoint is rate-limiting requests. " ++
      js "Back off and retry, or use a higher-tier/dedicated endpoint."
  | .unsupportedChain => js "Use a supported chain ID, or register a profile for this chain."
  | .malformedResponse => js "The RPC endpoint returned an unexpected response shape. " ++
      js "Verify it is a compatible node for this chain."
  | .rpcError => js "Inspect the underlying error message and the RPC endpoint health."

def toObserverError (err : RpcThrown) (context chainId : JsString) : ObserverError :=
  match err with
  | .observerError error => error
  | err =>
    ⟨classifyRpcError err, context ++ js ": " ++ err.detail, rpcErrorHint (classifyRpcError err),
      some chainId⟩

def isRetryableRpcError (err : RpcThrown) : Bool :=
  [.rateLimited, .rpcTimeout, .rpcUnreachable].contains (classifyRpcError err)

def withRetry {σ α : Type} (fn : ℕ → Effect σ RpcThrown α) (maxRetries : ℕ) :
    Effect σ RpcThrown α :=
  Effect.retrying isRetryableRpcError fn maxRetries 0

/-- What an observer is configured with. -/
structure ObserverConfig where
  name : JsString
  chainId : JsString
  connected : Bool
  maxRetries : ℕ

/-- `runRpc` of an observer. -/
def ObserverConfig.runRpc {σ α : Type} (o : ObserverConfig) (context : JsString)
    (fn : ℕ → Effect σ RpcThrown α) : Effect σ ObserverError α := fun s =>
  let r := Effect.outcome (withRetry fn o.maxRetries) s
  (r.1.mapError fun err => toObserverError err (o.name ++ js "." ++ context) o.chainId, r.2)

/-- `requireClient` and `requireConnection`. -/
def ObserverConfig.requireClient (o : ObserverConfig) : Except ObserverError Unit :=
  throwIf (o.connected = false) ⟨.notConnected,
    o.name ++ js ": not connected. Call connect() before querying.",
    js "Call connect() and await it before issuing queries.", some o.chainId⟩

/-- A call that fails where the endpoint does. -/
def answer {σ α : Type} (failure : Option RpcThrown) (a : α) : Effect σ RpcThrown α :=
  Effect.check (failure.elim (.ok a) .error)

/-! ## Transfers -/

inductive Direction where
  | incoming
  | outgoing
  | both
  deriving DecidableEq

structure TransferQuery where
  address : JsString
  direction : Option Direction
  token : Option JsString
  fromBlock : Option ℤ
  toBlock : Option ℤ
  limit : Option ℕ

/-- `query.token` in a condition: the empty text does not count. -/
def TransferQuery.tokenFilter (query : TransferQuery) : Option JsString :=
  query.token.filter fun token => token ≠ []

@[ext] structure TransferEvent where
  chainId : JsString
  txHash : JsString
  blockNumber : Number
  sender : JsString
  receiver : JsString
  amount : JsString
  decimals : Number
  symbol : JsString
  token : Option JsString
  timestamp : JsString
  observedAt : JsString
  metaResolved : Option Bool

/-- The order of the block numbers, in which the events are sorted. -/
def byBlock (a b : TransferEvent) : Bool := a.blockNumber.val ≤ b.blockNumber.val

/-- The slice that the limit of a query takes. -/
def applyLimit {α : Type} (limit : Option ℕ) (events : List α) : List α :=
  match limit with
  | some n => if n < events.length then events.take n else events
  | none => events

theorem runRpc_eq_ok {σ α : Type} {o : ObserverConfig} {context : JsString}
    {fn : ℕ → Effect σ RpcThrown α} {s t : σ} {a : α}
    (h : Effect.outcome (o.runRpc context fn) s = (.ok a, t)) :
    Effect.outcome (withRetry fn o.maxRetries) s = (.ok a, t) := by
  change ((Effect.outcome (withRetry fn o.maxRetries) s).1.mapError _, _) = _ at h
  obtain ⟨hresult, hstate⟩ := Prod.ext_iff.mp h
  exact Prod.ext (mapError_eq_ok.mp hresult) hstate

/-- A call that fails where the endpoint does returns what it answers and writes nothing. -/
theorem runRpc_answer {σ α : Type} {o : ObserverConfig} {context : JsString}
    {failure : ℕ → Option RpcThrown} {a b : α} {s t : σ}
    (h : Effect.outcome (o.runRpc context fun attempt => answer (failure attempt) a) s =
      (.ok b, t)) : a = b ∧ s = t := by
  have hanswer : ∀ (i : ℕ) (u : σ), Effect.outcome (answer (failure i) a) u =
      ((failure i).elim (.ok a) .error, u) := fun i u => rfl
  obtain ⟨i, u, rfl, hi⟩ := Effect.retrying_ok (P := fun _ u => u = s)
    (fun i u e v hu he => (hu ▸ (Prod.mk.inj ((hanswer i u).symm.trans he)).2.symm)) rfl
    (runRpc_eq_ok h)
  rw [hanswer] at hi
  obtain ⟨hresult, hstate⟩ := Prod.mk.inj hi
  cases hfailure : failure i with
  | none =>
    rw [hfailure] at hresult
    exact ⟨Except.ok.inj hresult, hstate⟩
  | some e =>
    rw [hfailure] at hresult
    cases hresult

end Attestia.ChainObserver
