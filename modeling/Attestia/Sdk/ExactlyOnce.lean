import Attestia.Node.Idempotency
import Attestia.Sdk.HttpClient

/-!
# Mutations across a network

Requests of the client, a network that loses, delays and repeats them, and the server with its store
of idempotency keys, taken together. A mutation may be sent many times; its handler succeeds at most
once, and what the caller gets back is what that one run of the handler has answered.
-/

namespace Attestia.Sdk

open Lib

def RequestInit.header (init : RequestInit) (name : JsString) : Option JsString :=
  (init.headers.find? fun h => h.1 = name).map Prod.snd

/-- What the server reads from a request: the tenant of its credentials, and the path of its URL. -/
structure Gateway where
  tenantOf : RequestInit → Option JsString
  pathOf : JsString → JsString

def Gateway.receive (gateway : Gateway) (url : JsString) (init : RequestInit) : Node.Request where
  tenantId := gateway.tenantOf init
  method := init.method.text
  path := gateway.pathOf url
  idempotencyKey := init.header (js "Idempotency-Key")
  body := String.ofList (JsString.toWellFormed (init.body.getD []))

def envelopeJson (error : Node.ErrorEnvelope) : JsonValue :=
  .object [(js "error", some (.object [(js "code", some (.str error.code)),
    (js "message", some (.str error.message)), (js "hint", some (.str error.hint))]))]

def jsonHeaders : JsMap JsString JsString :=
  JsMap.empty.set (js "content-type") (js "application/json")

/-- The response of an exchange that is answered. -/
def replyOf : Node.Phase → Option FetchResponse
  | .responded response => some ⟨response.status, response.headers, response.body⟩
  | .replayed cached => some ⟨cached.status,
      cached.headers.set (js "x-idempotent-replay") (js "true"), cached.body⟩
  | .refused status error => some ⟨status, jsonHeaders, JsString.units (envelopeJson error).text⟩
  | _ => none

/-- The calls of all clients and the server; `origins` is what each exchange comes from, as a call
and a send of it. -/
structure Deployment where
  calls : List Call
  server : Node.IdempotentServer
  origins : List (ℕ × ℕ)

inductive DeploymentEvent where
  | called (client : HttpClient) (method : Method) (path : JsString) (body : Option JsString)
      (idBytes keyBytes : Bytes) (now : ℤ)
  | begun (i : ℕ) (now : ℤ)
  | woken (i : ℕ)
  /-- An attempt ends without a response. -/
  | lost (i : ℕ) (outcome : Outcome)
  /-- A send reaches the server, at any time, and perhaps again. -/
  | delivered (i k : ℕ) (now : ℤ)
  | served (event : Node.HttpEvent)
  /-- The response of an exchange reaches the attempt that waits for it. -/
  | answered (j : ℕ) (parsedAt waitedAt : ℤ)

namespace Deployment

variable (gateway : Gateway) (dateParse : JsString → Option ℤ) (s : Deployment)

def stepCall (i : ℕ) (event : CallEvent) : Option Deployment := do
  let c ← s.calls[i]?
  let c ← c.next dateParse event
  return { s with calls := s.calls.set i c }

def deliver (i k : ℕ) (now : ℤ) : Option Deployment := do
  let c ← s.calls[i]?
  let sent ← c.sends[k]?
  let server ← s.server.next (.received (gateway.receive sent.url sent.init) now)
  return { s with server := server, origins := s.origins ++ [(i, k)] }

def answer (j : ℕ) (parsedAt waitedAt : ℤ) : Option Deployment := do
  let (i, k) ← s.origins[j]?
  let exchange ← s.server.exchanges[j]?
  let response ← replyOf exchange.phase
  let c ← s.calls[i]?
  if c.sends.length = k + 1 then
    s.stepCall dateParse i (.settled (.responded response) parsedAt waitedAt)
  else none

def next : DeploymentEvent → Option Deployment
  | .called client method path body idBytes keyBytes now =>
    some { s with calls := s.calls ++ [client.request method path body idBytes keyBytes now] }
  | .begun i now => s.stepCall dateParse i (.begun now)
  | .woken i => s.stepCall dateParse i .woken
  | .lost i outcome =>
    match outcome with
    | .responded _ => none
    | outcome => s.stepCall dateParse i (.settled outcome 0 0)
  | .delivered i k now => s.deliver gateway i k now
  | .served event =>
    match event with
    | .received _ _ => none
    | event => (s.server.next event).map fun server => { s with server := server }
  | .answered j parsedAt waitedAt => s.answer dateParse j parsedAt waitedAt

end Deployment

def deploymentSystem (gateway : Gateway) (dateParse : JsString → Option ℤ)
    (ttlMs maxEntries maxBodyBytes : JsNumber) : System Deployment DeploymentEvent where
  init s := s = ⟨[], ⟨⟨.empty, ttlMs, maxEntries, maxBodyBytes⟩, []⟩, []⟩
  next s := s.next gateway dateParse

/-- The key of a call, which a mutation has. -/
def Call.key (c : Call) : Option JsString := c.init.header (js "Idempotency-Key")

def Call.request (gateway : Gateway) (c : Call) : Node.Request := gateway.receive c.url c.init

/-- The keys are of sixteen random bytes, and not those of another call. -/
def Fresh (s : Deployment) : DeploymentEvent → Prop
  | .called client method path body idBytes keyBytes now =>
    keyBytes.length = 16 ∧ ∀ c ∈ s.calls, ∀ key,
      (client.request method path body idBytes keyBytes now).key = some key → c.key ≠ some key
  | _ => True

/-- The server keeps what it has stored, and a mutation reaches it again only when it has answered
its earlier exchanges. -/
def Settling (gateway : Gateway) (s : Deployment) : DeploymentEvent → Prop
  | .delivered i _ now => ∀ c, s.calls[i]? = some c →
      Node.Undisturbed s.server (.received (c.request gateway) now) ∧
      ((c.request gateway).scope ≠ none → ∀ (j : ℕ) (k : ℕ) (a : Node.Exchange),
        s.origins[j]? = some (i, k) → s.server.exchanges[j]? = some a → ¬ a.InFlight)
  | .served event => Node.Undisturbed s.server event
  | _ => True

/-- What the keys of the client and the store of the server are for. -/
structure ExactlyOnce (gateway : Gateway) (s : Deployment) : Prop where
  /-- The handler of a mutation succeeds at most once, however often it is sent. -/
  once : ∀ (i : ℕ) (c : Call) (j j' k k' : ℕ) (a a' : Node.Exchange) response response',
    s.calls[i]? = some c → (c.request gateway).scope ≠ none →
    s.origins[j]? = some (i, k) → s.origins[j']? = some (i, k') →
    s.server.exchanges[j]? = some a → s.server.exchanges[j']? = some a' →
    a.Handled response → a'.Handled response' → j = j'
  /-- A mutation that returns has been handled, and returns what its handler has answered. -/
  returned : ∀ (i : ℕ) (c : Call) r, s.calls[i]? = some c → (c.request gateway).scope ≠ none →
    c.phase = .returned r → ∃ (j k : ℕ) (a : Node.Exchange) (response : Node.Response),
      s.origins[j]? = some (i, k) ∧ s.server.exchanges[j]? = some a ∧ a.Handled response ∧
      FetchResponse.result ⟨response.status, response.headers, response.body⟩ = some r

/-! ## Keys -/

theorem length_hex (bytes : Bytes) : (hex bytes).length = 2 * bytes.length := by
  rw [hex]
  induction bytes with
  | nil => rfl
  | cons b bytes ih =>
    have hdigit : ∀ n < 16, (JsString.utf16 (Nat.digitChar n)).length = 1 := by decide
    have hb := b.toNat_lt
    have hhigh := hdigit (b.toNat / 16) (by omega)
    have hlow := hdigit (b.toNat % 16) (by omega)
    rw [JsString.units, List.flatMap_cons, List.flatMap_append, List.length_append,
      ← JsString.units, ← JsString.units, ih, hexByte, JsString.units, List.flatMap_cons,
      List.flatMap_cons, List.flatMap_nil, List.append_nil, List.length_append, hhigh, hlow,
      List.length_cons]
    omega

theorem length_generateIdempotencyKey {bytes : Bytes} (h : bytes.length = 16) :
    (generateIdempotencyKey bytes).length = 37 := by
  rw [generateIdempotencyKey, List.length_append, length_hex, h]
  rfl

theorem key_request {client : HttpClient} {method : Method} {path : JsString}
    {body : Option JsString} {idBytes keyBytes : Bytes} {now : ℤ} {key : JsString}
    (h : (client.request method path body idBytes keyBytes now).key = some key) :
    key = generateIdempotencyKey keyBytes := by
  obtain ⟨header, hfind, rfl⟩ := Option.map_eq_some_iff.mp h
  have hname : header.1 = js "Idempotency-Key" := by simpa using List.find?_some hfind
  have hmem := List.mem_of_find?_eq_some hfind
  simp only [HttpClient.request, List.mem_append, List.mem_cons, List.not_mem_nil, or_false,
    Option.mem_toList, Option.map_eq_some_iff] at hmem
  have hthird : js "X-Request-Id" ≠ js "Idempotency-Key" := by decide
  have hfourth : js "X-Api-Key" ≠ js "Idempotency-Key" := by decide
  rcases hmem with ((rfl | rfl | rfl) | ⟨apiKey, -, rfl⟩) | hmem
  · exact absurd hname (by decide)
  · exact absurd hname (by decide)
  · exact absurd hname hthird
  · exact absurd hname hfourth
  · split at hmem
    · cases hmem
    · rw [List.mem_singleton.mp hmem]

theorem idempotencyKey_of_scope {request : Node.Request} {scope : Node.Scope}
    (h : request.scope = some scope) : request.idempotencyKey = some scope.idempotencyKey := by
  rw [Node.Request.scope] at h
  split at h
  · cases h
  · split at h
    · rename_i hkey _
      cases h
      exact hkey
    · cases h

/-- Keys of one length are told apart in the store, whatever stands before them. -/
theorem idempotencyKey_eq_of_storeKey {a b : Node.Scope} (h : a.storeKey = b.storeKey)
    (hlength : a.idempotencyKey.length = b.idempotencyKey.length) :
    a.idempotencyKey = b.idempotencyKey :=
  (List.append_inj' h hlength).2

theorem key_of_scope {gateway : Gateway} {c : Call} {scope : Node.Scope}
    (h : (c.request gateway).scope = some scope) : c.key = some scope.idempotencyKey :=
  idempotencyKey_of_scope h

/-! ## Responses -/

theorem result_congr {status : ℕ} {headers headers' : JsMap JsString JsString} {text : JsString}
    (h : ∀ name ∈ interestingHeaders, headers.get? name = headers'.get? name) :
    FetchResponse.result ⟨status, headers, text⟩ =
      FetchResponse.result ⟨status, headers', text⟩ := by
  have htype : headers.get? (js "content-type") = headers'.get? (js "content-type") :=
    h _ (.head _)
  have hbody : parseResponseBody ⟨status, headers, text⟩ =
      parseResponseBody ⟨status, headers', text⟩ := by
    rw [parseResponseBody, parseResponseBody]
    dsimp only
    rw [htype]
  have hheaders : extractHeaders ⟨status, headers, text⟩ =
      extractHeaders ⟨status, headers', text⟩ := by
    apply List.filterMap_congr
    intro name hname
    dsimp only
    rw [h name hname]
  rw [FetchResponse.result, FetchResponse.result, hbody, hheaders]
  rfl

/-- A replay is read as the response that it repeats. -/
theorem result_replay {cached : Node.CachedResponse} {response : Node.Response}
    (h : cached.Replays response) :
    FetchResponse.result ⟨cached.status, cached.headers.set (js "x-idempotent-replay") (js "true"),
      cached.body⟩ = FetchResponse.result ⟨response.status, response.headers, response.body⟩ := by
  rw [h.status, h.headers, h.body]
  apply result_congr
  intro name hname
  apply JsMap.get?_set_of_ne
  have hne : ∀ name ∈ interestingHeaders, js "x-idempotent-replay" ≠ name := by decide +kernel
  exact hne name hname

theorem lt_of_result_eq_some {response : FetchResponse} {r : AttestiaResponse}
    (h : response.result = some r) : response.status < 400 := by
  by_contra hstatus
  have hok : response.ok = false := ok_eq_false_of_le rfl (by omega)
  rw [result_eq_none_of_not_ok hok] at h
  cases h

/-! ## The server -/

section

variable {t t' : Node.IdempotentServer}

/-- An exchange of the server stays, and what its handler has answered stays. -/
def Keeps (t t' : Node.IdempotentServer) : Prop :=
  ∀ (j : ℕ) (a : Node.Exchange), t.exchanges[j]? = some a →
    ∃ a', t'.exchanges[j]? = some a' ∧ a'.request = a.request ∧
      (∀ response, a.Handled response → a'.Handled response) ∧
      ∀ status error, a'.phase = .refused status error → a.phase = .refused status error

theorem keeps_setPhase {i : ℕ} {exchange : Node.Exchange} {phase : Node.Phase}
    {store : Node.IdempotencyStore} (hi : t.exchanges[i]? = some exchange)
    (hhandled : ∀ response, exchange.Handled response →
      Node.Exchange.Handled ⟨exchange.request, phase⟩ response)
    (hrefused : ∀ status error, phase ≠ .refused status error) :
    Keeps t ⟨store, t.setPhase i exchange phase⟩ := by
  intro j a hj
  by_cases hij : i = j
  · subst hij
    cases hi.symm.trans hj
    refine ⟨⟨exchange.request, phase⟩, ?_, rfl, hhandled, ?_⟩
    · exact (Node.getElem?_setPhase hi).trans (if_pos rfl)
    · intro status error h
      exact absurd h (hrefused status error)
  · refine ⟨a, ?_, rfl, fun _ h => h, fun _ _ h => h⟩
    exact ((Node.getElem?_setPhase hi).trans (if_neg hij)).trans hj

theorem keeps_next {event : Node.HttpEvent} (hnext : t.next event = some t')
    (hevent : ∀ request now, event ≠ .received request now) :
    Keeps t t' ∧ t'.exchanges.length = t.exchanges.length := by
  cases event with
  | received request now => exact absurd rfl (hevent request now)
  | handled i response =>
    rw [Node.IdempotentServer.next] at hnext
    split at hnext
    · rename_i request hi
      cases hnext
      refine ⟨keeps_setPhase hi ?_ ?_, List.length_set⟩
      · rintro r ⟨-, h | h⟩ <;> cases h
      · intro status error
        rcases Node.afterHandler_cases request response with ⟨heq, -⟩ | ⟨heq, -⟩ <;> rw [heq] <;>
          exact Node.Phase.noConfusion
    · cases hnext
  | stored i now =>
    rw [Node.IdempotentServer.next] at hnext
    split at hnext
    · rename_i request response hi
      obtain ⟨scope, -, rfl⟩ := Option.map_eq_some_iff.mp hnext
      refine ⟨keeps_setPhase hi ?_ ?_, List.length_set⟩
      · rintro r ⟨hstatus, h | h⟩
        · cases h
          exact ⟨hstatus, .inr rfl⟩
        · cases h
      · intro status error
        exact Node.Phase.noConfusion
    · cases hnext
  | swept now =>
    cases hnext
    exact ⟨fun j a hj => ⟨a, hj, rfl, fun _ h => h, fun _ _ h => h⟩, rfl⟩

theorem refused_of_received {request : Node.Request} {now : ℤ} {status : ℕ}
    {error : Node.ErrorEnvelope}
    (h : (Node.lookUp t.store request now).1 = .refused status error) : status = 422 := by
  rw [Node.lookUp] at h
  split at h
  · cases h
  · split at h
    · cases h
    · split at h <;> cases h
      rfl

end

/-! ## The invariant -/

structure Deployment.Inv (gateway : Gateway) (s : Deployment) : Prop where
  server : s.server.Inv
  calls : ∀ c ∈ s.calls, c.Inv
  length : ∀ c ∈ s.calls, ∀ key, c.key = some key → key.length = 37
  fresh : ∀ (i i' : ℕ) (c c' : Call) key, s.calls[i]? = some c → s.calls[i']? = some c' →
    c.key = some key → c'.key = some key → i = i'
  origins : s.origins.length = s.server.exchanges.length
  requests : ∀ (j i k : ℕ) (a : Node.Exchange), s.origins[j]? = some (i, k) →
    s.server.exchanges[j]? = some a → ∃ c, s.calls[i]? = some c ∧ a.request = c.request gateway
  refused : ∀ a ∈ s.server.exchanges, ∀ status error, a.phase = .refused status error → status = 422
  returned : ∀ (i : ℕ) (c : Call) r, s.calls[i]? = some c → (c.request gateway).scope ≠ none →
    c.phase = .returned r → ∃ (j k : ℕ) (a : Node.Exchange) (response : Node.Response),
      s.origins[j]? = some (i, k) ∧ s.server.exchanges[j]? = some a ∧ a.Handled response ∧
      FetchResponse.result ⟨response.status, response.headers, response.body⟩ = some r

section

variable {gateway : Gateway} {dateParse : JsString → Option ℤ} {s s' : Deployment}

theorem exactlyOnce_of_inv (h : s.Inv gateway) : ExactlyOnce gateway s where
  returned := h.returned
  once := by
    intro i c j j' k k' a a' response response' hi hscope hj hj' ha ha' hhandled hhandled'
    obtain ⟨d, hd, hrequest⟩ := h.requests j i k a hj ha
    obtain ⟨d', hd', hrequest'⟩ := h.requests j' i k' a' hj' ha'
    cases hi.symm.trans hd
    cases hi.symm.trans hd'
    have hslot : a.request.slot = a'.request.slot := by rw [hrequest, hrequest']
    have hne : a.request.slot ≠ none := by
      rw [hrequest]
      exact Node.slot_ne_none.mpr hscope
    exact h.server.live j j' a a' ha ha' hslot hne hhandled.live hhandled'.live

/-- Two calls whose requests have one place in the store are one. -/
theorem Deployment.Inv.eq_of_scope (h : s.Inv gateway) {i i' : ℕ} {c c' : Call}
    (hi : s.calls[i]? = some c) (hi' : s.calls[i']? = some c') {scope scope' : Node.Scope}
    (hscope : (c.request gateway).scope = some scope)
    (hscope' : (c'.request gateway).scope = some scope') (hkey : scope.storeKey = scope'.storeKey) :
    i = i' := by
  have hc := key_of_scope hscope
  have hc' := key_of_scope hscope'
  have hlength : scope.idempotencyKey.length = scope'.idempotencyKey.length := by
    rw [h.length c (List.mem_of_getElem? hi) _ hc, h.length c' (List.mem_of_getElem? hi') _ hc']
  have heq := idempotencyKey_eq_of_storeKey hkey hlength
  exact h.fresh i i' c c' _ hi hi' hc (heq ▸ hc')

theorem Deployment.Inv.eq_of_slot (h : s.Inv gateway) {i i' : ℕ} {c c' : Call}
    (hi : s.calls[i]? = some c) (hi' : s.calls[i']? = some c')
    (hslot : (c.request gateway).slot = (c'.request gateway).slot)
    (hne : (c.request gateway).slot ≠ none) : i = i' := by
  obtain ⟨scope, hscope⟩ := Option.ne_none_iff_exists'.mp (Node.slot_ne_none.mp hne)
  obtain ⟨scope', hscope'⟩ := Option.ne_none_iff_exists'.mp
    (Node.slot_ne_none.mp (hslot.symm.trans_ne hne))
  rw [Node.slot_eq_some hscope, Node.slot_eq_some hscope', Option.some.injEq,
    Prod.mk.injEq] at hslot
  exact h.eq_of_scope hi hi' hscope hscope' hslot.1

/-- A response that an attempt returns is that of a handler that has succeeded. -/
theorem Deployment.Inv.handled_of_reply (h : s.Inv gateway) {i j k : ℕ} {a : Node.Exchange}
    {response : FetchResponse} {r : AttestiaResponse} (hj : s.origins[j]? = some (i, k))
    (ha : s.server.exchanges[j]? = some a) (hreply : replyOf a.phase = some response)
    (hresult : response.result = some r) :
    ∃ (j k : ℕ) (a : Node.Exchange) (response : Node.Response),
      s.origins[j]? = some (i, k) ∧ s.server.exchanges[j]? = some a ∧ a.Handled response ∧
      FetchResponse.result ⟨response.status, response.headers, response.body⟩ = some r := by
  have hmem := List.mem_of_getElem? ha
  cases hphase : a.phase with
  | handling =>
    rw [hphase] at hreply
    cases hreply
  | storing response' =>
    rw [hphase] at hreply
    cases hreply
  | responded response' =>
    rw [hphase] at hreply
    cases hreply
    exact ⟨j, k, a, response', hj, ha, ⟨lt_of_result_eq_some hresult, .inr hphase⟩, hresult⟩
  | refused status error =>
    rw [hphase] at hreply
    cases hreply
    have hstatus := h.refused a hmem status error hphase
    have hlt := lt_of_result_eq_some hresult
    dsimp only at hlt
    omega
  | replayed cached =>
    rw [hphase] at hreply
    cases hreply
    -- the exchange whose response is repeated is one of the same call
    obtain ⟨hne, b, hb, hslot, response', hanswered, hreplays⟩ :=
      h.server.replays a hmem cached hphase
    obtain ⟨j', hj'⟩ := List.mem_iff_getElem?.mp hb
    have hlt : j' < s.origins.length := by
      rw [h.origins]
      exact (List.getElem?_eq_some_iff.mp hj').1
    obtain ⟨⟨i', k'⟩, horigin⟩ : ∃ origin, s.origins[j']? = some origin :=
      ⟨_, List.getElem?_eq_getElem hlt⟩
    obtain ⟨d, hd, hdrequest⟩ := h.requests j' i' k' b horigin hj'
    obtain ⟨e, he, herequest⟩ := h.requests j i k a hj ha
    rw [hdrequest, herequest] at hslot
    rw [herequest, ← hslot] at hne
    have heq := h.eq_of_slot hd he hslot hne
    refine ⟨j', k', b, response', ?_, hj', hanswered.handled, ?_⟩
    · rw [horigin, heq]
    · rw [← result_replay hreplays]
      exact hresult

/-! ### Steps -/

theorem init_of_step {c c' : Call} {event : CallEvent} (h : Step dateParse c event c') :
    c'.url = c.url ∧ c'.init = c.init := by
  cases h with
  | gaveUp => exact ⟨rfl, rfl⟩
  | sent => exact ⟨rfl, rfl⟩
  | settled hawaiting outcome parsedAt waitedAt c' hsettled => cases hsettled <;> exact ⟨rfl, rfl⟩
  | woken => exact ⟨rfl, rfl⟩

/-- A step of a call returns only what the response of that step is read as. -/
theorem returned_of_step {c c' : Call} {event : CallEvent} {r : AttestiaResponse}
    (h : Step dateParse c event c') (hphase : c'.phase = .returned r) :
    ∃ outcome parsedAt waitedAt, event = .settled outcome parsedAt waitedAt ∧
      outcome.result = some r := by
  cases h with
  | gaveUp => cases hphase
  | sent => cases hphase
  | settled hawaiting outcome parsedAt waitedAt c' hsettled =>
    cases hsettled with
    | returned r' hresult =>
      cases hphase
      exact ⟨outcome, parsedAt, waitedAt, rfl, hresult⟩
    | slept => cases hphase
    | threw => cases hphase
  | woken => cases hphase

theorem Deployment.Inv.stepCall (h : s.Inv gateway) {i : ℕ} {event : CallEvent}
    (hstep : s.stepCall dateParse i event = some s')
    (hreturned : ∀ c outcome parsedAt waitedAt r, s.calls[i]? = some c →
      event = .settled outcome parsedAt waitedAt → outcome.result = some r →
      ∃ (j k : ℕ) (a : Node.Exchange) (response : Node.Response),
        s.origins[j]? = some (i, k) ∧ s.server.exchanges[j]? = some a ∧ a.Handled response ∧
        FetchResponse.result ⟨response.status, response.headers, response.body⟩ = some r) :
    s'.Inv gateway := by
  obtain ⟨c, hi, hstep⟩ := Option.bind_eq_some_iff.mp hstep
  obtain ⟨c', hnext, hstep⟩ := Option.bind_eq_some_iff.mp hstep
  cases hstep
  have hcall := step_of_next hnext
  obtain ⟨hurl, hinit⟩ := init_of_step hcall
  have hkey : c'.key = c.key := by rw [Call.key, hinit, Call.key]
  have hrequest : c'.request gateway = c.request gateway := by
    rw [Call.request, hurl, hinit, Call.request]
  have hget : ∀ {j : ℕ} {d : Call}, (s.calls.set i c')[j]? = some d →
      (i = j ∧ d = c') ∨ (i ≠ j ∧ s.calls[j]? = some d) := by
    intro j d hd
    rw [List.getElem?_set] at hd
    split at hd
    · rename_i hij
      rw [if_pos (List.getElem?_eq_some_iff.mp hi).1] at hd
      exact .inl ⟨hij, (Option.some.inj hd).symm⟩
    · rename_i hij
      exact .inr ⟨hij, hd⟩
  have hold : ∀ {j : ℕ} {d : Call}, (s.calls.set i c')[j]? = some d →
      ∃ e, s.calls[j]? = some e ∧ e.key = d.key ∧ e.request gateway = d.request gateway := by
    intro j d hd
    rcases hget hd with ⟨rfl, rfl⟩ | ⟨-, hd⟩
    · exact ⟨c, hi, hkey.symm, hrequest.symm⟩
    · exact ⟨d, hd, rfl, rfl⟩
  refine ⟨h.server, ?_, ?_, ?_, h.origins, ?_, h.refused, ?_⟩
  · intro d hd
    rcases List.mem_or_eq_of_mem_set hd with hd | rfl
    · exact h.calls d hd
    · exact (h.calls c (List.mem_of_getElem? hi)).step hcall
  · intro d hd key hdkey
    rcases List.mem_or_eq_of_mem_set hd with hd | rfl
    · exact h.length d hd key hdkey
    · exact h.length c (List.mem_of_getElem? hi) key (hkey ▸ hdkey)
  · intro j j' d d' key hj hj' hd hd'
    obtain ⟨e, he, hekey, -⟩ := hold hj
    obtain ⟨e', he', hekey', -⟩ := hold hj'
    exact h.fresh j j' e e' key he he' (hekey.trans hd) (hekey'.trans hd')
  · intro j l k a hj ha
    obtain ⟨d, hd, hdrequest⟩ := h.requests j l k a hj ha
    by_cases hil : i = l
    · subst hil
      cases hi.symm.trans hd
      exact ⟨c', by rw [List.getElem?_set_self (List.getElem?_eq_some_iff.mp hi).1],
        hdrequest.trans hrequest.symm⟩
    · exact ⟨d, by rw [List.getElem?_set_ne hil, hd], hdrequest⟩
  · intro j d r hj hscope hphase
    rcases hget hj with ⟨rfl, rfl⟩ | ⟨-, hd⟩
    · obtain ⟨outcome, parsedAt, waitedAt, hevent, hresult⟩ := returned_of_step hcall hphase
      exact hreturned c outcome parsedAt waitedAt r hi hevent hresult
    · exact h.returned j d r hd hscope hphase

theorem Deployment.Inv.called (h : s.Inv gateway) {client : HttpClient} {method : Method}
    {path : JsString} {body : Option JsString} {idBytes keyBytes : Bytes} {now : ℤ}
    (hfresh : Fresh s (.called client method path body idBytes keyBytes now)) :
    Deployment.Inv gateway
      { s with calls := s.calls ++ [client.request method path body idBytes keyBytes now] } := by
  obtain ⟨hlength, hnew⟩ := hfresh
  have hcases : ∀ {j : ℕ} {d : Call},
      (s.calls ++ [client.request method path body idBytes keyBytes now])[j]? = some d →
      s.calls[j]? = some d ∨
        (j = s.calls.length ∧ d = client.request method path body idBytes keyBytes now) := by
    intro j d hd
    rw [List.getElem?_append] at hd
    split at hd
    · exact .inl hd
    · rename_i hj
      have hzero := (List.getElem?_eq_some_iff.mp hd).1
      rw [List.length_singleton] at hzero
      have hj' : j = s.calls.length := by omega
      subst hj'
      rw [Nat.sub_self] at hd
      exact .inr ⟨rfl, (Option.some.inj hd).symm⟩
  refine ⟨h.server, ?_, ?_, ?_, h.origins, ?_, h.refused, ?_⟩
  · intro d hd
    rcases List.mem_append.mp hd with hd | hd
    · exact h.calls d hd
    · rw [List.mem_singleton.mp hd]
      exact inv_request client method path body idBytes keyBytes now
  · intro d hd key hdkey
    rcases List.mem_append.mp hd with hd | hd
    · exact h.length d hd key hdkey
    · rw [List.mem_singleton.mp hd] at hdkey
      rw [key_request hdkey, length_generateIdempotencyKey hlength]
  · intro j j' d d' key hj hj' hd hd'
    rcases hcases hj with hj | ⟨hlast, rfl⟩ <;> rcases hcases hj' with hj' | ⟨hlast', rfl⟩
    · exact h.fresh j j' d d' key hj hj' hd hd'
    · exact absurd hd (hnew d (List.mem_of_getElem? hj) key hd')
    · exact absurd hd' (hnew d' (List.mem_of_getElem? hj') key hd)
    · exact hlast.trans hlast'.symm
  · intro j l k a hj ha
    obtain ⟨d, hd, hdrequest⟩ := h.requests j l k a hj ha
    refine ⟨d, ?_, hdrequest⟩
    exact (List.getElem?_append_left (List.getElem?_eq_some_iff.mp hd).1).trans hd
  · intro j d r hj hscope hphase
    rcases hcases hj with hd | ⟨-, rfl⟩
    · exact h.returned j d r hd hscope hphase
    · cases hphase

theorem Deployment.Inv.apart (h : s.Inv gateway) {i : ℕ} {c : Call} {now : ℤ}
    (hi : s.calls[i]? = some c)
    (hsettling : (c.request gateway).scope ≠ none → ∀ (j : ℕ) (k : ℕ) (a : Node.Exchange),
      s.origins[j]? = some (i, k) → s.server.exchanges[j]? = some a → ¬ a.InFlight) :
    Node.Apart s.server (.received (c.request gateway) now) := by
  intro a ha hslot hne
  obtain ⟨j, hj⟩ := List.mem_iff_getElem?.mp ha
  have hlt : j < s.origins.length := by
    rw [h.origins]
    exact (List.getElem?_eq_some_iff.mp hj).1
  obtain ⟨⟨i', k'⟩, horigin⟩ : ∃ origin, s.origins[j]? = some origin :=
    ⟨_, List.getElem?_eq_getElem hlt⟩
  obtain ⟨d, hd, hdrequest⟩ := h.requests j i' k' a horigin hj
  rw [hdrequest] at hslot ⊢
  obtain rfl : i' = i := h.eq_of_slot hd hi hslot (hslot.trans_ne hne)
  cases hi.symm.trans hd
  exact ⟨rfl, hsettling (Node.slot_ne_none.mp hne) j k' a horigin hj⟩

theorem Deployment.Inv.deliver (h : s.Inv gateway) {i k : ℕ} {now : ℤ}
    (hsettling : Settling gateway s (.delivered i k now))
    (hdeliver : s.deliver gateway i k now = some s') : s'.Inv gateway := by
  obtain ⟨c, hi, hdeliver⟩ := Option.bind_eq_some_iff.mp hdeliver
  obtain ⟨sent, hsent, hdeliver⟩ := Option.bind_eq_some_iff.mp hdeliver
  obtain ⟨server, hnext, hdeliver⟩ := Option.bind_eq_some_iff.mp hdeliver
  cases hdeliver
  obtain ⟨hurl, hinit, -⟩ := (h.calls c (List.mem_of_getElem? hi)).sends sent
    (List.mem_of_getElem? hsent)
  rw [hurl, hinit] at hnext
  obtain ⟨hundisturbed, hanswered⟩ := hsettling c hi
  have hserver := h.server.next hundisturbed (h.apart hi hanswered) hnext
  cases hnext
  have hleft : ∀ {j : ℕ} {a : Node.Exchange}, s.server.exchanges[j]? = some a →
      (s.server.exchanges ++ [⟨c.request gateway,
        (Node.lookUp s.server.store (c.request gateway) now).1⟩])[j]? = some a :=
    fun hj => (List.getElem?_append_left (List.getElem?_eq_some_iff.mp hj).1).trans hj
  refine ⟨hserver, h.calls, h.length, h.fresh, ?_, ?_, ?_, ?_⟩
  · rw [List.length_append, List.length_append, h.origins]
    rfl
  · intro j i' k' a hj ha
    by_cases hlt : j < s.server.exchanges.length
    · rw [List.getElem?_append_left hlt] at ha
      rw [List.getElem?_append_left (h.origins ▸ hlt)] at hj
      exact h.requests j i' k' a hj ha
    · -- the new exchange is one of the call that is sent
      have hlast : j = s.server.exchanges.length := by
        have hj' := (List.getElem?_eq_some_iff.mp ha).1
        rw [List.length_append, List.length_singleton] at hj'
        omega
      rw [hlast, List.getElem?_concat_length] at ha
      rw [hlast, ← h.origins, List.getElem?_concat_length] at hj
      cases hj
      cases ha
      exact ⟨c, hi, rfl⟩
  · intro a ha status error hphase
    rcases List.mem_append.mp ha with ha | ha
    · exact h.refused a ha status error hphase
    · rw [List.mem_singleton.mp ha] at hphase
      exact refused_of_received hphase
  · intro j d r hd hscope hphase
    obtain ⟨l, k', a, response, hl, ha, hhandled, hresult⟩ := h.returned j d r hd hscope hphase
    refine ⟨l, k', a, response, ?_, hleft ha, hhandled, hresult⟩
    exact (List.getElem?_append_left (List.getElem?_eq_some_iff.mp hl).1).trans hl

theorem Deployment.Inv.served (h : s.Inv gateway) {event : Node.HttpEvent}
    (hsettling : Settling gateway s (.served event))
    (hevent : ∀ request now, event ≠ .received request now)
    (hnext : (s.server.next event).map (fun server => { s with server := server }) = some s') :
    s'.Inv gateway := by
  have hundisturbed : Node.Undisturbed s.server event := hsettling
  obtain ⟨server, hserver, rfl⟩ := Option.map_eq_some_iff.mp hnext
  obtain ⟨hkeeps, hlength⟩ := keeps_next hserver hevent
  have happart : Node.Apart s.server event := by
    cases event with
    | received request now => exact absurd rfl (hevent request now)
    | handled i response => trivial
    | stored i now => trivial
    | swept now => trivial
  have hback : ∀ {j : ℕ} {a' : Node.Exchange}, server.exchanges[j]? = some a' →
      ∃ a, s.server.exchanges[j]? = some a ∧ a'.request = a.request ∧
        ∀ status error, a'.phase = .refused status error → a.phase = .refused status error := by
    intro j a' hj
    have hlt : j < s.server.exchanges.length := by
      rw [← hlength]
      exact (List.getElem?_eq_some_iff.mp hj).1
    obtain ⟨a, ha⟩ : ∃ a, s.server.exchanges[j]? = some a := ⟨_, List.getElem?_eq_getElem hlt⟩
    obtain ⟨b, hb, hrequest, -, hrefused⟩ := hkeeps j a ha
    cases hj.symm.trans hb
    exact ⟨a, ha, hrequest, hrefused⟩
  refine ⟨h.server.next hundisturbed happart hserver, h.calls, h.length, h.fresh,
    h.origins.trans hlength.symm, ?_, ?_, ?_⟩
  · intro j i k a' hj ha'
    obtain ⟨a, ha, hrequest, -⟩ := hback ha'
    obtain ⟨c, hc, hcrequest⟩ := h.requests j i k a hj ha
    exact ⟨c, hc, hrequest.trans hcrequest⟩
  · intro a' ha' status error hphase
    obtain ⟨j, hj⟩ := List.mem_iff_getElem?.mp ha'
    obtain ⟨a, ha, -, hrefused⟩ := hback hj
    exact h.refused a (List.mem_of_getElem? ha) status error (hrefused status error hphase)
  · intro i c r hi hscope hphase
    obtain ⟨j, k, a, response, hj, ha, hhandled, hresult⟩ := h.returned i c r hi hscope hphase
    obtain ⟨a', ha', -, hstays, -⟩ := hkeeps j a ha
    exact ⟨j, k, a', response, hj, ha', hstays response hhandled, hresult⟩

theorem Deployment.Inv.answer (h : s.Inv gateway) {j : ℕ} {parsedAt waitedAt : ℤ}
    (hanswer : s.answer dateParse j parsedAt waitedAt = some s') : s'.Inv gateway := by
  obtain ⟨⟨i, k⟩, hj, hanswer⟩ := Option.bind_eq_some_iff.mp hanswer
  obtain ⟨a, ha, hanswer⟩ := Option.bind_eq_some_iff.mp hanswer
  obtain ⟨response, hreply, hanswer⟩ := Option.bind_eq_some_iff.mp hanswer
  obtain ⟨c, hi, hanswer⟩ := Option.bind_eq_some_iff.mp hanswer
  split at hanswer
  · refine h.stepCall hanswer ?_
    intro d outcome _ _ r _ hevent hresult
    cases hevent
    exact h.handled_of_reply hj ha hreply hresult
  · cases hanswer

theorem Deployment.Inv.next (h : s.Inv gateway) {event : DeploymentEvent}
    (hfresh : Fresh s event) (hsettling : Settling gateway s event)
    (hnext : s.next gateway dateParse event = some s') : s'.Inv gateway := by
  cases event with
  | called client method path body idBytes keyBytes now =>
    cases hnext
    exact h.called hfresh
  | begun i now =>
    refine h.stepCall hnext ?_
    intro _ _ _ _ _ _ hevent
    cases hevent
  | woken i =>
    refine h.stepCall hnext ?_
    intro _ _ _ _ _ _ hevent
    cases hevent
  | lost i outcome =>
    -- nothing is returned where there is no response
    cases outcome with
    | responded response => cases hnext
    | aborted =>
      refine h.stepCall hnext ?_
      intro _ _ _ _ _ _ hevent hresult
      cases hevent
      cases hresult
    | rejected thrown =>
      refine h.stepCall hnext ?_
      intro _ _ _ _ _ _ hevent hresult
      cases hevent
      cases hresult
  | delivered i k now => exact h.deliver hsettling hnext
  | served event =>
    cases event with
    | received request now => cases hnext
    | handled i response => exact h.served hsettling (by simp) hnext
    | stored i now => exact h.served hsettling (by simp) hnext
    | swept now => exact h.served hsettling (by simp) hnext
  | answered j parsedAt waitedAt => exact h.answer hnext

end

/-- In every run in which the keys are fresh, the store keeps its entries, and no send of a mutation
overtakes an exchange of it, mutations are executed once. -/
theorem exactlyOnce {gateway : Gateway} {dateParse : JsString → Option ℤ}
    {ttlMs maxEntries maxBodyBytes : JsNumber} {s : Deployment}
    (h : (deploymentSystem gateway dateParse ttlMs maxEntries maxBodyBytes).ReachableVia
      (fun s event => Fresh s event ∧ Settling gateway s event) s) : ExactlyOnce gateway s := by
  apply exactlyOnce_of_inv
  refine System.ReachableVia.invariant ?_ (fun _ _ _ ht hok hnext => ht.next hok.1 hok.2 hnext) h
  rintro t rfl
  refine ⟨⟨?_, ?_, ?_, ?_, ?_, ?_⟩, ?_, ?_, ?_, rfl, ?_, ?_, ?_⟩ <;> simp

/-! ### A response that is lost -/

def paymentGateway : Gateway :=
  ⟨fun _ => some (js "t"), fun url => url.drop retryingClient.baseUrl.length⟩

def paymentCall : Call :=
  retryingClient.request .post (js "/p") (some (js "{}")) [1] (List.replicate 16 2) 0

def payments : System Deployment DeploymentEvent :=
  deploymentSystem paymentGateway (fun _ => none) (.finite 86400000) (.finite 50000)
    (.finite 1048576)

def sentAt (now : ℤ) : Sent :=
  ⟨paymentCall.url, paymentCall.init,
    mathMin (paymentCall.deadline.sub (.finite now)) retryingClient.timeout, now⟩

def firstAttempt : Call := { paymentCall with phase := .awaiting, sends := [sentAt 0] }

def fetchFailed : Thrown := .error (js "fetch failed")

def lostAttempt : Call :=
  { firstAttempt with
    phase := .sleeping (.finite (1000 : ℕ))
    lastError := some (js "fetch failed")
    outcomes := [.rejected fetchFailed] }

def secondAttempt : Call :=
  { lostAttempt with phase := .awaiting, attempt := 1, sends := [sentAt 0, sentAt 1010] }

theorem beginAttempt_paymentCall : paymentCall.beginAttempt 0 = firstAttempt := by
  rw [Call.beginAttempt, if_neg (by decide +kernel)]
  dsimp only
  rw [if_neg (by decide +kernel)]
  rfl

theorem settle_firstAttempt :
    { firstAttempt with outcomes := [.rejected fetchFailed] }.settle (fun _ => none)
      (.rejected fetchFailed) 0 0 = lostAttempt := by
  rw [Call.settle, fetchFailed, Call.onThrown, if_pos]
  · rfl
  · decide +kernel

theorem beginAttempt_lostAttempt :
    { lostAttempt with phase := .due, attempt := 1 }.beginAttempt 1010 = secondAttempt := by
  rw [Call.beginAttempt, if_neg (by decide +kernel)]
  dsimp only
  rw [if_neg (by decide +kernel)]
  rfl

def paymentRequest : Node.Request := paymentCall.request paymentGateway

def paymentScope : Node.Scope :=
  ⟨js "t", js "POST", paymentRequest.path, generateIdempotencyKey (List.replicate 16 2)⟩

theorem scope_paymentRequest : paymentRequest.scope = some paymentScope := by
  have hmethod : paymentRequest.method = js "POST" := rfl
  rw [Node.Request.scope, if_neg (not_not.mpr hmethod)]
  rfl

theorem deliver_eq {gateway : Gateway} {s : Deployment} {i k : ℕ} {now : ℤ} {c : Call} {sent : Sent}
    {server : Node.IdempotentServer} (hc : s.calls[i]? = some c) (hsent : c.sends[k]? = some sent)
    (hserver : s.server.next (.received (gateway.receive sent.url sent.init) now) = some server) :
    s.deliver gateway i k now =
      some { s with server := server, origins := s.origins ++ [(i, k)] } := by
  rw [Deployment.deliver, hc, Option.bind_eq_bind, Option.bind_some, hsent, Option.bind_eq_bind,
    Option.bind_some, hserver]
  rfl

/-- The attempt that waits for a response can take it. -/
theorem exists_answer {dateParse : JsString → Option ℤ} {s : Deployment} {i j k : ℕ}
    {a : Node.Exchange} {response : FetchResponse} {c : Call} (parsedAt waitedAt : ℤ)
    (hj : s.origins[j]? = some (i, k)) (ha : s.server.exchanges[j]? = some a)
    (hreply : replyOf a.phase = some response) (hc : s.calls[i]? = some c)
    (hsends : c.sends.length = k + 1) (hphase : c.phase = .awaiting) :
    ∃ c', s.answer dateParse j parsedAt waitedAt = some { s with calls := s.calls.set i c' } := by
  have hnext : ∃ c',
      c.next dateParse (.settled (.responded response) parsedAt waitedAt) = some c' := by
    rw [Call.next, hphase]
    exact ⟨_, rfl⟩
  obtain ⟨c', hnext⟩ := hnext
  refine ⟨c', ?_⟩
  have hstep : s.stepCall dateParse i (.settled (.responded response) parsedAt waitedAt) =
      some { s with calls := s.calls.set i c' } := by
    rw [Deployment.stepCall, hc, Option.bind_eq_bind, Option.bind_some, hnext]
    rfl
  rw [Deployment.answer, hj, Option.bind_eq_bind, Option.bind_some, ha]
  dsimp only [Option.bind_eq_bind, Option.bind_some]
  rw [hreply, Option.bind_some, hc, Option.bind_some, if_pos hsends, hstep]

theorem served_stored (gateway : Gateway) (dateParse : JsString → Option ℤ) {calls : List Call}
    {t t' : Node.IdempotentServer} {origins : List (ℕ × ℕ)} {i : ℕ} {now : ℤ}
    (h : t.next (.stored i now) = some t') :
    Deployment.next gateway dateParse ⟨calls, t, origins⟩ (.served (.stored i now)) =
      some ⟨calls, t', origins⟩ := by
  rw [Deployment.next, h]
  · rfl
  · exact fun _ _ => Node.HttpEvent.noConfusion

theorem next_stored {r : Node.Request} {scope : Node.Scope} (h : r.scope = some scope) :
    Node.IdempotentServer.next ⟨Node.emptyStore, [⟨r, .storing Node.created⟩]⟩ (.stored 0 0) =
      some (Node.answered r scope) := by
  change r.scope.map _ = _
  rw [h]
  rfl

/-- The payment is handled, and the client does not hear of it. -/
theorem reachable_lostAttempt : payments.ReachableVia
    (fun s event => Fresh s event ∧ Settling paymentGateway s event)
    ⟨[lostAttempt], Node.answered paymentRequest paymentScope, [(0, 0)]⟩ := by
  have h0 : payments.ReachableVia (fun s event => Fresh s event ∧ Settling paymentGateway s event)
      ⟨[], ⟨Node.emptyStore, []⟩, []⟩ := .init rfl
  have h1 : payments.ReachableVia (fun s event => Fresh s event ∧ Settling paymentGateway s event)
      ⟨[paymentCall], ⟨Node.emptyStore, []⟩, []⟩ := by
    refine h0.step (e := .called retryingClient .post (js "/p") (some (js "{}")) [1]
      (List.replicate 16 2) 0) ⟨⟨rfl, by simp⟩, trivial⟩ rfl
  have h2 : payments.ReachableVia (fun s event => Fresh s event ∧ Settling paymentGateway s event)
      ⟨[firstAttempt], ⟨Node.emptyStore, []⟩, []⟩ := by
    refine h1.step (e := .begun 0 0) ⟨trivial, trivial⟩ ?_
    rw [← beginAttempt_paymentCall]
    rfl
  have h3 : payments.ReachableVia (fun s event => Fresh s event ∧ Settling paymentGateway s event)
      ⟨[firstAttempt], ⟨Node.emptyStore, [⟨paymentRequest, .handling⟩]⟩, [(0, 0)]⟩ := by
    refine h2.step (e := .delivered 0 0 0) ⟨trivial, ?_⟩ ?_
    · intro c hc
      cases hc
      exact ⟨Node.undisturbed_received paymentRequest [], by simp⟩
    · exact deliver_eq rfl rfl (Node.next_received paymentRequest [])
  have h4 : payments.ReachableVia (fun s event => Fresh s event ∧ Settling paymentGateway s event)
      ⟨[firstAttempt], ⟨Node.emptyStore, [⟨paymentRequest, .storing Node.created⟩]⟩, [(0, 0)]⟩ := by
    refine h3.step (e := .served (.handled 0 Node.created)) ⟨trivial, trivial⟩ ?_
    rw [← Node.afterHandler_created scope_paymentRequest]
    rfl
  have h5 : payments.ReachableVia (fun s event => Fresh s event ∧ Settling paymentGateway s event)
      ⟨[firstAttempt], Node.answered paymentRequest paymentScope, [(0, 0)]⟩ := by
    refine h4.step (e := .served (.stored 0 0)) ⟨trivial, ?_⟩ ?_
    · intro request response other hi _
      cases hi
      exact Node.fits_emptyStore paymentRequest other.storeKey
    · exact served_stored paymentGateway (fun _ => none) (next_stored scope_paymentRequest)
  refine h5.step (e := .lost 0 (.rejected fetchFailed)) ⟨trivial, trivial⟩ ?_
  rw [← settle_firstAttempt]
  rfl

/-- The payment reaches the server again. -/
def repeated : Deployment where
  calls := [secondAttempt]
  server := ⟨(Node.answered paymentRequest paymentScope).store,
    [⟨paymentRequest, .responded Node.created⟩,
      ⟨paymentRequest, .replayed (Node.cachedOf paymentRequest Node.created 0)⟩]⟩
  origins := [(0, 0), (0, 1)]

theorem reachable_repeated : payments.ReachableVia
    (fun s event => Fresh s event ∧ Settling paymentGateway s event) repeated := by
  have h1 := reachable_lostAttempt.step (e := DeploymentEvent.woken 0) ⟨trivial, trivial⟩ rfl
  have h2 : payments.ReachableVia (fun s event => Fresh s event ∧ Settling paymentGateway s event)
      ⟨[secondAttempt], Node.answered paymentRequest paymentScope, [(0, 0)]⟩ := by
    refine h1.step (e := .begun 0 1010) ⟨trivial, trivial⟩ ?_
    rw [← beginAttempt_lostAttempt]
    rfl
  refine h2.step (e := .delivered 0 1 0) ⟨trivial, ?_⟩ ?_
  · intro c hc
    cases hc
    refine ⟨Node.undisturbed_answered scope_paymentRequest rfl, ?_⟩
    intro _ j k a hj ha
    cases List.mem_singleton.mp (List.mem_of_getElem? ha)
    rintro (hphase | ⟨response, hphase⟩) <;> cases hphase
  · exact deliver_eq rfl rfl (Node.next_answered scope_paymentRequest rfl rfl)

theorem exactlyOnce_payments : ∃ s, ExactlyOnce paymentGateway s ∧ s.calls.length = 1 ∧
    s.origins = [(0, 0), (0, 1)] ∧ s.server = repeated.server := by
  -- the replay is what the second attempt returns
  have hanswer : ∃ c', repeated.answer (fun _ => none) 1 0 0 =
      some { repeated with calls := repeated.calls.set 0 c' } :=
    exists_answer (k := 1) (c := secondAttempt) 0 0 rfl rfl rfl rfl rfl rfl
  obtain ⟨c', hanswer⟩ := hanswer
  exact ⟨_, exactlyOnce (reachable_repeated.step (e := .answered 1 0 0) ⟨trivial, trivial⟩ hanswer),
    rfl, rfl, rfl⟩

end Attestia.Sdk
