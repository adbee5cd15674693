import Attestia.Lib.Fifo
import Attestia.Lib.System
import Attestia.Verify.GlobalStateHash

/-!
# Idempotency keys

`idempotency.ts`: the response of a POST is kept under the tenant, the method, the path and the key
of the request, and returned to the next request of that key. The store is asked before the handler
runs and written behind it; other requests come in between.
-/

namespace Attestia.Node

open Lib Verify

structure Response where
  status : ℕ
  headers : JsMap JsString JsString
  body : JsString

structure CachedResponse where
  status : ℕ
  body : JsString
  headers : JsMap JsString JsString
  cachedAt : ℤ
  bodyHash : JsString

structure IdempotencyStore where
  cache : JsMap JsString CachedResponse
  ttlMs : JsNumber
  maxEntries : JsNumber
  maxBodyBytes : JsNumber

namespace IdempotencyStore

variable (store : IdempotencyStore)

def isExpired (now : ℤ) (entry : CachedResponse) : Bool :=
  store.ttlMs.lt (.finite (now - entry.cachedAt : ℤ))

def get (now : ℤ) (key : JsString) : Option CachedResponse × IdempotencyStore :=
  match store.cache.get? key with
  | none => (none, store)
  | some entry =>
    if store.isExpired now entry then (none, { store with cache := store.cache.erase key })
    else (some entry, store)

/-- The entry is inserted again behind the others, and the oldest ones are evicted. -/
def set (key : JsString) (response : CachedResponse) : IdempotencyStore :=
  if store.maxBodyBytes.lt (.finite (response.body.length : ℕ)) then store
  else
    { store with
      cache := ((store.cache.erase key).set key response).evictOldest store.maxEntries }

def sweep (now : ℤ) : IdempotencyStore :=
  { store with
    cache := store.cache.filterKeys fun key =>
      (store.cache.get? key).all fun entry => !store.isExpired now entry }

end IdempotencyStore

/-! ## The middleware -/

/-- A request, with the tenant where it is authenticated. -/
structure Request where
  tenantId : Option JsString
  method : JsString
  path : JsString
  idempotencyKey : Option JsString
  body : String

/-- What the response of a request is kept for. -/
structure Scope where
  tenantId : JsString
  method : JsString
  path : JsString
  idempotencyKey : JsString

def Scope.storeKey (scope : Scope) : JsString :=
  scope.tenantId ++ js ":" ++ scope.method ++ js " " ++ scope.path ++ js ":" ++ scope.idempotencyKey

namespace Request

variable (r : Request)

/-- The other requests pass by the store. -/
def scope : Option Scope :=
  if r.method ≠ js "POST" then none
  else
    match r.idempotencyKey, r.tenantId with
    | some key, some tenantId => some ⟨tenantId, r.method, r.path, key⟩
    | _, _ => none

def bodyHash : JsString := sha256Hex r.body

/-- What the store tells requests apart by. -/
def slot : Option (JsString × JsString) := r.scope.map fun scope => (scope.storeKey, r.bodyHash)

end Request

structure ErrorEnvelope where
  code : JsString
  message : JsString
  hint : JsString

def idempotencyMismatch : ErrorEnvelope where
  code := js "IDEMPOTENCY_MISMATCH"
  message := js "Idempotency key reuse with different request body"
  hint := js ("Reuse this Idempotency-Key only for byte-identical retries; use a fresh key for a " ++
    "different request.")

/-- How far a request has come: its handler runs, its response is read for the store, or it is
answered. -/
inductive Phase where
  | handling
  | storing (response : Response)
  | responded (response : Response)
  | replayed (cached : CachedResponse)
  | refused (status : ℕ) (error : ErrorEnvelope)

structure Exchange where
  request : Request
  phase : Phase

structure IdempotentServer where
  store : IdempotencyStore
  exchanges : List Exchange

/-- What is done with the requests, each of which has its place in the list. -/
inductive HttpEvent where
  | received (request : Request) (now : ℤ)
  | handled (i : ℕ) (response : Response)
  | stored (i : ℕ) (now : ℤ)
  | swept (now : ℤ)

def cachedOf (request : Request) (response : Response) (now : ℤ) : CachedResponse where
  status := response.status
  body := response.body
  headers := response.headers
  cachedAt := now
  bodyHash := request.bodyHash

/-- The answer of the store to a request. -/
def lookUp (store : IdempotencyStore) (request : Request) (now : ℤ) : Phase × IdempotencyStore :=
  match request.scope with
  | none => (.handling, store)
  | some scope =>
    match store.get now scope.storeKey with
    | (none, store) => (.handling, store)
    | (some cached, store) =>
      if cached.bodyHash ≠ request.bodyHash then (.refused 422 idempotencyMismatch, store)
      else (.replayed cached, store)

/-- What becomes of the response of the handler. -/
def afterHandler (request : Request) (response : Response) : Phase :=
  if request.scope.isSome && response.status < 400 then .storing response else .responded response

namespace IdempotentServer

variable (s : IdempotentServer)

def setPhase (i : ℕ) (exchange : Exchange) (phase : Phase) : List Exchange :=
  s.exchanges.set i { exchange with phase := phase }

def next : HttpEvent → Option IdempotentServer
  | .received request now =>
    let r := lookUp s.store request now
    some ⟨r.2, s.exchanges ++ [⟨request, r.1⟩]⟩
  | .handled i response =>
    match s.exchanges[i]? with
    | some ⟨request, .handling⟩ => some { s with
        exchanges := s.setPhase i ⟨request, .handling⟩ (afterHandler request response) }
    | _ => none
  | .stored i now =>
    match s.exchanges[i]? with
    | some ⟨request, .storing response⟩ => request.scope.map fun scope =>
        ⟨s.store.set scope.storeKey (cachedOf request response now),
          s.setPhase i ⟨request, .storing response⟩ (.responded response)⟩
    | _ => none
  | .swept now => some { s with store := s.store.sweep now }

end IdempotentServer

/-- A store is empty when it is created. -/
def idempotentSystem (ttlMs maxEntries maxBodyBytes : JsNumber) :
    System IdempotentServer HttpEvent where
  init s := s = ⟨⟨.empty, ttlMs, maxEntries, maxBodyBytes⟩, []⟩
  next := IdempotentServer.next

/-! ## At most once -/

namespace Exchange

variable (e : Exchange)

/-- The handler of a request has succeeded. -/
def Handled (response : Response) : Prop :=
  response.status < 400 ∧ (e.phase = .storing response ∨ e.phase = .responded response)

/-- A request whose response is not yet in the store. -/
def InFlight : Prop := e.phase = .handling ∨ ∃ response, e.phase = .storing response

end Exchange

/-- The response is the one that is kept. -/
structure CachedResponse.Replays (cached : CachedResponse) (response : Response) : Prop where
  status : cached.status = response.status
  headers : cached.headers = response.headers
  body : cached.body = response.body

/-- What the keys are for. -/
structure AtMostOnce (s : IdempotentServer) : Prop where
  /-- Of the requests with one key and one body, the handler of one succeeds. -/
  once : ∀ (i j : ℕ) (a b : Exchange) response response', s.exchanges[i]? = some a → s.exchanges[j]? = some b →
    a.request.scope = b.request.scope → a.request.scope ≠ none → a.request.body = b.request.body →
    a.Handled response → b.Handled response' → i = j
  /-- The others that succeed get its response. -/
  same : ∀ a ∈ s.exchanges, ∀ b ∈ s.exchanges, ∀ response cached,
    a.request.scope = b.request.scope → a.request.body = b.request.body →
    a.Handled response → b.phase = .replayed cached → cached.Replays response
  /-- A response is only replayed for the key it was produced for. -/
  isolated : ∀ b ∈ s.exchanges, ∀ cached, b.phase = .replayed cached →
    ∃ a ∈ s.exchanges, a.request.scope = b.request.scope ∧
      ∃ response, a.Handled response ∧ cached.Replays response

/-- Nothing expires, no response is too large, and the store has room. -/
def Undisturbed (s : IdempotentServer) : HttpEvent → Prop
  | .received request now => ∀ scope cached, request.scope = some scope →
      s.store.cache.get? scope.storeKey = some cached → s.store.isExpired now cached = false
  | .stored i now => ∀ request response scope, s.exchanges[i]? = some ⟨request, .storing response⟩ →
      request.scope = some scope →
        s.store.maxBodyBytes.lt (.finite (response.body.length : ℕ)) = false ∧
        s.store.maxEntries.lt (.finite (((s.store.cache.erase scope.storeKey).set scope.storeKey
          (cachedOf request response now)).entries.length : ℕ)) = false
  | .swept now => ∀ key cached, s.store.cache.get? key = some cached →
      s.store.isExpired now cached = false
  | .handled _ _ => True

/-- A request that the store does not tell apart from an earlier one has its key, and comes when the
earlier one is answered. -/
def Apart (s : IdempotentServer) : HttpEvent → Prop
  | .received request _ => ∀ a ∈ s.exchanges, a.request.slot = request.slot → request.slot ≠ none →
      a.request.scope = request.scope ∧ ¬ a.InFlight
  | _ => True

/-! ## The invariant -/

namespace Exchange

/-- The response is that of a handler that has succeeded, and is in the store. -/
def Answered (e : Exchange) (response : Response) : Prop :=
  response.status < 400 ∧ e.phase = .responded response

def Live (e : Exchange) : Prop := e.InFlight ∨ ∃ response, e.Answered response

end Exchange

namespace IdempotentServer

structure Inv (s : IdempotentServer) : Prop where
  live : ∀ (i j : ℕ) (a b : Exchange), s.exchanges[i]? = some a → s.exchanges[j]? = some b →
    a.request.slot = b.request.slot → a.request.slot ≠ none → a.Live → b.Live → i = j
  scopes : ∀ a ∈ s.exchanges, ∀ b ∈ s.exchanges, a.request.slot = b.request.slot →
    a.request.slot ≠ none → a.request.scope = b.request.scope
  storing : ∀ a ∈ s.exchanges, ∀ response, a.phase = .storing response → response.status < 400
  stored : ∀ a ∈ s.exchanges, ∀ scope response, a.request.scope = some scope →
    a.Answered response → scope.storeKey ∈ s.store.cache.keys
  entries : ∀ key cached, s.store.cache.get? key = some cached →
    ∃ a ∈ s.exchanges, a.request.slot = some (key, cached.bodyHash) ∧
      ∃ response, a.Answered response ∧ cached.Replays response
  replays : ∀ b ∈ s.exchanges, ∀ cached, b.phase = .replayed cached →
    b.request.slot ≠ none ∧ ∃ a ∈ s.exchanges, a.request.slot = b.request.slot ∧
      ∃ response, a.Answered response ∧ cached.Replays response

end IdempotentServer

section

variable {s s' : IdempotentServer} {request : Request} {now : ℤ}

theorem slot_eq_some {scope : Scope} (h : request.scope = some scope) :
    request.slot = some (scope.storeKey, request.bodyHash) := by
  rw [Request.slot, h, Option.map_some]

theorem slot_congr {r : Request} (hscope : request.scope = r.scope) (hbody : request.body = r.body) :
    request.slot = r.slot := by
  rw [Request.slot, Request.slot, hscope, Request.bodyHash, Request.bodyHash, hbody]

theorem slot_ne_none : request.slot ≠ none ↔ request.scope ≠ none := by
  rw [Request.slot, ne_eq, Option.map_eq_none_iff]

theorem Exchange.Handled.live {a : Exchange} {response : Response} (h : a.Handled response) :
    a.Live := by
  obtain ⟨hstatus, hphase | hphase⟩ := h
  · exact .inl (.inr ⟨response, hphase⟩)
  · exact .inr ⟨response, hstatus, hphase⟩

theorem Exchange.Answered.handled {a : Exchange} {response : Response} (h : a.Answered response) :
    a.Handled response := ⟨h.1, .inr h.2⟩

theorem Exchange.Handled.eq {a : Exchange} {r r' : Response} (h : a.Handled r) (h' : a.Handled r') :
    r = r' := by
  obtain ⟨-, hphase | hphase⟩ := h <;> obtain ⟨-, hphase' | hphase'⟩ := h' <;>
    rw [hphase] at hphase' <;> cases hphase' <;> rfl

theorem atMostOnce_of_inv (h : s.Inv) : AtMostOnce s := by
  refine ⟨?_, ?_, ?_⟩
  · intro i j a b response response' hi hj hscope hne hbody ha hb
    exact h.live i j a b hi hj (slot_congr hscope hbody) (slot_ne_none.mpr hne) ha.live hb.live
  · intro a ha b hb response cached hscope hbody hhandled hreplayed
    obtain ⟨hne, c, hc, hslot, response', hanswered, hreplays⟩ := h.replays b hb cached hreplayed
    obtain ⟨i, hi⟩ := List.mem_iff_getElem?.mp ha
    obtain ⟨j, hj⟩ := List.mem_iff_getElem?.mp hc
    have hab := slot_congr hscope hbody
    have hij := h.live i j a c hi hj (hab.trans hslot.symm) (hab.trans_ne hne) hhandled.live
      hanswered.handled.live
    rw [hij, hj] at hi
    cases hi
    rw [hhandled.eq hanswered.handled]
    exact hreplays
  · intro b hb cached hreplayed
    obtain ⟨hne, a, ha, hslot, response, hanswered, hreplays⟩ := h.replays b hb cached hreplayed
    exact ⟨a, ha, h.scopes a ha b hb hslot (hslot.trans_ne hne), response, hanswered.handled, hreplays⟩

/-! ## Steps -/

/-- A request that arrives where nothing expires. -/
theorem lookUp_cases (hok : ∀ scope cached, request.scope = some scope →
      s.store.cache.get? scope.storeKey = some cached → s.store.isExpired now cached = false) :
    (lookUp s.store request now = (.handling, s.store) ∧
        ∀ scope, request.scope = some scope → scope.storeKey ∉ s.store.cache.keys) ∨
      lookUp s.store request now = (.refused 422 idempotencyMismatch, s.store) ∨
      ∃ scope cached, request.scope = some scope ∧
        s.store.cache.get? scope.storeKey = some cached ∧ cached.bodyHash = request.bodyHash ∧
        lookUp s.store request now = (.replayed cached, s.store) := by
  rw [lookUp]
  cases hscope : request.scope with
  | none =>
    refine .inl ⟨rfl, ?_⟩
    intro scope h
    cases h
  | some scope =>
    dsimp only
    rw [IdempotencyStore.get]
    cases hget : s.store.cache.get? scope.storeKey with
    | none =>
      refine .inl ⟨rfl, ?_⟩
      intro other h
      cases h
      exact JsMap.get?_eq_none.mp hget
    | some cached =>
      dsimp only
      rw [hok scope cached hscope hget, if_neg (by decide)]
      dsimp only
      by_cases hhash : cached.bodyHash = request.bodyHash
      · rw [if_neg (not_not.mpr hhash)]
        exact .inr (.inr ⟨scope, cached, rfl, hget, hhash, rfl⟩)
      · rw [if_pos hhash]
        exact .inr (.inl rfl)

theorem IdempotentServer.Inv.received (h : s.Inv) (hapart : Apart s (.received request now))
    (hok : ∀ scope cached, request.scope = some scope →
      s.store.cache.get? scope.storeKey = some cached → s.store.isExpired now cached = false) :
    IdempotentServer.Inv ⟨(lookUp s.store request now).2,
      s.exchanges ++ [⟨request, (lookUp s.store request now).1⟩]⟩ := by
  have hcases := lookUp_cases hok
  have hstore : (lookUp s.store request now).2 = s.store := by
    rcases hcases with ⟨heq, -⟩ | heq | ⟨scope, cached, -, -, -, heq⟩ <;> rw [heq]
  generalize hphase : (lookUp s.store request now).1 = phase
  rw [hstore]
  have hmem : ∀ {a : Exchange}, a ∈ s.exchanges ++ [⟨request, phase⟩] →
      a ∈ s.exchanges ∨ a = ⟨request, phase⟩ :=
    fun ha => (List.mem_append.mp ha).imp id List.mem_singleton.mp
  have hnew : ∀ {response}, ¬ (⟨request, phase⟩ : Exchange).Answered response := by
    rintro response ⟨-, hresponded⟩
    change phase = _ at hresponded
    rw [← hphase] at hresponded
    rcases hcases with ⟨heq, -⟩ | heq | ⟨scope, cached, -, -, -, heq⟩ <;> rw [heq] at hresponded <;>
      cases hresponded
  -- a request whose handler runs has no entry in the store
  have hlive : ∀ a ∈ s.exchanges, a.request.slot = request.slot → request.slot ≠ none →
      a.Live → ¬ (⟨request, phase⟩ : Exchange).Live := by
    intro a ha hslot hne hlive hnewLive
    obtain ⟨hscope, hanswered⟩ := hapart a ha hslot hne
    obtain ⟨response, hresponse⟩ := hlive.resolve_left hanswered
    obtain ⟨scope, hscope'⟩ := Option.ne_none_iff_exists'.mp (slot_ne_none.mp hne)
    have hkey := h.stored a ha scope response (hscope.trans hscope') hresponse
    rcases hcases with ⟨-, hno⟩ | heq | ⟨_, cached, -, -, -, heq⟩
    · exact hno scope hscope' hkey
    all_goals
      rw [heq] at hphase
      rcases hnewLive with (hhandling | ⟨r, hstoring⟩) | ⟨r, -, hresponded⟩
      · exact absurd (hphase.trans hhandling) (by simp)
      · exact absurd (hphase.trans hstoring) (by simp)
      · exact absurd (hphase.trans hresponded) (by simp)
  refine ⟨?_, ?_, ?_, ?_, ?_, ?_⟩
  · intro i j a b hi hj hslot hne ha hb
    rw [List.getElem?_append] at hi hj
    split at hi <;> split at hj
    · exact h.live i j a b hi hj hslot hne ha hb
    · have hb' := List.mem_singleton.mp (List.mem_of_getElem? hj)
      subst hb'
      exact absurd hb (hlive a (List.mem_of_getElem? hi) hslot (hslot ▸ hne) ha)
    · have ha' := List.mem_singleton.mp (List.mem_of_getElem? hi)
      subst ha'
      exact absurd ha (hlive b (List.mem_of_getElem? hj) hslot.symm hne hb)
    · have hi := (List.getElem?_eq_some_iff.mp hi).1
      have hj := (List.getElem?_eq_some_iff.mp hj).1
      simp only [List.length_singleton] at hi hj
      omega
  · intro a ha b hb hslot hne
    rcases hmem ha with ha | rfl <;> rcases hmem hb with hb | rfl
    · exact h.scopes a ha b hb hslot hne
    · exact (hapart a ha hslot (hslot ▸ hne)).1
    · exact (hapart b hb hslot.symm hne).1.symm
    · rfl
  · intro a ha response hstoring
    rcases hmem ha with ha | rfl
    · exact h.storing a ha response hstoring
    · change phase = _ at hstoring
      rw [← hphase] at hstoring
      rcases hcases with ⟨heq, -⟩ | heq | ⟨scope, cached, -, -, -, heq⟩ <;> rw [heq] at hstoring <;>
        cases hstoring
  · intro a ha scope response hscope hanswered
    rcases hmem ha with ha | rfl
    · exact h.stored a ha scope response hscope hanswered
    · exact absurd hanswered hnew
  · intro key cached hget
    obtain ⟨a, ha, hslot, hresponse⟩ := h.entries key cached hget
    exact ⟨a, List.mem_append_left _ ha, hslot, hresponse⟩
  · intro b hb cached hreplayed
    rcases hmem hb with hb | rfl
    · obtain ⟨hne, a, ha, hslot, hresponse⟩ := h.replays b hb cached hreplayed
      exact ⟨hne, a, List.mem_append_left _ ha, hslot, hresponse⟩
    · change phase = _ at hreplayed
      rw [← hphase] at hreplayed
      rcases hcases with ⟨heq, -⟩ | heq | ⟨scope, cached', hscope, hget, hhash, heq⟩
      · rw [heq] at hreplayed
        cases hreplayed
      · rw [heq] at hreplayed
        cases hreplayed
      · rw [heq] at hreplayed
        cases hreplayed
        obtain ⟨a, ha, hslot, hresponse⟩ := h.entries _ _ hget
        have hslot' := slot_eq_some hscope
        rw [← hhash] at hslot'
        refine ⟨?_, a, List.mem_append_left _ ha, hslot.trans hslot'.symm, hresponse⟩
        rw [hslot']
        simp

/-! ### Responses -/

theorem getElem?_setPhase {i j : ℕ} {exchange : Exchange} {phase : Phase}
    (hi : s.exchanges[i]? = some exchange) : (s.setPhase i exchange phase)[j]? =
      if i = j then some { exchange with phase := phase } else s.exchanges[j]? := by
  rw [IdempotentServer.setPhase, List.getElem?_set]
  split
  · rename_i heq
    rw [if_pos (List.getElem?_eq_some_iff.mp hi).1]
  · rfl

/-- An exchange of the new list is an old one, or the one that was changed. -/
theorem mem_setPhase {i : ℕ} {a exchange : Exchange} {phase : Phase}
    (ha : a ∈ s.setPhase i exchange phase) :
    a ∈ s.exchanges ∨ a = { exchange with phase := phase } :=
  List.mem_or_eq_of_mem_set ha

/-- The exchanges that are answered stay, where one that is in flight is changed. -/
theorem mem_setPhase_of_answered {i : ℕ} {a exchange : Exchange} {phase : Phase}
    {response : Response} (hi : s.exchanges[i]? = some exchange) (hflight : exchange.InFlight)
    (ha : a ∈ s.exchanges) (hanswered : a.Answered response) :
    a ∈ s.setPhase i exchange phase := by
  obtain ⟨j, hj⟩ := List.mem_iff_getElem?.mp ha
  refine List.mem_iff_getElem?.mpr ⟨j, ?_⟩
  rw [getElem?_setPhase hi, if_neg]
  · exact hj
  · rintro rfl
    cases hi.symm.trans hj
    rcases hflight with hphase | ⟨r, hphase⟩ <;> rw [hanswered.2] at hphase <;> cases hphase

/-- A phase that changes where the request was in flight, and the store is as it was. -/
theorem IdempotentServer.Inv.setPhase (h : s.Inv) {i : ℕ} {exchange : Exchange} {phase : Phase}
    (hi : s.exchanges[i]? = some exchange) (hflight : exchange.InFlight)
    (hstoring : ∀ response, phase = .storing response → response.status < 400)
    (hreplayed : ∀ cached, phase ≠ .replayed cached) {store : IdempotencyStore}
    (hkeys : ∀ key ∈ s.store.cache.keys, key ∈ store.cache.keys)
    (hstored : ∀ scope response, exchange.request.scope = some scope →
      phase = .responded response → response.status < 400 → scope.storeKey ∈ store.cache.keys)
    (hentries : ∀ key cached, store.cache.get? key = some cached →
      s.store.cache.get? key = some cached ∨
        exchange.request.slot = some (key, cached.bodyHash) ∧
        ∃ response, response.status < 400 ∧ phase = .responded response ∧
          cached.Replays response) :
    IdempotentServer.Inv ⟨store, s.setPhase i exchange phase⟩ := by
  have hexchange := List.mem_of_getElem? hi
  have hself : (⟨exchange.request, phase⟩ : Exchange) ∈ s.setPhase i exchange phase := by
    refine List.mem_iff_getElem?.mpr ⟨i, ?_⟩
    rw [getElem?_setPhase hi, if_pos rfl]
  have hold : ∀ {a : Exchange}, a ∈ s.setPhase i exchange phase → ∃ b ∈ s.exchanges, b.request = a.request := by
    intro a ha
    rcases mem_setPhase ha with ha | rfl
    · exact ⟨a, ha, rfl⟩
    · exact ⟨exchange, hexchange, rfl⟩
  have hlive : ∀ {j : ℕ} {a : Exchange}, (s.setPhase i exchange phase)[j]? = some a → a.Live →
      ∃ b, s.exchanges[j]? = some b ∧ b.request = a.request ∧ b.Live := by
    intro j a hj ha
    rw [getElem?_setPhase hi] at hj
    split at hj
    · rename_i heq
      cases hj
      exact ⟨exchange, heq ▸ hi, rfl, .inl hflight⟩
    · exact ⟨a, hj, rfl, ha⟩
  refine ⟨?_, ?_, ?_, ?_, ?_, ?_⟩
  · intro j k a b hj hk hslot hne ha hb
    obtain ⟨a', hj, harequest, ha⟩ := hlive hj ha
    obtain ⟨b', hk, hbrequest, hb⟩ := hlive hk hb
    rw [← harequest, ← hbrequest] at hslot
    rw [← harequest] at hne
    exact h.live j k a' b' hj hk hslot hne ha hb
  · intro a ha b hb hslot hne
    obtain ⟨a', ha, harequest⟩ := hold ha
    obtain ⟨b', hb, hbrequest⟩ := hold hb
    rw [← harequest, ← hbrequest] at hslot ⊢
    rw [← harequest] at hne
    exact h.scopes a' ha b' hb hslot hne
  · intro a ha response hphase
    rcases mem_setPhase ha with ha | rfl
    · exact h.storing a ha response hphase
    · exact hstoring response hphase
  · intro a ha scope response hscope hanswered
    rcases mem_setPhase ha with ha | rfl
    · exact hkeys _ (h.stored a ha scope response hscope hanswered)
    · exact hstored scope response hscope hanswered.2 hanswered.1
  · intro key cached hget
    rcases hentries key cached hget with hget | ⟨hslot, response, hstatus, hphase, hreplays⟩
    · obtain ⟨a, ha, hslot, response, hanswered, hreplays⟩ := h.entries key cached hget
      exact ⟨a, mem_setPhase_of_answered hi hflight ha hanswered, hslot, response, hanswered,
        hreplays⟩
    · exact ⟨_, hself, hslot, response, ⟨hstatus, hphase⟩, hreplays⟩
  · intro b hb cached hphase
    rcases mem_setPhase hb with hb | rfl
    · obtain ⟨hne, a, ha, hslot, response, hanswered, hreplays⟩ := h.replays b hb cached hphase
      exact ⟨hne, a, mem_setPhase_of_answered hi hflight ha hanswered, hslot, response, hanswered,
        hreplays⟩
    · exact absurd hphase (hreplayed cached)

theorem afterHandler_cases (request : Request) (response : Response) :
    (afterHandler request response = .storing response ∧ response.status < 400) ∨
      afterHandler request response = .responded response ∧
        (request.scope = none ∨ ¬ response.status < 400) := by
  rw [afterHandler]
  split
  · rename_i hstore
    rw [Bool.and_eq_true, decide_eq_true_eq] at hstore
    exact .inl ⟨rfl, hstore.2⟩
  · rename_i hpass
    rw [Bool.and_eq_true, decide_eq_true_eq, not_and_or, Bool.not_eq_true,
      Option.isSome_eq_false_iff, Option.isNone_iff_eq_none] at hpass
    exact .inr ⟨rfl, hpass⟩

theorem IdempotentServer.Inv.handled (h : s.Inv) {i : ℕ} {response : Response}
    (hi : s.exchanges[i]? = some ⟨request, .handling⟩) :
    IdempotentServer.Inv ⟨s.store,
      s.setPhase i ⟨request, .handling⟩ (afterHandler request response)⟩ := by
  have hcases := afterHandler_cases request response
  refine h.setPhase hi (.inl rfl) ?_ ?_ (fun _ hkey => hkey) ?_ (fun _ _ hget => .inl hget)
  · intro r hphase
    rcases hcases with ⟨heq, hstatus⟩ | ⟨heq, -⟩
    · rw [heq] at hphase
      cases hphase
      exact hstatus
    · rw [heq] at hphase
      cases hphase
  · intro cached hphase
    rcases hcases with ⟨heq, -⟩ | ⟨heq, -⟩ <;> rw [heq] at hphase <;> cases hphase
  · intro scope r hscope hphase hstatus
    rcases hcases with ⟨heq, -⟩ | ⟨heq, hnone | hfailed⟩
    · rw [heq] at hphase
      cases hphase
    · exact absurd (hnone.symm.trans hscope) (by simp)
    · rw [heq] at hphase
      cases hphase
      exact absurd hstatus hfailed

/-- The cache of a store that has room for a response. -/
theorem get?_set_of_fits {store : IdempotencyStore} {key : JsString} {cached : CachedResponse}
    (hbody : store.maxBodyBytes.lt (.finite (cached.body.length : ℕ)) = false)
    (hroom : store.maxEntries.lt
      (.finite (((store.cache.erase key).set key cached).entries.length : ℕ)) = false)
    (k : JsString) : (store.set key cached).cache.get? k =
      if k = key then some cached else store.cache.get? k := by
  rw [IdempotencyStore.set, hbody, if_neg (by decide)]
  dsimp only
  rw [JsMap.evictOldest_eq_self hroom, JsMap.get?_set]
  by_cases hkey : k = key
  · rw [if_pos hkey, hkey, if_pos rfl]
  · rw [if_neg hkey, if_neg (Ne.symm hkey), JsMap.get?_erase, if_neg hkey]

theorem IdempotentServer.Inv.stored_step (h : s.Inv) {i : ℕ} {response : Response} {scope : Scope}
    (hi : s.exchanges[i]? = some ⟨request, .storing response⟩) (hscope : request.scope = some scope)
    (hget : ∀ k, (s.store.set scope.storeKey (cachedOf request response now)).cache.get? k =
      if k = scope.storeKey then some (cachedOf request response now) else s.store.cache.get? k) :
    IdempotentServer.Inv ⟨s.store.set scope.storeKey (cachedOf request response now),
      s.setPhase i ⟨request, .storing response⟩ (.responded response)⟩ := by
  have hstatus := h.storing _ (List.mem_of_getElem? hi) response rfl
  refine h.setPhase hi (.inr ⟨response, rfl⟩) (by simp) (by simp) ?_ ?_ ?_
  · intro key hkey
    obtain ⟨cached, hcached⟩ := JsMap.mem_keys.mp hkey
    apply JsMap.mem_keys.mpr
    rw [hget]
    split
    · exact ⟨_, rfl⟩
    · exact ⟨cached, hcached⟩
  · intro other r hother _ _
    cases hscope.symm.trans hother
    apply JsMap.mem_keys.mpr
    rw [hget, if_pos rfl]
    exact ⟨_, rfl⟩
  · intro key cached hcached
    rw [hget] at hcached
    split at hcached
    · rename_i hkey
      cases hcached
      refine .inr ⟨?_, response, hstatus, rfl, rfl, rfl, rfl⟩
      rw [slot_eq_some hscope, hkey]
      rfl
    · exact .inl hcached

/-- A sweep before anything expires. -/
theorem sweep_eq_self {store : IdempotencyStore} (hok : ∀ key cached,
    store.cache.get? key = some cached → store.isExpired now cached = false) :
    store.sweep now = store := by
  have hentries : (store.cache.entries.filter fun e => (store.cache.get? e.1).all fun entry =>
      !store.isExpired now entry) = store.cache.entries := by
    apply List.filter_eq_self.mpr
    intro e he
    have hget := JsMap.get?_eq_some.mpr he
    rw [hget, Option.all_some, hok e.1 e.2 hget, Bool.not_false]
  have hcache : store.cache.filterKeys (fun key => (store.cache.get? key).all fun entry =>
      !store.isExpired now entry) = store.cache := JsMap.ext hentries
  rw [IdempotencyStore.sweep, hcache]

theorem IdempotentServer.Inv.next (h : s.Inv) {e : HttpEvent} (hundisturbed : Undisturbed s e) (hapart : Apart s e)
    (hnext : s.next e = some s') : s'.Inv := by
  cases e with
  | received request now =>
    cases hnext
    exact h.received hapart hundisturbed
  | handled i response =>
    rw [IdempotentServer.next] at hnext
    split at hnext
    · rename_i request hi
      cases hnext
      exact h.handled hi
    · cases hnext
  | stored i now =>
    rw [IdempotentServer.next] at hnext
    split at hnext
    · rename_i request response hi
      obtain ⟨scope, hscope, rfl⟩ := Option.map_eq_some_iff.mp hnext
      obtain ⟨hbody, hroom⟩ := hundisturbed request response scope hi hscope
      exact h.stored_step hi hscope (get?_set_of_fits hbody hroom)
    · cases hnext
  | swept now =>
    cases hnext
    rw [sweep_eq_self hundisturbed]
    exact h

end

/-- The keys are honoured in every run in which requests that the store does not tell apart have one
key and do not overlap. -/
theorem idempotency_atMostOnce {ttlMs maxEntries maxBodyBytes : JsNumber} {s : IdempotentServer}
    (h : (idempotentSystem ttlMs maxEntries maxBodyBytes).ReachableVia
      (fun s e => Undisturbed s e ∧ Apart s e) s) : AtMostOnce s := by
  apply atMostOnce_of_inv
  refine System.ReachableVia.invariant ?_ (fun t e t' ht hok hnext => ht.next hok.1 hok.2 hnext) h
  rintro t rfl
  exact ⟨by simp, by simp, by simp, by simp, by simp, by simp⟩

/-! ### Requests that the store does not tell apart -/

def payment (path idempotencyKey : String) : Request :=
  ⟨some (js "t"), js "POST", js path, some (js idempotencyKey), "{}"⟩

theorem scope_payment (path idempotencyKey : String) : (payment path idempotencyKey).scope =
    some ⟨js "t", js "POST", js path, js idempotencyKey⟩ := by
  have hmethod : (payment path idempotencyKey).method = js "POST" := rfl
  rw [Request.scope, if_neg (not_not.mpr hmethod)]
  rfl

def created : Response := ⟨201, .empty, js "{}"⟩

def day : System IdempotentServer HttpEvent :=
  idempotentSystem (.finite 86400000) (.finite 50000) (.finite 1048576)

def emptyStore : IdempotencyStore := ⟨.empty, .finite 86400000, .finite 50000, .finite 1048576⟩

theorem lookUp_emptyStore (r : Request) (now : ℤ) :
    lookUp emptyStore r now = (.handling, emptyStore) := by
  rw [lookUp]
  cases r.scope <;> rfl

theorem next_received (r : Request) (exchanges : List Exchange) :
    day.next ⟨emptyStore, exchanges⟩ (.received r 0) =
      some ⟨emptyStore, exchanges ++ [⟨r, .handling⟩]⟩ := by
  change some (IdempotentServer.mk (lookUp emptyStore r 0).2 _) = _
  rw [lookUp_emptyStore]

theorem afterHandler_created {r : Request} {scope : Scope} (h : r.scope = some scope) :
    afterHandler r created = .storing created := by
  rw [afterHandler, h]
  rfl

theorem undisturbed_received (r : Request) (exchanges : List Exchange) :
    Undisturbed ⟨emptyStore, exchanges⟩ (.received r 0) := by
  intro scope cached _ hget
  cases hget

/-- The handlers of two requests of one key both succeed. -/
theorem reachable_overlapping {r : Request} {scope : Scope} (hscope : r.scope = some scope) :
    day.ReachableVia Undisturbed
      ⟨emptyStore, [⟨r, .storing created⟩, ⟨r, .storing created⟩]⟩ := by
  have h0 : day.ReachableVia Undisturbed ⟨emptyStore, []⟩ := .init rfl
  have h1 := h0.step (undisturbed_received r _) (next_received r _)
  have h2 := h1.step (undisturbed_received r _) (next_received r _)
  have h3 : day.ReachableVia Undisturbed
      ⟨emptyStore, [⟨r, .storing created⟩, ⟨r, .handling⟩]⟩ := by
    refine h2.step (e := .handled 0 created) trivial ?_
    rw [← afterHandler_created hscope]
    rfl
  refine h3.step (e := .handled 1 created) trivial ?_
  nth_rewrite 3 [← afterHandler_created hscope]
  rfl

theorem fits_emptyStore (r : Request) (key : JsString) :
    emptyStore.maxBodyBytes.lt (.finite (created.body.length : ℕ)) = false ∧
      emptyStore.maxEntries.lt (.finite (((emptyStore.cache.erase key).set key
        (cachedOf r created 0)).entries.length : ℕ)) = false := by
  constructor
  · decide +kernel
  · change JsNumber.lt (.finite 50000) (.finite (1 : ℕ)) = false
    decide +kernel

/-- The store behind one request, and the request. -/
def answered (r : Request) (scope : Scope) : IdempotentServer :=
  ⟨emptyStore.set scope.storeKey (cachedOf r created 0), [⟨r, .responded created⟩]⟩

theorem reachable_answered {r : Request} {scope : Scope} (hscope : r.scope = some scope) :
    day.ReachableVia (fun s e => Undisturbed s e ∧ Apart s e) (answered r scope) := by
  have h0 : day.ReachableVia (fun s e => Undisturbed s e ∧ Apart s e) ⟨emptyStore, []⟩ := .init rfl
  have h1 := h0.step ⟨undisturbed_received r _, by simp [Apart]⟩ (next_received r _)
  have h2 : day.ReachableVia (fun s e => Undisturbed s e ∧ Apart s e)
      ⟨emptyStore, [⟨r, .storing created⟩]⟩ := by
    refine h1.step (e := .handled 0 created) ⟨trivial, trivial⟩ ?_
    rw [← afterHandler_created hscope]
    rfl
  refine h2.step (e := .stored 0 0) ⟨?_, trivial⟩ ?_
  · intro request response other hi _
    cases hi
    exact fits_emptyStore r other.storeKey
  · change r.scope.map _ = _
    rw [hscope]
    rfl

theorem isExpired_answered (r : Request) (scope : Scope) :
    (answered r scope).store.isExpired 0 (cachedOf r created 0) = false := by
  obtain ⟨hbody, -⟩ := fits_emptyStore r scope.storeKey
  have httl : (answered r scope).store.ttlMs = .finite 86400000 := by
    change (emptyStore.set _ (cachedOf r created 0)).ttlMs = _
    rw [IdempotencyStore.set, if_neg]
    · rfl
    · change ¬ emptyStore.maxBodyBytes.lt (.finite (created.body.length : ℕ)) = true
      rw [hbody]
      decide
  rw [IdempotencyStore.isExpired, httl]
  change JsNumber.lt (.finite 86400000) (.finite ((0 - 0 : ℤ) : ℚ)) = false
  decide +kernel

theorem get?_answered (r : Request) (scope : Scope) :
    (answered r scope).store.cache.get? scope.storeKey = some (cachedOf r created 0) := by
  obtain ⟨hbody, hroom⟩ := fits_emptyStore r scope.storeKey
  rw [answered, get?_set_of_fits hbody hroom, if_pos rfl]

/-- A request that finds the response of another one. -/
theorem lookUp_answered {r q : Request} {scope other : Scope} (hq : q.scope = some other)
    (hkey : other.storeKey = scope.storeKey) (hbody : q.body = r.body) :
    lookUp (answered r scope).store q 0 =
      (.replayed (cachedOf r created 0), (answered r scope).store) := by
  rw [lookUp, hq]
  dsimp only
  rw [IdempotencyStore.get, hkey, get?_answered]
  dsimp only
  rw [isExpired_answered, if_neg (by decide)]
  dsimp only
  rw [if_neg]
  rw [not_not, Request.bodyHash, hbody]
  rfl

/-- The request of another key, or of the same, that gets its response. -/
theorem next_answered {r q : Request} {scope other : Scope} (hq : q.scope = some other)
    (hkey : other.storeKey = scope.storeKey) (hbody : q.body = r.body) :
    day.next (answered r scope) (.received q 0) = some ⟨(answered r scope).store,
      [⟨r, .responded created⟩, ⟨q, .replayed (cachedOf r created 0)⟩]⟩ := by
  change some (IdempotentServer.mk (lookUp (answered r scope).store q 0).2 _) = _
  rw [lookUp_answered hq hkey hbody]
  rfl

theorem undisturbed_answered {r q : Request} {scope other : Scope} (hq : q.scope = some other)
    (hkey : other.storeKey = scope.storeKey) : Undisturbed (answered r scope) (.received q 0) := by
  intro found cached hfound hget
  cases hq.symm.trans hfound
  rw [hkey, get?_answered] at hget
  cases hget
  exact isExpired_answered r scope

/-- A key is used twice where its requests overlap, and two keys are one where the text in front of
the key ends in another place. -/
theorem not_atMostOnce_payments :
    (∃ s, day.ReachableVia Undisturbed s ∧ ¬ AtMostOnce s) ∧
    ∃ s, day.ReachableVia Undisturbed s ∧ ∃ b ∈ s.exchanges, ∃ cached, b.phase = .replayed cached ∧
      ∀ a ∈ s.exchanges, a.request.scope = b.request.scope → ∀ response, ¬ a.Handled response := by
  constructor
  · refine ⟨_, reachable_overlapping (scope_payment "/p" "k"), fun h => ?_⟩
    have hhandled : (⟨payment "/p" "k", .storing created⟩ : Exchange).Handled created :=
      ⟨by decide, .inl rfl⟩
    have hindex := h.once 0 1 _ _ created created rfl rfl rfl (by decide) rfl hhandled hhandled
    cases hindex
  · have hkey : Scope.storeKey ⟨js "t", js "POST", js "/a", js "b:c"⟩ =
        Scope.storeKey ⟨js "t", js "POST", js "/a:b", js "c"⟩ := by decide +kernel
    have hanswered : day.ReachableVia Undisturbed
        (answered (payment "/a:b" "c") ⟨js "t", js "POST", js "/a:b", js "c"⟩) :=
      System.ReachableVia.invariant (fun _ hinit => .init hinit)
        (fun _ _ _ h hok hnext => h.step hok.1 hnext) (reachable_answered (scope_payment _ _))
    have hundisturbed := undisturbed_answered (r := payment "/a:b" "c") (scope_payment "/a" "b:c") hkey
    have hnext := next_answered (r := payment "/a:b" "c") (scope_payment "/a" "b:c") hkey rfl
    refine ⟨_, hanswered.step hundisturbed hnext,
      ⟨payment "/a" "b:c", .replayed (cachedOf (payment "/a:b" "c") created 0)⟩, .tail _ (.head _), _,
      rfl, ?_⟩
    intro a ha hscope response hhandled
    rcases List.mem_pair.mp ha with rfl | rfl
    · -- the paths are different
      have hpath := congrArg (Option.map Scope.path) hscope
      revert hpath
      decide +kernel
    · rcases hhandled with ⟨-, hphase | hphase⟩ <;> cases hphase

/-- A request and its repetition. -/
theorem idempotency_atMostOnce_payment : ∃ s, AtMostOnce s ∧ s.exchanges =
    [⟨payment "/p" "k", .responded created⟩,
      ⟨payment "/p" "k", .replayed (cachedOf (payment "/p" "k") created 0)⟩] := by
  have hapart : Apart (answered (payment "/p" "k") ⟨js "t", js "POST", js "/p", js "k"⟩)
      (.received (payment "/p" "k") 0) := by
    intro a ha _ _
    cases List.mem_singleton.mp ha
    refine ⟨rfl, ?_⟩
    rintro (hphase | ⟨response, hphase⟩) <;> cases hphase
  have hanswered := reachable_answered (scope_payment "/p" "k")
  have hundisturbed := undisturbed_answered (r := payment "/p" "k") (scope_payment "/p" "k") rfl
  have hnext := next_answered (r := payment "/p" "k") (scope_payment "/p" "k") rfl rfl
  have hrepeated := hanswered.step ⟨hundisturbed, hapart⟩ hnext
  exact ⟨_, idempotency_atMostOnce hrepeated, rfl⟩

end Attestia.Node
