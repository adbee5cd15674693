import Attestia.Lib.Binary64
import Attestia.Lib.DecimalText
import Attestia.Lib.JsMap
import Attestia.Lib.JsonValue
import Attestia.Lib.Sha256
import Attestia.Lib.System

/-!
# The HTTP client

`http-client.ts`: a request is sent, and sent again while what comes back may pass: a rate limit
that says when to come back, an error of the server, or no response at all. What the network and the
clock do is chosen by the labels of `Call.next`, so that a run of a call is a run of a system.
-/

namespace Attestia.Sdk

open Lib JsonNumber

structure AttestiaClientConfig where
  baseUrl : JsString
  apiKey : Option JsString
  timeout : Option JsNumber
  retries : Option JsNumber
  retryMutations : Option Bool

/-- An error for the caller; `message` is what the constructor is given. -/
structure AttestiaError where
  code : JsonValue
  message : JsonValue
  statusCode : ℕ
  details : Option JsonValue
  hint : Option JsonValue

def attestiaError (code : String) (message : JsString) (statusCode : ℕ) : AttestiaError :=
  ⟨.str (js code), .str message, statusCode, none, none⟩

/-- What `fetch` resolves to, with the text of its body. -/
structure FetchResponse where
  status : ℕ
  headers : JsMap JsString JsString
  text : JsString

/-- `response.ok`. -/
def FetchResponse.ok (response : FetchResponse) : Bool :=
  200 ≤ response.status && response.status ≤ 299

/-- What is thrown inside of the loop. -/
inductive Thrown where
  | attestia (error : AttestiaError)
  | error (message : JsString)
  | value (text : JsString)

/-- What comes of an attempt: a response, the abort of its timeout, or what the fetch or the reading
of the body is rejected with. -/
inductive Outcome where
  | responded (response : FetchResponse)
  | aborted
  | rejected (error : Thrown)

/-! ## Helpers -/

def hex (bytes : Bytes) : JsString := JsString.units (bytes.flatMap hexByte)

def generateRequestId (bytes : Bytes) : JsString := js "sdk-" ++ hex bytes

def generateIdempotencyKey (bytes : Bytes) : JsString := js "idem-" ++ hex bytes

/-- The methods of the two public requests. -/
inductive Method where
  | get
  | post
  deriving DecidableEq

def Method.text : Method → JsString
  | .get => js "GET"
  | .post => js "POST"

def idempotentMethods : List JsString := [js "GET", js "HEAD", js "OPTIONS"]

def Method.isIdempotent (method : Method) : Bool := method.text ∈ idempotentMethods

def maxRetryAfterMs : JsNumber := .finite 30000

def mathMin (a b : JsNumber) : JsNumber :=
  if a = .nan ∨ b = .nan then .nan else if b.lt a then b else a

def mathMax (a b : JsNumber) : JsNumber :=
  if a = .nan ∨ b = .nan then .nan else if a.lt b then b else a

/-- `seconds * 1000`. -/
def secondsToMs : JsNumber → JsNumber
  | .finite q => .ofRational (q * 1000)
  | x => x

/-- Seconds, or a date that `dateParse` reads. -/
def parseRetryAfterMs (dateParse : JsString → Option ℤ) (now : ℤ) (value : Option JsString) :
    Option JsNumber := do
  let trimmed := DecimalText.trim (← value)
  if trimmed.isEmpty then none
  else if trimmed.all DecimalText.isDigit then
    some (secondsToMs (.ofInteger (DecimalText.digitsNat trimmed)))
  else
    let dateMs ← dateParse trimmed
    some (if 0 < dateMs - now then .ofInteger (dateMs - now) else .finite 0)

def maxResponseBodySize : ℕ := 10000000

def responseTooLarge (length : ℕ) : AttestiaError :=
  attestiaError "RESPONSE_TOO_LARGE" (js "Response body exceeds " ++
    DecimalText.natDigits (maxResponseBodySize / 1000000) ++ js "MB limit (" ++
    DecimalText.natDigits length ++ js " bytes)") 0

def invalidContentType (contentType : JsString) : AttestiaError :=
  attestiaError "INVALID_CONTENT_TYPE" (js "Unexpected content type: " ++ contentType) 0

def parseResponseBody (response : FetchResponse) : Except Thrown JsonValue :=
  if response.text.length = 0 then .ok (.object [])
  else if maxResponseBodySize < response.text.length then
    .error (.attestia (responseTooLarge response.text.length))
  else
    let contentType := (response.headers.get? (js "content-type")).getD []
    if contentType ≠ [] ∧ ¬ js "json" <:+: contentType ∧ ¬ js "text" <:+: contentType then
      .error (.attestia (invalidContentType contentType))
    else
      match JsonValue.parse (JsString.toWellFormed response.text) with
      | some body => .ok body
      | none => .ok (.object [(js "raw", some (.str response.text))])

def interestingHeaders : List JsString :=
  [js "content-type", js "x-request-id", js "x-ratelimit-remaining", js "retry-after"]

def extractHeaders (response : FetchResponse) : List (JsString × JsString) :=
  interestingHeaders.filterMap fun name =>
    (response.headers.get? name).map fun value => (name, value)

/-- `body.name`, which throws on `null`. -/
def property (body : JsonValue) (name : String) : Except Thrown (Option JsonValue) :=
  if JsonValue.isNull body.val then
    .error (.error (js "Cannot read properties of null (reading '" ++ js name ++ js "')"))
  else .ok (body.get? (js name))

/-- `value ?? default`. -/
def nullish (value : Option JsonValue) (default : JsonValue) : JsonValue :=
  match value with
  | some v => if JsonValue.isNull v.val then default else v
  | none => default

def httpStatus (status : ℕ) : JsString := js "HTTP " ++ DecimalText.natDigits status

def clientError (body : JsonValue) (status : ℕ) : Except Thrown AttestiaError := do
  let error ← property body "error"
  return ⟨nullish (error.bind (·.get? (js "code"))) (.str (js "CLIENT_ERROR")),
    nullish (error.bind (·.get? (js "message"))) (.str (httpStatus status)), status,
    error.bind (·.get? (js "details")), error.bind (·.get? (js "hint"))⟩

def serverError (body : JsonValue) (status attempts : ℕ) : Except Thrown AttestiaError := do
  let error ← property body "error"
  return ⟨nullish (error.bind (·.get? (js "code"))) (.str (js "SERVER_ERROR")),
    nullish (error.bind (·.get? (js "message"))) (.str (httpStatus status ++ js " after " ++
      DecimalText.natDigits attempts ++ js " attempts")), status, none, none⟩

/-! ## The client -/

structure HttpClient where
  baseUrl : JsString
  apiKey : Option JsString
  timeout : JsNumber
  maxRetries : JsNumber
  retryMutations : Bool

def HttpClient.create (config : AttestiaClientConfig) : HttpClient where
  baseUrl := config.baseUrl.rdropWhile (· = 0x2F)
  apiKey := config.apiKey
  timeout := config.timeout.getD (.finite 30000)
  maxRetries := config.retries.getD (.finite 3)
  retryMutations := config.retryMutations.getD false

structure RequestInit where
  method : Method
  headers : List (JsString × JsString)
  body : Option JsString

/-- What `fetch` is called with, and when. -/
structure Sent where
  url : JsString
  init : RequestInit
  timeoutMs : JsNumber
  sentAt : ℤ

/-- What a successful request returns. -/
structure AttestiaResponse where
  data : JsonValue
  status : ℕ
  headers : List (JsString × JsString)

/-- Where a request stands: at the head of its loop, at `await fetch`, asleep, or at its end. -/
inductive CallPhase where
  | due
  | awaiting
  | sleeping (ms : JsNumber)
  | returned (response : AttestiaResponse)
  | threw (error : AttestiaError)

/-- A request under way, with what has been sent for it and what came of it. -/
structure Call where
  client : HttpClient
  url : JsString
  init : RequestInit
  deadline : JsNumber
  attempt : ℕ
  lastError : Option JsString
  phase : CallPhase
  sends : List Sent
  outcomes : List Outcome

/-- A request up to its loop; `body` is what `JSON.stringify` returns, and the bytes are random. -/
def HttpClient.request (client : HttpClient) (method : Method) (path : JsString)
    (body : Option JsString) (idBytes keyBytes : Bytes) (now : ℤ) : Call where
  client := client
  url := client.baseUrl ++ path
  init :=
    { method := method
      headers := [(js "Content-Type", js "application/json"), (js "Accept", js "application/json"),
          (js "X-Request-Id", generateRequestId idBytes)] ++
        (client.apiKey.map fun apiKey => (js "X-Api-Key", apiKey)).toList ++
        if method.isIdempotent then []
        else [(js "Idempotency-Key", generateIdempotencyKey keyBytes)]
      body := body }
  deadline := (JsNumber.finite now).add client.timeout
  attempt := 0
  lastError := none
  phase := .due
  sends := []
  outcomes := []

namespace Call

variable (c : Call)

def canRetry : Bool := c.init.method.isIdempotent || c.client.retryMutations

/-- `attempt < this.maxRetries`. -/
def attemptsLeft : Bool := (JsNumber.finite c.attempt).lt c.client.maxRetries

def deadlineExceeded : AttestiaError :=
  attestiaError "TIMEOUT" (js "Request deadline exceeded after " ++
    DecimalText.natDigits c.attempt ++ js " attempts") 0

def timedOut : AttestiaError :=
  attestiaError "TIMEOUT" (js "Request timed out after " ++ c.client.timeout.text ++ js "ms") 0

def networkError (message : JsString) : AttestiaError :=
  attestiaError "NETWORK_ERROR" (c.lastError.getD message) 0

/-- The head of the loop. -/
def beginAttempt (now : ℤ) : Call :=
  if !(JsNumber.finite c.attempt).le c.client.maxRetries then
    { c with phase := .threw (c.networkError (js "Request failed after all retries")) }
  else
    let remainingMs := c.deadline.sub (.finite now)
    if remainingMs.le (.finite 0) then { c with phase := .threw c.deadlineExceeded }
    else
      { c with
        phase := .awaiting
        sends := c.sends ++ [⟨c.url, c.init, mathMin remainingMs c.client.timeout, now⟩] }

def backoffMs : JsNumber := .finite (min (1000 * 2 ^ c.attempt) 10000 : ℕ)

def boundedRetryWait (retryAfterMs : Option JsNumber) (now : ℤ) : Option JsNumber := do
  let capped := mathMin (mathMax (← retryAfterMs) (.finite 0)) maxRetryAfterMs
  let remaining := c.deadline.sub (.finite now)
  if remaining.le capped then none else some capped

/-- `await sleep(waitMs)` and `continue`. -/
def sleep (waitMs : JsNumber) (lastError : JsString) : Call :=
  { c with phase := .sleeping waitMs, lastError := some lastError }

def retryAfter (dateParse : JsString → Option ℤ) (response : FetchResponse)
    (parsedAt waitedAt : ℤ) : Option JsNumber :=
  c.boundedRetryWait (parseRetryAfterMs dateParse parsedAt
    (response.headers.get? (js "retry-after"))) waitedAt

/-- The `try` block of an attempt. -/
def onResponse (dateParse : JsString → Option ℤ) (response : FetchResponse)
    (parsedAt waitedAt : ℤ) : Except Thrown Call := do
  let body ← parseResponseBody response
  if response.ok then
    let data ← property body "data"
    return { c with
      phase := .returned ⟨nullish data body, response.status, extractHeaders response⟩ }
  else if response.status = 429 ∧ c.canRetry ∧ c.attemptsLeft ∧
      (c.retryAfter dateParse response parsedAt waitedAt).isSome then
    return c.sleep ((c.retryAfter dateParse response parsedAt waitedAt).getD c.backoffMs)
      (js "HTTP 429 (rate limited)")
  else if 400 ≤ response.status ∧ response.status < 500 then
    throw (.attestia (← clientError body response.status))
  else if 500 ≤ response.status ∧ c.canRetry ∧ c.attemptsLeft then
    return c.sleep ((c.retryAfter dateParse response parsedAt waitedAt).getD c.backoffMs)
      (httpStatus response.status)
  else
    throw (.attestia (← serverError body response.status (c.attempt + 1)))

/-- The `catch` block of an attempt. -/
def onThrown : Thrown → Call
  | .attestia error => { c with phase := .threw error }
  | .error message =>
    if c.canRetry ∧ c.attemptsLeft then c.sleep c.backoffMs message
    else { c with phase := .threw (c.networkError message) }
  | .value text =>
    if c.canRetry ∧ c.attemptsLeft then c.sleep c.backoffMs text
    else { c with phase := .threw (c.networkError (js "Network error")) }

def caught : Except Thrown Call → Call
  | .ok c => c
  | .error thrown => c.onThrown thrown

/-- What an attempt does with what comes of it. -/
def settle (dateParse : JsString → Option ℤ) (outcome : Outcome) (parsedAt waitedAt : ℤ) : Call :=
  match outcome with
  | .responded response => c.caught (c.onResponse dateParse response parsedAt waitedAt)
  | .aborted => c.onThrown (.attestia c.timedOut)
  | .rejected thrown => c.onThrown thrown

end Call

inductive CallEvent where
  | begun (now : ℤ)
  | settled (outcome : Outcome) (parsedAt waitedAt : ℤ)
  | woken

def Call.next (dateParse : JsString → Option ℤ) (c : Call) : CallEvent → Option Call
  | .begun now =>
    match c.phase with
    | .due => some (c.beginAttempt now)
    | _ => none
  | .settled outcome parsedAt waitedAt =>
    match c.phase with
    | .awaiting => some ({ c with outcomes := c.outcomes ++ [outcome] }.settle dateParse outcome
        parsedAt waitedAt)
    | _ => none
  | .woken =>
    match c.phase with
    | .sleeping _ => some { c with phase := .due, attempt := c.attempt + 1 }
    | _ => none

/-- The runs of the requests of a client. -/
def HttpClient.calls (client : HttpClient) (dateParse : JsString → Option ℤ) :
    System Call CallEvent where
  init c := ∃ method path body idBytes keyBytes now,
    c = client.request method path body idBytes keyBytes now
  next := Call.next dateParse

/-! ## What may be sent again -/

/-- What the caller gets from a response, where it gets anything. -/
def FetchResponse.result (response : FetchResponse) : Option AttestiaResponse :=
  match parseResponseBody response with
  | .ok body =>
    if response.ok && !JsonValue.isNull body.val then
      some ⟨nullish (body.get? (js "data")) body, response.status, extractHeaders response⟩
    else none
  | .error _ => none

def Outcome.result : Outcome → Option AttestiaResponse
  | .responded response => response.result
  | _ => none

/-- The body of a response is `null`, which is taken for an error of the network. -/
def FetchResponse.IsNull (response : FetchResponse) : Prop :=
  ∃ body, parseResponseBody response = .ok body ∧ JsonValue.isNull body.val = true

/-- What may pass by itself. -/
def Outcome.Retryable : Outcome → Prop
  | .responded response =>
    (response.status = 429 ∧ (response.headers.get? (js "retry-after")).isSome) ∨
      500 ≤ response.status ∨ response.IsNull
  | .aborted => False
  | .rejected (.attestia _) => False
  | .rejected _ => True

section

variable {dateParse : JsString → Option ℤ} {c c' : Call} {response : FetchResponse}

theorem property_eq (body : JsonValue) (name : String) :
    (JsonValue.isNull body.val = true ∧ ∃ message, property body name = .error (.error message)) ∨
      (JsonValue.isNull body.val = false ∧ property body name = .ok (body.get? (js name))) := by
  rw [property]
  cases h : JsonValue.isNull body.val
  · exact .inr ⟨rfl, if_neg (by decide)⟩
  · exact .inl ⟨rfl, _, if_pos rfl⟩

theorem parseRetryAfterMs_eq_none (now : ℤ) : parseRetryAfterMs dateParse now none = none := rfl

theorem headers_of_retryAfter {parsedAt waitedAt : ℤ}
    (h : (c.retryAfter dateParse response parsedAt waitedAt).isSome = true) :
    (response.headers.get? (js "retry-after")).isSome = true := by
  cases hvalue : response.headers.get? (js "retry-after") with
  | some value => rfl
  | none =>
    rw [Call.retryAfter, hvalue, parseRetryAfterMs_eq_none] at h
    exact absurd h Bool.false_ne_true

theorem result_eq_none_of_not_ok (h : response.ok = false) : response.result = none := by
  rw [FetchResponse.result]
  split
  · rw [h, Bool.false_and, if_neg Bool.false_ne_true]
  · rfl

theorem result_eq_none_of_isNull (h : response.IsNull) : response.result = none := by
  obtain ⟨body, hbody, hnull⟩ := h
  rw [FetchResponse.result, hbody]
  dsimp only
  rw [hnull, Bool.not_true, Bool.and_false, if_neg Bool.false_ne_true]

theorem ok_eq_false_of_le {n : ℕ} (h : response.status = n) (hn : 300 ≤ n) :
    response.ok = false := by
  rw [FetchResponse.ok, h, Bool.and_eq_false_iff, decide_eq_false_iff_not,
    decide_eq_false_iff_not]
  omega

/-- What may pass is nothing to return. -/
theorem Outcome.Retryable.result_eq_none {outcome : Outcome} (h : outcome.Retryable) :
    outcome.result = none := by
  cases outcome with
  | aborted => rfl
  | rejected thrown => rfl
  | responded response =>
    rcases h with ⟨hstatus, -⟩ | hstatus | hnull
    · exact result_eq_none_of_not_ok (ok_eq_false_of_le hstatus (by decide))
    · exact result_eq_none_of_not_ok (ok_eq_false_of_le rfl (by omega))
    · exact result_eq_none_of_isNull hnull

/-! ## Steps of a call -/

/-- What an attempt can do with what comes of it. -/
inductive Settled (c : Call) (outcome : Outcome) : Call → Prop where
  | returned (r : AttestiaResponse) (hresult : outcome.result = some r) :
      Settled c outcome { c with phase := .returned r }
  | slept (hretryable : outcome.Retryable) (hretry : c.canRetry = true)
      (hleft : c.attemptsLeft = true) (ms : JsNumber) (message : JsString) :
      Settled c outcome (c.sleep ms message)
  | threw (hresult : outcome.result = none) (error : AttestiaError) :
      Settled c outcome { c with phase := .threw error }

theorem settled_attestia {outcome : Outcome} (hresult : outcome.result = none)
    (error : AttestiaError) : Settled c outcome (c.onThrown (.attestia error)) :=
  .threw hresult error

theorem settled_error {outcome : Outcome} (hretryable : outcome.Retryable) (message : JsString) :
    Settled c outcome (c.onThrown (.error message)) := by
  rw [Call.onThrown]
  split
  · rename_i h
    exact .slept hretryable h.1 h.2 _ _
  · exact .threw hretryable.result_eq_none _

theorem settled_value {outcome : Outcome} (hretryable : outcome.Retryable) (text : JsString) :
    Settled c outcome (c.onThrown (.value text)) := by
  rw [Call.onThrown]
  split
  · rename_i h
    exact .slept hretryable h.1 h.2 _ _
  · exact .threw hretryable.result_eq_none _

/-- A body that is not read is refused for its size or its type. -/
theorem parseResponseBody_eq_error {thrown : Thrown}
    (h : parseResponseBody response = .error thrown) :
    ∃ error, thrown = .attestia error := by
  rw [parseResponseBody] at h
  dsimp only at h
  split at h
  · cases h
  · split at h
    · cases h
      exact ⟨_, rfl⟩
    · split at h
      · cases h
        exact ⟨_, rfl⟩
      · split at h <;> cases h

/-- The property of a body that is `null` is an error, and the attempt goes on as after an error of
the network. -/
theorem settled_property {body : JsonValue} (hbody : parseResponseBody response = .ok body)
    {name : String} {k : Option JsonValue → Except Thrown Call}
    (hk : JsonValue.isNull body.val = false →
      Settled c (.responded response) (c.caught (k (body.get? (js name))))) :
    Settled c (.responded response) (c.caught (property body name >>= k)) := by
  rcases property_eq body name with ⟨hnull, message, hproperty⟩ | ⟨hnull, hproperty⟩ <;>
    rw [hproperty]
  · have hretryable : Outcome.Retryable (.responded response) := .inr (.inr ⟨body, hbody, hnull⟩)
    exact settled_error hretryable message
  · exact hk hnull

theorem result_eq_some {body : JsonValue} (hbody : parseResponseBody response = .ok body)
    (hok : response.ok = true) (hnull : JsonValue.isNull body.val = false) :
    response.result = some ⟨nullish (body.get? (js "data")) body, response.status,
      extractHeaders response⟩ := by
  rw [FetchResponse.result, hbody]
  dsimp only
  rw [hok, hnull, Bool.not_false, Bool.and_true, if_pos rfl]

theorem settled_responded (parsedAt waitedAt : ℤ) : Settled c (.responded response)
    (c.caught (c.onResponse dateParse response parsedAt waitedAt)) := by
  rw [Call.onResponse]
  cases hbody : parseResponseBody response with
  | error thrown =>
    obtain ⟨error, rfl⟩ := parseResponseBody_eq_error hbody
    refine settled_attestia ?_ error
    change response.result = none
    rw [FetchResponse.result, hbody]
  | ok body =>
    change Settled c _ (c.caught (ite _ _ _))
    by_cases hok : response.ok = true
    · rw [if_pos hok]
      apply settled_property hbody
      intro hnull
      exact .returned _ (result_eq_some hbody hok hnull)
    rw [if_neg hok]
    have hresult : Outcome.result (.responded response) = none :=
      result_eq_none_of_not_ok (Bool.eq_false_iff.mpr hok)
    by_cases hlimited : response.status = 429 ∧ c.canRetry ∧ c.attemptsLeft ∧
        (c.retryAfter dateParse response parsedAt waitedAt).isSome
    · -- the server has said when to come back
      rw [if_pos hlimited]
      have hretryable : Outcome.Retryable (.responded response) :=
        .inl ⟨hlimited.1, headers_of_retryAfter hlimited.2.2.2⟩
      exact .slept hretryable hlimited.2.1 hlimited.2.2.1 _ _
    rw [if_neg hlimited]
    by_cases hclient : 400 ≤ response.status ∧ response.status < 500
    · rw [if_pos hclient, clientError, bind_assoc]
      apply settled_property hbody
      intro _
      exact settled_attestia hresult _
    rw [if_neg hclient]
    by_cases hserver : 500 ≤ response.status ∧ c.canRetry ∧ c.attemptsLeft
    · rw [if_pos hserver]
      have hretryable : Outcome.Retryable (.responded response) := .inr (.inl hserver.1)
      exact .slept hretryable hserver.2.1 hserver.2.2 _ _
    · rw [if_neg hserver, serverError, bind_assoc]
      apply settled_property hbody
      intro _
      exact settled_attestia hresult _

theorem settled_settle (outcome : Outcome) (parsedAt waitedAt : ℤ) :
    Settled c outcome (c.settle dateParse outcome parsedAt waitedAt) := by
  cases outcome with
  | responded response => exact settled_responded parsedAt waitedAt
  | aborted => exact settled_attestia rfl _
  | rejected thrown =>
    cases thrown with
    | attestia error => exact settled_attestia rfl error
    | error message =>
      have hretryable : Outcome.Retryable (.rejected (.error message)) := trivial
      exact settled_error hretryable message
    | value text =>
      have hretryable : Outcome.Retryable (.rejected (.value text)) := trivial
      exact settled_value hretryable text

/-- What a step of a call can do. -/
inductive Step (dateParse : JsString → Option ℤ) (c : Call) : CallEvent → Call → Prop where
  | gaveUp (hdue : c.phase = .due) (now : ℤ) (error : AttestiaError) :
      Step dateParse c (.begun now) { c with phase := .threw error }
  | sent (hdue : c.phase = .due) (now : ℤ)
      (hleft : (JsNumber.finite c.attempt).le c.client.maxRetries = true)
      (htime : (c.deadline.sub (.finite now)).le (.finite 0) = false) (timeoutMs : JsNumber) :
      Step dateParse c (.begun now)
        { c with phase := .awaiting, sends := c.sends ++ [⟨c.url, c.init, timeoutMs, now⟩] }
  | settled (hawaiting : c.phase = .awaiting) (outcome : Outcome) (parsedAt waitedAt : ℤ)
      (c' : Call)
      (hsettled : Settled { c with outcomes := c.outcomes ++ [outcome] } outcome c') :
      Step dateParse c (.settled outcome parsedAt waitedAt) c'
  | woken (ms : JsNumber) (hsleeping : c.phase = .sleeping ms) :
      Step dateParse c .woken { c with phase := .due, attempt := c.attempt + 1 }

theorem step_beginAttempt (hdue : c.phase = .due) (now : ℤ) :
    Step dateParse c (.begun now) (c.beginAttempt now) := by
  rw [Call.beginAttempt]
  split
  · exact .gaveUp hdue now _
  · rename_i hleft
    dsimp only
    split
    · exact .gaveUp hdue now _
    · rename_i htime
      rw [Bool.not_eq_true, Bool.not_eq_false'] at hleft
      exact .sent hdue now hleft (Bool.eq_false_iff.mpr htime) _

theorem step_of_next {e : CallEvent} (h : c.next dateParse e = some c') :
    Step dateParse c e c' := by
  cases e with
  | begun now =>
    rw [Call.next] at h
    split at h
    · rename_i hdue
      cases h
      exact step_beginAttempt hdue now
    · cases h
  | settled outcome parsedAt waitedAt =>
    rw [Call.next] at h
    split at h
    · rename_i hawaiting
      cases h
      exact .settled hawaiting outcome parsedAt waitedAt _
        (settled_settle outcome parsedAt waitedAt)
    · cases h
  | woken =>
    rw [Call.next] at h
    split at h
    · rename_i ms hsleeping
      cases h
      exact .woken ms hsleeping
    · cases h

end

/-! ## Runs of a call -/

/-- The outcomes so far may pass by themselves, and the request is one that is sent again. -/
def Call.Passing (c : Call) (outcomes : List Outcome) : Prop :=
  (∀ outcome ∈ outcomes, outcome.Retryable) ∧ (outcomes ≠ [] → c.canRetry = true)

/-- What a call has behind it, by where it stands. -/
def Call.Standing (c : Call) : Prop :=
  match c.phase with
  | .due => c.sends.length = c.attempt ∧ c.outcomes.length = c.attempt ∧ c.Passing c.outcomes
  | .awaiting => c.sends.length = c.attempt + 1 ∧ c.outcomes.length = c.attempt ∧
      c.Passing c.outcomes ∧ (JsNumber.finite c.attempt).le c.client.maxRetries = true
  | .sleeping _ => c.sends.length = c.attempt + 1 ∧ c.outcomes.length = c.attempt + 1 ∧
      c.Passing c.outcomes ∧ c.attemptsLeft = true
  | .returned r => c.sends.length = c.outcomes.length ∧ c.Passing c.outcomes.dropLast ∧
      ∃ outcome, c.outcomes.getLast? = some outcome ∧ outcome.result = some r
  | .threw _ => c.sends.length = c.outcomes.length ∧ c.Passing c.outcomes.dropLast ∧
      ∀ outcome ∈ c.outcomes, outcome.result = none

structure Call.Inv (c : Call) : Prop where
  standing : c.Standing
  sends : ∀ sent ∈ c.sends, sent.url = c.url ∧ sent.init = c.init ∧
    (c.deadline.sub (.finite sent.sentAt)).le (.finite 0) = false
  atMost : ∀ n : ℕ, c.client.maxRetries.lt (.finite n) = true → c.sends.length ≤ n
  once : c.canRetry = false → c.sends.length ≤ 1


section

variable {dateParse : JsString → Option ℤ} {c c' : Call}

theorem Call.Passing.append {outcomes : List Outcome} {outcome : Outcome}
    (h : c.Passing outcomes) (hretryable : outcome.Retryable) (hretry : c.canRetry = true) :
    c.Passing (outcomes ++ [outcome]) := by
  refine ⟨?_, fun _ => hretry⟩
  intro o ho
  rcases List.mem_append.mp ho with ho | ho
  · exact h.1 o ho
  · exact List.mem_singleton.mp ho ▸ hretryable

theorem Call.Passing.dropLast {outcomes : List Outcome} (h : c.Passing outcomes) :
    c.Passing outcomes.dropLast := by
  refine ⟨fun o ho => h.1 o (List.dropLast_subset _ ho), ?_⟩
  intro hne
  apply h.2
  rintro rfl
  exact hne rfl

theorem Call.Passing.result_eq_none {outcomes : List Outcome} (h : c.Passing outcomes) :
    ∀ outcome ∈ outcomes, outcome.result = none :=
  fun outcome ho => (h.1 outcome ho).result_eq_none

theorem inv_request (client : HttpClient) (method : Method) (path : JsString)
    (body : Option JsString) (idBytes keyBytes : Bytes) (now : ℤ) :
    (client.request method path body idBytes keyBytes now).Inv where
  standing := ⟨rfl, rfl, by simp [HttpClient.request], fun h => absurd rfl h⟩
  sends := by simp [HttpClient.request]
  atMost := fun n _ => Nat.zero_le n
  once := fun _ => Nat.zero_le 1

theorem Call.Inv.settled (h : c.Inv) (hawaiting : c.phase = .awaiting) {outcome : Outcome}
    (hsettled : Settled { c with outcomes := c.outcomes ++ [outcome] } outcome c') : c'.Inv := by
  have hstanding := h.standing
  rw [Call.Standing, hawaiting] at hstanding
  obtain ⟨hsends, houtcomes, hpassing, -⟩ := hstanding
  have hlength : (c.outcomes ++ [outcome]).length = c.attempt + 1 := by
    rw [List.length_append, houtcomes, List.length_singleton]
  have hlast : (c.outcomes ++ [outcome]).dropLast = c.outcomes := List.dropLast_concat
  cases hsettled with
  | returned r hresult =>
    refine ⟨⟨hsends.trans hlength.symm, ?_, outcome, List.getLast?_concat, hresult⟩, h.sends,
      h.atMost, h.once⟩
    change Call.Passing _ (c.outcomes ++ [outcome]).dropLast
    rw [hlast]
    exact hpassing
  | slept hretryable hretry hleft ms message =>
    exact ⟨⟨hsends, hlength, hpassing.append hretryable hretry, hleft⟩, h.sends, h.atMost, h.once⟩
  | threw hresult error =>
    refine ⟨⟨hsends.trans hlength.symm, ?_, ?_⟩, h.sends, h.atMost, h.once⟩
    · change Call.Passing _ (c.outcomes ++ [outcome]).dropLast
      rw [hlast]
      exact hpassing
    · intro o ho
      rcases List.mem_append.mp ho with ho | ho
      · exact hpassing.result_eq_none o ho
      · exact List.mem_singleton.mp ho ▸ hresult

theorem Call.Inv.step (h : c.Inv) {e : CallEvent} (hstep : Step dateParse c e c') : c'.Inv := by
  have hstanding := h.standing
  cases hstep with
  | gaveUp hdue now error =>
    rw [Call.Standing, hdue] at hstanding
    obtain ⟨hsends, houtcomes, hpassing⟩ := hstanding
    exact ⟨⟨hsends.trans houtcomes.symm, hpassing.dropLast, hpassing.result_eq_none⟩, h.sends,
      h.atMost, h.once⟩
  | sent hdue now hleft htime timeoutMs =>
    rw [Call.Standing, hdue] at hstanding
    obtain ⟨hsends, houtcomes, hpassing⟩ := hstanding
    have hlength :
        (c.sends ++ [(⟨c.url, c.init, timeoutMs, now⟩ : Sent)]).length = c.attempt + 1 := by
      rw [List.length_append, hsends, List.length_singleton]
    refine ⟨⟨hlength, houtcomes, hpassing, hleft⟩, ?_, ?_, ?_⟩
    · intro sent hsent
      rcases List.mem_append.mp hsent with hsent | hsent
      · exact h.sends sent hsent
      · rw [List.mem_singleton.mp hsent]
        exact ⟨rfl, rfl, htime⟩
    · -- the attempt that is begun is no later than the last one that is allowed
      intro n hn
      change (c.sends ++ _).length ≤ n
      rw [hlength]
      have hlt := JsNumber.lt_of_le_of_lt hleft hn
      rw [JsNumber.lt, decide_eq_true_eq, Nat.cast_lt] at hlt
      omega
    · intro hretry
      change (c.sends ++ _).length ≤ 1
      have hempty : c.outcomes = [] := by
        by_contra hne
        exact Bool.false_ne_true (hretry.symm.trans (hpassing.2 hne))
      rw [hempty, List.length_nil] at houtcomes
      omega
  | settled hawaiting outcome parsedAt waitedAt c' hsettled => exact h.settled hawaiting hsettled
  | woken ms hsleeping =>
    rw [Call.Standing, hsleeping] at hstanding
    obtain ⟨hsends, houtcomes, hpassing, -⟩ := hstanding
    exact ⟨⟨hsends, houtcomes, hpassing⟩, h.sends, h.atMost, h.once⟩

theorem inv_of_reachable {client : HttpClient} (h : (client.calls dateParse).Reachable c) :
    c.Inv := by
  refine System.Reachable.invariant ?_ (fun _ _ _ ht hnext => ht.step (step_of_next hnext)) h
  rintro t ⟨method, path, body, idBytes, keyBytes, now, rfl⟩
  exact inv_request client method path body idBytes keyBytes now

/-! ### The end of a call -/

/-- How many steps are left where no attempt comes after the first `n`. -/
def Call.stepsLeft (n : ℕ) (c : Call) : ℕ :=
  match c.phase with
  | .due => 3 * (n - c.attempt) + 1
  | .awaiting => 3 * (n - c.attempt)
  | .sleeping _ => 3 * (n - c.attempt) - 1
  | .returned _ => 0
  | .threw _ => 0

/-- Every step leaves fewer, whatever the network and the clock do. -/
theorem Call.Inv.stepsLeft_lt (h : c.Inv) {n : ℕ}
    (hn : c.client.maxRetries.lt (.finite n) = true) {e : CallEvent}
    (hstep : Step dateParse c e c') : c'.stepsLeft n < c.stepsLeft n := by
  have hstanding := h.standing
  have hbefore : ∀ {m : ℕ}, (JsNumber.finite m).le c.client.maxRetries = true → m < n := by
    intro m hm
    have hlt := JsNumber.lt_of_le_of_lt hm hn
    rwa [JsNumber.lt, decide_eq_true_eq, Nat.cast_lt] at hlt
  cases hstep with
  | gaveUp hdue now error =>
    rw [Call.stepsLeft, Call.stepsLeft, hdue]
    exact Nat.succ_pos _
  | sent hdue now hleft htime timeoutMs =>
    rw [Call.stepsLeft, Call.stepsLeft, hdue]
    exact Nat.lt_succ_self _
  | settled hawaiting outcome parsedAt waitedAt c' hsettled =>
    rw [Call.Standing, hawaiting] at hstanding
    have hlt := hbefore hstanding.2.2.2
    have hpos : 0 < c.stepsLeft n := by
      rw [Call.stepsLeft, hawaiting]
      dsimp only
      omega
    cases hsettled with
    | returned r hresult => exact hpos
    | slept hretryable hretry hleft ms message =>
      rw [Call.stepsLeft, Call.stepsLeft, hawaiting]
      dsimp only [Call.sleep]
      omega
    | threw hresult error => exact hpos
  | woken ms hsleeping =>
    rw [Call.Standing, hsleeping] at hstanding
    have hleft : (JsNumber.finite c.attempt).lt c.client.maxRetries = true := hstanding.2.2.2
    have hlt : c.attempt < n := hbefore (by rw [JsNumber.le, hleft, Bool.true_or])
    rw [Call.stepsLeft, Call.stepsLeft, hsleeping]
    dsimp only
    omega

theorem Step.client_eq {e : CallEvent} (hstep : Step dateParse c e c') : c'.client = c.client := by
  cases hstep with
  | gaveUp => rfl
  | sent => rfl
  | settled hawaiting outcome parsedAt waitedAt c' hsettled => cases hsettled <;> rfl
  | woken => rfl

theorem Call.Inv.length_add_stepsLeft_le (h : c.Inv) {n : ℕ}
    (hn : c.client.maxRetries.lt (.finite n) = true) {client : HttpClient} {es : List CallEvent}
    (hrun : (client.calls dateParse).run c es = some c') :
    es.length + c'.stepsLeft n ≤ c.stepsLeft n := by
  induction es generalizing c with
  | nil =>
    cases hrun
    exact (Nat.zero_add _).le
  | cons e es ih =>
    obtain ⟨t, hnext, hrun⟩ := Option.bind_eq_some_iff.mp hrun
    have hstep : Step dateParse c e t := step_of_next hnext
    have hlt := h.stepsLeft_lt hn hstep
    have hle := ih (h.step hstep) (hstep.client_eq ▸ hn) hrun
    rw [List.length_cons]
    omega

/-- A call that stands is at its end. -/
theorem ended_of_next_eq_none (h : ∀ e, c.next dateParse e = none) :
    (∃ r, c.phase = .returned r) ∨ ∃ error, c.phase = .threw error := by
  cases hphase : c.phase with
  | due =>
    have hnone := h (.begun 0)
    rw [Call.next, hphase] at hnone
    cases hnone
  | awaiting =>
    have hnone := h (.settled .aborted 0 0)
    rw [Call.next, hphase] at hnone
    cases hnone
  | sleeping ms =>
    have hnone := h .woken
    rw [Call.next, hphase] at hnone
    cases hnone
  | returned r => exact .inl ⟨r, rfl⟩
  | threw error => exact .inr ⟨error, rfl⟩

end

/-! ## What a caller can rely on -/

structure Call.Safe (c : Call) : Prop where
  /-- Every send of a request is the same, its keys included. -/
  same : ∀ a ∈ c.sends, ∀ b ∈ c.sends, a.url = b.url ∧ a.init = b.init
  /-- Nothing is sent when the time of the request is up. -/
  inTime : ∀ sent ∈ c.sends, (c.deadline.sub (.finite sent.sentAt)).le (.finite 0) = false
  atMost : ∀ n : ℕ, c.client.maxRetries.lt (.finite n) = true → c.sends.length ≤ n
  /-- A mutation is sent once, unless the configuration says otherwise. -/
  once : c.init.method = .post → c.client.retryMutations = false → c.sends.length ≤ 1
  /-- What another send follows may pass by itself. -/
  retried : ∀ outcome ∈ c.outcomes.take (c.sends.length - 1), outcome.Retryable
  returned : ∀ r, c.phase = .returned r →
    ∃ outcome, c.outcomes.getLast? = some outcome ∧ outcome.result = some r
  threw : ∀ error, c.phase = .threw error → ∀ outcome ∈ c.outcomes, outcome.result = none

theorem Call.Inv.retryable_take {c : Call} (h : c.Inv) :
    ∀ outcome ∈ c.outcomes.take (c.sends.length - 1), outcome.Retryable := by
  have hstanding := h.standing
  rw [Call.Standing] at hstanding
  intro outcome ho
  split at hstanding
  · exact hstanding.2.2.1 outcome (List.take_subset _ _ ho)
  · exact hstanding.2.2.1.1 outcome (List.take_subset _ _ ho)
  · exact hstanding.2.2.1.1 outcome (List.take_subset _ _ ho)
  all_goals
    rw [hstanding.1, ← List.dropLast_eq_take] at ho
    exact hstanding.2.1.1 outcome ho

theorem Call.Inv.safe {c : Call} (h : c.Inv) : c.Safe where
  same := by
    intro a ha b hb
    obtain ⟨haurl, hainit, -⟩ := h.sends a ha
    obtain ⟨hburl, hbinit, -⟩ := h.sends b hb
    exact ⟨haurl.trans hburl.symm, hainit.trans hbinit.symm⟩
  inTime := fun sent hsent => (h.sends sent hsent).2.2
  atMost := h.atMost
  once := by
    intro hpost hretry
    apply h.once
    rw [Call.canRetry, hpost, hretry, Bool.or_false]
    decide
  retried := h.retryable_take
  returned := by
    intro r hphase
    have hstanding := h.standing
    rw [Call.Standing, hphase] at hstanding
    exact hstanding.2.2
  threw := by
    intro error hphase
    have hstanding := h.standing
    rw [Call.Standing, hphase] at hstanding
    exact hstanding.2.2

/-- Whatever the network and the clock do, a call is safe in every state, and comes to its end
within three steps for each attempt that the configuration allows. -/
theorem call_safe (client : HttpClient) (dateParse : JsString → Option ℤ) (method : Method)
    (path : JsString) (body : Option JsString) (idBytes keyBytes : Bytes) (now : ℤ)
    {es : List CallEvent} {c : Call} (hrun : (client.calls dateParse).run
      (client.request method path body idBytes keyBytes now) es = some c) :
    c.Safe ∧
      (∀ n : ℕ, client.maxRetries.lt (.finite n) = true → es.length ≤ 3 * n + 1) ∧
      ((∀ e, c.next dateParse e = none) →
        (∃ r, c.phase = .returned r) ∨ ∃ error, c.phase = .threw error) := by
  have hinit : (client.calls dateParse).Reachable
      (client.request method path body idBytes keyBytes now) :=
    .init ⟨method, path, body, idBytes, keyBytes, now, rfl⟩
  refine ⟨(inv_of_reachable (hinit.run hrun)).safe, ?_, ended_of_next_eq_none⟩
  intro n hn
  have hle := (inv_of_reachable hinit).length_add_stepsLeft_le (n := n) hn hrun
  calc es.length ≤ es.length + c.stepsLeft n := Nat.le_add_right _ _
    _ ≤ 3 * n + 1 := hle

def retryingClient : HttpClient :=
  .create ⟨js "https://api.attestia.io/", none, none, none, some true⟩

/-- The first response is lost, and the second one is returned. -/
def lostResponse : List CallEvent :=
  [.begun 0, .settled (.rejected (.error (js "fetch failed"))) 10 10, .woken, .begun 1010,
    .settled (.responded ⟨201, .empty, []⟩) 1020 1020]

theorem call_safe_lostResponse : ∃ c, (retryingClient.calls fun _ => none).run
      (retryingClient.request .post (js "/api/v1/intents") (some (js "{}")) [1] [2] 0)
      lostResponse = some c ∧ c.sends.length = 2 ∧ c.Safe := by
  have hrun : ((retryingClient.calls fun _ => none).run
      (retryingClient.request .post (js "/api/v1/intents") (some (js "{}")) [1] [2] 0)
      lostResponse).any (fun c => c.sends.length = 2) = true := by decide +kernel
  obtain ⟨c, hrun, hsends⟩ := (Option.any_eq_true _ _).mp hrun
  exact ⟨c, hrun, of_decide_eq_true hsends, (call_safe _ _ _ _ _ _ _ _ hrun).1⟩

end Attestia.Sdk
