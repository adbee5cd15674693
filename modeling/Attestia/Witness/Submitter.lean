import Attestia.Lib.System
import Attestia.Witness.Retry
import Attestia.Witness.Signing

/-!
# Submissions

`submitter.ts`: a payload is signed once, and its blob is submitted until it is found on the
ledger. Each attempt makes sure of the connection, looks the transaction up, and submits it where it
is not found. A state also holds what the ledger knows: whether a blob that was sent has been
applied, and whether the transaction is validated.
-/

namespace Attestia.Witness

open Lib

structure Signed where
  txBlob : JsString
  hash : JsString

structure WitnessRecord where
  id : JsString
  payload : AttestationPayload
  chainId : JsString
  txHash : JsString
  ledgerIndex : JsNumber
  witnessedAt : JsString
  witnessAccount : JsString

structure WitnessSubmitError where
  attempts : JsNumber
  lastError : RetryError
  payload : AttestationPayload

def WitnessSubmitError.message (e : WitnessSubmitError) : JsString :=
  js "Witness submission failed after " ++ e.attempts.text ++ js " attempts: " ++ e.lastError.message

/-- What a call of `submit` is made with. -/
structure SubmitCall where
  payload : AttestationPayload
  chainId : JsString
  account : JsString
  maxAttempts : JsNumber
  submitTimeoutMs : JsNumber

/-- How a call throws: as it was prepared, or in its attempts. -/
inductive SubmitFailure where
  | unprepared (error : Thrown)
  | failed (error : WitnessSubmitError)

inductive SubmitPhase where
  | preparing
  | connecting
  | lookingUp
  | waiting
  | returned (record : WitnessRecord)
  | thrown (failure : SubmitFailure)

structure SubmitState where
  phase : SubmitPhase
  signed : Option Signed
  attempt : ℕ
  sent : List JsString
  /-- The number of lookups that have been answered. -/
  lookups : ℕ
  applied : Bool
  validated : Bool

/-- What `tx` answers. -/
inductive LookupAnswer where
  | validated (ledgerIndex : Option JsNumber)
  | notValidated
  | error

/-- The ledger indices of a response: in `meta`, and beside it. -/
structure TxResponse where
  metaLedgerIndex : Option JsNumber
  ledgerIndex : Option JsNumber

def TxResponse.index (response : TxResponse) : JsNumber :=
  response.metaLedgerIndex.getD (response.ledgerIndex.getD (.finite 0))

/-- What a call sees, and when the ledger validates the transaction. A submission that is not
applied never is; the response of one is only sent for a transaction that is validated. -/
inductive SubmitEvent where
  | prepared (signed : Signed)
  | unprepared (error : Thrown)
  | connected
  | reconnectFailed (error : Thrown)
  | clientGone
  | lookedUp (answer : LookupAnswer) (now : JsString) (applies : Bool)
  | answered (response : TxResponse) (now : JsString)
  | lost (error : Thrown)
  | timedOut
  | validate

def reconnectError (error : Thrown) : Thrown :=
  .error (js "XrplSubmitter: connection lost mid-submit and reconnect failed (" ++ error.detail ++
    js "). Call connect() to recover before submitting again.")

def clientGoneError : Thrown :=
  .error (js ("XrplSubmitter: connection lost mid-submit and no client is present. " ++
    "Call connect() to recover."))

namespace SubmitCall

variable (c : SubmitCall)

def record (signed : Signed) (ledgerIndex : JsNumber) (now : JsString) : WitnessRecord where
  id := js "witness:" ++ c.payload.hash.take 16
  payload := c.payload
  chainId := c.chainId
  txHash := signed.hash
  ledgerIndex := ledgerIndex
  witnessedAt := now
  witnessAccount := c.account

/-- The loop of `withRetry` at its condition. -/
def beginAttempt (s : SubmitState) (lastError : Option Thrown) : SubmitState :=
  if (JsNumber.finite s.attempt).lt c.maxAttempts then { s with phase := .connecting }
  else
    { s with phase := .thrown (.failed
        ⟨c.maxAttempts, .exhausted c.maxAttempts lastError, c.payload⟩) }

/-- The loop of `withRetry` where an attempt throws. -/
def attemptFailed (s : SubmitState) (error : Thrown) : SubmitState :=
  if isRetryableXrplError error then
    c.beginAttempt { s with attempt := s.attempt + 1 } (some error)
  else { s with phase := .thrown (.failed ⟨.finite 1, .permanent error, c.payload⟩) }

/-- Behind an answer the record is returned, or the blob is submitted. -/
def lookedUp (s : SubmitState) (signed : Signed) (answer : LookupAnswer) (now : JsString)
    (applies : Bool) : SubmitState :=
  match answer with
  | .validated ledgerIndex => { s with
      phase := .returned (c.record signed (ledgerIndex.getD (.finite 0)) now)
      lookups := s.lookups + 1 }
  | _ => { s with
      phase := .waiting
      sent := s.sent ++ [signed.txBlob]
      lookups := s.lookups + 1
      applied := s.applied || applies }

/-- A node calls a transaction validated only if it is. -/
def isHonest (s : SubmitState) : LookupAnswer → Bool
  | .validated _ => s.validated
  | _ => true

def next (s : SubmitState) : SubmitEvent → Option SubmitState
  | .validate => if s.applied then some { s with validated := true } else none
  | event =>
    match s.phase, s.signed, event with
    | .preparing, _, .prepared signed => some (c.beginAttempt { s with signed := some signed } none)
    | .preparing, _, .unprepared error => some { s with phase := .thrown (.unprepared error) }
    | .connecting, _, .connected => some { s with phase := .lookingUp }
    | .connecting, _, .reconnectFailed error => some (c.attemptFailed s (reconnectError error))
    | .connecting, _, .clientGone => some (c.attemptFailed s clientGoneError)
    | .lookingUp, some signed, .lookedUp answer now applies =>
      if isHonest s answer then some (c.lookedUp s signed answer now applies) else none
    | .waiting, some signed, .answered response now =>
      if s.validated then some { s with phase := .returned (c.record signed response.index now) }
      else none
    | .waiting, _, .lost error => some (c.attemptFailed s error)
    | .waiting, _, .timedOut =>
      if c.submitTimeoutMs.le (.finite 0) then none
      else some (c.attemptFailed s (attemptTimeoutError c.submitTimeoutMs (js "submitAndWait")))
    | _, _, _ => none

def init : SubmitState := ⟨.preparing, none, 0, [], 0, false, false⟩

def system : System SubmitState SubmitEvent where
  init s := s = init
  next := c.next

/-- There is another attempt after this one. -/
def Remains (s : SubmitState) : Prop := (JsNumber.finite (s.attempt + 1 : ℕ)).lt c.maxAttempts = true

/-! ## Idempotence -/

/-- A node that finds the transaction where it is validated. -/
def Truthful (s : SubmitState) : SubmitEvent → Prop
  | .lookedUp (.validated _) _ _ => True
  | .lookedUp _ _ _ => s.validated = false
  | _ => True

/-- The runs that go on from a state. -/
def onward (s : SubmitState) : System SubmitState SubmitEvent where
  init s' := s' = s
  next := c.next

/-- With the connection there, lookups answer truthfully. -/
def Answering (s : SubmitState) : SubmitEvent → Prop
  | .validate | .reconnectFailed _ | .clientGone => False
  | e => Truthful s e

/-- Whatever it is answered, the call goes on and comes to return the record of what it has signed,
and it sends nothing on the way. -/
inductive Returns : SubmitState → Prop where
  | returned {s : SubmitState} {r : WitnessRecord} {signed : Signed} : s.phase = .returned r →
      s.signed = some signed → r.txHash = signed.hash → Returns s
  | step {s : SubmitState} : (∃ e s', Answering s e ∧ c.next s e = some s') →
      (∀ e s', Answering s e → c.next s e = some s' → s'.sent = s.sent) →
      (∀ e s', Answering s e → c.next s e = some s' → Returns s') → Returns s

/-- An error behind which a submission may have been applied is not taken for a permanent one. -/
def Transient (s : SubmitState) : SubmitEvent → Prop
  | .lost error => s.applied = true → c.Remains s → isRetryableXrplError error = true
  | .reconnectFailed error =>
    s.applied = true → c.Remains s → isRetryableXrplError (reconnectError error) = true
  | _ => True

/-- An attempt ends without a record. -/
def Fails : SubmitEvent → Prop
  | .lost _ | .timedOut | .reconnectFailed _ | .clientGone => True
  | _ => False

/-- What is promised of a call in each of its states. -/
structure Idempotent (s : SubmitState) : Prop where
  /-- Only the blob that was signed is sent. -/
  blob : ∀ b ∈ s.sent, ∃ signed, s.signed = some signed ∧ b = signed.txBlob
  /-- A record is returned for a transaction that was sent and is validated. -/
  record : ∀ r, s.phase = .returned r → ∃ signed, s.signed = some signed ∧
    r.txHash = signed.hash ∧ s.sent ≠ [] ∧ s.validated = true
  /-- A call does not give up a validated transaction while attempts remain. -/
  keeps : ∀ failure, s.phase = .thrown failure → s.validated = true → ¬ c.Remains s
  /-- While attempts remain, the next one begins where an attempt fails behind the validation. -/
  retries : s.validated = true → c.Remains s → ∀ e s', Fails e → c.Transient s e →
    c.next s e = some s' → s'.phase = .connecting ∧ s'.attempt = s.attempt + 1 ∧
      s'.sent = s.sent ∧ s'.validated = true
  /-- In the attempts behind the validation it is not sent again, and a lookup returns the record. -/
  recovers : s.phase = .connecting ∨ s.phase = .lookingUp → s.validated = true →
    c.Returns s ∧ ∀ s', (c.onward s).ReachableVia Truthful s' → s'.sent = s.sent ∧
      (s.lookups < s'.lookups → ∃ r signed, s'.phase = .returned r ∧ s'.signed = some signed ∧
        r.txHash = signed.hash)

/-! ## Steps -/

variable {c} {s s' : SubmitState} {e : SubmitEvent}

/-- What an event does, and in which phase it comes. -/
inductive Move (c : SubmitCall) (s : SubmitState) : SubmitEvent → SubmitState → Prop where
  | validate : s.applied = true → Move c s .validate { s with validated := true }
  | prepared {signed} : s.phase = .preparing →
      Move c s (.prepared signed) (c.beginAttempt { s with signed := some signed } none)
  | unprepared {error} : s.phase = .preparing →
      Move c s (.unprepared error) { s with phase := .thrown (.unprepared error) }
  | connected : s.phase = .connecting → Move c s .connected { s with phase := .lookingUp }
  | reconnectFailed {error} : s.phase = .connecting →
      Move c s (.reconnectFailed error) (c.attemptFailed s (reconnectError error))
  | clientGone : s.phase = .connecting → Move c s .clientGone (c.attemptFailed s clientGoneError)
  | lookedUp {signed answer now applies} : s.phase = .lookingUp → s.signed = some signed →
      isHonest s answer = true →
      Move c s (.lookedUp answer now applies) (c.lookedUp s signed answer now applies)
  | answered {signed response now} : s.phase = .waiting → s.signed = some signed →
      s.validated = true → Move c s (.answered response now)
        { s with phase := .returned (c.record signed response.index now) }
  | lost {error} : s.phase = .waiting → Move c s (.lost error) (c.attemptFailed s error)
  | timedOut : s.phase = .waiting → Move c s .timedOut
      (c.attemptFailed s (attemptTimeoutError c.submitTimeoutMs (js "submitAndWait")))

theorem move_of_next (h : c.next s e = some s') : Move c s e s' := by
  unfold next at h
  split at h
  · split at h
    · rename_i happlied
      exact Option.some.inj h ▸ .validate happlied
    · cases h
  · split at h
    · rename_i hphase _
      exact Option.some.inj h ▸ .prepared hphase
    · rename_i hphase _
      exact Option.some.inj h ▸ .unprepared hphase
    · rename_i hphase _
      exact Option.some.inj h ▸ .connected hphase
    · rename_i hphase _
      exact Option.some.inj h ▸ .reconnectFailed hphase
    · rename_i hphase _
      exact Option.some.inj h ▸ .clientGone hphase
    · rename_i hphase hsigned _
      split at h
      · rename_i hhonest
        exact Option.some.inj h ▸ .lookedUp hphase hsigned hhonest
      · cases h
    · rename_i hphase hsigned _
      split at h
      · rename_i hvalidated
        exact Option.some.inj h ▸ .answered hphase hsigned hvalidated
      · cases h
    · rename_i hphase _
      exact Option.some.inj h ▸ .lost hphase
    · rename_i hphase _
      split at h
      · cases h
      · exact Option.some.inj h ▸ .timedOut hphase
    · cases h

theorem lt_of_le {a b : ℕ} {n : JsNumber} (hab : a ≤ b) (h : (JsNumber.finite b).lt n = true) :
    (JsNumber.finite a).lt n = true := by
  cases n with
  | finite q =>
    rw [JsNumber.lt, decide_eq_true_eq] at h ⊢
    exact lt_of_le_of_lt (Nat.cast_le.mpr hab) h
  | infinity negative => exact h
  | nan => cases h

/-- What a failed attempt leaves: the next one, or an error. -/
structure AfterFailure (c : SubmitCall) (s : SubmitState) (error : Thrown) (t : SubmitState) :
    Prop where
  signed : t.signed = s.signed
  sent : t.sent = s.sent
  lookups : t.lookups = s.lookups
  applied : t.applied = s.applied
  validated : t.validated = s.validated
  phase : t.phase = .connecting ∨ ∃ failure, t.phase = .thrown failure ∧
    ((c.Remains s → isRetryableXrplError error = true) → ¬ c.Remains t)

theorem afterFailure_attemptFailed (s : SubmitState) (error : Thrown) :
    AfterFailure c s error (c.attemptFailed s error) := by
  unfold attemptFailed beginAttempt
  split
  · split
    · exact ⟨rfl, rfl, rfl, rfl, rfl, .inl rfl⟩
    · rename_i hlast
      refine ⟨rfl, rfl, rfl, rfl, rfl, .inr ⟨_, rfl, fun _ h => hlast ?_⟩⟩
      exact lt_of_le (Nat.le_succ _) h
  · rename_i hpermanent
    exact ⟨rfl, rfl, rfl, rfl, rfl, .inr ⟨_, rfl, fun h hremains => hpermanent (h hremains)⟩⟩

/-- The next attempt begins behind an error that may pass. -/
theorem attemptFailed_of_remains {error : Thrown} (hretryable : isRetryableXrplError error = true)
    (hremains : c.Remains s) :
    c.attemptFailed s error = { s with phase := .connecting, attempt := s.attempt + 1 } := by
  rw [attemptFailed, if_pos hretryable, beginAttempt]
  exact if_pos hremains

/-- What holds in every state of a call. -/
structure Inv (c : SubmitCall) (s : SubmitState) : Prop where
  fresh : s.phase = .preparing → s.sent = []
  blob : ∀ b ∈ s.sent, ∃ signed, s.signed = some signed ∧ b = signed.txBlob
  applied : s.applied = true → s.sent ≠ []
  validated : s.validated = true → s.applied = true
  record : ∀ r, s.phase = .returned r → ∃ signed, s.signed = some signed ∧
    r.txHash = signed.hash ∧ s.sent ≠ [] ∧ s.validated = true
  keeps : ∀ failure, s.phase = .thrown failure → s.applied = true → ¬ c.Remains s

theorem Inv.attemptFailed (h : Inv c s) {error : Thrown}
    (herror : s.applied = true → c.Remains s → isRetryableXrplError error = true) :
    Inv c (c.attemptFailed s error) := by
  have ht := afterFailure_attemptFailed (c := c) s error
  refine ⟨?_, ?_, ?_, ?_, ?_, ?_⟩
  · intro hphase
    rcases ht.phase with hconnecting | ⟨failure, hthrown, -⟩
    · rw [hconnecting] at hphase
      cases hphase
    · rw [hthrown] at hphase
      cases hphase
  · rw [ht.sent, ht.signed]
    exact h.blob
  · rw [ht.applied, ht.sent]
    exact h.applied
  · rw [ht.validated, ht.applied]
    exact h.validated
  · intro r hphase
    rcases ht.phase with hconnecting | ⟨failure, hthrown, -⟩
    · rw [hconnecting] at hphase
      cases hphase
    · rw [hthrown] at hphase
      cases hphase
  · intro failure hphase happlied
    rw [ht.applied] at happlied
    rcases ht.phase with hconnecting | ⟨failure, -, hkeeps⟩
    · rw [hconnecting] at hphase
      cases hphase
    · exact hkeeps (herror happlied)

theorem Inv.beginAttempt (h : Inv c s) (hphase : s.phase = .preparing) (signed : Signed) :
    Inv c (c.beginAttempt { s with signed := some signed } none) := by
  have hsent := h.fresh hphase
  have happlied : s.applied = false := by
    by_contra happlied
    exact h.applied (Bool.eq_true_of_not_eq_false happlied) hsent
  have hvalidated : s.validated = false := by
    by_contra hvalidated
    rw [h.validated (Bool.eq_true_of_not_eq_false hvalidated)] at happlied
    cases happlied
  unfold SubmitCall.beginAttempt
  split <;> refine ⟨?_, ?_, ?_, ?_, ?_, ?_⟩ <;> simp [hsent, happlied, hvalidated]

/-- The blob is sent again. -/
theorem Inv.resubmit (h : Inv c s) {signed : Signed} (hsigned : s.signed = some signed)
    {lookups : ℕ} {applies : Bool} :
    Inv c { s with phase := .waiting, sent := s.sent ++ [signed.txBlob], lookups := lookups,
                   applied := s.applied || applies } := by
  refine ⟨by simp, ?_, by simp, ?_, by simp, by simp⟩
  · intro b hb
    rcases List.mem_append.mp hb with hb | hb
    · exact h.blob b hb
    · exact ⟨signed, hsigned, List.mem_singleton.mp hb⟩
  · intro hvalidated
    rw [h.validated hvalidated, Bool.true_or]

theorem Inv.next (h : Inv c s) (hok : c.Transient s e) (hnext : c.next s e = some s') :
    Inv c s' := by
  cases move_of_next hnext with
  | validate happlied =>
    refine ⟨h.fresh, h.blob, h.applied, fun _ => happlied, ?_, h.keeps⟩
    intro r hr
    obtain ⟨signed, hsigned, hhash, hsent, -⟩ := h.record r hr
    exact ⟨signed, hsigned, hhash, hsent, rfl⟩
  | prepared hphase => exact h.beginAttempt hphase _
  | unprepared hphase =>
    refine ⟨by simp, h.blob, h.applied, h.validated, by simp, fun _ _ happlied => ?_⟩
    exact absurd (h.fresh hphase) (h.applied happlied)
  | connected hphase =>
    exact ⟨by simp, h.blob, h.applied, h.validated, by simp, by simp⟩
  | reconnectFailed hphase => exact h.attemptFailed hok
  | clientGone hphase => exact h.attemptFailed fun _ _ => by decide +kernel
  | @lookedUp signed answer now applies hphase hsigned hhonest =>
    cases answer with
    | validated ledgerIndex =>
      refine ⟨by simp [lookedUp], h.blob, h.applied, h.validated, ?_, by simp [lookedUp]⟩
      intro r hr
      cases hr
      exact ⟨signed, hsigned, rfl, h.applied (h.validated hhonest), hhonest⟩
    | notValidated => exact h.resubmit hsigned
    | error => exact h.resubmit hsigned
  | @answered signed response now hphase hsigned hvalidated =>
    refine ⟨by simp, h.blob, h.applied, h.validated, ?_, by simp⟩
    intro r hr
    cases hr
    exact ⟨signed, hsigned, rfl, h.applied (h.validated hvalidated), hvalidated⟩
  | lost hphase => exact h.attemptFailed hok
  | timedOut hphase => exact h.attemptFailed fun _ _ => isRetryableXrplError_timeout _

/-! ## Recovery -/

theorem Inv.signed (h : Inv c s) (hvalidated : s.validated = true) :
    ∃ signed, s.signed = some signed := by
  obtain ⟨b, hb⟩ := List.exists_mem_of_ne_nil _ (h.applied (h.validated hvalidated))
  obtain ⟨signed, hsigned, -⟩ := h.blob b hb
  exact ⟨signed, hsigned⟩

/-- A call that fails behind the validation makes another attempt while there is one. -/
theorem Inv.retries (h : Inv c s) (hvalidated : s.validated = true) (hremains : c.Remains s)
    (hfails : Fails e) (hok : c.Transient s e) (hnext : c.next s e = some s') :
    s' = { s with phase := .connecting, attempt := s.attempt + 1 } := by
  have happlied := h.validated hvalidated
  cases move_of_next hnext with
  | lost => exact attemptFailed_of_remains (hok happlied hremains) hremains
  | reconnectFailed => exact attemptFailed_of_remains (hok happlied hremains) hremains
  | clientGone => exact attemptFailed_of_remains (by decide +kernel) hremains
  | timedOut => exact attemptFailed_of_remains (isRetryableXrplError_timeout _) hremains
  | _ => cases hfails

/-- What a lookup of a validated transaction does. -/
theorem looksUp_of_validated (hphase : s.phase = .lookingUp) (hvalidated : s.validated = true)
    (hok : Answering s e) (hnext : c.next s e = some s') :
    ∃ signed ledgerIndex now, s.signed = some signed ∧
      s' = c.lookedUp s signed (.validated ledgerIndex) now false := by
  cases move_of_next hnext with
  | @lookedUp signed answer now applies _ hsigned hhonest =>
    have hfound : ∀ answer, Truthful s (.lookedUp answer now applies) →
        ∃ ledgerIndex, answer = .validated ledgerIndex := by
      intro answer htruthful
      cases answer with
      | validated ledgerIndex => exact ⟨ledgerIndex, rfl⟩
      | notValidated => exact absurd hvalidated (Bool.eq_false_iff.mp htruthful)
      | error => exact absurd hvalidated (Bool.eq_false_iff.mp htruthful)
    obtain ⟨ledgerIndex, rfl⟩ := hfound answer hok
    exact ⟨signed, ledgerIndex, now, hsigned, rfl⟩
  | validate => cases hok
  | reconnectFailed => cases hok
  | clientGone => cases hok
  | prepared hother => rw [hphase] at hother; cases hother
  | unprepared hother => rw [hphase] at hother; cases hother
  | connected hother => rw [hphase] at hother; cases hother
  | answered hother => rw [hphase] at hother; cases hother
  | lost hother => rw [hphase] at hother; cases hother
  | timedOut hother => rw [hphase] at hother; cases hother

theorem connects_of_connecting (hphase : s.phase = .connecting) (hok : Answering s e)
    (hnext : c.next s e = some s') : s' = { s with phase := .lookingUp } := by
  cases move_of_next hnext with
  | connected => rfl
  | validate => cases hok
  | reconnectFailed => cases hok
  | clientGone => cases hok
  | prepared hother => rw [hphase] at hother; cases hother
  | unprepared hother => rw [hphase] at hother; cases hother
  | lookedUp hother => rw [hphase] at hother; cases hother
  | answered hother => rw [hphase] at hother; cases hother
  | lost hother => rw [hphase] at hother; cases hother
  | timedOut hother => rw [hphase] at hother; cases hother

/-- A lookup of a validated transaction returns its record. -/
theorem returns_of_lookingUp {signed : Signed} (hphase : s.phase = .lookingUp)
    (hvalidated : s.validated = true) (hsigned : s.signed = some signed) : c.Returns s := by
  have henabled : c.next s (.lookedUp (.validated none) [] false) =
      some (c.lookedUp s signed (.validated none) [] false) := by
    simp only [SubmitCall.next, hphase, hsigned, isHonest, hvalidated, if_true]
  refine .step ⟨.lookedUp (.validated none) [] false, _, trivial, henabled⟩
    (fun e s' hok hnext => ?_) fun e s' hok hnext => ?_
  · obtain ⟨_, _, _, _, rfl⟩ := looksUp_of_validated hphase hvalidated hok hnext
    rfl
  · obtain ⟨signed, _, _, hsigned, rfl⟩ := looksUp_of_validated hphase hvalidated hok hnext
    exact .returned rfl hsigned rfl

theorem returns_of_connecting {signed : Signed} (hphase : s.phase = .connecting)
    (hvalidated : s.validated = true) (hsigned : s.signed = some signed) : c.Returns s := by
  have henabled : c.next s .connected = some { s with phase := .lookingUp } := by
    simp only [SubmitCall.next, hphase]
  refine .step ⟨.connected, _, trivial, henabled⟩
    (fun e s' hok hnext => ?_) fun e s' hok hnext => ?_
  · rw [connects_of_connecting hphase hok hnext]
  · rw [connects_of_connecting hphase hok hnext]
    exact returns_of_lookingUp rfl hvalidated hsigned

/-- What holds while the lookups of a validated transaction are truthful. -/
structure Recovering (s t : SubmitState) : Prop where
  sent : t.sent = s.sent
  validated : t.validated = true
  phase : t.lookups = s.lookups ∧ t.phase ≠ .preparing ∧ t.phase ≠ .waiting ∨
    ∃ r signed, t.phase = .returned r ∧ t.signed = some signed ∧ r.txHash = signed.hash

theorem Recovering.attemptFailed {t : SubmitState} (h : Recovering s t)
    (hphase : t.phase = .connecting) (error : Thrown) :
    Recovering s (c.attemptFailed t error) := by
  have ht := afterFailure_attemptFailed (c := c) t error
  have hlookups : t.lookups = s.lookups := by
    rcases h.phase with ⟨hlookups, -⟩ | ⟨r, signed, hr, -⟩
    · exact hlookups
    · rw [hphase] at hr
      cases hr
  refine ⟨ht.sent.trans h.sent, ht.validated.trans h.validated, .inl ⟨ht.lookups.trans hlookups, ?_⟩⟩
  rcases ht.phase with hconnecting | ⟨failure, hthrown, -⟩
  · rw [hconnecting]
    exact ⟨by simp, by simp⟩
  · rw [hthrown]
    exact ⟨by simp, by simp⟩

theorem Recovering.next {t t' : SubmitState} (h : Recovering s t) (hok : Truthful t e)
    (hnext : c.next t e = some t') : Recovering s t' := by
  have hlive : ∀ {phase}, t.phase = phase → (∀ r, phase ≠ .returned r) →
      t.lookups = s.lookups ∧ phase ≠ .preparing ∧ phase ≠ .waiting := by
    intro phase hphase hreturned
    rw [← hphase]
    rcases h.phase with hlive | ⟨r, signed, hr, -⟩
    · exact hlive
    · exact absurd (hphase.symm.trans hr) (hreturned r)
  cases move_of_next hnext with
  | validate happlied => exact ⟨h.sent, rfl, h.phase⟩
  | prepared hphase => exact absurd rfl (hlive hphase (by simp)).2.1
  | unprepared hphase => exact absurd rfl (hlive hphase (by simp)).2.1
  | connected hphase =>
    exact ⟨h.sent, h.validated, .inl ⟨(hlive hphase (by simp)).1, by simp, by simp⟩⟩
  | reconnectFailed hphase => exact h.attemptFailed hphase _
  | clientGone hphase => exact h.attemptFailed hphase _
  | @lookedUp signed answer now applies hphase hsigned hhonest =>
    cases answer with
    | validated ledgerIndex =>
      exact ⟨h.sent, h.validated, .inr ⟨_, signed, rfl, hsigned, rfl⟩⟩
    | notValidated =>
      have hok : t.validated = false := hok
      rw [h.validated] at hok
      cases hok
    | error =>
      have hok : t.validated = false := hok
      rw [h.validated] at hok
      cases hok
  | answered hphase => exact absurd rfl (hlive hphase (by simp)).2.2
  | lost hphase => exact absurd rfl (hlive hphase (by simp)).2.2
  | timedOut hphase => exact absurd rfl (hlive hphase (by simp)).2.2

theorem recovering_of_reachableVia (hphase : s.phase = .connecting ∨ s.phase = .lookingUp)
    (hvalidated : s.validated = true) (h : (c.onward s).ReachableVia Truthful s') :
    Recovering s s' := by
  refine System.ReachableVia.invariant ?_ (fun t e t' ht hok hnext => ht.next hok hnext) h
  rintro t rfl
  refine ⟨rfl, hvalidated, .inl ⟨rfl, ?_⟩⟩
  rcases hphase with hphase | hphase <;> rw [hphase] <;> exact ⟨by simp, by simp⟩

/-- A call whose lost submissions are not taken for permanent failures sends one blob, returns a
record only of a validated transaction, and does not give up one that is validated: the next attempt
begins, and its lookup returns the record. -/
theorem submit_idempotent (h : c.system.ReachableVia c.Transient s) : c.Idempotent s := by
  have hinv : Inv c s := by
    refine System.ReachableVia.invariant ?_ (fun t e t' ht hok hnext => ht.next hok hnext) h
    rintro t rfl
    exact ⟨by simp [init], by simp [init], by simp [init], by simp [init], by simp [init],
      by simp [init]⟩
  refine ⟨hinv.blob, hinv.record, ?_, ?_, ?_⟩
  · exact fun failure hthrown hvalidated =>
      hinv.keeps failure hthrown (hinv.validated hvalidated)
  · intro hvalidated hremains e s' hfails hok hnext
    rw [hinv.retries hvalidated hremains hfails hok hnext]
    exact ⟨rfl, rfl, rfl, hvalidated⟩
  · intro hphase hvalidated
    obtain ⟨signed, hsigned⟩ := hinv.signed hvalidated
    refine ⟨?_, fun t ht => ?_⟩
    · rcases hphase with hphase | hphase
      · exact returns_of_connecting hphase hvalidated hsigned
      · exact returns_of_lookingUp hphase hvalidated hsigned
    · obtain ⟨hsent, -, hlive⟩ := recovering_of_reachableVia hphase hvalidated ht
      refine ⟨hsent, fun hlookups => ?_⟩
      rcases hlive with ⟨heq, -⟩ | hreturned
      · omega
      · exact hreturned

/-! ### A response that is lost -/

/-- A transaction that is validated behind a response that never comes. -/
def lostEvents (error : Thrown) : List SubmitEvent :=
  [.prepared ⟨js "blob", js "hash"⟩, .connected, .lookedUp .error (js "t") true, .validate, .lost error]

def threeAttempts : SubmitCall where
  payload := ⟨js "payload", js "t", .registrum (js "s") (.finite 0),
    ⟨true, .finite 0, .finite 0, .finite 0, js "a"⟩⟩
  chainId := js "xrpl:testnet"
  account := js "r"
  maxAttempts := .finite 3
  submitTimeoutMs := .finite 60000

/-- The state behind the loss, in a phase. -/
def lostState (phase : SubmitPhase) (attempt : ℕ) : SubmitState :=
  ⟨phase, some ⟨js "blob", js "hash"⟩, attempt, [js "blob"], 1, true, true⟩

theorem run_lostEvents (error : Thrown) : threeAttempts.system.run init (lostEvents error) =
    some (threeAttempts.attemptFailed (lostState .waiting 0) error) := rfl

theorem not_idempotent_threeAttempts : ∃ s,
    threeAttempts.system.Reachable s ∧ ¬ threeAttempts.Idempotent s := by
  refine ⟨_, System.Reachable.run (.init rfl) (run_lostEvents (.error (js "not connected"))), ?_⟩
  have hpermanent : isRetryableXrplError (.error (js "not connected")) = false := by decide +kernel
  intro h
  rw [attemptFailed, hpermanent] at h
  have hremains : (JsNumber.finite (1 : ℕ)).lt (.finite 3) = true := by decide +kernel
  exact h.keeps _ rfl rfl hremains

theorem submit_idempotent_threeAttempts :
    threeAttempts.Idempotent (lostState .connecting 1) := by
  have hretryable : isRetryableXrplError (.error (js "timeout: connection lost")) = true := by
    decide +kernel
  have hattempt : (JsNumber.finite (1 : ℕ)).lt (.finite 3) = true := by decide +kernel
  have hlost : threeAttempts.attemptFailed (lostState .waiting 0)
      (.error (js "timeout: connection lost")) = lostState .connecting 1 := by
    rw [attemptFailed, hretryable, if_pos rfl, beginAttempt]
    exact if_pos hattempt
  refine submit_idempotent (System.ReachableVia.run (.init rfl) ?_
    (hlost ▸ run_lostEvents (.error (js "timeout: connection lost"))))
  intro e he s
  simp only [lostEvents, List.mem_cons, List.not_mem_nil, or_false] at he
  rcases he with rfl | rfl | rfl | rfl | rfl
  · trivial
  · trivial
  · trivial
  · trivial
  · exact fun _ _ => hretryable

end SubmitCall

end Attestia.Witness
