import Attestia.Lib.Fifo
import Attestia.Witness.MultiSig
import Attestia.Witness.SigningPayload
import Attestia.Witness.Submitter

/-!
# Sessions of the multi-signature witness

`multisig-witness.ts` and `multisig-submitter.ts`: signers and the quorum of a governance store
change, clients are connected and disconnected, and payloads are submitted, in any order and with
any number of calls under way at once. A call of `connect` loads the wallets one after the other, so
that one that fails leaves those it has loaded.
-/

namespace Attestia.Witness

open Lib

/-- A payload that is submitted under the policy at the time of the call. -/
structure Submission where
  payload : AttestationPayload
  policy : GovernancePolicy
  payment : Payment
  state : SubmitState

inductive Operation where
  /-- A client is connecting. -/
  | opening
  /-- The secret of the first of these signers is awaited. -/
  | loading (signers : List SignerConfig)
  /-- The client is disconnecting. -/
  | closing
  | ended (error : Option Thrown)
  | submission (call : Submission)

structure Session where
  store : GovernanceStore
  client : Bool
  wallets : JsMap JsString Wallet
  operations : List Operation
  records : List WitnessRecord

/-- What the ledger answers to an attempt, and when it validates the transaction. -/
inductive AttemptEvent where
  | connected
  | reconnectFailed (error : Thrown)
  | lookedUp (answer : LookupAnswer) (now : JsString) (applies : Bool)
  | answered (response : TxResponse) (hash : Option JsString) (now : JsString)
  | lost (error : Thrown)
  | timedOut
  | validate

/-- Calls of a session, and what its operations see. -/
inductive SessionEvent where
  | governance (call : GovernanceCall)
  | connect
  | opened (operation : ℕ) (error : Option Thrown)
  | secret (operation : ℕ) (secret : Except Thrown JsString)
  | disconnect
  | closed (operation : ℕ) (error : Option Thrown)
  | submit (payload : AttestationPayload)
  | autofilled (operation : ℕ) (prepared : Except Thrown PreparedTx) (now : JsString)
  | attempt (operation : ℕ) (event : AttemptEvent)

def MultiSigConfig.call (config : MultiSigConfig) (payload : AttestationPayload) : SubmitCall where
  payload := payload
  chainId := config.chainId
  account := config.account
  maxAttempts := config.maxAttempts
  submitTimeoutMs := config.submitTimeoutMs

/-! ## One submission -/

namespace MultiSigConfig

variable (config : MultiSigConfig)

def reconnectError (error : Thrown) : Thrown :=
  .error (js "MultiSigSubmitter: connection lost mid-submit and reconnect failed (" ++
    error.detail ++ js "). Call connect() to recover before submitting again.")

def record (payload : AttestationPayload) (txHash : JsString) (ledgerIndex : JsNumber)
    (now : JsString) : WitnessRecord where
  id := js "witness:multisig:" ++ payload.hash.take 16
  payload := payload
  chainId := config.chainId
  txHash := txHash
  ledgerIndex := ledgerIndex
  witnessedAt := now
  witnessAccount := config.account

/-- Behind an answer the record is returned, or the blob is submitted. -/
def lookedUp (payload : AttestationPayload) (s : SubmitState) (signed : Signed)
    (answer : LookupAnswer) (now : JsString) (applies : Bool) : SubmitState :=
  match answer with
  | .validated ledgerIndex => { s with
      phase := .returned (config.record payload signed.hash (ledgerIndex.getD (.finite 0)) now)
      lookups := s.lookups + 1 }
  | _ => { s with
      phase := .waiting
      sent := s.sent ++ [signed.txBlob]
      lookups := s.lookups + 1
      applied := s.applied || applies }

/-- A response names the transaction, or leaves it out; nothing compares the name. -/
def attemptNext (payload : AttestationPayload) (s : SubmitState) :
    AttemptEvent → Option SubmitState
  | .validate => if s.applied then some { s with validated := true } else none
  | event =>
    match s.phase, s.signed, event with
    | .connecting, _, .connected => some { s with phase := .lookingUp }
    | .connecting, _, .reconnectFailed error =>
      some ((config.call payload).attemptFailed s (reconnectError error))
    | .lookingUp, some signed, .lookedUp answer now applies =>
      if SubmitCall.isHonest s answer then
        some (config.lookedUp payload s signed answer now applies)
      else none
    | .waiting, some signed, .answered response hash now =>
      if s.validated then
        some { s with
          phase := .returned (config.record payload (hash.getD signed.hash) response.index now) }
      else none
    | .waiting, _, .lost error => some ((config.call payload).attemptFailed s error)
    | .waiting, _, .timedOut =>
      if config.submitTimeoutMs.le (.finite 0) then none
      else some ((config.call payload).attemptFailed s
        (attemptTimeoutError config.submitTimeoutMs (js "submitAndWait")))
    | _, _, _ => none

end MultiSigConfig

/-! ## The session -/

namespace Session

variable (library : XrplLibrary) (platform : PayloadPlatform) (config : MultiSigConfig)
  (maxRecords : JsNumber) (s : Session)

def new (createdAt : JsString) : Session := ⟨.new createdAt, false, .empty, [], []⟩

def push (operation : Operation) : Session := { s with operations := s.operations ++ [operation] }

def put (i : ℕ) (operation : Operation) : Session :=
  { s with operations := s.operations.set i operation }

/-- The call of `connect` goes on with these signers. -/
def load (i : ℕ) (signers : List SignerConfig) : Session :=
  s.put i (if signers = [] then .ended none else .loading signers)

def addressMismatch (address derived : JsString) : Thrown :=
  .error (js "MultiSigSubmitter: signer secret/address mismatch \u2014 secret for configured " ++
    js "address " ++ address ++ js " derives to " ++ derived ++ js ". " ++
    js "Refusing to connect (a key for a different address cannot act as this signer).")

def loadWallet (signer : SignerConfig) (secret : Except Thrown JsString) :
    Except Thrown Wallet := do
  let secret ← secret
  let wallet ← library.fromSeed secret
  throwIf (wallet.classicAddress ≠ signer.address)
    (addressMismatch signer.address wallet.classicAddress)
  return wallet

def notConnected : Thrown := .error (js "MultiSigSubmitter: not connected. Call connect() first.")

/-- The call of `_submitPayload` up to the client. -/
def submission (payload : AttestationPayload) : Except Thrown Submission := do
  let policy ← (s.store.getCurrentPolicy platform.toPlatform).mapError library.canonicalizerError
  throwIf (!s.client ∨ s.wallets.entries = []) notConnected
  let memo ← (encodeMemo payload.toJson).mapError fun fault => Thrown.error fault.message
  return ⟨payload, policy, config.payment memo, SubmitCall.init⟩

/-- The submission behind the answer of the client. -/
def prepare (call : Submission) (prepared : Except Thrown PreparedTx) (now : JsString) :
    SubmitState :=
  match prepared.bind fun tx =>
    buildMultiSign library platform call.payload call.policy tx s.wallets now with
  | .error error => { call.state with phase := .thrown (.unprepared error) }
  | .ok result => (config.call call.payload).beginAttempt
      { call.state with signed := some ⟨result.combinedBlob, result.txHash⟩ } none

def retainRecord (record : WitnessRecord) : Session :=
  if maxRecords.le (.finite 0) then s
  else { s with records := evict maxRecords (s.records ++ [record]) }

/-- The record of a call that returns with this step. -/
def retain (before after : SubmitPhase) : Session :=
  match before, after with
  | .returned _, _ => s
  | _, .returned record => s.retainRecord maxRecords record
  | _, _ => s

/-- A secret that is a text is the one of the configuration. -/
def isSecret (signer : SignerConfig) (secret : Except Thrown JsString) : Bool :=
  match signer.secret, secret with
  | .text text, .ok answer => answer = text
  | .text _, .error _ => false
  | .provider, _ => true

def next (s : Session) : SessionEvent → Option Session
  | .governance call => some { s with store := s.store.call platform.toPlatform call }
  | .connect => some (Session.push { s with client := true } .opening)
  | .opened i error =>
    match s.operations[i]?, error with
    | some .opening, some error => some (s.put i (.ended (some error)))
    | some .opening, none => some (Session.load { s with wallets := .empty } i config.signers)
    | _, _ => none
  | .secret i secret =>
    match s.operations[i]? with
    | some (.loading (signer :: rest)) =>
      if isSecret signer secret then
        match loadWallet library signer secret with
        | .error error => some (s.put i (.ended (some error)))
        | .ok wallet => some
          (Session.load { s with wallets := s.wallets.set wallet.classicAddress wallet } i rest)
      else none
    | _ => none
  | .disconnect =>
    if s.client then some (s.push .closing)
    else some (Session.push { s with wallets := .empty } (.ended none))
  | .closed i error =>
    match s.operations[i]?, error with
    | some .closing, some error => some (s.put i (.ended (some error)))
    | some .closing, none =>
      some (Session.put { s with client := false, wallets := .empty } i (.ended none))
    | _, _ => none
  | .submit payload =>
    match s.submission library platform config payload with
    | .error error => some (s.push (.ended (some error)))
    | .ok call => some (s.push (.submission call))
  | .autofilled i prepared now =>
    match s.operations[i]? with
    | some (.submission call) =>
      match call.state.phase with
      | .preparing => some (s.put i
          (.submission { call with state := s.prepare library platform config call prepared now }))
      | _ => none
    | _ => none
  | .attempt i event =>
    match s.operations[i]? with
    | some (.submission call) =>
      (config.attemptNext call.payload call.state event).map fun state =>
        (s.put i (.submission { call with state := state })).retain maxRecords call.state.phase
          state.phase
    | _ => none

end Session

def sessionSystem (library : XrplLibrary) (platform : PayloadPlatform) (config : MultiSigConfig)
    (maxRecords : JsNumber) : System Session SessionEvent where
  init s := ∃ createdAt, s = .new createdAt
  next s event := s.next library platform config maxRecords event

/-! ## Authorized blobs -/

/-- The client fills in what a payment leaves open. -/
structure Fills (payment : Payment) (prepared : PreparedTx) : Prop where
  account : prepared.account = payment.account
  destination : prepared.destination = payment.destination
  amount : prepared.amount = payment.amount
  memos : prepared.memos = payment.memos
  fee : ∀ fee, payment.fee = some fee → prepared.fee = some fee

def Filling (s : Session) : SessionEvent → Prop
  | .autofilled i (.ok prepared) _ =>
    ∀ call, s.operations[i]? = some (.submission call) → Fills call.payment prepared
  | _ => True

/-- A node that names the transaction of a response names the one that it was sent. -/
def Names (s : Session) : SessionEvent → Prop
  | .attempt i (.answered _ (some hash) _) => ∀ call signed,
    s.operations[i]? = some (.submission call) → call.state.signed = some signed →
      hash = signed.hash
  | _ => True

/-- The client fills in what is open, and a node names what it was sent. -/
def Trusted (s : Session) (event : SessionEvent) : Prop := Filling s event ∧ Names s event

/-- A secret of the signer derives to the wallet. -/
def Configured (library : XrplLibrary) (config : MultiSigConfig) (wallet : Wallet) : Prop :=
  ∃ signer ∈ config.signers, ∃ secret, Session.isSecret signer (.ok secret) = true ∧
    library.fromSeed secret = .ok wallet ∧ wallet.classicAddress = signer.address

/-- The transaction pays one drop to the account itself, and its memo reads as the payload. -/
structure Commits (config : MultiSigConfig) (payload : AttestationPayload) (prepared : PreparedTx) :
    Prop where
  account : prepared.account = config.account
  destination : prepared.destination = config.account
  amount : prepared.amount = js "1"
  memo : ∃ memo, prepared.memos = [memo] ∧ decodeMemo memo = .ok payload.toJson

/-- The policy is that of the store at some point of its history. -/
def Governs (platform : PayloadPlatform) (history : List GovernanceChangeEvent)
    (policy : GovernancePolicy) : Prop :=
  ∃ createdAt past, past <+: history ∧
    ((GovernanceStore.new createdAt).applyEvents past).getCurrentPolicy platform.toPlatform =
      .ok policy

/-- What a blob has been signed for. -/
def Authorized (library : XrplLibrary) (platform : PayloadPlatform) (config : MultiSigConfig)
    (payload : AttestationPayload) (policy : GovernancePolicy) (signed : Signed) : Prop :=
  ∃ prepared wallets now r, Commits config payload prepared ∧
    (wallets.map Wallet.classicAddress).Nodup ∧ (∀ w ∈ wallets, Configured library config w) ∧
    MultiSigned library platform payload policy prepared wallets now r ∧
    signed = ⟨r.combinedBlob, r.txHash⟩

section

variable {library : XrplLibrary} {platform : PayloadPlatform} {config : MultiSigConfig}
  {maxRecords : JsNumber} {payload : AttestationPayload} {s s' : SubmitState}

/-- What an attempt can do to a submission. -/
inductive Attempted (config : MultiSigConfig) (payload : AttestationPayload) (s : SubmitState) :
    AttemptEvent → SubmitState → Prop where
  | validate : s.applied = true →
      Attempted config payload s .validate { s with validated := true }
  | connected : s.phase = .connecting →
      Attempted config payload s .connected { s with phase := .lookingUp }
  | reconnectFailed {error} : s.phase = .connecting →
      Attempted config payload s (.reconnectFailed error)
        ((config.call payload).attemptFailed s (MultiSigConfig.reconnectError error))
  | lookedUp {signed answer now applies} : s.phase = .lookingUp → s.signed = some signed →
      SubmitCall.isHonest s answer = true →
      Attempted config payload s (.lookedUp answer now applies)
        (config.lookedUp payload s signed answer now applies)
  | answered {signed response hash now} : s.phase = .waiting → s.signed = some signed →
      s.validated = true → Attempted config payload s (.answered response hash now) { s with
        phase := .returned (config.record payload (hash.getD signed.hash) response.index now) }
  | lost {error} : s.phase = .waiting →
      Attempted config payload s (.lost error) ((config.call payload).attemptFailed s error)
  | timedOut : s.phase = .waiting → Attempted config payload s .timedOut
      ((config.call payload).attemptFailed s
        (attemptTimeoutError config.submitTimeoutMs (js "submitAndWait")))

theorem attempted_of_attemptNext {e : AttemptEvent} (h : config.attemptNext payload s e = some s') :
    Attempted config payload s e s' := by
  unfold MultiSigConfig.attemptNext at h
  split at h
  · split at h
    · rename_i happlied
      exact Option.some.inj h ▸ .validate happlied
    · cases h
  · split at h
    · rename_i hphase _
      exact Option.some.inj h ▸ .connected hphase
    · rename_i hphase _
      exact Option.some.inj h ▸ .reconnectFailed hphase
    · rename_i hphase hsigned _
      split at h
      · rename_i hhonest
        exact Option.some.inj h ▸ .lookedUp hphase hsigned hhonest
      · cases h
    · rename_i hphase hsigned _
      split at h
      · rename_i hvalidated
        exact Option.some.inj h ▸ .answered hphase hsigned hvalidated
      · cases h
    · rename_i hphase _
      exact Option.some.inj h ▸ .lost hphase
    · rename_i hphase _
      split at h
      · cases h
      · exact Option.some.inj h ▸ .timedOut hphase
    · cases h

/-- Nothing but the blob that has been signed is sent, and nothing before that; a record is returned
of a transaction that was sent and is validated. -/
structure SendsSigned (payload : AttestationPayload) (s : SubmitState) : Prop where
  fresh : s.phase = .preparing → s.sent = []
  blob : ∀ b ∈ s.sent, ∃ signed, s.signed = some signed ∧ b = signed.txBlob
  applied : s.applied = true → s.sent ≠ []
  validated : s.validated = true → s.applied = true
  record : ∀ r, s.phase = .returned r → r.payload = payload ∧ s.validated = true

theorem SendsSigned.attemptFailed (h : SendsSigned payload s) (c : SubmitCall) (error : Thrown) :
    SendsSigned payload (c.attemptFailed s error) := by
  have ht := SubmitCall.afterFailure_attemptFailed (c := c) s error
  have hphase : (c.attemptFailed s error).phase ≠ .preparing ∧
      ∀ r, (c.attemptFailed s error).phase ≠ .returned r := by
    rcases ht.phase with hconnecting | ⟨failure, hthrown, -⟩
    · rw [hconnecting]
      simp
    · rw [hthrown]
      simp
  refine ⟨fun hpreparing => absurd hpreparing hphase.1, ?_, ?_, ?_, fun r hr => ?_⟩
  · rw [ht.sent, ht.signed]
    exact h.blob
  · rw [ht.applied, ht.sent]
    exact h.applied
  · rw [ht.validated, ht.applied]
    exact h.validated
  · exact absurd hr (hphase.2 r)

/-- The blob is sent once more. -/
theorem SendsSigned.resubmit (h : SendsSigned payload s) {signed : Signed}
    (hsigned : s.signed = some signed) {lookups : ℕ} {applies : Bool} :
    SendsSigned payload { s with
      phase := .waiting, sent := s.sent ++ [signed.txBlob], lookups := lookups
      applied := s.applied || applies } := by
  refine ⟨by simp, fun b hb => ?_, by simp, fun hvalidated => ?_, by simp⟩
  · rcases List.mem_append.mp hb with hb | hb
    · exact h.blob b hb
    · exact ⟨signed, hsigned, List.mem_singleton.mp hb⟩
  · rw [h.validated hvalidated, Bool.true_or]

theorem signed_attemptNext {e : AttemptEvent} (h : config.attemptNext payload s e = some s') :
    s'.signed = s.signed := by
  cases attempted_of_attemptNext h with
  | reconnectFailed => exact (SubmitCall.afterFailure_attemptFailed _ _).signed
  | lost => exact (SubmitCall.afterFailure_attemptFailed _ _).signed
  | timedOut => exact (SubmitCall.afterFailure_attemptFailed _ _).signed
  | @lookedUp signed answer now applies => cases answer <;> rfl
  | _ => rfl

theorem SendsSigned.attemptNext (hs : SendsSigned payload s) {e : AttemptEvent}
    (h : config.attemptNext payload s e = some s') : SendsSigned payload s' := by
  cases attempted_of_attemptNext h with
  | validate happlied =>
    refine ⟨hs.fresh, hs.blob, hs.applied, fun _ => happlied, fun r hr => ?_⟩
    exact ⟨(hs.record r hr).1, rfl⟩
  | connected => exact ⟨by simp, hs.blob, hs.applied, hs.validated, by simp⟩
  | reconnectFailed => exact hs.attemptFailed _ _
  | @lookedUp signed answer now applies hphase hsigned hhonest =>
    cases answer with
    | validated ledgerIndex =>
      refine ⟨by simp [MultiSigConfig.lookedUp], hs.blob, hs.applied, hs.validated, ?_⟩
      intro r hr
      cases hr
      exact ⟨rfl, hhonest⟩
    | notValidated => exact hs.resubmit hsigned
    | error => exact hs.resubmit hsigned
  | @answered signed response hash now hphase hsigned hvalidated =>
    refine ⟨by simp, hs.blob, hs.applied, hs.validated, ?_⟩
    intro r hr
    cases hr
    exact ⟨rfl, hvalidated⟩
  | lost => exact hs.attemptFailed _ _
  | timedOut => exact hs.attemptFailed _ _

/-- A submission that has returned its record stays so. -/
theorem returned_attemptNext {e : AttemptEvent} {record : WitnessRecord}
    (hs : s.phase = .returned record) (h : config.attemptNext payload s e = some s') :
    s'.phase = .returned record := by
  cases attempted_of_attemptNext h with
  | validate => exact hs
  | lookedUp hphase => simp [hs] at hphase
  | answered hphase => simp [hs] at hphase
  | _ hphase => simp [hs] at hphase

end

section

variable (library : XrplLibrary) (platform : PayloadPlatform) (config : MultiSigConfig)
  (history : List GovernanceChangeEvent)

structure CallInv (call : Submission) : Prop where
  governs : Governs platform history call.policy
  payment : ∃ memo, encodeMemo call.payload.toJson = .ok memo ∧ call.payment = config.payment memo
  sends : SendsSigned call.payload call.state
  authorized : ∀ signed, call.state.signed = some signed →
    Authorized library platform config call.payload call.policy signed

def Operation.Inv : Operation → Prop
  | .loading signers => ∀ signer ∈ signers, signer ∈ config.signers
  | .submission call => CallInv library platform config history call
  | _ => True

/-- A wallet is held under the address of a configured signer. -/
def HoldsConfigured (wallets : JsMap JsString Wallet) : Prop :=
  ∀ address wallet, wallets.get? address = some wallet →
    wallet.classicAddress = address ∧ Configured library config wallet

structure Session.Inv (s : Session) : Prop where
  store : ∃ createdAt, s.store.Follows createdAt
  wallets : HoldsConfigured library config s.wallets
  operations : ∀ operation ∈ s.operations, operation.Inv library platform config s.store.events

end

section

variable {library : XrplLibrary} {platform : PayloadPlatform} {config : MultiSigConfig}
  {maxRecords : JsNumber} {history : List GovernanceChangeEvent} {s s' : Session} {i : ℕ}

theorem holdsConfigured_empty : HoldsConfigured library config .empty := by
  intro address wallet h
  cases h

/-- The wallets are dropped. -/
theorem Session.Inv.forget (h : s.Inv library platform config) :
    Session.Inv library platform config { s with wallets := .empty } :=
  ⟨h.store, holdsConfigured_empty, h.operations⟩

theorem Session.Inv.push (h : s.Inv library platform config) {operation : Operation}
    (hoperation : operation.Inv library platform config s.store.events) :
    (s.push operation).Inv library platform config := by
  refine ⟨h.store, h.wallets, fun op hop => ?_⟩
  rcases List.mem_append.mp hop with hop | hop
  · exact h.operations op hop
  · rwa [List.mem_singleton.mp hop]

theorem Session.Inv.put (h : s.Inv library platform config) {operation : Operation}
    (hoperation : operation.Inv library platform config s.store.events) :
    (s.put i operation).Inv library platform config := by
  refine ⟨h.store, h.wallets, fun op hop => ?_⟩
  rcases List.mem_or_eq_of_mem_set hop with hop | rfl
  · exact h.operations op hop
  · exact hoperation

theorem Session.Inv.load (h : s.Inv library platform config) {signers : List SignerConfig}
    (hsigners : ∀ signer ∈ signers, signer ∈ config.signers) :
    (s.load i signers).Inv library platform config := by
  rw [Session.load]
  split
  · exact h.put trivial
  · exact h.put hsigners

theorem Session.Inv.retain (h : s.Inv library platform config) {before after : SubmitPhase} :
    (s.retain maxRecords before after).Inv library platform config := by
  unfold Session.retain
  split
  · exact h
  · rw [Session.retainRecord]
    split
    · exact h
    · exact ⟨h.store, h.wallets, h.operations⟩
  · exact h

theorem Session.Inv.at (h : s.Inv library platform config) {operation : Operation}
    (hget : s.operations[i]? = some operation) :
    operation.Inv library platform config s.store.events :=
  h.operations operation (List.mem_of_getElem? hget)

theorem configured_of_loadWallet {signer : SignerConfig} {secret : Except Thrown JsString}
    {wallet : Wallet} (hsigner : signer ∈ config.signers)
    (hsecret : Session.isSecret signer secret = true)
    (h : Session.loadWallet library signer secret = .ok wallet) :
    Configured library config wallet := by
  obtain ⟨text, htext, h⟩ := bind_eq_ok.mp h
  obtain ⟨loaded, hloaded, h⟩ := bind_eq_ok.mp h
  obtain ⟨hmatch, h⟩ := bind_unit_eq_ok.mp h
  obtain rfl := Except.ok.inj h
  rw [throwIf_eq_ok, not_not] at hmatch
  rw [htext] at hsecret
  exact ⟨signer, hsigner, text, hsecret, hloaded, hmatch⟩

theorem callInv_submission (h : s.Inv library platform config) {payload : AttestationPayload}
    {call : Submission} (hcall : s.submission library platform config payload = .ok call) :
    CallInv library platform config s.store.events call := by
  obtain ⟨policy, hpolicy, hcall⟩ := bind_eq_ok.mp hcall
  obtain ⟨-, hcall⟩ := bind_unit_eq_ok.mp hcall
  obtain ⟨memo, hmemo, hcall⟩ := bind_eq_ok.mp hcall
  obtain rfl := Except.ok.inj hcall
  obtain ⟨createdAt, hfollows⟩ := h.store
  rw [hfollows] at hpolicy
  refine ⟨⟨createdAt, _, List.prefix_rfl, mapError_eq_ok.mp hpolicy⟩,
    ⟨memo, mapError_eq_ok.mp hmemo, rfl⟩,
    ⟨fun _ => rfl, by simp [SubmitCall.init], by simp [SubmitCall.init], by simp [SubmitCall.init],
      by simp [SubmitCall.init]⟩, by simp [SubmitCall.init]⟩

theorem state_submission {payload : AttestationPayload} {call : Submission}
    (h : s.submission library platform config payload = .ok call) :
    call.state = SubmitCall.init := by
  obtain ⟨policy, -, h⟩ := bind_eq_ok.mp h
  obtain ⟨-, h⟩ := bind_unit_eq_ok.mp h
  obtain ⟨memo, -, h⟩ := bind_eq_ok.mp h
  exact Except.ok.inj h ▸ rfl

/-- What held of a part of a history holds of all of it. -/
theorem Operation.Inv.mono {operation : Operation} {later : List GovernanceChangeEvent}
    (h : operation.Inv library platform config history) (hextends : history <+: later) :
    operation.Inv library platform config later := by
  cases operation with
  | submission call =>
    obtain ⟨⟨createdAt, past, hpast, hpolicy⟩, hpayment, hsends, hauthorized⟩ := h
    exact ⟨⟨createdAt, past, hpast.trans hextends, hpolicy⟩, hpayment, hsends, hauthorized⟩
  | loading signers => exact h
  | _ => trivial

/-- The blob that the wallets of a session sign is authorized. -/
theorem CallInv.prepare {call : Submission} (h : CallInv library platform config history call)
    (hwallets : HoldsConfigured library config s.wallets) (hphase : call.state.phase = .preparing)
    {prepared : Except Thrown PreparedTx} {now : JsString}
    (hfills : ∀ tx, prepared = .ok tx → Fills call.payment tx) :
    CallInv library platform config history
      { call with state := s.prepare library platform config call prepared now } := by
  have hsent := h.sends.fresh hphase
  rw [Session.prepare]
  split
  · exact ⟨h.governs, h.payment, ⟨by simp, h.sends.blob, h.sends.applied, h.sends.validated,
      by simp⟩, h.authorized⟩
  · rename_i r hr
    obtain ⟨tx, htx, hr⟩ := bind_eq_ok.mp hr
    have hauthorized : Authorized library platform config call.payload call.policy
        ⟨r.combinedBlob, r.txHash⟩ := by
      obtain ⟨memo, hmemo, hpayment⟩ := h.payment
      obtain ⟨haccount, hdestination, hamount, hmemos, -⟩ := hfills tx htx
      rw [hpayment] at haccount hdestination hamount hmemos
      refine ⟨tx, s.wallets.values, now, r, ⟨haccount, hdestination, hamount, memo, hmemos,
        (decodeMemo_encodeMemo hmemo).2⟩, ?_, fun w hw => ?_, multiSigned_of_buildMultiSign hr, rfl⟩
      · exact JsMap.nodup_map_values (g := id) fun address wallet hget =>
          (hwallets address wallet hget).1
      · obtain ⟨address, hget⟩ := JsMap.mem_values.mp hw
        exact (hwallets address w hget).2
    have hstate : ∀ phase, (∀ record, phase ≠ .returned record) →
        CallInv library platform config history { call with state :=
          { call.state with phase := phase, signed := some ⟨r.combinedBlob, r.txHash⟩ } } := by
      intro phase hphase
      refine ⟨h.governs, h.payment, ⟨fun _ => hsent, fun b hb => ?_, h.sends.applied,
        h.sends.validated, fun record hr => absurd hr (hphase record)⟩, fun signed hsigned => ?_⟩
      · dsimp only at hb
        rw [hsent] at hb
        exact absurd hb List.not_mem_nil
      · obtain rfl := Option.some.inj hsigned
        exact hauthorized
    rw [SubmitCall.beginAttempt]
    split
    · exact hstate .connecting (by simp)
    · exact hstate _ (by simp)

theorem CallInv.attempt {call : Submission} (h : CallInv library platform config history call)
    {event : AttemptEvent} {state : SubmitState}
    (hnext : config.attemptNext call.payload call.state event = some state) :
    CallInv library platform config history { call with state := state } := by
  refine ⟨h.governs, h.payment, h.sends.attemptNext hnext, fun signed hsigned => ?_⟩
  apply h.authorized
  rw [← signed_attemptNext hnext]
  exact hsigned

/-- What an event can do to a session. -/
inductive Stepped (library : XrplLibrary) (platform : PayloadPlatform) (config : MultiSigConfig)
    (maxRecords : JsNumber) (s : Session) : SessionEvent → Session → Prop where
  | governance {call} : Stepped library platform config maxRecords s (.governance call)
      { s with store := s.store.call platform.toPlatform call }
  | connect : Stepped library platform config maxRecords s .connect
      (Session.push { s with client := true } .opening)
  | openFailed {i : ℕ} {error} : s.operations[i]? = some .opening →
      Stepped library platform config maxRecords s (.opened i (some error))
        (s.put i (.ended (some error)))
  | opened {i : ℕ} : s.operations[i]? = some .opening →
      Stepped library platform config maxRecords s (.opened i none)
        (Session.load { s with wallets := .empty } i config.signers)
  | loadFailed {i : ℕ} {signer rest secret error} :
      s.operations[i]? = some (.loading (signer :: rest)) →
      Session.isSecret signer secret = true →
      Session.loadWallet library signer secret = .error error →
      Stepped library platform config maxRecords s (.secret i secret)
        (s.put i (.ended (some error)))
  | loaded {i : ℕ} {signer rest secret wallet} :
      s.operations[i]? = some (.loading (signer :: rest)) →
      Session.isSecret signer secret = true →
      Session.loadWallet library signer secret = .ok wallet →
      Stepped library platform config maxRecords s (.secret i secret)
        (Session.load { s with wallets := s.wallets.set wallet.classicAddress wallet } i rest)
  | closing : s.client = true →
      Stepped library platform config maxRecords s .disconnect (s.push .closing)
  | dropped : s.client = false → Stepped library platform config maxRecords s .disconnect
      (Session.push { s with wallets := .empty } (.ended none))
  | closeFailed {i : ℕ} {error} : s.operations[i]? = some .closing →
      Stepped library platform config maxRecords s (.closed i (some error))
        (s.put i (.ended (some error)))
  | closed {i : ℕ} : s.operations[i]? = some .closing →
      Stepped library platform config maxRecords s (.closed i none)
        (Session.put { s with client := false, wallets := .empty } i (.ended none))
  | refused {payload : AttestationPayload} {error} :
      s.submission library platform config payload = .error error →
      Stepped library platform config maxRecords s (.submit payload)
        (s.push (.ended (some error)))
  | submitted {payload : AttestationPayload} {call} :
      s.submission library platform config payload = .ok call →
      Stepped library platform config maxRecords s (.submit payload) (s.push (.submission call))
  | autofilled {i : ℕ} {call prepared now} : s.operations[i]? = some (.submission call) →
      call.state.phase = .preparing →
      Stepped library platform config maxRecords s (.autofilled i prepared now) (s.put i
        (.submission { call with state := s.prepare library platform config call prepared now }))
  | attempted {i : ℕ} {call event state} : s.operations[i]? = some (.submission call) →
      config.attemptNext call.payload call.state event = some state →
      Stepped library platform config maxRecords s (.attempt i event)
        ((s.put i (.submission { call with state := state })).retain maxRecords call.state.phase
          state.phase)

theorem stepped_of_next {event : SessionEvent}
    (h : s.next library platform config maxRecords event = some s') :
    Stepped library platform config maxRecords s event s' := by
  cases event with
  | governance call =>
    cases h
    exact .governance
  | connect =>
    cases h
    exact .connect
  | opened j error =>
    dsimp only [Session.next] at h
    split at h
    · rename_i hget
      exact Option.some.inj h ▸ .openFailed hget
    · rename_i hget
      exact Option.some.inj h ▸ .opened hget
    · cases h
  | secret j secret =>
    dsimp only [Session.next] at h
    split at h
    · rename_i signer rest hget
      split_ifs at h with hsecret
      split at h
      · rename_i hwallet
        exact Option.some.inj h ▸ .loadFailed hget hsecret hwallet
      · rename_i hwallet
        exact Option.some.inj h ▸ .loaded hget hsecret hwallet
    · cases h
  | disconnect =>
    rw [Session.next] at h
    split_ifs at h with hclient
    · exact Option.some.inj h ▸ .closing hclient
    · exact Option.some.inj h ▸ .dropped (Bool.eq_false_iff.mpr hclient)
  | closed j error =>
    dsimp only [Session.next] at h
    split at h
    · rename_i hget
      exact Option.some.inj h ▸ .closeFailed hget
    · rename_i hget
      exact Option.some.inj h ▸ .closed hget
    · cases h
  | submit payload =>
    dsimp only [Session.next] at h
    split at h
    · rename_i hcall
      exact Option.some.inj h ▸ .refused hcall
    · rename_i hcall
      exact Option.some.inj h ▸ .submitted hcall
  | autofilled j prepared now =>
    dsimp only [Session.next] at h
    split at h
    · rename_i hget
      split at h
      · rename_i hphase
        exact Option.some.inj h ▸ .autofilled hget hphase
      · cases h
    · cases h
  | attempt j event =>
    dsimp only [Session.next] at h
    split at h
    · rename_i hget
      obtain ⟨state, hstate, rfl⟩ := Option.map_eq_some_iff.mp h
      exact .attempted hget hstate
    · cases h

theorem Session.Inv.next (h : s.Inv library platform config) {event : SessionEvent}
    (hfilling : Filling s event)
    (hnext : s.next library platform config maxRecords event = some s') :
    s'.Inv library platform config := by
  cases stepped_of_next hnext with
  | @governance call =>
    obtain ⟨createdAt, hfollows⟩ := h.store
    exact ⟨⟨createdAt, hfollows.call call⟩, h.wallets, fun operation hoperation =>
      (h.operations operation hoperation).mono (GovernanceStore.events_call_extends _ call)⟩
  | connect =>
    have hopen : Session.Inv library platform config { s with client := true } :=
      ⟨h.store, h.wallets, h.operations⟩
    exact hopen.push trivial
  | openFailed => exact h.put trivial
  | opened => exact h.forget.load fun _ hsigner => hsigner
  | loadFailed => exact h.put trivial
  | @loaded j signer rest secret wallet hget hsecret hwallet =>
    have hloading : ∀ x ∈ signer :: rest, x ∈ config.signers := h.at hget
    have hconfigured := configured_of_loadWallet (hloading signer (.head _)) hsecret hwallet
    have hheld : Session.Inv library platform config
        { s with wallets := s.wallets.set wallet.classicAddress wallet } :=
      ⟨h.store, JsMap.forall_set h.wallets ⟨rfl, hconfigured⟩, h.operations⟩
    exact hheld.load fun x hx => hloading x (.tail _ hx)
  | closing => exact h.push trivial
  | dropped => exact h.forget.push trivial
  | closeFailed => exact h.put trivial
  | closed =>
    have hclosed : Session.Inv library platform config
        { s with client := false, wallets := .empty } :=
      ⟨h.store, holdsConfigured_empty, h.operations⟩
    exact hclosed.put trivial
  | refused => exact h.push trivial
  | submitted hcall => exact h.push (callInv_submission h hcall)
  | @autofilled j call prepared now hget hphase =>
    refine h.put (CallInv.prepare (h.at hget) h.wallets hphase fun tx htx => ?_)
    subst htx
    exact hfilling call hget
  | @attempted j call event state hget hstate =>
    have hattempt : Operation.Inv library platform config s.store.events
        (.submission { call with state := state }) := CallInv.attempt (h.at hget) hstate
    exact (h.put hattempt).retain

theorem Session.inv_of_reachable
    (h : (sessionSystem library platform config maxRecords).ReachableVia Filling s) :
    s.Inv library platform config := by
  refine h.invariant ?_ fun s event s' hs hfilling hnext => hs.next hfilling hnext
  rintro t ⟨createdAt, rfl⟩
  refine ⟨⟨createdAt, GovernanceStore.follows_new createdAt⟩, holdsConfigured_empty,
    fun op hop => ?_⟩
  exact absurd hop List.not_mem_nil

/-- Whatever calls are under way at once and whatever they see, a submission sends one blob only,
which the wallets of configured signers have signed up to the quorum of a policy that the store of
the session has had. -/
theorem submission_authorized
    (h : (sessionSystem library platform config maxRecords).ReachableVia Filling s)
    {call : Submission} (hcall : .submission call ∈ s.operations) :
    Governs platform s.store.events call.policy ∧ ∀ blob ∈ call.state.sent, ∃ signed,
      call.state.signed = some signed ∧ blob = signed.txBlob ∧
      Authorized library platform config call.payload call.policy signed := by
  have hcallInv : CallInv library platform config s.store.events call :=
    (Session.inv_of_reachable h).operations _ hcall
  refine ⟨hcallInv.governs, fun blob hblob => ?_⟩
  obtain ⟨signed, hsigned, heq⟩ := hcallInv.sends.blob blob hblob
  exact ⟨signed, hsigned, heq, hcallInv.authorized signed hsigned⟩

/-! ## Records -/

/-- A record that is kept is the one that a submission has returned. -/
def Session.RecordsReturned (s : Session) : Prop :=
  ∀ r ∈ s.records, ∃ call, .submission call ∈ s.operations ∧ call.state.phase = .returned r

theorem Session.RecordsReturned.push (h : s.RecordsReturned) (operation : Operation) :
    (s.push operation).RecordsReturned := by
  intro r hr
  obtain ⟨call, hcall, hphase⟩ := h r hr
  exact ⟨call, List.mem_append_left _ hcall, hphase⟩

theorem mem_set_of_mem {α : Type} {l : List α} {a b old : α} (hget : l[i]? = some old)
    (hmem : a ∈ l) : a ∈ l.set i b ∨ a = old := by
  obtain ⟨j, hj, rfl⟩ := List.mem_iff_getElem.mp hmem
  by_cases hij : i = j
  · subst hij
    rw [List.getElem?_eq_getElem hj] at hget
    exact .inr (Option.some.inj hget)
  · refine .inl (List.mem_iff_getElem.mpr ⟨j, by rwa [List.length_set], ?_⟩)
    rw [List.getElem_set_of_ne hij]

/-- An operation that has returned no record is replaced. -/
theorem Session.RecordsReturned.put (h : s.RecordsReturned) {old operation : Operation}
    (hget : s.operations[i]? = some old)
    (hold : ∀ call r, old = .submission call → call.state.phase = .returned r →
      ∃ call', operation = .submission call' ∧ call'.state.phase = .returned r) :
    (s.put i operation).RecordsReturned := by
  intro r hr
  obtain ⟨call, hcall, hphase⟩ := h r hr
  have hi : i < s.operations.length := (List.getElem?_eq_some_iff.mp hget).1
  rcases mem_set_of_mem hget hcall with hkept | heq
  · exact ⟨call, hkept, hphase⟩
  · obtain ⟨call', hnew, hphase'⟩ := hold call r heq.symm hphase
    exact ⟨call', hnew ▸ List.mem_set hi _, hphase'⟩

theorem Session.RecordsReturned.load (h : s.RecordsReturned) {old : Operation}
    {signers : List SignerConfig} (hget : s.operations[i]? = some old)
    (hold : ∀ call, old ≠ .submission call) : (s.load i signers).RecordsReturned := by
  rw [Session.load]
  exact h.put hget fun call r heq => absurd heq (hold call)

theorem Session.RecordsReturned.retain (h : s.RecordsReturned) {before after : SubmitPhase}
    {call : Submission} (hcall : .submission call ∈ s.operations)
    (hphase : call.state.phase = after) :
    (s.retain maxRecords before after).RecordsReturned := by
  unfold Session.retain
  split
  · exact h
  · rw [Session.retainRecord]
    split
    · exact h
    · intro r hr
      rcases List.mem_append.mp ((evict_suffix _ _).subset hr) with hr | hr
      · exact h r hr
      · rw [List.mem_singleton.mp hr]
        exact ⟨call, hcall, hphase⟩
  · exact h

theorem Session.RecordsReturned.next (h : s.RecordsReturned) {event : SessionEvent}
    (hnext : s.next library platform config maxRecords event = some s') :
    s'.RecordsReturned := by
  cases stepped_of_next hnext with
  | governance => exact h
  | connect => exact Session.RecordsReturned.push (s := { s with client := true }) h _
  | openFailed hget => exact h.put hget (by simp)
  | opened hget =>
    exact Session.RecordsReturned.load (s := { s with wallets := .empty }) h hget (by simp)
  | loadFailed hget => exact h.put hget (by simp)
  | @loaded j signer rest secret wallet hget =>
    exact Session.RecordsReturned.load
      (s := { s with wallets := s.wallets.set wallet.classicAddress wallet }) h hget (by simp)
  | closing => exact h.push _
  | dropped => exact Session.RecordsReturned.push (s := { s with wallets := .empty }) h _
  | closeFailed hget => exact h.put hget (by simp)
  | closed hget =>
    exact Session.RecordsReturned.put (s := { s with client := false, wallets := .empty }) h hget
      (by simp)
  | refused => exact h.push _
  | submitted => exact h.push _
  | autofilled hget hphase =>
    -- a call that is prepared has returned nothing yet
    refine h.put hget fun call' r heq hreturned => ?_
    obtain rfl := Operation.submission.inj heq
    rw [hphase] at hreturned
    cases hreturned
  | @attempted j call event state hget hstate =>
    have hj : j < s.operations.length := (List.getElem?_eq_some_iff.mp hget).1
    refine Session.RecordsReturned.retain (h.put hget fun call' r heq hreturned => ?_)
      (List.mem_set hj _) rfl
    obtain rfl := Operation.submission.inj heq
    exact ⟨_, rfl, returned_attemptNext hreturned hstate⟩

/-- What holds of every submission of a session. -/
def Session.EveryCall (P : Submission → Prop) (s : Session) : Prop :=
  ∀ call, .submission call ∈ s.operations → P call

section EveryCall

variable {P : Submission → Prop}

theorem Session.EveryCall.push (h : s.EveryCall P) {operation : Operation}
    (hoperation : ∀ call, operation = .submission call → P call) :
    (s.push operation).EveryCall P := by
  intro call hcall
  rcases List.mem_append.mp hcall with hcall | hcall
  · exact h call hcall
  · exact hoperation call (List.mem_singleton.mp hcall).symm

theorem Session.EveryCall.put (h : s.EveryCall P) {operation : Operation}
    (hoperation : ∀ call, operation = .submission call → P call) :
    (s.put i operation).EveryCall P := by
  intro call hcall
  rcases List.mem_or_eq_of_mem_set hcall with hcall | rfl
  · exact h call hcall
  · exact hoperation call rfl

theorem Session.EveryCall.load (h : s.EveryCall P) {signers : List SignerConfig} :
    (s.load i signers).EveryCall P := by
  refine Session.EveryCall.put h fun call hcall => ?_
  split at hcall <;> cases hcall

theorem Session.EveryCall.retain (h : s.EveryCall P) {before after : SubmitPhase} :
    (s.retain maxRecords before after).EveryCall P := by
  unfold Session.retain
  split
  · exact h
  · rw [Session.retainRecord]
    split <;> exact h
  · exact h

/-- What holds of a submission as it begins, and is kept as it is prepared and attempted, holds of
every submission. -/
theorem Session.EveryCall.next (h : s.EveryCall P) {event : SessionEvent}
    (hsubmitted : ∀ payload call,
      s.submission library platform config payload = .ok call → P call)
    (hprepared : ∀ call prepared now, P call → call.state.phase = .preparing →
      P { call with state := s.prepare library platform config call prepared now })
    (hattempted : ∀ j call e state, event = .attempt j e →
      s.operations[j]? = some (.submission call) →
      config.attemptNext call.payload call.state e = some state → P call →
      P { call with state := state })
    (hnext : s.next library platform config maxRecords event = some s') : s'.EveryCall P := by
  cases stepped_of_next hnext with
  | governance => exact h
  | connect => exact Session.EveryCall.push (s := { s with client := true }) h (by simp)
  | openFailed => exact h.put (by simp)
  | opened => exact Session.EveryCall.load (s := { s with wallets := .empty }) h
  | loadFailed => exact h.put (by simp)
  | @loaded j signer rest secret wallet =>
    exact Session.EveryCall.load
      (s := { s with wallets := s.wallets.set wallet.classicAddress wallet }) h
  | closing => exact h.push (by simp)
  | dropped => exact Session.EveryCall.push (s := { s with wallets := .empty }) h (by simp)
  | closeFailed => exact h.put (by simp)
  | closed =>
    exact Session.EveryCall.put (s := { s with client := false, wallets := .empty }) h (by simp)
  | refused => exact h.push (by simp)
  | submitted hcall =>
    refine h.push fun call heq => ?_
    obtain rfl := Operation.submission.inj heq
    exact hsubmitted _ _ hcall
  | autofilled hget hphase =>
    refine h.put fun call heq => ?_
    obtain rfl := Operation.submission.inj heq
    exact hprepared _ _ _ (h _ (List.mem_of_getElem? hget)) hphase
  | attempted hget hstate =>
    refine (h.put fun call heq => ?_).retain
    obtain rfl := Operation.submission.inj heq
    exact hattempted _ _ _ _ rfl hget hstate (h _ (List.mem_of_getElem? hget))

end EveryCall

/-- The record of a submission names the transaction that was signed. -/
def Submission.Named (call : Submission) : Prop :=
  ∀ r, call.state.phase = .returned r →
    ∃ signed, call.state.signed = some signed ∧ r.txHash = signed.hash

theorem Submission.Named.attempt {call : Submission} (h : call.Named) {event : AttemptEvent}
    {state : SubmitState}
    (hnames : ∀ response hash now signed, event = .answered response (some hash) now →
      call.state.signed = some signed → hash = signed.hash)
    (hnext : config.attemptNext call.payload call.state event = some state) :
    Submission.Named { call with state := state } := by
  have hfailed : ∀ error, Submission.Named
      { call with state := (config.call call.payload).attemptFailed call.state error } := by
    intro error r hr
    rcases (SubmitCall.afterFailure_attemptFailed (c := config.call call.payload) call.state
      error).phase with hconnecting | ⟨failure, hthrown, -⟩
    · cases hconnecting.symm.trans hr
    · cases hthrown.symm.trans hr
  cases attempted_of_attemptNext hnext with
  | validate => exact h
  | connected =>
    intro r hr
    cases hr
  | reconnectFailed => exact hfailed _
  | @lookedUp signed answer now applies hphase hsigned =>
    intro r hr
    cases answer with
    | validated ledgerIndex =>
      cases hr
      exact ⟨signed, hsigned, rfl⟩
    | notValidated => cases hr
    | error => cases hr
  | @answered signed response hash now hphase hsigned =>
    intro r hr
    cases hr
    refine ⟨signed, hsigned, ?_⟩
    cases hash with
    | none => rfl
    | some hash => exact hnames response hash now signed rfl hsigned
  | lost => exact hfailed _
  | timedOut => exact hfailed _

theorem named_of_reachable
    (h : (sessionSystem library platform config maxRecords).ReachableVia Trusted s) :
    s.EveryCall Submission.Named := by
  refine h.invariant ?_ fun s event s' hs hok hnext => hs.next ?_ ?_ ?_ hnext
  · rintro t ⟨createdAt, rfl⟩ call hcall
    exact absurd hcall List.not_mem_nil
  · intro payload call hcall r hr
    rw [state_submission hcall] at hr
    cases hr
  · intro call prepared now hcall hphase r hr
    rw [Session.prepare] at hr
    split at hr
    · cases hr
    · rw [SubmitCall.beginAttempt] at hr
      split at hr <;> cases hr
  · rintro j call e state rfl hget hstate hcall
    refine hcall.attempt ?_ hstate
    rintro response hash now signed rfl hsigned
    exact hok.2 call signed hget hsigned

/-- Every record that a session keeps is of a payload that was submitted, and names a transaction
that was sent, is validated, and was authorized by a policy that the store of the session has had.
-/
theorem record_authorized
    (h : (sessionSystem library platform config maxRecords).ReachableVia Trusted s)
    {record : WitnessRecord} (hrecord : record ∈ s.records) :
    ∃ call signed, .submission call ∈ s.operations ∧ call.payload = record.payload ∧
      record.txHash = signed.hash ∧ signed.txBlob ∈ call.state.sent ∧
      call.state.validated = true ∧ Governs platform s.store.events call.policy ∧
      Authorized library platform config record.payload call.policy signed := by
  have hreturned : s.RecordsReturned := by
    refine h.invariant ?_ fun s event s' hs _ hnext => hs.next hnext
    rintro t ⟨createdAt, rfl⟩ r hr
    exact absurd hr List.not_mem_nil
  obtain ⟨call, hcall, hphase⟩ := hreturned record hrecord
  have hcallInv : CallInv library platform config s.store.events call :=
    (Session.inv_of_reachable (h.mono fun _ _ hok => hok.1)).operations _ hcall
  obtain ⟨hpayload, hvalidated⟩ := hcallInv.sends.record record hphase
  obtain ⟨signed, hsigned, hhash⟩ := named_of_reachable h call hcall record hphase
  -- what is validated was applied, and so it was sent
  obtain ⟨blob, hblob⟩ := List.exists_mem_of_ne_nil _
    (hcallInv.sends.applied (hcallInv.sends.validated hvalidated))
  obtain ⟨other, hother, rfl⟩ := hcallInv.sends.blob blob hblob
  obtain rfl := Option.some.inj (hother.symm.trans hsigned)
  exact ⟨call, other, hcall, hpayload.symm, hhash, hblob, hvalidated, hcallInv.governs,
    hpayload ▸ hcallInv.authorized other hsigned⟩

end

/-! ## A session of one signer -/

def signerKey : JsString := js "00A1"

def signerPlatform : PayloadPlatform where
  toPlatform := { jcsPlatform with
    deriveAddress := fun publicKey =>
      if publicKey = js "ED0A" then .ok (js "rSigner") else .error (js "invalid_key") }
  canonicalizeContent := jcsPayloadPlatform.canonicalizeContent
  canonicalizeSigning := jcsPayloadPlatform.canonicalizeSigning

/-- A signature is the message behind the key, and a blob is the account of the transaction. -/
def signerLibrary : XrplLibrary where
  fromSeed seed :=
    if seed = js "sSigner" then .ok ⟨js "rSigner", signerKey⟩
    else .error (.error (js "invalid_input_size"))
  sign _ tx := .ok ⟨tx.account, js "A0"⟩
  decode blob := .ok (some blob)
  multisign blobs :=
    match blobs with
    | [] => .error (.error (js "There were 0 transactions to multisign"))
    | blob :: _ => .ok (js "12" ++ blob)
  hashSignedTx _ := .ok (js "C0")
  rippleSign message privateKey := .ok (privateKey ++ message)
  verifySignature message signature publicKey :=
    .ok (publicKey = js "ED0A" ∧ signature = signerKey ++ message)
  errorText error := error.detail
  canonicalizerError _ := .error (js "not canonical")

def signerConfig : MultiSigConfig where
  chainId := js "xrpl:testnet"
  account := js "rMaster"
  signers := [⟨js "rSigner", .text (js "sSigner")⟩]
  feeDrops := none
  submitTimeoutMs := .finite 60000
  maxAttempts := .finite 3

abbrev signerSystem : System Session SessionEvent :=
  sessionSystem signerLibrary signerPlatform signerConfig (.finite 10)

def connectEvents : List SessionEvent :=
  [.governance (.addSigner (js "rSigner") (js "Signer") none (some (js "ED0A")) (js "t")), .connect,
    .opened 0 none, .secret 0 (.ok (js "sSigner"))]

def signerSession : Session where
  store := (GovernanceStore.new (js "t")).call signerPlatform.toPlatform
    (.addSigner (js "rSigner") (js "Signer") none (some (js "ED0A")) (js "t"))
  client := true
  wallets := JsMap.empty.set (js "rSigner") ⟨js "rSigner", signerKey⟩
  operations := [.ended none]
  records := []

def filled (payment : Payment) : PreparedTx := ⟨payment, .finite 1, .finite 20⟩

/-- The blob is sent, and the ledger validates it. -/
def acceptedEvents : List SessionEvent :=
  [.attempt 1 .connected, .attempt 1 (.lookedUp .notValidated (js "now") true),
    .attempt 1 .validate]

theorem next_submit {library : XrplLibrary} {platform : PayloadPlatform} {config : MultiSigConfig}
    {maxRecords : JsNumber} {s : Session} {payload : AttestationPayload} {call : Submission}
    (h : s.submission library platform config payload = .ok call) :
    (sessionSystem library platform config maxRecords).next s (.submit payload) =
      some (s.push (.submission call)) := by
  dsimp only [sessionSystem, Session.next]
  rw [h]

theorem next_attempt {library : XrplLibrary} {platform : PayloadPlatform} {config : MultiSigConfig}
    {maxRecords : JsNumber} {s : Session} {i : ℕ} {call : Submission} {event : AttemptEvent}
    {state : SubmitState} (hget : s.operations[i]? = some (.submission call))
    (h : config.attemptNext call.payload call.state event = some state) :
    (sessionSystem library platform config maxRecords).next s (.attempt i event) =
      some ((s.put i (.submission { call with state := state })).retain maxRecords
        call.state.phase state.phase) := by
  dsimp only [sessionSystem, Session.next]
  rw [hget]
  exact congrArg (Option.map _) h

theorem prepare_eq_of_buildMultiSign {library : XrplLibrary} {platform : PayloadPlatform}
    {config : MultiSigConfig} {s : Session} {call : Submission} {tx : PreparedTx} {now : JsString}
    {r : MultiSignResult}
    (h : buildMultiSign library platform call.payload call.policy tx s.wallets now = .ok r)
    (hattempts : (JsNumber.finite call.state.attempt).lt config.maxAttempts = true) :
    s.prepare library platform config call (.ok tx) now =
      { call.state with phase := .connecting, signed := some ⟨r.combinedBlob, r.txHash⟩ } := by
  have hprepared : ((Except.ok tx : Except Thrown PreparedTx).bind fun tx =>
      buildMultiSign library platform call.payload call.policy tx s.wallets now) = .ok r := h
  rw [Session.prepare, hprepared]
  exact if_pos hattempts

/-- The session while its call is in a state. -/
def signerSessionAt (call : Submission) (state : SubmitState) : Session :=
  signerSession.push (.submission { call with state := state })

/-- The state behind the connection, and that behind the validation. -/
def connectingState (signed : Signed) : SubmitState :=
  ⟨.connecting, some signed, 0, [], 0, false, false⟩

def validatedState (signed : Signed) : SubmitState :=
  ⟨.waiting, some signed, 0, [signed.txBlob], 1, true, true⟩

def signerRecord (payload : AttestationPayload) (signed : Signed) : WitnessRecord :=
  signerConfig.record payload signed.hash (.finite 0) (js "now")

def returnedState (payload : AttestationPayload) (signed : Signed) : SubmitState :=
  { validatedState signed with phase := .returned (signerRecord payload signed) }

theorem retain_eq_of_records_nil {s : Session} {record : WitnessRecord} (hs : s.records = []) :
    s.retain (.finite 10) .waiting (.returned record) = { s with records := [record] } := by
  have hpositive : (JsNumber.finite 10).le (.finite 0) = false := by decide +kernel
  have hroom : (JsNumber.finite 10).lt (.finite (([] : List WitnessRecord).length + 1 : ℕ)) =
      false := by decide +kernel
  show s.retainRecord (.finite 10) record = _
  rw [Session.retainRecord, hpositive, hs]
  show { s with records := evict _ [record] } = _
  rw [evict, hroom]
  rfl

theorem reachableVia_signerSession : signerSystem.ReachableVia Trusted signerSession := by
  have hrun : signerSystem.run (.new (js "t")) connectEvents = some signerSession := rfl
  refine System.ReachableVia.run (.init ⟨js "t", rfl⟩) ?_ hrun
  intro e he s
  simp only [connectEvents, List.mem_cons, List.not_mem_nil, or_false] at he
  rcases he with rfl | rfl | rfl | rfl <;> exact ⟨trivial, trivial⟩

def signerEntry : SignerEntry := ⟨js "rSigner", js "Signer", .finite 1, js "t", some (js "ED0A")⟩

def signerPolicy (id : JsString) : GovernancePolicy := ⟨id, 1, [signerEntry], .finite 1, js "t"⟩

/-- The signature of the one signer verifies, whatever it has signed. -/
theorem keyVerifies_signer (payloadHash now : JsString) :
    keyVerifies signerLibrary signerPlatform.toPlatform
      ⟨js "rSigner", signerKey ++ encodePayloadHashForSigning payloadHash, now⟩ payloadHash
      signerEntry = true := by
  have hkey : js "ED0A" ≠ [] := by decide +kernel
  have hderives : signerPlatform.deriveAddress (js "ED0A") = .ok (js "rSigner") := by
    dsimp only [signerPlatform]
    rw [if_pos rfl]
  rw [keyVerifies, signerEntry]
  dsimp only
  rw [if_neg hkey, hderives]
  simp [signerLibrary]

theorem collect_signer (payment : Payment) (payloadHash now : JsString) :
    signerSession.wallets.entries.foldlM
      (collect signerLibrary (filled payment) payloadHash now) ⟨none, [], []⟩ =
      .ok ⟨some (js "A0"), [payment.account],
        [⟨js "rSigner", signerKey ++ encodePayloadHashForSigning payloadHash, now⟩]⟩ := by
  have hblob : checkBlob signerLibrary (filled payment) (js "rSigner") payment.account = .ok () :=
    checkBlob_eq_ok.mpr rfl
  have hcollect : collect signerLibrary (filled payment) payloadHash now ⟨none, [], []⟩
      (js "rSigner", ⟨js "rSigner", signerKey⟩) = .ok ⟨some (js "A0"), [payment.account],
        [⟨js "rSigner", signerKey ++ encodePayloadHashForSigning payloadHash, now⟩]⟩ := by
    refine bind_eq_ok.mpr ⟨_, rfl, bind_unit_eq_ok.mpr ⟨?_, bind_unit_eq_ok.mpr ⟨hblob, ?_⟩⟩⟩
    · rw [throwIf_eq_ok, not_not]
      rfl
    · rfl
  exact bind_eq_ok.mpr ⟨_, hcollect, rfl⟩

theorem exists_aggregate_signer (id payloadHash now : JsString) :
    ∃ r, aggregateSignatures signerPlatform.toPlatform
      [⟨js "rSigner", signerKey ++ encodePayloadHashForSigning payloadHash, now⟩]
      (signerPolicy id) payloadHash
      (some (xrplSignatureVerifier signerLibrary signerPlatform.toPlatform)) now = .ok r := by
  have hquorum : (!(JsNumber.finite 1).le ((JsNumber.finite 0).add (.finite 1))) = false := by
    decide +kernel
  have hget : (signerByAddress (signerPolicy id)).get? (js "rSigner") = some signerEntry := rfl
  refine ⟨_, bind_unit_eq_ok.mpr ⟨?_, bind_unit_eq_ok.mpr ⟨rfl, bind_unit_eq_ok.mpr ⟨rfl,
    bind_eq_ok.mpr ⟨⟨(JsNumber.finite 0).add (.finite 1), [js "rSigner"]⟩, ?_,
      bind_unit_eq_ok.mpr ⟨?_, rfl⟩⟩⟩⟩⟩⟩
  · rw [throwIf_eq_ok, not_not]
    exact List.nodup_singleton _
  · rw [List.foldlM_cons, countSignature]
    dsimp only
    rw [hget]
    dsimp only
    rw [xrplSignatureVerifier, keyVerifies_signer]
    rfl
  · rw [throwIf_eq_ok]
    exact Bool.eq_false_iff.mp hquorum

theorem exists_buildMultiSign_signer {payload : AttestationPayload} (id : JsString)
    (payment : Payment) (now : JsString)
    (hcanonical : (signerPlatform.canonicalizeSigning
      (signingPayload signerPlatform payload (signerPolicy id))).isOk = true) :
    ∃ r, buildMultiSign signerLibrary signerPlatform payload (signerPolicy id) (filled payment)
      signerSession.wallets now = .ok r := by
  obtain ⟨canonical, hcanonical⟩ := exists_eq_ok_of_isOk hcanonical
  have hhash : buildCanonicalSigningPayload signerPlatform payload (signerPolicy id) =
      .ok (Verify.sha256Hex canonical) := bind_eq_ok.mpr ⟨canonical, hcanonical, rfl⟩
  obtain ⟨aggregated, haggregated⟩ :=
    exists_aggregate_signer id (Verify.sha256Hex canonical) now
  refine ⟨_, bind_eq_ok.mpr ⟨_, mapError_eq_ok.mpr hhash, bind_eq_ok.mpr ⟨_,
    collect_signer payment _ now, bind_eq_ok.mpr ⟨aggregated,
      mapError_eq_ok.mpr haggregated, rfl⟩⟩⟩⟩

theorem policy_of_submission {payload : AttestationPayload} {call : Submission}
    (h : signerSession.submission signerLibrary signerPlatform signerConfig payload = .ok call) :
    ∃ id, call.policy = signerPolicy id ∧ call.payload = payload := by
  obtain ⟨policy, hpolicy, h⟩ := bind_eq_ok.mp h
  obtain ⟨json, -, hpolicy⟩ := bind_eq_ok.mp (mapError_eq_ok.mp hpolicy)
  obtain ⟨-, h⟩ := bind_unit_eq_ok.mp h
  obtain ⟨memo, -, h⟩ := bind_eq_ok.mp h
  obtain rfl := Except.ok.inj h
  exact ⟨_, (Except.ok.inj hpolicy).symm, rfl⟩

theorem exists_record_signerSession : ∃ s call record,
    signerSystem.ReachableVia Trusted s ∧
      .submission call ∈ s.operations ∧ call.state.sent ≠ [] ∧ record ∈ s.records := by
  obtain ⟨call, hcall⟩ := exists_eq_ok_of_isOk (x := signerSession.submission signerLibrary
    signerPlatform signerConfig (attestationOf (js "h"))) (by decide +kernel)
  obtain ⟨r, hr⟩ : ∃ r, buildMultiSign signerLibrary signerPlatform call.payload call.policy
      (filled call.payment) signerSession.wallets (js "now") = .ok r := by
    obtain ⟨id, hpolicy, hpayload⟩ := policy_of_submission hcall
    rw [hpolicy, hpayload]
    exact exists_buildMultiSign_signer id call.payment (js "now") rfl
  have hstate : call.state = SubmitCall.init := state_submission hcall
  have hsubmitted : signerSystem.ReachableVia Trusted (signerSessionAt call call.state) := by
    have htrusted : Trusted signerSession (.submit (attestationOf (js "h"))) := ⟨trivial, trivial⟩
    have hat : signerSessionAt call call.state = signerSession.push (.submission call) := rfl
    rw [hat]
    exact reachableVia_signerSession.step htrusted (next_submit hcall)
  have hsigned : signerSystem.ReachableVia Trusted
        (signerSessionAt call (connectingState ⟨r.combinedBlob, r.txHash⟩)) := by
    refine hsubmitted.step (e := .autofilled 1 (.ok (filled call.payment)) (js "now")) ?_ ?_
    · refine ⟨fun call' hcall' => ?_, trivial⟩
      obtain rfl := Operation.submission.inj (Option.some.inj hcall')
      exact ⟨rfl, rfl, rfl, rfl, fun _ h => h⟩
    · have hattempts : (JsNumber.finite call.state.attempt).lt signerConfig.maxAttempts = true := by
        rw [hstate]
        decide +kernel
      have hprepare :=
        prepare_eq_of_buildMultiSign (s := signerSessionAt call call.state) hr hattempts
      show (match call.state.phase with
        | .preparing => some (signerSessionAt call _)
        | _ => none) = _
      rw [hprepare, hstate]
      rfl
  have hvalidated : signerSystem.ReachableVia Trusted
        (signerSessionAt call (validatedState ⟨r.combinedBlob, r.txHash⟩)) := by
    have hrun : signerSystem.run (signerSessionAt call (connectingState ⟨r.combinedBlob, r.txHash⟩))
        acceptedEvents =
          some (signerSessionAt call (validatedState ⟨r.combinedBlob, r.txHash⟩)) := rfl
    refine hsigned.run ?_ hrun
    intro e he s
    simp only [acceptedEvents, List.mem_cons, List.not_mem_nil, or_false] at he
    rcases he with rfl | rfl | rfl <;> exact ⟨trivial, trivial⟩
  generalize hblob : (⟨r.combinedBlob, r.txHash⟩ : Signed) = signed at hvalidated
  have hreturned : signerSystem.ReachableVia Trusted
        { signerSessionAt call (returnedState call.payload signed) with
          records := [signerRecord call.payload signed] } := by
    have htrusted : Trusted (signerSessionAt call (validatedState signed))
        (.attempt 1 (.answered ⟨none, none⟩ (some signed.hash) (js "now"))) := by
      refine ⟨trivial, fun call' signed' hget hsigned => ?_⟩
      obtain rfl := Operation.submission.inj (Option.some.inj hget)
      exact congrArg Signed.hash (Option.some.inj hsigned)
    have hnext : signerConfig.attemptNext call.payload (validatedState signed)
        (.answered ⟨none, none⟩ (some signed.hash) (js "now")) =
          some (returnedState call.payload signed) := rfl
    refine hvalidated.step htrusted ((next_attempt rfl hnext).trans (congrArg some ?_))
    exact retain_eq_of_records_nil
      (s := signerSessionAt call (returnedState call.payload signed)) rfl
  exact ⟨_, _, _, hreturned, .tail _ (.head _), List.cons_ne_nil _ _, .head _⟩

theorem submission_authorized_signerSession : ∃ s call,
    signerSystem.ReachableVia Filling s ∧
      .submission call ∈ s.operations ∧ call.state.sent ≠ [] ∧
      Governs signerPlatform s.store.events call.policy ∧ ∀ blob ∈ call.state.sent, ∃ signed,
        call.state.signed = some signed ∧ blob = signed.txBlob ∧
        Authorized signerLibrary signerPlatform signerConfig call.payload call.policy signed := by
  obtain ⟨s, call, -, hs, hcall, hsent, -⟩ := exists_record_signerSession
  have hfilling := hs.mono fun _ _ htrusted => htrusted.1
  exact ⟨s, call, hfilling, hcall, hsent, submission_authorized hfilling hcall⟩

theorem record_authorized_signerSession : ∃ s record,
    signerSystem.ReachableVia Trusted s ∧
      record ∈ s.records ∧ ∃ call signed, .submission call ∈ s.operations ∧
      call.payload = record.payload ∧ record.txHash = signed.hash ∧
      signed.txBlob ∈ call.state.sent ∧ call.state.validated = true ∧
      Governs signerPlatform s.store.events call.policy ∧
      Authorized signerLibrary signerPlatform signerConfig record.payload call.policy signed := by
  obtain ⟨s, -, record, hs, -, -, hrecord⟩ := exists_record_signerSession
  exact ⟨s, record, hs, hrecord, record_authorized hs hrecord⟩

end Attestia.Witness
