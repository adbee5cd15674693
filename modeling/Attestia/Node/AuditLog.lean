import Attestia.Node.ExecuteIntent
import Attestia.Node.RestoreAll
import Attestia.Treasury.Acceptance
import Attestia.Treasury.Steps
import Attestia.Vault.Acceptance
import Attestia.Witness.GovernanceHistory
import Attestia.Witness.PolicyJson

/-!
# The audit log of a service

A delegator of a persistent service appends its event, calls its subsystem and takes a snapshot.
Each of the three can throw, and nothing takes back what the steps before it have done.
-/

namespace Attestia.Node

open Lib Lib.Effect JsonNumber Ledger Treasury Vault Witness

/-! ## Faults -/

inductive GovernanceConflictCode where
  | signerExists
  | signerNotFound
  | invalidQuorum
  | governanceConflict
  deriving DecidableEq

/-- What a delegator throws. -/
inductive DelegatorFault where
  | vault (fault : VaultFault)
  | payroll (error : ExecutionError PayrollError)
  | distribution (error : ExecutionError DistributionFault)
  | funding (error : ExecutionError FundingError)
  | governance (code : GovernanceConflictCode) (message : JsString)
  | policy (error : EventStore.JsError)
  | storage (message : JsString)

/-- The code of a fault of the governance store, by its text. -/
def asGovernanceError (platform : Platform) (fault : GovernanceStore.Fault) : DelegatorFault :=
  let message := fault.message platform
  let startsWith (text : String) : Bool := (js text).isPrefixOf message
  let code : GovernanceConflictCode :=
    if startsWith "Signer already exists" then .signerExists
    else if startsWith "Signer not found" then .signerNotFound
    else if startsWith "Quorum" || startsWith "Weight must be" ||
      message.tails.any (js "public key").isPrefixOf then .invalidQuorum
    else .governanceConflict
  .governance code message

/-! ## Events -/

inductive AuditPayload where
  | intentDeclared (intentId kind description declaredBy : JsString) (params : VaultIntentParams)
  | intentApproved (intentId approvedBy : JsString)
  | intentRejected (intentId rejectedBy reason : JsString)
  | intentExecuted (intentId correlationId : JsString)
  | intentVerified (intentId verifiedAt : JsString)
  | budgetAllocated (budgetId envelopeId amount currency : JsString)
  | payrollExecuted (runId : JsString) (recipientCount : ℕ) (totalAmount currency : JsString)
  | distributionExecuted (planId : JsString) (recipientCount : ℕ) (totalAmount currency : JsString)
  | fundingGateApproved (gateId approverId : JsString) (level : ℕ)
  | signerAdded (signerAddress addedBy : JsString) (newSignerCount : ℕ)
  | signerRemoved (signerAddress removedBy : JsString) (newSignerCount : ℕ)
  | quorumChanged (previousQuorum newQuorum : JsNumber) (changedBy : JsString)

/-- `ATTESTIA_EVENTS`. -/
def AuditPayload.type : AuditPayload → JsString
  | intentDeclared .. => js "vault.intent.declared"
  | intentApproved .. => js "vault.intent.approved"
  | intentRejected .. => js "vault.intent.rejected"
  | intentExecuted .. => js "vault.intent.executed"
  | intentVerified .. => js "vault.intent.verified"
  | budgetAllocated .. => js "vault.budget.allocated"
  | payrollExecuted .. => js "treasury.payroll.executed"
  | distributionExecuted .. => js "treasury.distribution.executed"
  | fundingGateApproved .. => js "treasury.funding-gate.approved"
  | signerAdded .. => js "governance.signer.added"
  | signerRemoved .. => js "governance.signer.removed"
  | quorumChanged .. => js "governance.quorum.changed"

inductive AuditStream where
  | vault
  | treasury
  | governance
  deriving DecidableEq

def AuditStream.streamId : AuditStream → JsString
  | vault => js "vault"
  | treasury => js "treasury"
  | governance => js "governance"

def streamSource : AuditStream → JsString
  | .vault => js "vault"
  | .treasury => js "treasury"
  | .governance => js "registrum"

structure AuditMetadata where
  eventId : JsString
  timestamp : JsString
  actor : JsString
  correlationId : JsString
  source : JsString

structure AuditEvent where
  streamId : JsString
  payload : AuditPayload
  metadata : AuditMetadata

/-! ## The service -/

/-- A persistent service with the events of its durable log. -/
structure AuditedService extends Subsystems where
  ownerId : JsString
  defaultCurrency : JsString
  /-- The position of the log in memory. -/
  globalPosition : ℕ
  events : List AuditEvent

/-- How an append ends; one that throws may have written its event. -/
inductive AppendEnd where
  | appended
  | failed (stored : Bool) (message : JsString)

/-- What a call meets: the clock, the log and the snapshot store, which has nothing to do where the
cadence asks for no snapshot. -/
structure AuditEnvironment where
  now : JsString
  append : AppendEnd
  snapshot : Except JsString Unit

namespace AuditedService

def auditEvent (s : AuditedService) (now : JsString) (stream : AuditStream)
    (payload : AuditPayload) : AuditEvent where
  streamId := stream.streamId
  payload := payload
  metadata :=
    { eventId := payload.type ++ js ":" ++ stream.streamId ++ js ":" ++
        EventStore.natString (s.globalPosition + 1)
      timestamp := now
      actor := s.ownerId
      correlationId := stream.streamId
      source := streamSource stream }

/-- `_audit`. -/
def audit (env : AuditEnvironment) (stream : AuditStream) (payload : AuditPayload) :
    Effect AuditedService DelegatorFault Unit := fun s =>
  let event := s.auditEvent env.now stream payload
  match env.append with
  | .appended =>
    (.ok (), { s with events := s.events ++ [event], globalPosition := s.globalPosition + 1 })
  | .failed stored message =>
    (.error (.storage message), if stored then { s with events := s.events ++ [event] } else s)

/-- A call of the subsystems. -/
def onSubsystems {α : Type} (x : Effect Subsystems DelegatorFault α) :
    Effect AuditedService DelegatorFault α :=
  zoom toSubsystems (fun subsystems s => { s with toSubsystems := subsystems }) x

/-- A mutation of the subsystems. -/
def mutate {α : Type} (env : AuditEnvironment) (stream : AuditStream) (payload : AuditPayload)
    (apply : Effect Subsystems DelegatorFault α) : Effect AuditedService DelegatorFault α :=
  Node.mutate (audit env stream payload) (check (env.snapshot.mapError .storage))
    (onSubsystems apply)

end AuditedService

/-! ## The delegators -/

inductive DelegatorResult where
  | intent (intent : VaultIntent)
  | envelope (envelope : Envelope)
  | run (run : PayrollRun)
  | distribution (result : DistributionResult)
  | request (request : FundingRequest)
  | policy (policy : GovernancePolicy)

/-- A delegator: the event that it appends, if any, from what it reads first, and the call of its
subsystem. -/
structure Delegator where
  event : AuditedService → Except DelegatorFault (Option (AuditStream × AuditPayload))
  apply : Effect Subsystems DelegatorFault DelegatorResult

namespace Delegator

def onVault {α : Type} (result : α → DelegatorResult)
    (call : Vault → Except VaultFault (Vault × α)) :
    Effect Subsystems DelegatorFault DelegatorResult := fun s =>
  match call s.vault with
  | .ok (vault, a) => (.ok (result a), { s with vault := vault })
  | .error fault => (.error (.vault fault), s)

/-- A call of the governance store, and the policy behind it. -/
def onGovernance (platform : Platform)
    (call : Effect GovernanceStore GovernanceStore.Fault GovernanceChangeEvent) :
    Effect Subsystems DelegatorFault DelegatorResult :=
  zoom Subsystems.governanceStore (fun g s => { s with governanceStore := g }) do
    let _ ← mapError (asGovernanceError platform) call
    let g ← get
    let policy ← check ((g.getCurrentPolicy platform).mapError .policy)
    return .policy policy

def onTreasury (call : Effect Treasury DelegatorFault DelegatorResult) :
    Effect Subsystems DelegatorFault DelegatorResult :=
  zoom Subsystems.treasury (fun treasury s => { s with treasury := treasury }) call

def declareIntent (id kind description : JsString) (params : VaultIntentParams)
    (envelopeId : Option JsString) (declaredAt : JsString) : Delegator where
  event s := .ok (some (.vault, .intentDeclared id kind description s.ownerId params))
  apply := onVault .intent fun v =>
    v.declareIntent id kind description params envelopeId declaredAt

def approveIntent (id : JsString) (reason : Option JsString) (approvedAt : JsString) :
    Delegator where
  event s := .ok (some (.vault, .intentApproved id s.ownerId))
  apply := onVault .intent fun v => v.approveIntent id reason approvedAt

def rejectIntent (id reason approvedAt : JsString) : Delegator where
  event s := .ok (some (.vault, .intentRejected id s.ownerId reason))
  apply := onVault .intent fun v => v.rejectIntent id reason approvedAt

/-- The intent is marked as executing first, in a call of its own. -/
def executeIntent (id chainId txHash executedAt : JsString) : Delegator where
  event _ := .ok (some (.vault, .intentExecuted id txHash))
  apply := do
    let _ ← onVault .intent fun v => v.markIntentExecuting id
    onVault .intent fun v => v.recordIntentExecution id chainId txHash executedAt

def verifyIntent (id : JsString) (matched : Bool) (discrepancies : Option (List JsString))
    (now verifiedAt : JsString) : Delegator where
  event _ := .ok (some (.vault, .intentVerified id now))
  apply := onVault .intent fun v => v.verifyIntent id matched discrepancies verifiedAt

def allocateToEnvelope (envelopeId : JsString) (amount : Money) : Delegator where
  event s := .ok (some (.vault,
    .budgetAllocated s.ownerId envelopeId amount.amount amount.currency))
  apply := onVault .envelope fun v => v.allocateToEnvelope envelopeId amount

def executePayrollRun (clock : Clock) (id : JsString) : Delegator where
  event s := do
    let run ← (s.treasury.payroll.getRun id).mapError fun e => .payroll (.own e)
    return some (.treasury, .payrollExecuted id run.entries.length run.totalNet.amount
      run.totalNet.currency)
  apply := onTreasury <| zoom (fun t => (t.payroll, t.ledger))
    (fun r t => { t with payroll := r.1, ledger := r.2 }) <|
      mapError .payroll (.run <$> PayrollEngine.executeRun clock id)

/-- A plan that is missing has no recipients. -/
def executeDistribution (clock : Clock) (id : JsString) : Delegator where
  event s :=
    let plan := s.treasury.distributions.exportPlans.find? fun p => p.id = id
    .ok (some (.treasury, .distributionExecuted id
      ((plan.map fun p => p.recipients.length).getD 0)
      ((plan.map fun p => p.pool.amount).getD (js "0"))
      ((plan.map fun p => p.pool.currency).getD s.defaultCurrency)))
  apply := onTreasury <| zoom (fun t => (t.distributions, t.ledger))
    (fun r t => { t with distributions := r.1, ledger := r.2 }) <|
      mapError .distribution (.distribution <$> DistributionEngine.executeDistribution clock id)

/-- The call is made without an event. -/
def executeFunding (clock : Clock) (id : JsString) : Delegator where
  event _ := .ok none
  apply := onTreasury <| zoom (fun t => (t.funding, t.ledger))
    (fun r t => { t with funding := r.1, ledger := r.2 }) <|
      mapError .funding (.request <$> FundingGateManager.executeRequest clock id)

def approveFundingGate (id approvedBy : JsString) (reason : Option JsString)
    (approvedAt : JsString) : Delegator where
  event s := do
    let before ← (s.treasury.funding.getRequest id).mapError fun e => .funding (.own e)
    let level := if before.gate1.isNone then 1 else 2
    return some (.treasury, .fundingGateApproved id approvedBy level)
  apply := onTreasury fun t =>
    match t.funding.approveGate id approvedBy reason approvedAt with
    | .ok (manager, request) => (.ok (.request request), { t with funding := manager })
    | .error e => (.error (.funding (.own e)), t)

def addSigner (platform : Platform) (address label : JsString) (weight : Option JsNumber)
    (publicKey : Option JsString) (timestamp : JsString) : Delegator where
  event s := .ok (some (.governance,
    .signerAdded address s.ownerId (s.governanceStore.signerCount + 1)))
  apply := onGovernance platform
    (GovernanceStore.addSigner platform address label weight publicKey timestamp)

def removeSigner (platform : Platform) (address timestamp : JsString) : Delegator where
  event s := .ok (some (.governance,
    .signerRemoved address s.ownerId (s.governanceStore.signerCount - 1)))
  apply := onGovernance platform (GovernanceStore.removeSigner address timestamp)

def changeQuorum (platform : Platform) (quorum : JsNumber) (timestamp : JsString) :
    Delegator where
  event s := do
    let previous ← (s.governanceStore.getCurrentPolicy platform).mapError .policy
    return some (.governance, .quorumChanged previous.quorum quorum s.ownerId)
  apply := onGovernance platform (GovernanceStore.changeQuorum quorum timestamp)

/-- A call of a delegator of a persistent service. -/
def call (d : Delegator) (env : AuditEnvironment) :
    Effect AuditedService DelegatorFault DelegatorResult := do
  let event ← check (d.event (← get))
  match event with
  | none => AuditedService.onSubsystems d.apply
  | some (stream, payload) => AuditedService.mutate env stream payload d.apply

end Delegator

/-- The value-moving and the value-authorizing delegators. -/
inductive Operation where
  | declareIntent (id kind description : JsString) (params : VaultIntentParams)
      (envelopeId : Option JsString) (declaredAt : JsString)
  | approveIntent (id : JsString) (reason : Option JsString) (approvedAt : JsString)
  | rejectIntent (id reason approvedAt : JsString)
  | executeIntent (id chainId txHash executedAt : JsString)
  | verifyIntent (id : JsString) (matched : Bool) (discrepancies : Option (List JsString))
      (now verifiedAt : JsString)
  | allocateToEnvelope (envelopeId : JsString) (amount : Money)
  | executePayrollRun (clock : Clock) (id : JsString)
  | executeDistribution (clock : Clock) (id : JsString)
  | executeFunding (clock : Clock) (id : JsString)
  | approveFundingGate (id approvedBy : JsString) (reason : Option JsString)
      (approvedAt : JsString)
  | addSigner (address label : JsString) (weight : Option JsNumber) (publicKey : Option JsString)
      (timestamp : JsString)
  | removeSigner (address timestamp : JsString)
  | changeQuorum (quorum : JsNumber) (timestamp : JsString)

def Operation.delegator (platform : Platform) : Operation → Delegator
  | declareIntent id kind description params envelopeId declaredAt =>
    .declareIntent id kind description params envelopeId declaredAt
  | approveIntent id reason approvedAt => .approveIntent id reason approvedAt
  | rejectIntent id reason approvedAt => .rejectIntent id reason approvedAt
  | executeIntent id chainId txHash executedAt => .executeIntent id chainId txHash executedAt
  | verifyIntent id matched discrepancies now verifiedAt =>
    .verifyIntent id matched discrepancies now verifiedAt
  | allocateToEnvelope envelopeId amount => .allocateToEnvelope envelopeId amount
  | executePayrollRun clock id => .executePayrollRun clock id
  | executeDistribution clock id => .executeDistribution clock id
  | executeFunding clock id => .executeFunding clock id
  | approveFundingGate id approvedBy reason approvedAt =>
    .approveFundingGate id approvedBy reason approvedAt
  | addSigner address label weight publicKey timestamp =>
    .addSigner platform address label weight publicKey timestamp
  | removeSigner address timestamp => .removeSigner platform address timestamp
  | changeQuorum quorum timestamp => .changeQuorum platform quorum timestamp

/-! ## What an operation does -/

/-- An intent that a call leaves, and nothing else that changes. -/
def LeavesIntent (s : Subsystems) (id : JsString) (intent : VaultIntent) (result : DelegatorResult)
    (s' : Subsystems) : Prop :=
  result = .intent intent ∧ s' = { s with vault := s.vault.withIntent id intent }

/-- A change of the governance that its store allows, and of whose policy there is a text. -/
def LeavesPolicy (platform : Platform) (s : Subsystems) (call : GovernanceCall)
    (result : DelegatorResult) (s' : Subsystems) : Prop :=
  ∃ change policy, s.governanceStore.Allows platform call change ∧
    (s.governanceStore.applyEvent ⟨change, call.timestamp⟩).getCurrentPolicy platform =
      .ok policy ∧ result = .policy policy ∧ s' = { s with
        governanceStore := s.governanceStore.applyEvent ⟨change, call.timestamp⟩ }

/-- What the subsystem of an operation asks of the state before the call, what it answers, and the
state that it leaves. -/
def Operation.Performs (platform : Platform) (s : Subsystems) (result : DelegatorResult)
    (s' : Subsystems) : Operation → Prop
  | declareIntent id kind description params envelopeId declaredAt =>
    id ∉ s.vault.intents.intents.keys ∧
      s.vault.intents.budget.Affords (draws envelopeId params) ∧ LeavesIntent s id
        (s.vault.declared id kind description params envelopeId declaredAt) result s'
  | approveIntent id reason approvedAt => ∃ i, s.vault.intents.intents.get? id = some i ∧
      i.status = .declared ∧ LeavesIntent s id { i with
        status := .approved
        approval := some ⟨s.vault.config.ownerId, approvedAt, true, reason⟩ } result s'
  | rejectIntent id reason rejectedAt => ∃ i, s.vault.intents.intents.get? id = some i ∧
      (i.status = .declared ∨ i.status = .approved) ∧ LeavesIntent s id { i with
        status := .rejected
        approval := some ⟨s.vault.config.ownerId, rejectedAt, false, some reason⟩ } result s'
  | executeIntent id chainId txHash executedAt => ∃ i budget executed,
      s.vault.intents.intents.get? id = some i ∧ i.status = .approved ∧
      s.vault.intents.budget.Charged i budget ∧
      executed = { i with
        status := .executed, execution := some ⟨executedAt, chainId, txHash⟩ } ∧
      result = .intent executed ∧ s' = { s with
        vault := ((s.vault.withIntent id { i with status := .executing }).withBudget
          budget).withIntent id executed }
  | verifyIntent id matched discrepancies _ verifiedAt => ∃ i,
      s.vault.intents.intents.get? id = some i ∧ i.status = .executed ∧ LeavesIntent s id { i with
        status := .verified
        verification := some ⟨verifiedAt, matched, discrepancies⟩ } result s'
  | allocateToEnvelope id amount => ∃ e x y n,
      s.vault.intents.budget.Allocates id amount e x y n ∧
      result = .envelope (s.vault.intents.budget.allocated id e x y n).2 ∧ s' = { s with
        vault := s.vault.withBudget (s.vault.intents.budget.allocated id e x y n).1 }
  | executePayrollRun clock id => ∃ run executed, s.treasury.payroll.Due id run ∧
      (payrollPosting run).Fits s.treasury.ledger ∧
      executed = { run with status := .executed, executedAt := some clock.executedAt } ∧
      result = .run executed ∧ s' = { s with treasury := { s.treasury with
        payroll := s.treasury.payroll.setRun id executed
        ledger := (payrollPosting run).posted clock s.treasury.ledger } }
  | executeDistribution clock id => ∃ plan full payouts,
      s.treasury.distributions.Due id plan payouts ∧
      (distributionPosting plan payouts).Fits s.treasury.ledger ∧
      s.treasury.distributions.resolvePayouts plan = .ok full ∧
      result = .distribution { full with payouts := payouts } ∧ s' = { s with
        treasury := { s.treasury with
          distributions := s.treasury.distributions.setPlan id
            { plan with status := .executed, executedAt := some clock.executedAt }
          ledger := (distributionPosting plan payouts).posted clock s.treasury.ledger } }
  | executeFunding clock id => ∃ request executed,
      s.treasury.funding.requests.get? id = some request ∧ request.status = .approved ∧
      (fundingPosting request).Fits s.treasury.ledger ∧
      executed = { request with status := .executed, executedAt := some clock.executedAt } ∧
      result = .request executed ∧ s' = { s with treasury := { s.treasury with
        funding := s.treasury.funding.set id executed
        ledger := (fundingPosting request).posted clock s.treasury.ledger } }
  | approveFundingGate id approvedBy reason approvedAt => ∃ request updated,
      s.treasury.funding.requests.get? id = some request ∧
      Approval s.treasury.funding.gatekeepers request ⟨approvedBy, reason, approvedAt⟩ ∧
      FundingGateManager.Gated request ⟨approvedBy, reason, approvedAt⟩ updated ∧
      result = .request updated ∧ s' = { s with
        treasury := { s.treasury with funding := s.treasury.funding.set id updated } }
  | addSigner address label weight publicKey timestamp => LeavesPolicy platform s
      (.addSigner address label weight publicKey timestamp) result s'
  | removeSigner address timestamp =>
    LeavesPolicy platform s (.removeSigner address timestamp) result s'
  | changeQuorum quorum timestamp =>
    LeavesPolicy platform s (.changeQuorum quorum timestamp) result s'

/-- The operations that throw whatever the stores do, and leave no trace: what they read before
their event is missing, or, without an event, the treasury refuses them. -/
def Operation.Refused (platform : Platform) (s : Subsystems) : Operation → Prop
  | executePayrollRun _ id => s.treasury.payroll.runs.get? id = none
  | approveFundingGate id _ _ _ => s.treasury.funding.requests.get? id = none
  | changeQuorum _ _ => ∀ policy, s.governanceStore.getCurrentPolicy platform ≠ .ok policy
  | executeFunding _ id => ∀ request, s.treasury.funding.requests.get? id = some request →
      request.status = .approved → ¬ (fundingPosting request).Fits s.treasury.ledger ∧
        ∀ ref ∈ (fundingPosting request).accounts, ref.id ∈ s.treasury.ledger.accounts.keys
  | _ => False

def Operation.appendsEvent : Operation → Bool
  | executeFunding _ _ => false
  | _ => true

section performs

variable {platform : Platform} {s s' : Subsystems} {result : DelegatorResult}

theorem outcome_onVault_eq_ok_iff {α : Type} {f : α → DelegatorResult}
    {call : Vault → Except VaultFault (Vault × α)} :
    outcome (Delegator.onVault f call) s = (.ok result, s') ↔
      ∃ r, call s.vault = .ok r ∧ result = f r.2 ∧ s' = { s with vault := r.1 } := by
  show Delegator.onVault f call s = _ ↔ _
  rw [Delegator.onVault]
  rcases call s.vault with fault | ⟨vault, a⟩
  · constructor
    · rintro ⟨⟩
    · rintro ⟨_, ⟨⟩, -⟩
  · constructor
    · rintro ⟨⟩
      exact ⟨(vault, a), rfl, rfl, rfl⟩
    · rintro ⟨_, ⟨⟩, rfl, rfl⟩
      rfl

/-- A transition of one intent. -/
theorem outcome_transition_eq_ok_iff {id : JsString} {target : IntentStatus}
    (update : Vault → VaultIntent → VaultIntent) :
    outcome (Delegator.onVault .intent fun v =>
        v.onIntents (v.intents.transition id target (update v))) s = (.ok result, s') ↔
      ∃ i, s.vault.intents.intents.get? id = some i ∧ target ∈ validTransitions i.status ∧
        LeavesIntent s id { update s.vault i with status := target } result s' := by
  simp only [outcome_onVault_eq_ok_iff, transition_eq_ok_iff]
  constructor
  · rintro ⟨r, ⟨i, hget, hvalid, rfl⟩, rfl, rfl⟩
    exact ⟨i, hget, hvalid, rfl, rfl⟩
  · rintro ⟨i, hget, hvalid, rfl, rfl⟩
    exact ⟨_, ⟨i, hget, hvalid, rfl⟩, rfl, rfl⟩

theorem outcome_executeIntent_eq_ok_iff {id chainId txHash executedAt : JsString} :
    outcome (Delegator.executeIntent id chainId txHash executedAt).apply s = (.ok result, s') ↔
      (Operation.executeIntent id chainId txHash executedAt).Performs platform s result s' := by
  simp only [Delegator.executeIntent, outcome_bind_eq_ok_iff, outcome_onVault_eq_ok_iff]
  constructor
  · rintro ⟨_, _, ⟨r₁, hmark, rfl, rfl⟩, r₂, hrecord, rfl, rfl⟩
    obtain ⟨i, budget, hget, hstatus, hcharged, hi₁, hv₁, hi₂, hv₂⟩ :=
      executed_iff.mp ⟨hmark, hrecord⟩
    refine ⟨i, budget, r₂.2, hget, hstatus, hcharged, hi₂, rfl, ?_⟩
    rw [hv₂, hv₁, hi₁]
  · rintro ⟨i, budget, executed, hget, hstatus, hcharged, hexecuted, rfl, rfl⟩
    obtain ⟨hmark, hrecord⟩ := executed_iff.mpr
      ⟨i, budget, hget, hstatus, hcharged, rfl, rfl, hexecuted, rfl⟩
    exact ⟨_, _, ⟨_, hmark, rfl, rfl⟩, _, hrecord, rfl, rfl⟩

theorem outcome_onGovernance_eq_ok_iff (call : GovernanceCall) :
    outcome (Delegator.onGovernance platform (call.effect platform)) s = (.ok result, s') ↔
      LeavesPolicy platform s call result s' := by
  simp only [Delegator.onGovernance, outcome_zoom_eq_ok_iff, outcome_bind_eq_ok_iff,
    outcome_mapError_eq_ok_iff, GovernanceStore.outcome_effect_eq_ok_iff]
  constructor
  · rintro ⟨g, ⟨event, t, ⟨hallows, htimestamp, rfl⟩, _, _, hget, policy, _, hpolicy, hresult⟩, rfl⟩
    cases hget
    cases hresult
    obtain ⟨change, timestamp⟩ := event
    obtain rfl : timestamp = call.timestamp := htimestamp
    obtain rfl := congrArg Prod.snd hpolicy
    exact ⟨change, policy, hallows, mapError_eq_ok.mp (congrArg Prod.fst hpolicy), rfl, rfl⟩
  · rintro ⟨change, policy, hallows, hpolicy, rfl, rfl⟩
    refine ⟨_, ⟨⟨change, call.timestamp⟩, _, ⟨hallows, rfl, rfl⟩, _, _, rfl, policy, _, ?_, rfl⟩,
      rfl⟩
    exact Prod.ext (mapError_eq_ok.mpr hpolicy) rfl

end performs

/-- An operation returns exactly where its subsystem accepts it, and has done what it is for. -/
theorem outcome_apply_eq_ok_iff (platform : Platform) (op : Operation) {s s' : Subsystems}
    {result : DelegatorResult} :
    outcome (op.delegator platform).apply s = (.ok result, s') ↔
      op.Performs platform s result s' := by
  cases op with
  | declareIntent id kind description params envelopeId declaredAt =>
    simp only [Operation.delegator, Delegator.declareIntent, outcome_onVault_eq_ok_iff,
      declareIntent_eq_ok_iff, Operation.Performs, LeavesIntent]
    constructor
    · rintro ⟨r, ⟨hnew, hbudget, rfl⟩, rfl, rfl⟩
      exact ⟨hnew, hbudget, rfl, rfl⟩
    · rintro ⟨hnew, hbudget, rfl, rfl⟩
      exact ⟨_, ⟨hnew, hbudget, rfl⟩, rfl, rfl⟩
  | approveIntent id reason approvedAt =>
    refine (outcome_transition_eq_ok_iff (fun v intent => { intent with
      approval := some ⟨v.config.ownerId, approvedAt, true, reason⟩ })).trans ?_
    simp only [mem_validTransitions.1, Operation.Performs]
  | rejectIntent id reason rejectedAt =>
    refine (outcome_transition_eq_ok_iff (fun v intent => { intent with
      approval := some ⟨v.config.ownerId, rejectedAt, false, some reason⟩ })).trans ?_
    simp only [mem_validTransitions.2.1, Operation.Performs]
  | executeIntent id chainId txHash executedAt => exact outcome_executeIntent_eq_ok_iff
  | verifyIntent id matched discrepancies now verifiedAt =>
    refine (outcome_transition_eq_ok_iff (fun _ intent => { intent with
      verification := some ⟨verifiedAt, matched, discrepancies⟩ })).trans ?_
    simp only [mem_validTransitions.2.2, Operation.Performs]
  | allocateToEnvelope id amount =>
    simp only [Operation.delegator, Delegator.allocateToEnvelope, outcome_onVault_eq_ok_iff,
      allocateToEnvelope, onBudget, map_eq_ok, BudgetEngine.allocate_eq_ok_iff,
      Operation.Performs]
    constructor
    · rintro ⟨_, ⟨_, ⟨e, x, y, n, h, rfl⟩, rfl⟩, rfl, rfl⟩
      exact ⟨e, x, y, n, h, rfl, rfl⟩
    · rintro ⟨e, x, y, n, h, rfl, rfl⟩
      exact ⟨_, ⟨_, ⟨e, x, y, n, h, rfl⟩, rfl⟩, rfl, rfl⟩
  | executePayrollRun clock id =>
    simp only [Operation.delegator, Delegator.executePayrollRun, Delegator.onTreasury,
      outcome_zoom_eq_ok_iff, outcome_mapError_eq_ok_iff, outcome_map_eq_ok_iff,
      executeRun_eq_ok_iff, Operation.Performs]
    constructor
    · rintro ⟨_, ⟨_, ⟨run, ⟨r, hdue, hfits, hrun, rfl⟩, rfl⟩, rfl⟩, rfl⟩
      exact ⟨r, run, hdue, hfits, hrun, rfl, rfl⟩
    · rintro ⟨r, run, hdue, hfits, hrun, rfl, rfl⟩
      exact ⟨_, ⟨_, ⟨run, ⟨r, hdue, hfits, hrun, rfl⟩, rfl⟩, rfl⟩, rfl⟩
  | executeDistribution clock id =>
    simp only [Operation.delegator, Delegator.executeDistribution, Delegator.onTreasury,
      outcome_zoom_eq_ok_iff, outcome_mapError_eq_ok_iff, outcome_map_eq_ok_iff,
      executeDistribution_eq_ok_iff, Operation.Performs]
    constructor
    · rintro ⟨_, ⟨_, ⟨r, ⟨plan, full, hdue, hfits, hfull, hr, rfl⟩, rfl⟩, rfl⟩, rfl⟩
      exact ⟨plan, full, r.payouts, hdue, hfits, hfull, congrArg _ hr, rfl⟩
    · rintro ⟨plan, full, payouts, hdue, hfits, hfull, rfl, rfl⟩
      exact ⟨_, ⟨_, ⟨{ full with payouts := payouts },
        ⟨plan, full, hdue, hfits, hfull, rfl, rfl⟩, rfl⟩, rfl⟩, rfl⟩
  | executeFunding clock id =>
    simp only [Operation.delegator, Delegator.executeFunding, Delegator.onTreasury,
      outcome_zoom_eq_ok_iff, outcome_mapError_eq_ok_iff, outcome_map_eq_ok_iff,
      executeRequest_eq_ok_iff, Operation.Performs]
    constructor
    · rintro ⟨_, ⟨_, ⟨r, ⟨request, hget, hstatus, hfits, hr, rfl⟩, rfl⟩, rfl⟩, rfl⟩
      exact ⟨request, r, hget, hstatus, hfits, hr, rfl, rfl⟩
    · rintro ⟨request, r, hget, hstatus, hfits, hr, rfl, rfl⟩
      exact ⟨_, ⟨_, ⟨r, ⟨request, hget, hstatus, hfits, hr, rfl⟩, rfl⟩, rfl⟩, rfl⟩
  | approveFundingGate id approvedBy reason approvedAt =>
    have hcall : ∀ t' : Treasury, outcome (fun t : Treasury =>
        match t.funding.approveGate id approvedBy reason approvedAt with
        | .ok (manager, request) =>
          ((.ok (.request request), { t with funding := manager }) :
            Except DelegatorFault DelegatorResult × Treasury)
        | .error e => (.error (.funding (.own e)), t)) s.treasury = (.ok result, t') ↔
          ∃ r, s.treasury.funding.approveGate id approvedBy reason approvedAt = .ok r ∧
            result = .request r.2 ∧ t' = { s.treasury with funding := r.1 } := by
      intro t'
      show (match s.treasury.funding.approveGate id approvedBy reason approvedAt with
        | .ok (manager, request) => _
        | .error e => _) = _ ↔ _
      rcases s.treasury.funding.approveGate id approvedBy reason approvedAt with e | ⟨m, r⟩ <;>
        simp [eq_comm]
    simp only [Operation.delegator, Delegator.approveFundingGate, Delegator.onTreasury,
      outcome_zoom_eq_ok_iff, hcall, FundingGateManager.approveGate_eq_ok_iff,
      Operation.Performs]
    constructor
    · rintro ⟨_, ⟨_, ⟨request, updated, hget, happroval, hgated, rfl⟩, rfl, rfl⟩, rfl⟩
      exact ⟨request, updated, hget, happroval, hgated, rfl, rfl⟩
    · rintro ⟨request, updated, hget, happroval, hgated, rfl, rfl⟩
      exact ⟨_, ⟨_, ⟨request, updated, hget, happroval, hgated, rfl⟩, rfl, rfl⟩, rfl⟩
  | addSigner address label weight publicKey timestamp =>
    exact outcome_onGovernance_eq_ok_iff (.addSigner address label weight publicKey timestamp)
  | removeSigner address timestamp =>
    exact outcome_onGovernance_eq_ok_iff (.removeSigner address timestamp)
  | changeQuorum quorum timestamp =>
    exact outcome_onGovernance_eq_ok_iff (.changeQuorum quorum timestamp)

/-- The event of an operation, where it has one and what it reads first is there. -/
theorem event_cases (platform : Platform) (op : Operation) (s : AuditedService) :
    (op.Refused platform s.toSubsystems ∧ ∃ fault, (op.delegator platform).event s =
        .error fault) ∨
      (∃ clock id, op = .executeFunding clock id) ∨
      op.appendsEvent = true ∧ ¬ op.Refused platform s.toSubsystems ∧
        ∃ stream payload, (op.delegator platform).event s = .ok (some (stream, payload)) := by
  cases op with
  | executeFunding clock id => exact .inr (.inl ⟨clock, id, rfl⟩)
  | executePayrollRun clock id =>
    rw [Operation.Refused, Operation.delegator, Delegator.executePayrollRun]
    dsimp only
    rw [PayrollEngine.getRun]
    rcases s.treasury.payroll.runs.get? id with _ | run
    · exact .inl ⟨rfl, _, rfl⟩
    · exact .inr (.inr ⟨rfl, nofun, _, _, rfl⟩)
  | approveFundingGate id approvedBy reason approvedAt =>
    rw [Operation.Refused, Operation.delegator, Delegator.approveFundingGate]
    dsimp only
    rw [FundingGateManager.getRequest]
    rcases s.treasury.funding.requests.get? id with _ | request
    · exact .inl ⟨rfl, _, rfl⟩
    · exact .inr (.inr ⟨rfl, nofun, _, _, rfl⟩)
  | changeQuorum quorum timestamp =>
    rw [Operation.Refused, Operation.delegator, Delegator.changeQuorum]
    dsimp only
    rcases s.governanceStore.getCurrentPolicy platform with e | policy
    · exact .inl ⟨nofun, _, rfl⟩
    · exact .inr (.inr ⟨rfl, fun h => h policy rfl, _, _, rfl⟩)
  | _ => exact .inr (.inr ⟨rfl, id, _, _, rfl⟩)

/-! ## Log and state -/

/-- The call throws and has changed neither the log nor a subsystem; or it returns, its event has
been appended, and nothing else, and its subsystem has done what the operation is for. -/
def Agrees (platform : Platform) (op : Operation) (env : AuditEnvironment) (s : AuditedService) :
    Prop :=
  match outcome ((op.delegator platform).call env) s with
  | (.error _, s') => s'.events = s.events ∧ s'.toSubsystems = s.toSubsystems
  | (.ok result, s') => ∃ stream payload,
      (op.delegator platform).event s = .ok (some (stream, payload)) ∧
      s'.events = s.events ++ [s.auditEvent env.now stream payload] ∧
      op.Performs platform s.toSubsystems result s'.toSubsystems

/-- The operation is refused without a trace; or it has an event, and the append of it throws and
has written nothing, or it is appended, the state before the call is one in which the subsystem
performs the operation, and the snapshot does not throw. -/
def Accords (platform : Platform) (op : Operation) (env : AuditEnvironment) (s : AuditedService) :
    Prop :=
  op.Refused platform s.toSubsystems ∨ op.appendsEvent = true ∧
    ((∃ message, env.append = .failed false message) ∨ env.append = .appended ∧
      (∃ result s', op.Performs platform s.toSubsystems result s') ∧ env.snapshot = .ok ())

section outcomes

variable {d : Delegator} {env : AuditEnvironment} {s : AuditedService} {stream : AuditStream}
  {payload : AuditPayload}

theorem outcome_call (d : Delegator) (env : AuditEnvironment) (s : AuditedService) :
    outcome (d.call env) s = match d.event s with
      | .error fault => (.error fault, s)
      | .ok none => outcome (AuditedService.onSubsystems d.apply) s
      | .ok (some (stream, payload)) =>
        outcome (AuditedService.mutate env stream payload d.apply) s := by
  rw [Delegator.call, outcome_get_bind, outcome_check_bind]
  rcases d.event s with fault | _ | ⟨stream, payload⟩ <;> rfl

/-- An append that throws ends the call. -/
theorem outcome_mutate_failed {stored : Bool} {message : JsString}
    (h : env.append = .failed stored message) :
    outcome (AuditedService.mutate env stream payload d.apply) s = (.error (.storage message),
      if stored then { s with events := s.events ++ [s.auditEvent env.now stream payload] }
      else s) := by
  apply outcome_bind_of_error
  show AuditedService.audit env stream payload s = _
  rw [AuditedService.audit, h]

/-- Behind an append the subsystem is called, and what it leaves stays where it or the snapshot
throws. -/
theorem outcome_mutate_appended (stream : AuditStream) (payload : AuditPayload)
    (h : env.append = .appended) :
    ∃ s', s'.events = s.events ++ [s.auditEvent env.now stream payload] ∧
      s'.toSubsystems = (outcome d.apply s.toSubsystems).2 ∧
      outcome (AuditedService.mutate env stream payload d.apply) s =
        ((outcome d.apply s.toSubsystems).1.bind fun result =>
          (env.snapshot.mapError .storage).map fun _ => result, s') := by
  have haudit : outcome (AuditedService.audit env stream payload) s = (.ok (), { s with
      events := s.events ++ [s.auditEvent env.now stream payload]
      globalPosition := s.globalPosition + 1 }) := by
    show AuditedService.audit env stream payload s = _
    rw [AuditedService.audit, h]
  refine ⟨{ s with
    toSubsystems := (outcome d.apply s.toSubsystems).2
    events := s.events ++ [s.auditEvent env.now stream payload]
    globalPosition := s.globalPosition + 1 }, rfl, rfl, ?_⟩
  rw [AuditedService.mutate, Node.mutate, outcome_bind_of_ok haudit, outcome_bind, AuditedService.onSubsystems,
    outcome_zoom]
  rcases outcome d.apply s.toSubsystems with ⟨fault | result, subsystems⟩
  · rfl
  · dsimp only
    rw [outcome_check_bind]
    cases env.snapshot <;> rfl

end outcomes

/-- The call without an event: it agrees only where the treasury refuses it without a trace. -/
theorem agrees_executeFunding_iff (platform : Platform) (clock : Clock) (id : JsString)
    (env : AuditEnvironment) (s : AuditedService) :
    Agrees platform (.executeFunding clock id) env s ↔
      (Operation.executeFunding clock id).Refused platform s.toSubsystems := by
  rw [Operation.Refused, ← executeRequest_refused_iff clock]
  rcases houtcome : outcome (FundingGateManager.executeRequest clock id)
    (s.treasury.funding, s.treasury.ledger) with ⟨answer, m, ledger⟩
  have hcall : outcome ((Operation.delegator platform (.executeFunding clock id)).call env) s =
      ((answer.map .request).mapError .funding, { s with
        treasury := { s.treasury with funding := m, ledger := ledger } }) := by
    rw [outcome_call]
    show outcome (AuditedService.onSubsystems (Delegator.executeFunding clock id).apply) s = _
    simp only [AuditedService.onSubsystems, Delegator.executeFunding, Delegator.onTreasury,
      outcome_zoom, outcome_mapError, outcome_map, houtcome]
  rw [Agrees, hcall]
  rcases answer with e | request <;> dsimp only [Except.map, Except.mapError]
  · constructor
    · rintro ⟨-, hsame⟩
      have htreasury := congrArg Subsystems.treasury hsame
      exact ⟨e, by rw [← congrArg Treasury.funding htreasury, ← congrArg Treasury.ledger htreasury]⟩
    · rintro ⟨e', heq⟩
      obtain ⟨rfl, rfl⟩ := Prod.mk.inj (Prod.mk.inj heq).2
      exact ⟨rfl, rfl⟩
  · constructor
    · rintro ⟨stream, payload, hnone, -⟩
      cases hnone
    · rintro ⟨e, heq⟩
      cases heq

/-- A call of a delegator leaves the log and the subsystems in agreement exactly where it is refused
before its event, or its event, its mutation and its snapshot all succeed. -/
theorem agrees_iff_accords (platform : Platform) (op : Operation) (env : AuditEnvironment)
    (s : AuditedService) : Agrees platform op env s ↔ Accords platform op env s := by
  rcases event_cases platform op s with ⟨hrefused, fault, hevent⟩ | ⟨clock, id, rfl⟩ |
    ⟨hlogs, hread, stream, payload, hevent⟩
  · refine iff_of_true ?_ (.inl hrefused)
    rw [Agrees, outcome_call, hevent]
    exact ⟨rfl, rfl⟩
  · rw [agrees_executeFunding_iff]
    exact ⟨.inl, fun h => h.resolve_right fun h => Bool.false_ne_true h.1⟩
  · rw [Agrees, Accords, outcome_call, hevent, or_iff_right hread, and_iff_right hlogs]
    dsimp only
    rcases happend : env.append with _ | ⟨stored, message⟩
    · obtain ⟨s', hevents, hsubsystems, houtcome⟩ :=
        outcome_mutate_appended (d := op.delegator platform) (s := s) stream payload happend
      have hchanged : s'.events ≠ s.events := by
        rw [hevents]
        exact List.append_right_eq_self.not.mpr (List.cons_ne_nil _ _)
      rw [houtcome]
      rcases hresult : outcome (op.delegator platform).apply s.toSubsystems with
        ⟨fault | result, subsystems⟩ <;> dsimp only [Except.bind]
      · -- the subsystem throws behind the event
        refine iff_of_false (fun h => hchanged h.1) ?_
        rintro (⟨_, hfailed⟩ | ⟨-, ⟨_, _, hperforms⟩, -⟩)
        · cases hfailed
        · cases hresult.symm.trans ((outcome_apply_eq_ok_iff platform op).mpr hperforms)
      · have hperforms := (outcome_apply_eq_ok_iff platform op).mp hresult
        rcases hsnapshot : env.snapshot with message | _ <;>
          dsimp only [Except.mapError, Except.map]
        · refine iff_of_false (fun h => hchanged h.1) ?_
          rintro (⟨_, hfailed⟩ | ⟨-, -, hok⟩)
          · cases hfailed
          · cases hok
        · refine iff_of_true ⟨stream, payload, rfl, hevents, ?_⟩
            (.inr ⟨rfl, ⟨result, subsystems, hperforms⟩, rfl⟩)
          rw [hsubsystems, hresult]
          exact hperforms
    · rw [outcome_mutate_failed happend]
      dsimp only
      cases stored with
      | false => exact iff_of_true ⟨rfl, rfl⟩ (.inl ⟨message, rfl⟩)
      | true =>
        refine iff_of_false (fun h => List.cons_ne_nil _ _ (List.append_right_eq_self.mp h.1)) ?_
        rintro (⟨_, hfailed⟩ | ⟨happended, -⟩)
        · cases hfailed
        · cases happended

/-! ### An approval of nothing -/

/-- A service that nothing has been done with. -/
def idle : AuditedService where
  ledger := .new
  registrar := .new (.legacy Registrum.initialInvariants)
  reconciler := .new attestorId
  vault := .new ⟨js "o", js "USD", .ofNat 2⟩
  treasury := freshTreasury
  governanceStore := .new (js "t")
  ownerId := js "o"
  defaultCurrency := js "USD"
  globalPosition := 0
  events := []

/-- Stores that do what they are asked for. -/
def healthy : AuditEnvironment := ⟨js "t", .appended, .ok ()⟩

theorem not_agrees_unknown_intent :
    ¬ Agrees jcsPlatform (.approveIntent (js "i") none (js "t")) healthy idle := by
  intro h
  obtain ⟨s', hevents, -, houtcome⟩ := outcome_mutate_appended
    (d := .approveIntent (js "i") none (js "t")) (s := idle) .vault
    (.intentApproved (js "i") (js "o")) (rfl : healthy.append = .appended)
  have hcall : outcome ((Operation.delegator jcsPlatform
      (.approveIntent (js "i") none (js "t"))).call healthy) idle =
        (.error (.vault (.intent .intentNotFound (js "Intent 'i' not found"))), s') := by
    rw [outcome_call]
    exact houtcome
  rw [Agrees, hcall] at h
  exact List.cons_ne_nil _ _ (List.append_right_eq_self.mp (hevents.symm.trans h.1))

end Attestia.Node
