import Attestia.Lib.System
import Attestia.Treasury.Posting

/-!
# Funding gates

`funding.ts`: a request takes the approvals of two gatekeepers, in any order, before it is
executed. An import puts the given requests into an empty manager as they are.
-/

namespace Attestia.Treasury

open Lib Ledger Effect

inductive FundingErrorCode where
  | requestExists
  | requestNotFound
  | invalidTransition
  | notGatekeeper
  | alreadyApproved
  | duplicateGatekeeper
  | requesterCannotApprove
  | importNotEmpty
  | duplicateImportId
  deriving DecidableEq

structure FundingError where
  code : FundingErrorCode
  message : JsString

inductive FundingStatus where
  | pending
  | gate1Approved
  | approved
  | rejected
  | executed
  | failed
  deriving DecidableEq

def FundingStatus.text : FundingStatus → JsString
  | pending => js "pending"
  | gate1Approved => js "gate1-approved"
  | approved => js "approved"
  | rejected => js "rejected"
  | executed => js "executed"
  | failed => js "failed"

structure FundingGate where
  approvedBy : JsString
  reason : Option JsString
  approvedAt : JsString

structure FundingRequest where
  id : JsString
  description : JsString
  amount : Money
  requestedBy : JsString
  status : FundingStatus
  gate1 : Option FundingGate
  gate2 : Option FundingGate
  createdAt : JsString
  executedAt : Option JsString

structure FundingGateManager where
  requests : JsMap JsString FundingRequest
  gatekeepers : JsString × JsString
  distinct : gatekeepers.1 ≠ gatekeepers.2

namespace FundingGateManager

def new (gatekeepers : JsString × JsString) : Except FundingError FundingGateManager :=
  if h : gatekeepers.1 = gatekeepers.2 then
    .error ⟨.duplicateGatekeeper, js "Two distinct gatekeepers are required"⟩
  else .ok ⟨.empty, gatekeepers, h⟩

variable (m : FundingGateManager)

def set (id : JsString) (request : FundingRequest) : FundingGateManager :=
  { m with requests := m.requests.set id request }

def submitRequest (id description : JsString) (amount : Money) (requestedBy createdAt : JsString) :
    Except FundingError (FundingGateManager × FundingRequest) :=
  if m.requests.has id then
    .error ⟨.requestExists, js "Request " ++ named id ++ js " already exists"⟩
  else
    let request : FundingRequest :=
      ⟨id, description, amount, requestedBy, .pending, none, none, createdAt, none⟩
    .ok (m.set id request, request)

def getRequest (id : JsString) : Except FundingError FundingRequest :=
  match m.requests.get? id with
  | none => .error ⟨.requestNotFound, js "Request " ++ named id ++ js " not found"⟩
  | some request => .ok request

def isGatekeeper (id : JsString) : Bool := m.gatekeepers.1 = id || m.gatekeepers.2 = id

def assertGatekeeper (id : JsString) : Except FundingError Unit :=
  if m.isGatekeeper id then .ok ()
  else .error ⟨.notGatekeeper, named id ++ js " is not a gatekeeper"⟩

def invalidTransition (action id : JsString) (status : FundingStatus) (hint : JsString) :
    FundingError :=
  ⟨.invalidTransition, js "Cannot " ++ action ++ js " request " ++ named id ++ js " in status " ++
    named status.text ++ hint⟩

def approveGate (id approvedBy : JsString) (reason : Option JsString) (approvedAt : JsString) :
    Except FundingError (FundingGateManager × FundingRequest) := do
  let request ← m.getRequest id
  m.assertGatekeeper approvedBy
  throwIf (approvedBy = request.requestedBy) ⟨.requesterCannotApprove,
    js "Requester cannot approve their own request " ++ named id ++ js " (separation of duties)"⟩
  throwIf (request.status ≠ .pending ∧ request.status ≠ .gate1Approved)
    (invalidTransition (js "approve") id request.status [])
  let gate : FundingGate := ⟨approvedBy, reason, approvedAt⟩
  if request.status = .pending then
    let updated := { request with status := .gate1Approved, gate1 := some gate }
    return (m.set id updated, updated)
  else
    throwIf (request.gate1.map FundingGate.approvedBy = some approvedBy) ⟨.alreadyApproved,
      named approvedBy ++ js " has already approved request " ++ named id⟩
    let updated := { request with status := .approved, gate2 := some gate }
    return (m.set id updated, updated)

def rejectRequest (id rejectedBy : JsString) (reason : Option JsString) (rejectedAt : JsString) :
    Except FundingError (FundingGateManager × FundingRequest) := do
  let request ← m.getRequest id
  m.assertGatekeeper rejectedBy
  throwIf (request.status = .rejected ∨ request.status = .executed ∨ request.status = .failed)
    (invalidTransition (js "reject") id request.status [])
  let gate : FundingGate := ⟨rejectedBy, reason, rejectedAt⟩
  let updated :=
    if request.gate1.isSome then { request with status := .rejected, gate2 := some gate }
    else { request with status := .rejected, gate1 := some gate }
  return (m.set id updated, updated)

end FundingGateManager

def treasuryAccountId : JsString := js "treasury:main"

def fundingPosting (request : FundingRequest) : Posting :=
  let fundingAccountId := js "funding:request:" ++ request.id
  let corrId := js "funding:" ++ request.id
  { accounts := [⟨treasuryAccountId, .asset, js "Treasury Main Account"⟩,
      ⟨fundingAccountId, .expense, js "Funding: " ++ request.description⟩]
    correlationId := corrId
    transfers := [⟨corrId, fundingAccountId, treasuryAccountId, request.amount⟩]
    description := js "Funding: " ++ request.description }

namespace FundingGateManager

/-- What `executeRequest` writes and keeps. -/
def planRequest (clock : Clock) (id : JsString) (m : FundingGateManager) :
    Except FundingError (Posting × FundingGateManager × FundingRequest) := do
  let request ← m.getRequest id
  throwIf (request.status ≠ .approved)
    (invalidTransition (js "execute") id request.status (js " (must be 'approved')"))
  let executed := { request with status := .executed, executedAt := some clock.executedAt }
  return (fundingPosting request, m.set id executed, executed)

def executeRequest (clock : Clock) (id : JsString) :
    Effect (FundingGateManager × Ledger) (ExecutionError FundingError) FundingRequest :=
  executePlan clock fun m => (planRequest clock id m).mapError .own

def exportRequests (m : FundingGateManager) : List FundingRequest := m.requests.values

/-- The loop of `importRequests`; what it has set stays where it throws. -/
def importLoop (m : FundingGateManager) : List JsString → List FundingRequest →
    FundingGateManager × Except FundingError Unit
  | _, [] => (m, .ok ())
  | seen, r :: rs =>
    if r.id ∈ seen then
      (m, .error ⟨.duplicateImportId, js "Duplicate request id " ++ named r.id ++
        js " in imported snapshot"⟩)
    else importLoop (m.set r.id r) (seen ++ [r.id]) rs

def importRequests (m : FundingGateManager) (requests : List FundingRequest) :
    FundingGateManager × Except FundingError Unit :=
  if m.requests.entries ≠ [] then
    (m, .error ⟨.importNotEmpty, js "Cannot import requests into a non-empty manager (" ++
      JsonValue.numberString (.ofNat m.requests.entries.length) ++
      js " already present) \u2014 restore into a fresh FundingGateManager"⟩)
  else m.importLoop [] requests

end FundingGateManager

/-! ## What the calls do -/

/-- A gate of a gatekeeper that is not the requester. -/
def Approval (gatekeepers : JsString × JsString) (request : FundingRequest) (gate : FundingGate) :
    Prop :=
  (gate.approvedBy = gatekeepers.1 ∨ gate.approvedBy = gatekeepers.2) ∧
    gate.approvedBy ≠ request.requestedBy

/-- Approvals of two gatekeepers. -/
def DualControl (gatekeepers : JsString × JsString) (request : FundingRequest) : Prop :=
  ∃ g1 g2, request.gate1 = some g1 ∧ request.gate2 = some g2 ∧ Approval gatekeepers request g1 ∧
    Approval gatekeepers request g2 ∧ g1.approvedBy ≠ g2.approvedBy

namespace FundingGateManager


/-- A transaction that pays out the amount of a request. -/
structure PaysOut (request : FundingRequest) (t : LedgerTransaction) : Prop where
  entries : ∃ now, t.entries = (fundingPosting request).entries now
  balanced : ScaledBalanced t.entries
  valid : request.amount.Valid
  positive : 0 < request.amount.scaled

/-- The request that a call writes under an id, and the transactions that it appends. -/
inductive Change (m : FundingGateManager) (id : JsString) :
    FundingRequest → List LedgerTransaction → Prop
  | submitted {request : FundingRequest} (hnew : id ∉ m.requests.keys)
      (hstatus : request.status = .pending) (hid : request.id = id) : Change m id request []
  | gate1 {request : FundingRequest} {gate : FundingGate} (hget : m.requests.get? id = some request)
      (hstatus : request.status = .pending) (hgate : Approval m.gatekeepers request gate) :
      Change m id { request with status := .gate1Approved, gate1 := some gate } []
  | gate2 {request : FundingRequest} {gate : FundingGate} (hget : m.requests.get? id = some request)
      (hstatus : request.status = .gate1Approved) (hgate : Approval m.gatekeepers request gate)
      (hother : request.gate1.map FundingGate.approvedBy ≠ some gate.approvedBy) :
      Change m id { request with status := .approved, gate2 := some gate } []
  | rejected {request updated : FundingRequest} (hget : m.requests.get? id = some request)
      (hstatus : request.status ≠ .rejected ∧ request.status ≠ .executed)
      (hupdated : updated.status = .rejected) (hid : updated.id = request.id) :
      Change m id updated []
  | executed {request : FundingRequest} {executedAt : JsString} {t : LedgerTransaction}
      (hget : m.requests.get? id = some request) (hstatus : request.status = .approved)
      (hpays : PaysOut request t) :
      Change m id { request with status := .executed, executedAt := some executedAt } [t]

variable {m m' : FundingGateManager} {id : JsString}

theorem getRequest_eq_ok {request : FundingRequest} :
    m.getRequest id = .ok request ↔ m.requests.get? id = some request := by
  unfold getRequest
  cases m.requests.get? id <;> simp

theorem assertGatekeeper_eq_ok :
    m.assertGatekeeper id = .ok () ↔ id = m.gatekeepers.1 ∨ id = m.gatekeepers.2 := by
  have hiff : m.isGatekeeper id = true ↔ id = m.gatekeepers.1 ∨ id = m.gatekeepers.2 := by
    rw [isGatekeeper, Bool.or_eq_true, decide_eq_true_eq, decide_eq_true_eq,
      @eq_comm _ m.gatekeepers.1, @eq_comm _ m.gatekeepers.2]
  unfold assertGatekeeper
  rw [← hiff]
  split <;> simp_all

theorem change_of_submitRequest {description requestedBy createdAt : JsString} {amount : Money}
    {request : FundingRequest}
    (h : m.submitRequest id description amount requestedBy createdAt = .ok (m', request)) :
    m' = m.set id request ∧ m.Change id request [] := by
  unfold submitRequest at h
  split at h
  · cases h
  · rename_i hhas
    cases h
    refine ⟨rfl, .submitted ?_ rfl rfl⟩
    rwa [JsMap.has_eq_true] at hhas

theorem change_of_approveGate {approvedBy approvedAt : JsString} {reason : Option JsString}
    {request : FundingRequest}
    (h : m.approveGate id approvedBy reason approvedAt = .ok (m', request)) :
    m' = m.set id request ∧ m.Change id request [] := by
  obtain ⟨r, hget, h⟩ := bind_eq_ok.mp h
  rw [getRequest_eq_ok] at hget
  obtain ⟨hkeeper, h⟩ := bind_unit_eq_ok.mp h
  obtain ⟨hrequester, h⟩ := bind_unit_eq_ok.mp h
  obtain ⟨hstatus, h⟩ := bind_unit_eq_ok.mp h
  rw [assertGatekeeper_eq_ok] at hkeeper
  rw [throwIf_eq_ok] at hrequester hstatus
  split at h
  · rename_i hpending
    cases h
    exact ⟨rfl, .gate1 hget hpending ⟨hkeeper, hrequester⟩⟩
  · rename_i hpending
    have hgate1 : r.status = .gate1Approved := by
      by_contra hne
      exact hstatus ⟨hpending, hne⟩
    obtain ⟨hother, h⟩ := bind_unit_eq_ok.mp h
    rw [throwIf_eq_ok] at hother
    cases h
    exact ⟨rfl, .gate2 hget hgate1 ⟨hkeeper, hrequester⟩ hother⟩

theorem change_of_rejectRequest {rejectedBy rejectedAt : JsString} {reason : Option JsString}
    {request : FundingRequest}
    (h : m.rejectRequest id rejectedBy reason rejectedAt = .ok (m', request)) :
    m' = m.set id request ∧ m.Change id request [] := by
  obtain ⟨r, hget, h⟩ := bind_eq_ok.mp h
  rw [getRequest_eq_ok] at hget
  obtain ⟨-, h⟩ := bind_unit_eq_ok.mp h
  obtain ⟨hstatus, h⟩ := bind_unit_eq_ok.mp h
  rw [throwIf_eq_ok, not_or, not_or] at hstatus
  cases h
  refine ⟨rfl, .rejected hget ⟨hstatus.1, hstatus.2.1⟩ ?_ ?_⟩ <;> split <;> rfl

theorem covered_fundingPosting (request : FundingRequest) : (fundingPosting request).Covered := by
  intro t ht id hid
  rw [fundingPosting, List.mem_singleton] at ht
  subst ht
  rcases hid with rfl | rfl
  · exact ⟨_, .tail _ (.head _), rfl⟩
  · exact ⟨_, .head _, rfl⟩

theorem planRequest_eq_ok {clock : Clock} {p : Posting} {request : FundingRequest} :
    m.planRequest clock id = .ok (p, m', request) ↔
      ∃ r, (m.requests.get? id = some r ∧ r.status = .approved) ∧ p = fundingPosting r ∧
        m' = m.set id request ∧
        request = { r with status := .executed, executedAt := some clock.executedAt } := by
  constructor
  · intro h
    obtain ⟨r, hget, h⟩ := bind_eq_ok.mp h
    rw [getRequest_eq_ok] at hget
    obtain ⟨hstatus, h⟩ := bind_unit_eq_ok.mp h
    rw [throwIf_eq_ok, not_ne_iff] at hstatus
    cases h
    exact ⟨r, ⟨hget, hstatus⟩, rfl, rfl, rfl⟩
  · rintro ⟨r, ⟨hget, hstatus⟩, rfl, rfl, rfl⟩
    rw [planRequest, getRequest_eq_ok.mpr hget]
    exact bind_unit_eq_ok.mpr ⟨throwIf_eq_ok.mpr (not_ne_iff.mpr hstatus), rfl⟩

/-- An execution changes nothing of the manager, or one request, and then it appends one
transaction. -/
theorem change_of_executeRequest {clock : Clock} {ledger ledger' : Ledger}
    {result : Except (ExecutionError FundingError) FundingRequest}
    (h : (executeRequest clock id).outcome (m, ledger) = (result, m', ledger')) :
    m' = m ∧ ledger'.transactions = ledger.transactions ∨
      ∃ request t, m' = m.set id request ∧ m.Change id request [t] ∧
        ledger'.transactions = ledger.transactions ++ [t] := by
  rw [executeRequest, outcome_executePlan] at h
  dsimp only at h
  rcases hplan : planRequest clock id m with e | ⟨p, m'', request⟩ <;> rw [hplan] at h
  · cases h
    exact .inl ⟨rfl, rfl⟩
  · obtain ⟨r, ⟨hget, hstatus⟩, rfl, rfl, rfl⟩ := planRequest_eq_ok.mp hplan
    dsimp only [Except.mapError] at h
    rcases hpost : (fundingPosting r).post clock ledger with e | posted <;> rw [hpost] at h
    · cases h
      rw [withAccounts_eq]
      exact .inl ⟨rfl, rfl⟩
    · cases h
      obtain ⟨hwritable, rfl⟩ := (Posting.post_eq_ok_iff (covered_fundingPosting r)).mp hpost
      have hmem : (⟨_, _, .debit, r.amount, clock.now, none, none, _⟩ : LedgerEntry) ∈
          (fundingPosting r).entries clock.now := .head _
      exact .inr ⟨_, _, rfl, .executed hget hstatus ⟨⟨clock.now, rfl⟩, scaledBalanced_transfers,
        hwritable.valid _ hmem, hwritable.positive _ hmem⟩, rfl⟩

end FundingGateManager

/-! ## Runs -/

open FundingGateManager

inductive FundingCall where
  | submitRequest (id description : JsString) (amount : Money) (requestedBy createdAt : JsString)
  | approveGate (id approvedBy : JsString) (reason : Option JsString) (approvedAt : JsString)
  | rejectRequest (id rejectedBy : JsString) (reason : Option JsString) (rejectedAt : JsString)
  | executeRequest (clock : Clock) (id : JsString) (ledger : Ledger)
  | exportRequests
  | importRequests (requests : List FundingRequest)

/-- A manager, with the transactions that its executions have appended, under the ids of their
requests, and the requests that were imported. -/
structure FundingRun where
  manager : FundingGateManager
  payments : List (JsString × LedgerTransaction)
  imported : List FundingRequest

namespace FundingRun

/-- The run after a call that keeps a manager where it returns. -/
def kept (run : FundingRun) : Except FundingError (FundingGateManager × FundingRequest) → FundingRun
  | .ok (m, _) => { run with manager := m }
  | .error _ => run

def call (run : FundingRun) : FundingCall → FundingRun
  | .submitRequest id description amount requestedBy createdAt =>
    run.kept (run.manager.submitRequest id description amount requestedBy createdAt)
  | .approveGate id approvedBy reason approvedAt =>
    run.kept (run.manager.approveGate id approvedBy reason approvedAt)
  | .rejectRequest id rejectedBy reason rejectedAt =>
    run.kept (run.manager.rejectRequest id rejectedBy reason rejectedAt)
  | .executeRequest clock id ledger =>
    let after := ((executeRequest clock id).outcome (run.manager, ledger)).2
    { run with
      manager := after.1
      payments := run.payments ++
        (after.2.transactions.drop ledger.transactions.length).map fun t => (id, t) }
  | .exportRequests => run
  | .importRequests requests =>
    { run with
      manager := (run.manager.importRequests requests).1
      imported := run.imported ++ requests }

/-- The request under an id. -/
def request (run : FundingRun) (id : JsString) : Option FundingRequest :=
  run.manager.requests.get? id

/-- The transactions that were appended for a request. -/
def paymentsOf (run : FundingRun) (id : JsString) : List LedgerTransaction :=
  (run.payments.filter fun e => e.1 = id).map Prod.snd

/-- One request is changed, and with it the payments of its id. -/
def changed (run : FundingRun) (id : JsString) (request : FundingRequest)
    (paid : List LedgerTransaction) : FundingRun :=
  { run with
    manager := run.manager.set id request
    payments := run.payments ++ paid.map fun t => (id, t) }

@[simp] theorem request_changed (run : FundingRun) (id other : JsString) (r : FundingRequest)
    (paid : List LedgerTransaction) :
    (run.changed id r paid).request other = if id = other then some r else run.request other :=
  run.manager.requests.get?_set id other r

@[simp] theorem paymentsOf_changed (run : FundingRun) (id other : JsString) (r : FundingRequest)
    (paid : List LedgerTransaction) : (run.changed id r paid).paymentsOf other =
      if id = other then run.paymentsOf other ++ paid else run.paymentsOf other := by
  rw [paymentsOf, changed]
  dsimp only
  rw [List.filter_append, List.map_append, List.filter_map, List.map_map, ← paymentsOf]
  split
  · rename_i heq
    simp [heq, Function.comp_def]
  · rename_i hne
    simp [hne, Function.comp_def]

/-- What a call does: nothing, a change of one request, or an import. -/
theorem call_cases (run : FundingRun) (c : FundingCall) :
    run.call c = run ∨
    (∃ id r paid, run.manager.Change id r paid ∧ run.call c = run.changed id r paid) ∨
    ∃ requests, c = .importRequests requests := by
  have hkept : ∀ {x id}, (∀ {m r}, x = .ok (m, r) → m = run.manager.set id r ∧
      run.manager.Change id r []) → run.kept x = run ∨
        ∃ id r paid, run.manager.Change id r paid ∧ run.kept x = run.changed id r paid := by
    intro x id h
    rcases x with e | ⟨m, r⟩
    · exact .inl rfl
    · obtain ⟨rfl, hchange⟩ := h rfl
      refine .inr ⟨id, r, [], hchange, ?_⟩
      rw [kept, changed, List.map_nil, List.append_nil]
  cases c with
  | submitRequest id description amount requestedBy createdAt =>
    rcases hkept change_of_submitRequest with h | h
    · exact .inl h
    · exact .inr (.inl h)
  | approveGate id approvedBy reason approvedAt =>
    rcases hkept change_of_approveGate with h | h
    · exact .inl h
    · exact .inr (.inl h)
  | rejectRequest id rejectedBy reason rejectedAt =>
    rcases hkept change_of_rejectRequest with h | h
    · exact .inl h
    · exact .inr (.inl h)
  | executeRequest clock id ledger =>
    rcases houtcome : (executeRequest clock id).outcome (run.manager, ledger) with
      ⟨result, m, ledger'⟩
    rcases change_of_executeRequest houtcome with ⟨hm, htransactions⟩ |
      ⟨r, t, hm, hchange, htransactions⟩
    · refine .inl ?_
      rw [call, houtcome]
      dsimp only
      rw [htransactions, List.drop_length, List.map_nil, List.append_nil, hm]
    · refine .inr (.inl ⟨id, r, [t], hchange, ?_⟩)
      rw [call, houtcome]
      dsimp only
      rw [htransactions, List.drop_left, hm, changed]
  | exportRequests => exact .inl rfl
  | importRequests requests => exact .inr (.inr ⟨requests, rfl⟩)

end FundingRun

/-! ## Dual control -/

/-- A request has the approvals that its status takes. -/
structure Authorized (gatekeepers : JsString × JsString) (r : FundingRequest) : Prop where
  gate1 : r.status = .gate1Approved → ∃ g, r.gate1 = some g ∧ Approval gatekeepers r g
  both : r.status = .approved ∨ r.status = .executed → DualControl gatekeepers r

theorem Authorized.of_change {m : FundingGateManager} {id : JsString} {r : FundingRequest}
    {paid : List LedgerTransaction} (h : m.Change id r paid)
    (hold : ∀ r, m.requests.get? id = some r → Authorized m.gatekeepers r) :
    Authorized m.gatekeepers r := by
  cases h with
  | submitted hnew hstatus =>
    constructor <;> intro h <;> rw [hstatus] at h
    · cases h
    · rcases h with h | h <;> cases h
  | gate1 hget hstatus hgate =>
    exact ⟨fun _ => ⟨_, rfl, hgate⟩, fun h => by rcases h with h | h <;> cases h⟩
  | gate2 hget hstatus hgate hother =>
    obtain ⟨g, hg, happroval⟩ := (hold _ hget).gate1 hstatus
    rw [hg] at hother
    refine ⟨fun h => (nomatch h), fun _ => ⟨g, _, hg, rfl, happroval, hgate, fun heq => ?_⟩⟩
    exact hother (congrArg some heq)
  | rejected hget hstatus hupdated =>
    constructor <;> intro h <;> rw [hupdated] at h
    · cases h
    · rcases h with h | h <;> cases h
  | executed hget hstatus hpays =>
    obtain ⟨g1, g2, h1, h2, hall⟩ := (hold _ hget).both (.inl hstatus)
    exact ⟨fun h => (nomatch h), fun _ => ⟨g1, g2, h1, h2, hall⟩⟩

namespace FundingGateManager

theorem importLoop_eq (m : FundingGateManager) (seen : List JsString)
    (requests : List FundingRequest) : m.importLoop seen requests =
      let r := m.requests.importAll FundingRequest.id (fun id => (⟨.duplicateImportId,
        js "Duplicate request id " ++ named id ++ js " in imported snapshot"⟩ : FundingError)) seen
        requests
      ({ m with requests := r.1 }, r.2) := by
  induction requests generalizing m seen with
  | nil => rfl
  | cons r rs ih =>
    rw [importLoop, JsMap.importAll]
    split
    · rfl
    · rw [ih]
      rfl

theorem gatekeepers_importLoop (m : FundingGateManager) (seen : List JsString)
    (requests : List FundingRequest) :
    (m.importLoop seen requests).1.gatekeepers = m.gatekeepers := by
  induction requests generalizing m seen with
  | nil => rfl
  | cons r rs ih =>
    rw [importLoop]
    split
    · rfl
    · exact ih (m.set r.id r) _

/-- What a manager holds after an import was imported, or was there before. -/
theorem mem_of_importLoop {m : FundingGateManager} {seen : List JsString}
    {requests : List FundingRequest} {id : JsString} {r : FundingRequest}
    (h : (m.importLoop seen requests).1.requests.get? id = some r) :
    r ∈ requests ∨ m.requests.get? id = some r := by
  induction requests generalizing m seen with
  | nil => exact .inr h
  | cons q qs ih =>
    rw [importLoop] at h
    split at h
    · exact .inr h
    · rcases ih h with hmem | hget
      · exact .inl (.tail _ hmem)
      · rw [set, JsMap.get?_set] at hget
        split at hget
        · cases hget
          exact .inl (.head _)
        · exact .inr hget

theorem gatekeepers_importRequests (m : FundingGateManager) (requests : List FundingRequest) :
    (m.importRequests requests).1.gatekeepers = m.gatekeepers := by
  rw [importRequests]
  split
  · rfl
  · exact gatekeepers_importLoop m _ _

/-- An import is into an empty manager, or changes nothing. -/
theorem importRequests_cases (m : FundingGateManager) (requests : List FundingRequest) :
    (m.importRequests requests).1 = m ∨ (∀ id, m.requests.get? id = none) ∧
      ∀ id r, (m.importRequests requests).1.requests.get? id = some r → r ∈ requests := by
  by_cases hnil : m.requests.entries = []
  · have hnone : ∀ id, m.requests.get? id = none := by
      intro id
      rw [JsMap.get?, hnil]
      rfl
    refine .inr ⟨hnone, fun id r h => ?_⟩
    rw [importRequests, if_neg (not_not.mpr hnil)] at h
    exact (mem_of_importLoop h).resolve_right (by simp [hnone])
  · left
    rw [importRequests, if_pos hnil]

end FundingGateManager

def fundingSystem (gatekeepers : JsString × JsString) : System FundingRun FundingCall where
  init run := ∃ m, FundingGateManager.new gatekeepers = .ok m ∧ run = ⟨m, [], []⟩
  next run c := some (run.call c)

/-- Imported requests have the approvals that their status takes. -/
def ImportsAuthorized (gatekeepers : JsString × JsString) (_ : FundingRun) : FundingCall → Prop
  | .importRequests requests => ∀ r ∈ requests, Authorized gatekeepers r
  | _ => True

structure Controlled (gatekeepers : JsString × JsString) (run : FundingRun) : Prop where
  keepers : run.manager.gatekeepers = gatekeepers
  authorized : ∀ id r, run.request id = some r → Authorized gatekeepers r
  paid : ∀ id r, run.request id = some r → r.status = .executed →
    r ∈ run.imported ∧ run.paymentsOf id = [] ∨ ∃ t, run.paymentsOf id = [t] ∧ PaysOut r t
  unpaid : ∀ id, (∀ r, run.request id = some r → r.status ≠ .executed) → run.paymentsOf id = []

section

variable {gatekeepers : JsString × JsString} {run : FundingRun}

theorem Controlled.changed (h : Controlled gatekeepers run) {id : JsString} {r : FundingRequest}
    {paid : List LedgerTransaction} (hchange : run.manager.Change id r paid) :
    Controlled gatekeepers (run.changed id r paid) := by
  -- before a change the request was not executed
  have hnone : run.paymentsOf id = [] := by
    apply h.unpaid
    intro q hq
    cases hchange with
    | submitted hnew hstatus => exact absurd (JsMap.mem_keys.mpr ⟨q, hq⟩) hnew
    | gate1 hget hstatus hgate =>
      cases hget.symm.trans hq
      rw [hstatus]
      exact fun h => (nomatch h)
    | gate2 hget hstatus hgate hother =>
      cases hget.symm.trans hq
      rw [hstatus]
      exact fun h => (nomatch h)
    | rejected hget hstatus hupdated =>
      cases hget.symm.trans hq
      exact hstatus.2
    | executed hget hstatus hpays =>
      cases hget.symm.trans hq
      rw [hstatus]
      exact fun h => (nomatch h)
  have hpaid : r.status = .executed ∧ (∃ t, paid = [t] ∧ PaysOut r t) ∨
      r.status ≠ .executed ∧ paid = [] := by
    cases hchange with
    | submitted hnew hstatus => exact .inr ⟨by rw [hstatus]; exact fun h => (nomatch h), rfl⟩
    | gate1 => exact .inr ⟨fun h => (nomatch h), rfl⟩
    | gate2 => exact .inr ⟨fun h => (nomatch h), rfl⟩
    | rejected hget hstatus hupdated =>
      exact .inr ⟨by rw [hupdated]; exact fun h => (nomatch h), rfl⟩
    | executed hget hstatus hpays =>
      exact .inl ⟨rfl, _, rfl, hpays.entries, hpays.balanced, hpays.valid, hpays.positive⟩
  refine ⟨h.keepers, fun other q hq => ?_, fun other q hq hstatus => ?_, fun other hother => ?_⟩
  · rw [FundingRun.request_changed] at hq
    split at hq
    · cases hq
      rw [← h.keepers]
      exact .of_change hchange fun q hq => h.keepers ▸ h.authorized id q hq
    · exact h.authorized other q hq
  · rw [FundingRun.request_changed] at hq
    rw [FundingRun.paymentsOf_changed]
    split at hq
    · rename_i heq
      cases hq
      subst heq
      rcases hpaid with ⟨-, t, rfl, hpays⟩ | ⟨hne, -⟩
      · exact .inr ⟨t, by rw [if_pos rfl, hnone, List.nil_append], hpays⟩
      · exact absurd hstatus hne
    · rename_i hne
      rw [if_neg hne]
      exact h.paid other q hq hstatus
  · rw [FundingRun.paymentsOf_changed]
    simp only [FundingRun.request_changed] at hother
    split
    · rename_i heq
      subst heq
      have hstatus := hother r (if_pos rfl)
      rcases hpaid with ⟨hexecuted, -⟩ | ⟨-, rfl⟩
      · exact absurd hexecuted hstatus
      · rw [hnone, List.append_nil]
    · rename_i hne
      simp only [if_neg hne] at hother
      exact h.unpaid other hother

theorem Controlled.call (h : Controlled gatekeepers run) {c : FundingCall}
    (hc : ImportsAuthorized gatekeepers run c) : Controlled gatekeepers (run.call c) := by
  rcases run.call_cases c with heq | ⟨id, r, paid, hchange, heq⟩ | ⟨requests, rfl⟩
  · rwa [heq]
  · rw [heq]
    exact h.changed hchange
  · have hkeepers : (run.call (.importRequests requests)).manager.gatekeepers = gatekeepers :=
      (gatekeepers_importRequests run.manager requests).trans h.keepers
    have hpayments : ∀ id, (run.call (.importRequests requests)).paymentsOf id =
        run.paymentsOf id := fun _ => rfl
    rcases importRequests_cases run.manager requests with hsame | ⟨hempty, hmem⟩
    · have hrequest : ∀ id, (run.call (.importRequests requests)).request id = run.request id := by
        intro id
        change (run.manager.importRequests requests).1.requests.get? id = _
        rw [hsame]
        rfl
      refine ⟨hkeepers, fun id r hr => ?_, fun id r hr hstatus => ?_, fun id hid => ?_⟩
      · exact h.authorized id r (hrequest id ▸ hr)
      · rcases h.paid id r (hrequest id ▸ hr) hstatus with ⟨hr', hnone⟩ | hpaid
        · exact .inl ⟨List.mem_append_left _ hr', hnone⟩
        · exact .inr hpaid
      · exact h.unpaid id (hrequest id ▸ hid)
    · have hnone : ∀ id, run.paymentsOf id = [] := by
        intro id
        apply h.unpaid
        intro r hr
        cases (hempty id).symm.trans hr
      refine ⟨hkeepers, fun id r hr => ?_, fun id r hr _ => ?_, fun id _ => hnone id⟩
      · exact hc r (hmem id r hr)
      · exact .inl ⟨List.mem_append_right _ (hmem id r hr), hnone id⟩

end

/-! ## Rejected and executed requests -/

theorem terminal_call (run : FundingRun) (c : FundingCall) {id : JsString} {r : FundingRequest}
    (hr : run.request id = some r) (hstatus : r.status = .rejected ∨ r.status = .executed) :
    (run.call c).request id = some r ∧ (run.call c).paymentsOf id = run.paymentsOf id := by
  rcases run.call_cases c with heq | ⟨other, q, paid, hchange, heq⟩ | ⟨requests, rfl⟩
  · rw [heq]
    exact ⟨hr, rfl⟩
  · have hne : other ≠ id := by
      rintro rfl
      -- none of the changes starts from a terminal status
      cases hchange with
      | submitted hnew hpending => exact hnew (JsMap.mem_keys.mpr ⟨r, hr⟩)
      | gate1 hget hpending hgate =>
        cases hget.symm.trans hr
        rw [hpending] at hstatus
        rcases hstatus with h | h <;> cases h
      | gate2 hget hgate1 hgate hother =>
        cases hget.symm.trans hr
        rw [hgate1] at hstatus
        rcases hstatus with h | h <;> cases h
      | rejected hget hopen hupdated =>
        cases hget.symm.trans hr
        exact hstatus.elim hopen.1 hopen.2
      | executed hget happroved hpays =>
        cases hget.symm.trans hr
        rw [happroved] at hstatus
        rcases hstatus with h | h <;> cases h
    rw [heq, FundingRun.request_changed, FundingRun.paymentsOf_changed, if_neg hne, if_neg hne]
    exact ⟨hr, rfl⟩
  · refine ⟨?_, rfl⟩
    rcases importRequests_cases run.manager requests with hsame | ⟨hempty, -⟩
    · change (run.manager.importRequests requests).1.requests.get? id = some r
      rw [hsame]
      exact hr
    · cases (hempty id).symm.trans hr

theorem terminal_run {gatekeepers : JsString × JsString} {run later : FundingRun}
    {cs : List FundingCall} (hlater : (fundingSystem gatekeepers).run run cs = some later)
    {id : JsString} {r : FundingRequest} (hr : run.request id = some r)
    (hstatus : r.status = .rejected ∨ r.status = .executed) :
    later.request id = some r ∧ later.paymentsOf id = run.paymentsOf id := by
  induction cs generalizing run with
  | nil =>
    cases hlater
    exact ⟨hr, rfl⟩
  | cons c cs ih =>
    obtain ⟨hnext, hpayments⟩ := terminal_call run c hr hstatus
    obtain ⟨hend, hsame⟩ := ih hlater hnext
    exact ⟨hend, hsame.trans hpayments⟩

/-- An execution is of an approved request. -/
theorem executed_of_call {run : FundingRun} {c : FundingCall} {id : JsString} {r : FundingRequest}
    (hr : (run.call c).request id = some r) (hstatus : r.status = .executed) :
    run.request id = some r ∨ (∃ requests, c = .importRequests requests ∧ r ∈ requests) ∨
      ∃ q executedAt, run.request id = some q ∧ q.status = .approved ∧
        r = { q with status := .executed, executedAt := some executedAt } := by
  rcases run.call_cases c with heq | ⟨other, q, paid, hchange, heq⟩ | ⟨requests, rfl⟩
  · exact .inl (heq ▸ hr)
  · rw [heq, FundingRun.request_changed] at hr
    split at hr
    · rename_i hid
      cases hr
      subst hid
      cases hchange with
      | submitted hnew hpending => cases hpending.symm.trans hstatus
      | gate1 => cases hstatus
      | gate2 => cases hstatus
      | rejected hget hopen hupdated => cases hupdated.symm.trans hstatus
      | executed hget happroved hpays => exact .inr (.inr ⟨_, _, hget, happroved, rfl⟩)
    · exact .inl hr
  · rcases importRequests_cases run.manager requests with hsame | ⟨-, hmem⟩
    · change (run.manager.importRequests requests).1.requests.get? id = some r at hr
      rw [hsame] at hr
      exact .inl hr
    · exact .inr (.inl ⟨requests, rfl, hmem id r hr⟩)

theorem controlled_of_reachableVia {gatekeepers : JsString × JsString} {run : FundingRun}
    (h : (fundingSystem gatekeepers).ReachableVia (ImportsAuthorized gatekeepers) run) :
    Controlled gatekeepers run := by
  apply h.invariant
  · rintro _ ⟨m, hm, rfl⟩
    unfold FundingGateManager.new at hm
    split at hm
    · cases hm
    · cases hm
      exact ⟨rfl, fun _ _ h => (nomatch h), fun _ _ h => (nomatch h), fun _ _ => rfl⟩
  · intro s c s' hs hc hnext
    rw [← Option.some.inj hnext]
    exact hs.call hc

/-- What such a run exports can be imported again. -/
theorem authorized_exportRequests {gatekeepers : JsString × JsString} {run : FundingRun}
    (h : (fundingSystem gatekeepers).ReachableVia (ImportsAuthorized gatekeepers) run) :
    ∀ r ∈ run.manager.exportRequests, Authorized gatekeepers r := by
  intro r hr
  obtain ⟨id, hget⟩ := JsMap.mem_values.mp hr
  exact (controlled_of_reachableVia h).authorized id r hget

/-- Where imported requests have their approvals: an approved or executed request has those of two
gatekeepers other than its requester; one that is executed was approved, has been paid by one
transaction, or by none where it was imported as executed, and stays as it is; and so does one
that is rejected. -/
theorem dual_control {gatekeepers : JsString × JsString} {run : FundingRun}
    (h : (fundingSystem gatekeepers).ReachableVia (ImportsAuthorized gatekeepers) run) :
    (∀ id r, run.request id = some r → r.status = .approved ∨ r.status = .executed →
      DualControl gatekeepers r) ∧
    (∀ id r, run.request id = some r → r.status = .executed →
      r ∈ run.imported ∧ run.paymentsOf id = [] ∨ ∃ t, run.paymentsOf id = [t] ∧ PaysOut r t) ∧
    (∀ c id r, (run.call c).request id = some r → r.status = .executed →
      run.request id = some r ∨ (∃ requests, c = .importRequests requests ∧ r ∈ requests) ∨
        ∃ q executedAt, run.request id = some q ∧ q.status = .approved ∧
          r = { q with status := .executed, executedAt := some executedAt }) ∧
    ∀ cs later, (fundingSystem gatekeepers).run run cs = some later → ∀ id r,
      run.request id = some r → r.status = .rejected ∨ r.status = .executed →
        later.request id = some r ∧ later.paymentsOf id = run.paymentsOf id := by
  have hcontrolled := controlled_of_reachableVia h
  refine ⟨fun id r hr => (hcontrolled.authorized id r hr).both, hcontrolled.paid, ?_, ?_⟩
  · exact fun c id r => executed_of_call
  · exact fun cs later hlater id r => terminal_run hlater

/-! ### A request that is paid, and one that is forged -/

def twoGatekeepers : JsString × JsString := (js "alice", js "bob")

def emptyRun : FundingRun := ⟨⟨.empty, twoGatekeepers, by decide +kernel⟩, [], []⟩

theorem init_emptyRun : (fundingSystem twoGatekeepers).init emptyRun :=
  ⟨_, dif_neg emptyRun.manager.distinct, rfl⟩

/-- A request is submitted, approved by both gatekeepers, and executed. -/
def paidCalls : List FundingCall :=
  [.submitRequest (js "r") (js "desks") ⟨js "5.00", js "USD", .ofNat 2⟩ (js "carol") (js "t"),
    .approveGate (js "r") (js "bob") none (js "t"), .approveGate (js "r") (js "alice") none (js "t"),
    .executeRequest ⟨fun _ => js "t", js "t", js "t"⟩ (js "r") .new]

def paidRun : FundingRun := paidCalls.foldl FundingRun.call emptyRun

theorem dual_control_paidRun : ∃ r t, paidRun.request (js "r") = some r ∧
    DualControl twoGatekeepers r ∧ paidRun.paymentsOf (js "r") = [t] := by
  have hreach : (fundingSystem twoGatekeepers).ReachableVia (ImportsAuthorized twoGatekeepers)
      paidRun := by
    have hrun : (fundingSystem twoGatekeepers).run emptyRun paidCalls = some paidRun := rfl
    refine (System.ReachableVia.init init_emptyRun).run ?_ hrun
    simp [paidCalls, ImportsAuthorized]
  obtain ⟨hdual, hpaid, -⟩ := dual_control hreach
  have hstatus : (paidRun.request (js "r")).map FundingRequest.status = some .executed := by
    decide +kernel
  have himported : paidRun.imported = [] := rfl
  obtain ⟨r, hr, hexecuted⟩ := Option.map_eq_some_iff.mp hstatus
  rcases hpaid _ r hr hexecuted with ⟨hmem, -⟩ | ⟨t, ht, -⟩
  · rw [himported] at hmem
    cases hmem
  · exact ⟨r, t, hr, hdual _ r hr (.inr hexecuted), ht⟩

/-- An approved request without approvals. -/
def forgedRequest : FundingRequest :=
  ⟨js "r", js "desks", ⟨js "5.00", js "USD", .ofNat 2⟩, js "carol", .approved, none, none, js "t",
    none⟩

theorem not_dual_control_forgedRequest :
    ¬ ∀ gatekeepers run, (fundingSystem gatekeepers).Reachable run → ∀ id r,
      run.request id = some r → r.status = .approved → DualControl gatekeepers r := by
  intro h
  have hreach : (fundingSystem twoGatekeepers).Reachable
      (emptyRun.call (.importRequests [forgedRequest])) :=
    .step (.init init_emptyRun) trivial rfl
  obtain ⟨g1, g2, h1, -⟩ := h _ _ hreach (js "r") forgedRequest rfl rfl
  cases h1

end Attestia.Treasury
