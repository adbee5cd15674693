import Attestia.Treasury.Posting

/-!
# The distribution engine

`distribution.ts`: a plan shares a pool among recipients, by basis points, by fixed amounts, or
among those that met their milestone. Its payouts are written as one batch.
-/

namespace Attestia.Treasury

open Lib JsonNumber Ledger Effect

inductive DistributionErrorCode where
  | planExists
  | planNotFound
  | invalidTransition
  | invalidShares
  | duplicateRecipient
  | poolExceeded
  | noRecipients
  | unknownStrategy
  | importNotEmpty
  | duplicateImportId
  deriving DecidableEq

structure DistributionError where
  code : DistributionErrorCode
  message : JsString

/-- What the engine throws itself: an error, or the one of `BigInt` of a fraction. -/
inductive DistributionFault where
  | error (error : DistributionError)
  | range

inductive DistributionStrategy where
  | proportional
  | fixed
  | milestone
  deriving DecidableEq

inductive DistributionStatus where
  | draft
  | approved
  | executed
  | failed
  deriving DecidableEq

def DistributionStatus.text : DistributionStatus → JsString
  | draft => js "draft"
  | approved => js "approved"
  | executed => js "executed"
  | failed => js "failed"

structure DistributionRecipient where
  payeeId : JsString
  share : Option Number
  amount : Option Money
  milestoneMet : Option Bool

structure DistributionPlan where
  id : JsString
  name : JsString
  strategy : DistributionStrategy
  pool : Money
  recipients : List DistributionRecipient
  status : DistributionStatus
  createdAt : JsString
  executedAt : Option JsString

structure DistributionPayout where
  payeeId : JsString
  amount : Money

structure DistributionResult where
  planId : JsString
  payouts : List DistributionPayout
  totalDistributed : Money
  remainder : Money

structure DistributionEngine where
  plans : JsMap JsString DistributionPlan
  currency : JsString
  decimals : Number

/-- The results of the engine. -/
abbrev Distributes (α : Type) := Except (ExecutionError DistributionFault) α

def MAX_SAFE_INTEGER : ℚ := 9007199254740991

def distributionError (code : DistributionErrorCode) (message : JsString) :
    ExecutionError DistributionFault :=
  .own (.error ⟨code, message⟩)

/-- `BigInt` of a number. -/
def bigInt (q : ℚ) : Distributes ℤ := if q.den = 1 then .ok q.num else .error (.own .range)

/-- `share ?? 0`. -/
def DistributionRecipient.points (r : DistributionRecipient) : ℚ := (r.share.map Number.val).getD 0

def totalShares (recipients : List DistributionRecipient) : ℚ :=
  (recipients.map DistributionRecipient.points).sum

/-- `String(share)`. -/
def shareText : Option Number → JsString
  | none => js "undefined"
  | some n => JsonValue.numberString n

namespace DistributionEngine

def new (currency : JsString) (decimals : Number) : DistributionEngine :=
  ⟨.empty, currency, decimals⟩

variable (engine : DistributionEngine)

def zero : Money := zeroMoney engine.currency engine.decimals

def fixedAmountOf (recipient : DistributionRecipient) : Money :=
  match recipient.amount with
  | some amount => ⟨amount.amount, engine.currency, engine.decimals⟩
  | none => ⟨JsString.units (numberText recipient.points), engine.currency, engine.decimals⟩

/-! ## Plans -/

/-- The recipients have different ids. -/
def assertDistinct (id : JsString) : List JsString → List DistributionRecipient → Distributes Unit
  | _, [] => .ok ()
  | seen, r :: rs =>
    if r.payeeId ∈ seen then
      .error (distributionError .duplicateRecipient (js "Plan " ++ named id ++
        js " has duplicate recipient payeeId " ++ named r.payeeId))
    else assertDistinct id (seen ++ [r.payeeId]) rs

/-- A share is a natural number. -/
def isNaturalShare : Option Number → Bool
  | none => false
  | some n => n.val.den = 1 && !(n.val < 0)

def invalidShare (r : DistributionRecipient) (why : JsString) : ExecutionError DistributionFault :=
  distributionError .invalidShares (js "Recipient " ++ named r.payeeId ++ js " has invalid share " ++
    shareText r.share ++ js ": " ++ why)

def assertFixedShare (r : DistributionRecipient) : Distributes Unit :=
  match r.amount with
  | some amount =>
    match validateMoney amount with
    | .error _ => .error (distributionError .invalidShares (js "Recipient " ++ named r.payeeId ++
        js " has an invalid fixed amount " ++ named amount.amount))
    | .ok () => do
      let negative ← (isNegative amount).mapError .ledger
      throwIf negative (distributionError .invalidShares (js "Recipient " ++ named r.payeeId ++
        js " has a negative fixed amount " ++ named amount.amount))
  | none => do
    throwIf (!isNaturalShare r.share) (invalidShare r
      (js "must be a non-negative integer (or supply a decimal-string amount)"))
    throwIf (MAX_SAFE_INTEGER < r.points) (distributionError .invalidShares (js "Recipient " ++
      named r.payeeId ++ js " fixed share " ++ shareText r.share ++
      js " exceeds Number.MAX_SAFE_INTEGER and would lose precision: supply a decimal-string " ++
      js "'amount' instead"))

def assertBasisPoints (r : DistributionRecipient) : Distributes Unit := do
  throwIf (!isNaturalShare r.share) (invalidShare r (js "must be a non-negative integer"))
  throwIf (10000 < r.points) (invalidShare r (js "basis points must not exceed 10000"))

def assertShare (strategy : DistributionStrategy) (r : DistributionRecipient) : Distributes Unit :=
  if strategy = .fixed then assertFixedShare r else assertBasisPoints r

def assertProportional (recipients : List DistributionRecipient) : Distributes Unit :=
  throwIf (10000 < totalShares recipients) (distributionError .invalidShares
    (js "Proportional shares total " ++ JsString.units (numberText (totalShares recipients)) ++
      js " basis points, maximum is 10000"))

def assertFixedTotal (pool : Money) (recipients : List DistributionRecipient) : Distributes Unit := do
  let totalFixed ← (recipients.foldlM (fun total r => addMoney total (engine.fixedAmountOf r))
    engine.zero).mapError .ledger
  let rest ← (subtractMoney pool totalFixed).mapError .ledger
  let negative ← (isNegative rest).mapError .ledger
  throwIf negative (distributionError .poolExceeded
    (js "Fixed distribution amounts exceed pool of " ++ pool.amount))

/-- The check of the sum of the shares. -/
def assertTotal (strategy : DistributionStrategy) (pool : Money)
    (recipients : List DistributionRecipient) : Distributes Unit :=
  match strategy with
  | .proportional => assertProportional recipients
  | .fixed => engine.assertFixedTotal pool recipients
  | .milestone => .ok ()

def setPlan (id : JsString) (plan : DistributionPlan) : DistributionEngine :=
  { engine with plans := engine.plans.set id plan }

def createPlan (id name : JsString) (strategy : DistributionStrategy) (pool : Money)
    (recipients : List DistributionRecipient) (createdAt : JsString) :
    Distributes (DistributionEngine × DistributionPlan) := do
  throwIf (engine.plans.has id)
    (distributionError .planExists (js "Plan " ++ named id ++ js " already exists"))
  throwIf (recipients = []) (distributionError .noRecipients
    (js "Plan " ++ named id ++ js " must have at least one recipient"))
  assertDistinct id [] recipients
  forM recipients (assertShare strategy)
  engine.assertTotal strategy pool recipients
  let plan : DistributionPlan := ⟨id, name, strategy, pool, recipients, .draft, createdAt, none⟩
  return (engine.setPlan id plan, plan)

def getPlan (id : JsString) : Distributes DistributionPlan :=
  match engine.plans.get? id with
  | none => .error (distributionError .planNotFound (js "Plan " ++ named id ++ js " not found"))
  | some plan => .ok plan

def invalidPlanTransition (action id : JsString) (status : DistributionStatus) :
    ExecutionError DistributionFault :=
  distributionError .invalidTransition (js "Cannot " ++ action ++ js " plan " ++ named id ++
    js " in status " ++ named status.text)

def approvePlan (id : JsString) : Distributes (DistributionEngine × DistributionPlan) := do
  let plan ← engine.getPlan id
  throwIf (plan.status ≠ .draft) (invalidPlanTransition (js "approve") id plan.status)
  let approved := { plan with status := .approved }
  return (engine.setPlan id approved, approved)

/-! ## Payouts -/

/-- One turn of the loop over the recipients. -/
def addPayout (amountOf : DistributionRecipient → Distributes Money)
    (sums : List DistributionPayout × Money) (recipient : DistributionRecipient) :
    Distributes (List DistributionPayout × Money) := do
  let amount ← amountOf recipient
  let totalDistributed ← (addMoney sums.2 amount).mapError .ledger
  return (sums.1 ++ [⟨recipient.payeeId, amount⟩], totalDistributed)

/-- The loop that the strategies share. -/
def resolveWith (plan : DistributionPlan) (recipients : List DistributionRecipient)
    (amountOf : DistributionRecipient → Distributes Money) : Distributes DistributionResult := do
  let sums ← recipients.foldlM (addPayout amountOf) ([], engine.zero)
  let remainder ← (subtractMoney plan.pool sums.2).mapError .ledger
  return ⟨plan.id, sums.1, sums.2, remainder⟩

def moneyOf (scaled : ℤ) : Money :=
  ⟨formatAmount scaled engine.decimals, engine.currency, engine.decimals⟩

def resolveProportional (plan : DistributionPlan) : Distributes DistributionResult := do
  let poolAmount ← (parseAmount plan.pool.amount plan.pool.decimals).mapError .ledger
  engine.resolveWith plan plan.recipients fun recipient => do
    let share ← bigInt recipient.points
    return engine.moneyOf ((poolAmount * share).tdiv 10000)

def resolveFixed (plan : DistributionPlan) : Distributes DistributionResult :=
  engine.resolveWith plan plan.recipients fun recipient =>
    (addMoney engine.zero (engine.fixedAmountOf recipient)).mapError .ledger

def resolveMilestone (plan : DistributionPlan) : Distributes DistributionResult := do
  let poolAmount ← (parseAmount plan.pool.amount plan.pool.decimals).mapError .ledger
  let eligible := plan.recipients.filter fun r => r.milestoneMet = some true
  let total := totalShares eligible
  engine.resolveWith plan eligible fun recipient =>
    if 0 < total then do
      let share ← bigInt recipient.points
      let points ← bigInt total
      return engine.moneyOf ((poolAmount * share).tdiv points)
    else .ok (engine.moneyOf 0)

def resolvePayouts (plan : DistributionPlan) : Distributes DistributionResult :=
  match plan.strategy with
  | .proportional => engine.resolveProportional plan
  | .fixed => engine.resolveFixed plan
  | .milestone => engine.resolveMilestone plan

def computeDistribution (id : JsString) : Distributes DistributionResult := do
  let plan ← engine.getPlan id
  engine.resolvePayouts plan

end DistributionEngine

/-! ## Executions -/

def poolAccountId (planId : JsString) : JsString := js "distribution:pool:" ++ planId

def recipientAccountId (payeeId : JsString) : JsString := js "distribution:recipient:" ++ payeeId

def recipientAccount (payout : DistributionPayout) : AccountRef :=
  ⟨recipientAccountId payout.payeeId, .liability,
    js "Distribution Recipient: " ++ payout.payeeId⟩

def distributionTransfer (plan : DistributionPlan) (payout : DistributionPayout) : Transfer where
  base := js "distribution:" ++ plan.id ++ js ":" ++ payout.payeeId
  debit := poolAccountId plan.id
  credit := recipientAccountId payout.payeeId
  money := payout.amount

def distributionPosting (plan : DistributionPlan) (payouts : List DistributionPayout) : Posting where
  accounts := ⟨poolAccountId plan.id, .asset, js "Distribution Pool: " ++ plan.name⟩ ::
    payouts.map recipientAccount
  correlationId := js "distribution:" ++ plan.id
  transfers := payouts.map (distributionTransfer plan)
  description := js "Distribution: " ++ plan.name

/-- The check of a payout before anything is written. -/
def assertWritable (payout : DistributionPayout) : Distributes Unit := do
  (validateMoney payout.amount).mapError .ledger
  let positive ← (isPositive payout.amount).mapError .ledger
  throwIf (!positive) (distributionError .invalidShares (js "Payout for " ++ named payout.payeeId ++
    js " is not strictly positive: " ++ named payout.amount.amount))

/-- A payout that is not zero is kept. -/
def isWritten (payout : DistributionPayout) : Distributes Bool :=
  ((isZero payout.amount).map not).mapError .ledger

namespace DistributionEngine

/-- What `executeDistribution` writes and keeps. -/
def planDistribution (clock : Clock) (id : JsString) (engine : DistributionEngine) :
    Distributes (Posting × DistributionEngine × DistributionResult) := do
  let plan ← engine.getPlan id
  throwIf (plan.status ≠ .approved) (invalidPlanTransition (js "execute") id plan.status)
  let result ← engine.resolvePayouts plan
  let writable ← filterChecked isWritten result.payouts
  forM writable assertWritable
  let executed := { plan with status := .executed, executedAt := some clock.executedAt }
  return (distributionPosting plan writable, engine.setPlan id executed,
    { result with payouts := writable })

/-- Behind the writes the remainder is inspected once more. -/
def executeDistribution (clock : Clock) (id : JsString) :
    Effect (DistributionEngine × Ledger) (ExecutionError DistributionFault) DistributionResult := do
  let result ← executePlan clock (planDistribution clock id)
  let _ ← check ((isZero result.remainder).mapError .ledger)
  return result

/-! ## Export and import -/

def exportPlans (engine : DistributionEngine) : List DistributionPlan := engine.plans.values

def importPlans (engine : DistributionEngine) (plans : List DistributionPlan) :
    DistributionEngine × Except DistributionError Unit :=
  if engine.plans.entries ≠ [] then
    (engine, .error ⟨.importNotEmpty, js "Cannot import plans into a non-empty engine (" ++
      JsonValue.numberString (.ofNat engine.plans.entries.length) ++
      js " already present) \u2014 restore into a fresh DistributionEngine"⟩)
  else
    let r := engine.plans.importAll DistributionPlan.id (fun id => (⟨.duplicateImportId,
      js "Duplicate plan id " ++ named id ++ js " in imported snapshot"⟩ : DistributionError)) []
      plans
    ({ engine with plans := r.1 }, r.2)

end DistributionEngine

end Attestia.Treasury
