import Attestia.Lib.Effect
import Attestia.Vault.Execution

/-!
# `executeIntent`

A mutation of the service appends its event, changes the vault and takes a snapshot. The execution
of an intent changes the vault twice: the second change can be refused behind the first.
-/

namespace Attestia.Node

open Lib Lib.Effect JsonNumber Vault

inductive ServiceFault where
  | vault (fault : VaultFault)
  | storage (message : JsString)

/-- What the stores answer to a mutation: the log to its event, before it, and the snapshot store
behind it. A service in memory has neither, both do nothing. -/
structure Storage where
  append : Except ServiceFault Unit
  snapshot : Except ServiceFault Unit

/-- `_mutate`: the event is appended before the mutation, the snapshot is taken behind it. -/
def mutate {σ ε α : Type} (audit snapshotIfCadence : Effect σ ε Unit) (apply : Effect σ ε α) :
    Effect σ ε α := do
  audit
  let result ← apply
  snapshotIfCadence
  return result

variable {α : Type}

/-- A call of the vault, which writes only where it returns. -/
def ofVault (call : Vault → Except VaultFault (Vault × α)) : Effect Vault ServiceFault α :=
  fun v => settle v ((call v).mapError .vault)

/-- A mutation whose stores answer so. -/
abbrev Storage.mutate (storage : Storage) (apply : Effect Vault ServiceFault α) :
    Effect Vault ServiceFault α :=
  Node.mutate (check storage.append) (check storage.snapshot) apply

def executeIntent (storage : Storage) (id chainId txHash executedAt : JsString) :
    Effect Vault ServiceFault VaultIntent :=
  storage.mutate do
    let _ ← ofVault fun v => v.markIntentExecuting id
    ofVault fun v => v.recordIntentExecution id chainId txHash executedAt

/-- The status and the execution record of an intent. -/
def progress (v : Vault) (id : JsString) : Option (IntentStatus × Option VaultIntentExecution) :=
  (v.intents.intents.get? id).map fun i => (i.status, i.execution)

/-- The intent and all envelopes are as before. -/
structure Untouched (id : JsString) (v v' : Vault) : Prop where
  intent : progress v' id = progress v id
  envelopes : v'.intents.budget.envelopes = v.intents.budget.envelopes

theorem Untouched.refl (id : JsString) (v : Vault) : Untouched id v v := ⟨rfl, rfl⟩

theorem progress_withIntent (v : Vault) (id : JsString) (i : VaultIntent) :
    progress (v.withIntent id i) id = some (i.status, i.execution) := by
  rw [progress, withIntent, IntentManager.setIntent, JsMap.get?_set_self]
  rfl

/-! ## Outcomes -/

section outcomes

variable {storage : Storage} {id chainId txHash executedAt : JsString} {v : Vault} {i : VaultIntent}

theorem outcome_ofVault_ok (call : Vault → Except VaultFault (Vault × α)) {v' : Vault} {a : α}
    (h : call v = .ok (v', a)) : outcome (ofVault call) v = (.ok a, v') := by
  show settle v ((call v).mapError ServiceFault.vault) = _
  rw [h]
  rfl

theorem outcome_ofVault_error (call : Vault → Except VaultFault (Vault × α)) {fault : VaultFault}
    (h : call v = .error fault) : outcome (ofVault call) v = (.error (.vault fault), v) := by
  show settle v ((call v).mapError ServiceFault.vault) = _
  rw [h]
  rfl

/-- Without its event nothing is done. -/
theorem outcome_mutate_error {fault : ServiceFault} (h : storage.append = .error fault)
    (apply : Effect Vault ServiceFault α) :
    outcome (storage.mutate apply) v = (.error fault, v) := by
  rw [Storage.mutate, mutate, outcome_check_bind, h]

theorem outcome_mutate (h : storage.append = .ok ()) (apply : Effect Vault ServiceFault α) :
    outcome (storage.mutate apply) v = match outcome apply v with
      | (.ok a, v') => (storage.snapshot.map fun _ => a, v')
      | (.error fault, v') => (.error fault, v') := by
  rw [Storage.mutate, mutate, outcome_check_bind, h]
  dsimp only
  rw [outcome_bind]
  rcases outcome apply v with ⟨fault | a, v'⟩
  · rfl
  · dsimp only
    rw [outcome_check_bind]
    cases storage.snapshot <;> rfl

/-- An intent that is not approved is refused before anything is written. -/
theorem outcome_not_approved
    (h : ∀ i, v.intents.intents.get? id = some i → i.status ≠ .approved) :
    (outcome (executeIntent storage id chainId txHash executedAt) v).2 = v := by
  cases happend : storage.append with
  | error fault => rw [executeIntent, outcome_mutate_error happend]
  | ok u =>
    cases hmark : v.markIntentExecuting id with
    | error fault =>
      rw [executeIntent, outcome_mutate happend,
        outcome_bind_of_error (outcome_ofVault_error _ hmark)]
    | ok r =>
      obtain ⟨i, hget, hstatus⟩ := approved_of_markIntentExecuting hmark
      exact absurd hstatus (h i hget)

/-- An approved intent is marked as executing, whatever becomes of its execution. -/
theorem outcome_approved (happend : storage.append = .ok ())
    (hget : v.intents.intents.get? id = some i) (hstatus : i.status = .approved) :
    outcome (executeIntent storage id chainId txHash executedAt) v =
      match charge v.intents.budget i with
      | .error fault => (.error (.vault fault), v.withIntent id { i with status := .executing })
      | .ok b =>
        let updated :=
          { i with status := .executed, execution := some ⟨executedAt, chainId, txHash⟩ }
        (storage.snapshot.map fun _ => updated, ((v.withIntent id { i with
          status := .executing }).withBudget b).withIntent id updated) := by
  have hfound : (v.withIntent id { i with status := .executing }).intents.intents.get? id =
      some { i with status := .executing } := JsMap.get?_set_self _ _ _
  have hmark := outcome_ofVault_ok (fun v => v.markIntentExecuting id)
    (markIntentExecuting_of_approved hget hstatus)
  have hrecord := recordIntentExecution_of_executing chainId txHash executedAt hfound rfl
  rw [executeIntent, outcome_mutate happend, outcome_bind_of_ok hmark]
  cases hcharge : charge v.intents.budget i with
  | error fault =>
    have hrefused : charge (v.withIntent id { i with status := .executing }).intents.budget
        { i with status := .executing } = .error fault := hcharge
    rw [hrefused] at hrecord
    rw [outcome_ofVault_error _ hrecord]
  | ok b =>
    have hcharged : charge (v.withIntent id { i with status := .executing }).intents.budget
        { i with status := .executing } = .ok b := hcharge
    rw [hcharged] at hrecord
    rw [outcome_ofVault_ok _ hrecord]

/-- An intent that is left as executing is refused ever after. -/
theorem outcome_executing (hget : v.intents.intents.get? id = some i)
    (hstatus : i.status = .executing) :
    (outcome (executeIntent storage id chainId txHash executedAt) v).2 = v ∧
      ∃ fault, (outcome (executeIntent storage id chainId txHash executedAt) v).1 =
        .error fault := by
  constructor
  · apply outcome_not_approved
    intro j hj
    obtain rfl := Option.some.inj (hget.symm.trans hj)
    rw [hstatus]
    decide
  · cases happend : storage.append with
    | error fault => exact ⟨fault, by rw [executeIntent, outcome_mutate_error happend]⟩
    | ok u =>
      cases hmark : v.markIntentExecuting id with
      | error fault =>
        exact ⟨.vault fault, by rw [executeIntent, outcome_mutate happend,
          outcome_bind_of_error (outcome_ofVault_error _ hmark)]⟩
      | ok r =>
        obtain ⟨j, hj, happroved⟩ := approved_of_markIntentExecuting hmark
        obtain rfl := Option.some.inj (hget.symm.trans hj)
        rw [hstatus] at happroved
        cases happroved

theorem not_untouched_of_progress {v' : Vault} {status : IntentStatus}
    {execution : Option VaultIntentExecution} (hget : v.intents.intents.get? id = some i)
    (hprogress : progress v' id = some (status, execution)) (hstatus : i.status ≠ status) :
    ¬ Untouched id v v' := by
  intro h
  have hsame := h.intent
  rw [hprogress, progress, hget] at hsame
  exact hstatus (congrArg Prod.fst (Option.some.inj hsame)).symm

end outcomes

/-! ## All or nothing -/

/-- A throw leaves the intent and the envelopes alone exactly where the event cannot be appended,
the intent is not approved, or its envelope covers it and the snapshot is taken. -/
theorem executeIntent_untouched_iff {v : Vault} (hv : vaultSystem.Reachable v) (storage : Storage)
    (id chainId txHash executedAt : JsString) :
    (∀ fault, (outcome (executeIntent storage id chainId txHash executedAt) v).1 = .error fault →
      Untouched id v (outcome (executeIntent storage id chainId txHash executedAt) v).2) ↔
    ∀ i, storage.append = .ok () → v.intents.intents.get? id = some i → i.status = .approved →
      Funded v.intents.budget i ∧ storage.snapshot = .ok () := by
  constructor
  · intro h i happend hget hstatus
    rw [outcome_approved happend hget hstatus] at h
    cases hcharge : charge v.intents.budget i with
    | error fault =>
      rw [hcharge] at h
      exact absurd (h _ rfl) (not_untouched_of_progress hget (progress_withIntent _ _ _)
        (hstatus ▸ nofun))
    | ok b =>
      rw [hcharge] at h
      refine ⟨(charge_isOk_iff (orderly_of_reachable hv).keeps).mp ⟨b, hcharge⟩, ?_⟩
      cases hsnapshot : storage.snapshot with
      | ok u => rfl
      | error fault =>
        rw [hsnapshot] at h
        exact absurd (h fault rfl) (not_untouched_of_progress hget (progress_withIntent _ _ _)
          (hstatus ▸ nofun))
  · intro h fault hfault
    by_cases happroved : ∃ i, storage.append = .ok () ∧ v.intents.intents.get? id = some i ∧
        i.status = .approved
    · obtain ⟨i, happend, hget, hstatus⟩ := happroved
      obtain ⟨hfunded, hsnapshot⟩ := h i happend hget hstatus
      obtain ⟨b, hcharge⟩ := (charge_isOk_iff (orderly_of_reachable hv).keeps).mpr hfunded
      rw [outcome_approved happend hget hstatus, hcharge, hsnapshot] at hfault
      cases hfault
    · have hkept : (outcome (executeIntent storage id chainId txHash executedAt) v).2 = v := by
        cases happend : storage.append with
        | error fault => rw [executeIntent, outcome_mutate_error happend]
        | ok u =>
          apply outcome_not_approved
          exact fun i hget hstatus => happroved ⟨i, happend, hget, hstatus⟩
      rw [hkept]
      exact .refl id v

/-! ## Two intents on one envelope -/

/-- An amount in dollars. -/
def dollars (amount : String) : Ledger.Money := ⟨js amount, js "USD", .ofNat 2⟩

def declarePayment (id : JsString) : VaultCall :=
  .declare id (js "transfer") (js "Payroll") ⟨some (dollars "80.00"), .undefined⟩ (some (js "ops"))
    (js "2026-01-01T00:00:00.000Z")

def approvePayment (id : JsString) : VaultCall := .approve id none (js "2026-01-01T00:00:01.000Z")

/-- Two payments of 80 are approved on an envelope of 100. -/
def rivals : List VaultCall :=
  [.createEnvelope (js "ops") (js "Operations") none (js "2026-01-01T00:00:00.000Z"),
    .allocate (js "ops") (dollars "100.00"),
    declarePayment (js "first"), declarePayment (js "second"),
    approvePayment (js "first"), approvePayment (js "second")]

/-- The first of them is paid. -/
def firstPaid : List VaultCall :=
  rivals ++ [.markExecuting (js "first"), .recordExecution (js "first") (js "eip155:1") (js "0x01")
    (js "2026-01-01T00:00:02.000Z")]

def afterCalls (calls : List VaultCall) : Vault :=
  calls.foldl call (.new ⟨js "owner", js "USD", .ofNat 2⟩)

theorem reachable_afterCalls (calls : List VaultCall) :
    vaultSystem.Reachable (afterCalls calls) := by
  induction calls using List.reverseRecOn with
  | nil => exact .init ⟨_, rfl⟩
  | append_singleton calls c ih =>
    rw [afterCalls, List.foldl_append]
    exact ih.next (e := c) rfl

/-- The stores of a service in memory. -/
def inMemory : Storage := ⟨.ok (), .ok ()⟩

/-- An approved intent, and whether its envelope takes what it draws. -/
def Chargeable (v : Vault) (id : JsString) (taken : Bool) : Bool :=
  (v.intents.intents.get? id).any fun i =>
    i.status = .approved && (charge v.intents.budget i).isOk = taken

theorem exists_of_chargeable {v : Vault} {id : JsString} {taken : Bool}
    (h : Chargeable v id taken = true) : ∃ i, v.intents.intents.get? id = some i ∧
      i.status = .approved ∧ (charge v.intents.budget i).isOk = taken := by
  obtain ⟨i, hget, hi⟩ := (Option.any_eq_true _ _).mp h
  rw [Bool.and_eq_true, decide_eq_true_iff, decide_eq_true_iff] at hi
  exact ⟨i, hget, hi⟩

/-- The execution of a payment by its transaction. -/
def paid (id : JsString) : Effect Vault ServiceFault VaultIntent :=
  executeIntent inMemory id (js "eip155:1") (js "0x02") (js "2026-01-01T00:00:03.000Z")

/-- The first payment is covered. -/
theorem executeIntent_untouched_iff_rivals :
    ¬ ∃ fault, (outcome (paid (js "first")) (afterCalls rivals)).1 = .error fault ∧
      ¬ Untouched (js "first") (afterCalls rivals)
        (outcome (paid (js "first")) (afterCalls rivals)).2 := by
  rintro ⟨fault, hfault, htouched⟩
  apply htouched
  apply (executeIntent_untouched_iff (reachable_afterCalls rivals) inMemory (js "first") _ _ _).mpr
    ?_ fault hfault
  intro i _ hget _
  obtain ⟨j, hj, -, htaken⟩ := exists_of_chargeable
    (show Chargeable (afterCalls rivals) (js "first") true = true by decide +kernel)
  obtain rfl := Option.some.inj (hget.symm.trans hj)
  refine ⟨(charge_isOk_iff (orderly_of_reachable (reachable_afterCalls rivals)).keeps).mp ?_, rfl⟩
  cases hcharge : charge (afterCalls rivals).intents.budget i with
  | ok b => exact ⟨b, rfl⟩
  | error fault =>
    rw [hcharge] at htaken
    cases htaken

/-- The second payment is left as executing, and the envelope still has its 20. -/
theorem secondPayment_stranded :
    ¬ ∀ fault, (outcome (paid (js "second")) (afterCalls firstPaid)).1 = .error fault →
      Untouched (js "second") (afterCalls firstPaid)
        (outcome (paid (js "second")) (afterCalls firstPaid)).2 := by
  obtain ⟨i, hget, hstatus, htaken⟩ := exists_of_chargeable
    (show Chargeable (afterCalls firstPaid) (js "second") false = true by decide +kernel)
  have happend : inMemory.append = .ok () := rfl
  intro h
  rw [paid, outcome_approved happend hget hstatus] at h
  cases hcharge : charge (afterCalls firstPaid).intents.budget i with
  | ok b =>
    rw [hcharge] at htaken
    cases htaken
  | error fault =>
    rw [hcharge] at h
    exact not_untouched_of_progress hget (progress_withIntent _ _ _) (hstatus ▸ nofun) (h _ rfl)

end Attestia.Node
