import Attestia.Vault.Execution

/-!
# Budget and intents

What an envelope has spent is what the intents that are executed or verified have drawn from it. No
call loses or doubles a charge, and an intent that fails gives its own back.
-/

namespace Attestia.Vault

open Lib JsonNumber Ledger BudgetEngine

/-! ## Charges -/

/-- An intent of this status holds what it has drawn. -/
def IntentStatus.isCharged : IntentStatus → Bool
  | executed | verified => true
  | _ => false

/-- An intent of this status has been approved. -/
def IntentStatus.isApproved : IntentStatus → Bool
  | approved | executing | executed | verified => true
  | _ => false

/-- The integer of an amount in a unit, zero where it is not one. -/
def amountIn (d : Number) (amount : JsString) : ℤ := (parseAmount amount d).toOption.getD 0

/-- What an intent has charged to an envelope. -/
def chargedTo (d : Number) (envelopeId : JsString) (i : VaultIntent) : ℤ :=
  if i.status.isCharged then
    match draws i.envelopeId i.params with
    | none => 0
    | some (id, amount) => if id = envelopeId then amountIn d amount.amount else 0
  else 0

def totalCharged (v : Vault) (envelopeId : JsString) : ℤ :=
  (v.intents.intents.values.map (chargedTo v.intents.budget.decimals envelopeId)).sum

/-- The amounts of an envelope, whose zeros may have been written as they stand in a new one. -/
structure Holds (e : Envelope) (x y : ℤ) : Prop where
  allocated : parseAmount e.allocated e.decimals = .ok x ∨ x = 0 ∧ e.allocated = js "0"
  spent : parseAmount e.spent e.decimals = .ok y ∨ y = 0 ∧ e.spent = js "0"
  available : e.available = formatAmount (x - y) e.decimals ∨ x - y = 0 ∧ e.available = js "0"

/-- The budget and the intents of a vault are in step. -/
structure Coherent (v : Vault) : Prop where
  amounts (id : JsString) (e : Envelope) (h : v.intents.budget.envelopes.get? id = some e) :
    ∃ x y, Holds e x y ∧ 0 ≤ y ∧ y ≤ x ∧ y = totalCharged v id
  records (id : JsString) (i : VaultIntent) (h : v.intents.intents.get? id = some i)
    (hcharged : i.status.isCharged = true) :
    (∃ approval, i.approval = some approval ∧ approval.approved = true) ∧
      (∃ execution, i.execution = some execution) ∧
      ∀ envelopeId amount, draws i.envelopeId i.params = some (envelopeId, amount) →
        0 < amountIn v.intents.budget.decimals amount.amount

/-- The calls of a vault itself; the others are those of its budget engine, and restores. -/
def VaultCall.isOwn : VaultCall → Bool
  | .spend .. | .reverseSpend .. | .restore .. => false
  | _ => true

/-- An executed intent that fails gives what it has drawn back, and fails only once. -/
structure Returns (v : Vault) : Prop where
  once (id : JsString) (i : VaultIntent) (h : v.intents.intents.get? id = some i)
    (hstatus : i.status = .executed) (discrepancies : List JsString) (verifiedAt : JsString) :
    ∃ v' i', v.recordIntentFailure id discrepancies verifiedAt = .ok (v', i') ∧
      i'.status = .failed ∧ v'.intents.intents.get? id = some i' ∧
      ∀ envelopeId, totalCharged v' envelopeId =
        totalCharged v envelopeId - chargedTo v.intents.budget.decimals envelopeId i
  final (id : JsString) (i : VaultIntent) (h : v.intents.intents.get? id = some i)
    (hstatus : i.status = .failed) :
    ∀ c : VaultCall, c.isOwn = true → (v.call c).intents.intents.get? id = some i

/-! ## Runs with snapshots -/

/-- A vault with the snapshots that have been taken of it. -/
structure SavedVault where
  vault : Vault
  snapshots : List VaultSnapshot

inductive SavedVaultCall where
  | own (c : VaultCall)
  | save (savedAt : JsString)
  | restore (index : ℕ)

/-- A vault and its own calls, with restores of the snapshots of it. -/
def savedVaultSystem : System SavedVault SavedVaultCall where
  init s := ∃ config, s = ⟨.new config, []⟩
  next s
    | .own c => if c.isOwn then some { s with vault := s.vault.call c } else none
    | .save savedAt => some { s with snapshots := s.snapshots ++ [s.vault.snapshot savedAt] }
    | .restore index => s.snapshots[index]?.map fun snapshot =>
      { s with vault := s.vault.call (.restore snapshot) }

/-! ## The invariant -/

/-- What an intent has drawn is a positive amount in the unit of an envelope of the engine. -/
structure Drawn (b : BudgetEngine) (envelopeId : JsString) (amount : Money) : Prop where
  currency : amount.currency = b.currency
  decimals : amount.decimals = b.decimals
  natural : ∃ k, b.decimals = .ofNat k
  amount : ∃ n, parseAmount amount.amount b.decimals = .ok n ∧ 0 < n
  envelope : envelopeId ∈ b.envelopes.keys

/-- The records of one intent. -/
structure Recorded (b : BudgetEngine) (i : VaultIntent) : Prop where
  approval : i.status.isApproved = true →
    ∃ approval, i.approval = some approval ∧ approval.approved = true
  execution : i.status.isCharged = true → ∃ execution, i.execution = some execution
  drawn : i.status.isCharged = true → ∀ envelopeId amount,
    draws i.envelopeId i.params = some (envelopeId, amount) → Drawn b envelopeId amount

/-- The spent amount of an envelope, as an integer. -/
def Spent (d : Number) (e : Envelope) (y : ℤ) : Prop :=
  parseAmount e.spent d = .ok y ∨ y = 0 ∧ e.spent = js "0"

/-- What holds between the calls of a vault. -/
structure Books (v : Vault) : Prop where
  orderly : v.Orderly
  recorded (id : JsString) (i : VaultIntent) (h : v.intents.intents.get? id = some i) :
    Recorded v.intents.budget i
  spent (id : JsString) (e : Envelope) (h : v.intents.budget.envelopes.get? id = some e) :
    Spent v.intents.budget.decimals e (totalCharged v id)

section charges

variable {d : Number} {i i' : VaultIntent} {envelopeId id : JsString} {amount : Money}

theorem amountIn_of_ok {s : JsString} {n : ℤ} (h : parseAmount s d = .ok n) : amountIn d s = n := by
  rw [amountIn, h]
  rfl

theorem chargedTo_of_not (h : i.status.isCharged = false) : chargedTo d envelopeId i = 0 := by
  rw [chargedTo, h]
  rfl

theorem chargedTo_of_free (h : draws i.envelopeId i.params = none) :
    chargedTo d envelopeId i = 0 := by
  rw [chargedTo, h]
  split <;> rfl

theorem chargedTo_of_draws (hcharged : i.status.isCharged = true)
    (h : draws i.envelopeId i.params = some (id, amount)) :
    chargedTo d envelopeId i = if id = envelopeId then amountIn d amount.amount else 0 := by
  rw [chargedTo, if_pos hcharged, h]

/-- A change that moves no money leaves the charge of an intent as it is. -/
theorem Moved.chargedTo_eq (h : Moved i i') :
    chargedTo d envelopeId i' = chargedTo d envelopeId i := by
  cases h with
  | approved approval h => rw [chargedTo_of_not rfl, chargedTo_of_not (by rw [h]; rfl)]
  | rejected approval h =>
    rw [chargedTo_of_not rfl, chargedTo_of_not (by rcases h with h | h <;> rw [h] <;> rfl)]
  | executing h => rw [chargedTo_of_not rfl, chargedTo_of_not (by rw [h]; rfl)]
  | verified verification h =>
    rw [chargedTo, chargedTo, h]
    rfl
  | failed verification h =>
    rw [chargedTo_of_not rfl]
    rcases h with h | ⟨-, hfree⟩
    · rw [chargedTo_of_not (by rw [h]; rfl)]
    · rw [chargedTo_of_free hfree]
  | executed execution h hfree =>
    rw [chargedTo_of_free (i := { i with status := .executed, execution := some execution }) hfree,
      chargedTo_of_free hfree]

theorem Moved.recorded {b : BudgetEngine} (h : Moved i i') (hi : Recorded b i) :
    Recorded b i' := by
  cases h with
  | approved approval h happroved =>
    exact ⟨fun _ => ⟨approval, rfl, happroved⟩, by rintro ⟨⟩, by rintro ⟨⟩⟩
  | rejected approval h => exact ⟨by rintro ⟨⟩, by rintro ⟨⟩, by rintro ⟨⟩⟩
  | executing h =>
    exact ⟨fun _ => hi.approval (by rw [h]; rfl), by rintro ⟨⟩, by rintro ⟨⟩⟩
  | verified verification h =>
    have hcharged : i.status.isCharged = true := by rw [h]; rfl
    exact ⟨fun _ => hi.approval (by rw [h]; rfl), fun _ => hi.execution hcharged,
      fun _ => hi.drawn hcharged⟩
  | failed verification h => exact ⟨by rintro ⟨⟩, by rintro ⟨⟩, by rintro ⟨⟩⟩
  | executed execution h hfree =>
    refine ⟨fun _ => hi.approval (by rw [h]; rfl), fun _ => ⟨execution, rfl⟩, ?_⟩
    intro _ id amount hdraws
    rw [hfree] at hdraws
    cases hdraws

end charges

/-! ## One call -/

section totals

variable {v : Vault} {b : BudgetEngine} {k id envelopeId : JsString} {i i' : VaultIntent}
  {e : Envelope} {x y : ℤ}

theorem totalCharged_withBudget (hunit : v.intents.budget.SameUnit b) :
    totalCharged (v.withBudget b) id = totalCharged v id := by
  rw [SameUnit] at hunit
  rw [totalCharged, totalCharged, withBudget]
  dsimp only
  rw [hunit]

theorem totalCharged_withIntent (hget : v.intents.intents.get? k = some i) :
    totalCharged (v.withIntent k i') id = totalCharged v id +
      chargedTo v.intents.budget.decimals id i' - chargedTo v.intents.budget.decimals id i := by
  have hsum := JsMap.sum_values_set (chargedTo v.intents.budget.decimals id) v.intents.intents k i'
  rw [hget] at hsum
  exact eq_sub_of_add_eq hsum

theorem totalCharged_declared (hnew : v.intents.intents.get? k = none) :
    totalCharged (v.withIntent k i') id = totalCharged v id +
      chargedTo v.intents.budget.decimals id i' := by
  have hsum := JsMap.sum_values_set (chargedTo v.intents.budget.decimals id) v.intents.intents k i'
  rw [hnew] at hsum
  exact (add_zero _).symm.trans hsum

theorem currency_of_sameUnit {b b' : BudgetEngine} (h : b.SameUnit b') :
    b'.currency = b.currency := by
  rw [h]

theorem decimals_of_sameUnit {b b' : BudgetEngine} (h : b.SameUnit b') :
    b'.decimals = b.decimals := by
  rw [h]

theorem Spent.eq {d : Number} {m n : ℤ} (h : Spent d e m) (hn : parseAmount e.spent d = .ok n) :
    n = m := by
  rcases h with hm | ⟨rfl, hzero⟩
  · exact Except.ok.inj (hn.symm.trans hm)
  · exact eq_zero_of_parseAmount_zero (hzero ▸ hn)

theorem Drawn.mono {amount : Money} (hunit : v.intents.budget.SameUnit b)
    (hkeys : ∀ id ∈ v.intents.budget.envelopes.keys, id ∈ b.envelopes.keys)
    (h : Drawn v.intents.budget envelopeId amount) : Drawn b envelopeId amount := by
  have hcurrency := currency_of_sameUnit hunit
  have hdecimals := decimals_of_sameUnit hunit
  refine ⟨?_, ?_, ?_, ?_, hkeys _ h.envelope⟩
  · rw [hcurrency, h.currency]
  · rw [hdecimals, h.decimals]
  · rw [hdecimals]
    exact h.natural
  · rw [hdecimals]
    exact h.amount

theorem Recorded.mono (hunit : v.intents.budget.SameUnit b)
    (hkeys : ∀ id ∈ v.intents.budget.envelopes.keys, id ∈ b.envelopes.keys)
    (h : Recorded v.intents.budget i) : Recorded b i :=
  ⟨h.approval, h.execution, fun hc _ _ hdraws => (h.drawn hc _ _ hdraws).mono hunit hkeys⟩

theorem keys_settled {r : BudgetEngine × Envelope} (hr : b.Settled id e x y r) :
    ∀ k ∈ b.envelopes.keys, k ∈ r.1.envelopes.keys := by
  intro k hk
  rw [hr.engine]
  exact JsMap.mem_keys_set.mpr (.inr hk)

/-- After an operation the spent amounts are those of the other envelopes, and the new one. -/
theorem spent_settled {r : BudgetEngine × Envelope} (total : JsString → ℤ)
    (hr : b.Settled id e x y r)
    (hother : ∀ k e, k ≠ id → b.envelopes.get? k = some e → Spent b.decimals e (total k))
    (hid : total id = y) :
    ∀ k e, r.1.envelopes.get? k = some e → Spent b.decimals e (total k) := by
  intro k e hk
  rw [hr.engine] at hk
  by_cases hkid : k = id
  · subst hkid
    rw [setEnvelope, JsMap.get?_set_self] at hk
    cases hk
    exact .inl (hid ▸ hr.spent)
  · rw [setEnvelope, JsMap.get?_set_of_ne _ _ (Ne.symm hkid)] at hk
    exact hother k e hkid hk

end totals

theorem exists_of_mem_restores {c : JsString} {d : Number} {l l' : List Envelope}
    (h : List.Forall₂ (Restores c d) l l') {e' : Envelope} (he' : e' ∈ l') :
    ∃ e ∈ l, Restores c d e e' := by
  induction h with
  | nil => cases he'
  | cons hrestores _ ih =>
    rcases List.mem_cons.mp he' with rfl | htail
    · exact ⟨_, .head _, hrestores⟩
    · obtain ⟨e, he, hr⟩ := ih htail
      exact ⟨e, .tail _ he, hr⟩

namespace Books

variable {v v' : Vault} {c : VaultCall}

/-- An envelope that is not there has no charges. -/
theorem totalCharged_eq_zero (h : Books v) {id : JsString}
    (hid : id ∉ v.intents.budget.envelopes.keys) : totalCharged v id = 0 := by
  apply List.sum_eq_zero
  intro n hn
  obtain ⟨i, hi, rfl⟩ := List.mem_map.mp hn
  obtain ⟨k, hk⟩ := JsMap.mem_values.mp hi
  by_cases hcharged : i.status.isCharged = true
  · rcases hdraws : draws i.envelopeId i.params with _ | ⟨envelopeId, amount⟩
    · exact chargedTo_of_free hdraws
    · rw [chargedTo_of_draws hcharged hdraws, if_neg]
      rintro rfl
      exact hid ((h.recorded k i hk).drawn hcharged _ _ hdraws).envelope
  · exact chargedTo_of_not (Bool.eq_false_iff.mpr hcharged)

/-- An operation of the budget that leaves the spent amount of its envelope as it is. -/
theorem withSettled (h : Books v) {id : JsString} {e : Envelope} {x x' y : ℤ}
    {r : BudgetEngine × Envelope} (horderly : (v.withBudget r.1).Orderly)
    (hamounts : Amounts v.intents.budget.decimals e x y)
    (hr : v.intents.budget.Settled id e x' y r) : Books (v.withBudget r.1) := by
  have hunit := hr.sameUnit
  refine ⟨horderly, fun k i hi => (h.recorded k i hi).mono hunit (keys_settled hr), ?_⟩
  intro k e' hk
  rw [totalCharged_withBudget hunit]
  have hdecimals : (v.withBudget r.1).intents.budget.decimals = v.intents.budget.decimals :=
    decimals_of_sameUnit hunit
  rw [hdecimals]
  refine spent_settled _ hr (fun k e _ hk => h.spent k e hk) ?_ k e' hk
  exact ((h.spent id e hr.found).eq hamounts.spent).symm

/-- A change of one intent together with an operation on the envelope that it draws from. -/
theorem withCharge (h : Books v) {k id : JsString} {i i' : VaultIntent} {e : Envelope} {x y : ℤ}
    {r : BudgetEngine × Envelope}
    (horderly : ((v.withBudget r.1).withIntent k i').Orderly)
    (hget : v.intents.intents.get? k = some i) (hr : v.intents.budget.Settled id e x y r)
    (hrecorded : Recorded r.1 i')
    (hother : ∀ k, k ≠ id → chargedTo v.intents.budget.decimals k i' =
      chargedTo v.intents.budget.decimals k i)
    (hid : totalCharged v id + chargedTo v.intents.budget.decimals id i' -
      chargedTo v.intents.budget.decimals id i = y) :
    Books ((v.withBudget r.1).withIntent k i') := by
  have hunit := hr.sameUnit
  have hdecimals : (v.withBudget r.1).intents.budget.decimals = v.intents.budget.decimals :=
    decimals_of_sameUnit hunit
  have htotal : ∀ id, totalCharged ((v.withBudget r.1).withIntent k i') id =
      totalCharged v id + chargedTo v.intents.budget.decimals id i' -
        chargedTo v.intents.budget.decimals id i := by
    intro id
    have hget' : (v.withBudget r.1).intents.intents.get? k = some i := hget
    rw [totalCharged_withIntent hget', totalCharged_withBudget hunit, hdecimals]
  refine ⟨horderly, ?_, ?_⟩
  · exact JsMap.forall_set (P := fun _ j => Recorded r.1 j)
      (fun k j hj => (h.recorded k j hj).mono hunit (keys_settled hr)) hrecorded
  · intro k e' hk
    rw [htotal]
    show Spent (v.withBudget r.1).intents.budget.decimals _ _
    rw [hdecimals]
    refine spent_settled (fun id => totalCharged v id +
      chargedTo v.intents.budget.decimals id i' - chargedTo v.intents.budget.decimals id i)
      hr ?_ hid k e' hk
    intro k e hne hk
    rw [hother k hne, add_sub_cancel_right]
    exact h.spent k e hk

theorem step (h : Books v) (hown : c.isOwn = true) (hstep : v.Step c v') : Books v' := by
  have horderly := h.orderly.step hstep
  cases hstep with
  | same => exact h
  | created hr =>
    rename_i id name category createdAt r
    have hunit := (h.orderly.keeps.createEnvelope hr).2
    obtain ⟨hnew, hr⟩ := bind_unit_eq_ok.mp hr
    rw [throwIf_eq_ok, JsMap.has_eq_true] at hnew
    cases hr
    refine ⟨horderly, ?_, ?_⟩
    · intro k i hi
      exact (h.recorded k i hi).mono hunit fun k hk => JsMap.mem_keys_set.mpr (.inr hk)
    · intro k e hk
      rw [totalCharged_withBudget hunit]
      refine JsMap.forall_set (P := fun k e => Spent v.intents.budget.decimals e (totalCharged v k))
        h.spent ?_ k e hk
      exact .inr ⟨h.totalCharged_eq_zero hnew, rfl⟩
  | allocated hr =>
    obtain ⟨e, x, y, n, hamounts, -, hsettled⟩ := allocate_eq_ok hr
    exact h.withSettled horderly hamounts hsettled
  | deallocated hr =>
    obtain ⟨e, x, y, x', hamounts, -, hsettled⟩ := deallocate_eq_ok hr
    exact h.withSettled horderly hamounts hsettled
  | spent hr => cases hown
  | reversed hr => cases hown
  | declared hnew =>
    refine ⟨horderly, ?_, ?_⟩
    · apply JsMap.forall_set h.recorded
      exact ⟨by rintro ⟨⟩, by rintro ⟨⟩, by rintro ⟨⟩⟩
    · intro k e hk
      rw [totalCharged_declared hnew, chargedTo_of_not rfl, add_zero]
      exact h.spent k e hk
  | moved hget hmoved =>
    refine ⟨horderly, ?_, ?_⟩
    · exact JsMap.forall_set h.recorded (hmoved.recorded (h.recorded _ _ hget))
    · intro k e hk
      rw [totalCharged_withIntent hget, hmoved.chargedTo_eq, add_sub_cancel_right]
      exact h.spent k e hk
  | charged hget hstatus hdraws hr =>
    rename_i k i execution id amount r
    obtain ⟨e, x, y, n, z, hamounts, hcurrency, hdecimals, hn, hz, hpos, hle, hsettled⟩ :=
      spend_eq_ok hr
    have hfree : ∀ id, chargedTo v.intents.budget.decimals id i = 0 :=
      fun id => chargedTo_of_not (by rw [hstatus]; rfl)
    have hcharge : ∀ id', chargedTo v.intents.budget.decimals id'
        { i with status := .executed, execution := some execution } =
          if id = id' then n else 0 := by
      intro id'
      rw [chargedTo_of_draws (i := { i with status := .executed, execution := some execution }) rfl
        hdraws, amountIn_of_ok hn]
    refine h.withCharge horderly hget hsettled ⟨?_, fun _ => ⟨execution, rfl⟩, ?_⟩ ?_ ?_
    · exact fun _ => (h.recorded k i hget).approval (by rw [hstatus]; rfl)
    · intro _ id' amount' hdraws'
      obtain ⟨rfl, rfl⟩ := Prod.mk.inj (Option.some.inj (hdraws.symm.trans hdraws'))
      have hkept := (h.orderly.keeps id e hsettled.found).2
      obtain ⟨j, -, -, hj, -⟩ := hkept.committed hz (hpos.trans_le hle)
      have hdrawn : Drawn v.intents.budget id amount := ⟨hcurrency, hdecimals, ⟨j, hj⟩,
        ⟨n, hn, hpos⟩, JsMap.mem_keys.mpr ⟨e, hsettled.found⟩⟩
      exact hdrawn.mono hsettled.sameUnit (keys_settled hsettled)
    · intro k hne
      rw [hcharge, hfree, if_neg (Ne.symm hne)]
    · rw [hcharge, hfree, if_pos rfl, sub_zero,
        ← (h.spent id e hsettled.found).eq hamounts.spent]
  | returned hget hstatus hdraws hr =>
    rename_i k i verification id amount r
    obtain ⟨e, x, y, n, hamounts, -, -, hn, -, -, hsettled⟩ := reverseSpend_eq_ok hr
    have hfree : ∀ id, chargedTo v.intents.budget.decimals id
        { i with status := .failed, verification := some verification } = 0 :=
      fun id => chargedTo_of_not rfl
    have hcharge : ∀ id', chargedTo v.intents.budget.decimals id' i =
        if id = id' then n else 0 := by
      intro id'
      rw [chargedTo_of_draws (by rw [hstatus]; rfl) hdraws, amountIn_of_ok hn]
    refine h.withCharge horderly hget hsettled ⟨by rintro ⟨⟩, by rintro ⟨⟩, by rintro ⟨⟩⟩ ?_ ?_
    · intro k hne
      rw [hcharge, hfree, if_neg (Ne.symm hne)]
    · rw [hcharge, hfree, if_pos rfl, add_zero,
        ← (h.spent id e hsettled.found).eq hamounts.spent]
  | restored hr => cases hown

/-- What is restored of a vault has its intents, and envelopes that have spent the same. -/
theorem restored (h : Books v) {savedAt : JsString}
    (hr : restoreFromSnapshot (v.snapshot savedAt) = .ok v') : Books v' := by
  have horderly := orderly_restored hr
  obtain ⟨-, budget, hbudget, himport, hv'⟩ := restoreFromSnapshot_eq_ok.mp hr
  obtain ⟨l', hl', hentries, hnew⟩ := restoreEnvelopes_new hbudget
  have hintents : v'.intents.intents = v.intents.intents :=
    (Prod.mk.inj (himport.symm.trans (JsMap.importAll_values h.orderly.intents))).1
  have hunit : v.intents.budget.SameUnit budget := by
    have hold := h.orderly.unit
    rw [SameUnit] at hold hnew ⊢
    rw [hnew, hold]
    rfl
  have hkeys : ∀ id ∈ v.intents.budget.envelopes.keys, id ∈ budget.envelopes.keys := by
    intro id hid
    obtain ⟨e, he⟩ := JsMap.mem_keys.mp hid
    have hmem : id ∈ l'.map Envelope.id := by
      rw [map_id_of_restores hl']
      exact List.mem_map.mpr ⟨e, JsMap.mem_values.mpr ⟨id, he⟩, (h.orderly.keeps id e he).1⟩
    rw [JsMap.keys, hentries, List.map_map]
    exact hmem
  have hv' : v' = v.withBudget budget := by
    rw [hintents] at hv'
    exact hv'
  subst hv'
  refine ⟨horderly, fun k i hi => (h.recorded k i hi).mono hunit hkeys, ?_⟩
  intro k e' hk
  have hk : (k, e') ∈ budget.envelopes.entries := JsMap.get?_eq_some.mp hk
  rw [hentries] at hk
  obtain ⟨a, ha, heq⟩ := List.mem_map.mp hk
  obtain ⟨rfl, rfl⟩ := Prod.mk.inj heq
  obtain ⟨e, he, hrestores⟩ := exists_of_mem_restores hl' ha
  obtain ⟨id, hid⟩ := JsMap.mem_values.mp he
  have hspent := h.spent id e hid
  obtain rfl := (h.orderly.keeps id e hid).1
  rw [totalCharged_withBudget hunit, hrestores.id_eq]
  show Spent budget.decimals _ _
  rw [decimals_of_sameUnit hunit]
  obtain ⟨x, y, -, -, -, rfl⟩ := hrestores
  exact hspent

end Books

/-- An intent that has failed is left as it is. -/
theorem failed_kept {v v' : Vault} {c : VaultCall} {id : JsString} {i : VaultIntent}
    (hown : c.isOwn = true) (hstep : v.Step c v') (hi : v.intents.intents.get? id = some i)
    (hstatus : i.status = .failed) : v'.intents.intents.get? id = some i := by
  have hother : ∀ {k : JsString} {j j' : VaultIntent}, v.intents.intents.get? k = some j →
      j.status ≠ .failed → (v.intents.intents.set k j').get? id = some i := by
    intro k j j' hj hne
    rw [JsMap.get?_set_of_ne, hi]
    rintro rfl
    rw [hi] at hj
    cases hj
    exact hne hstatus
  cases hstep with
  | same => exact hi
  | created hr => exact hi
  | allocated hr => exact hi
  | deallocated hr => exact hi
  | spent hr => cases hown
  | reversed hr => cases hown
  | declared hnew =>
    refine (JsMap.get?_set_of_ne _ _ ?_).trans hi
    rintro rfl
    rw [hi] at hnew
    cases hnew
  | moved hget hmoved =>
    refine hother hget ?_
    intro hfailed
    cases hmoved with
    | approved approval h => rw [hfailed] at h; cases h
    | rejected approval h => rw [hfailed] at h; rcases h with h | h <;> cases h
    | executing h => rw [hfailed] at h; cases h
    | verified verification h => rw [hfailed] at h; cases h
    | failed verification h => rw [hfailed] at h; rcases h with h | ⟨h, -⟩ <;> cases h
    | executed execution h hfree => rw [hfailed] at h; cases h
  | charged hget hstatus hdraws hr => exact hother hget (by rw [hstatus]; decide)
  | returned hget hstatus hdraws hr => exact hother hget (by rw [hstatus]; decide)
  | restored hr => cases hown

/-! ## Every run -/

theorem books_new (config : VaultConfig) : Books (.new config) :=
  ⟨orderly_new config, fun _ _ h => (by cases h), fun _ _ h => (by cases h)⟩

/-- The snapshots of a run are those of vaults whose books are in order. -/
structure SavedBooks (s : SavedVault) : Prop where
  vault : Books s.vault
  snapshots : ∀ snapshot ∈ s.snapshots, ∃ v savedAt, Books v ∧ snapshot = v.snapshot savedAt

theorem savedBooks_of_reachable {s : SavedVault} (h : savedVaultSystem.Reachable s) :
    SavedBooks s := by
  apply h.invariant
  · rintro s ⟨config, rfl⟩
    exact ⟨books_new config, by rintro _ ⟨⟩⟩
  · rintro s (c | savedAt | index) s' hs hnext
    · obtain ⟨hown, hnext⟩ := Option.ite_none_right_eq_some.mp hnext
      cases hnext
      exact ⟨hs.vault.step hown (s.vault.step_call c), hs.snapshots⟩
    · cases hnext
      refine ⟨hs.vault, List.forall_mem_append.mpr ⟨hs.snapshots, ?_⟩⟩
      exact List.forall_mem_singleton.mpr ⟨s.vault, savedAt, hs.vault, rfl⟩
    · obtain ⟨snapshot, hsnapshot, hnext⟩ := Option.map_eq_some_iff.mp hnext
      cases hnext
      refine ⟨?_, hs.snapshots⟩
      obtain ⟨v, savedAt, hv, rfl⟩ := hs.snapshots _ (List.mem_of_getElem? hsnapshot)
      show Books (s.vault.kept ((restoreFromSnapshot (v.snapshot savedAt)).map fun r => (r, ())))
      rcases hrestore : restoreFromSnapshot (v.snapshot savedAt) with e | restored
      · exact hs.vault
      · exact hv.restored hrestore

namespace Books

variable {v : Vault}

theorem coherent (h : Books v) : Coherent v where
  amounts id e he := by
    have hkept := (h.orderly.keeps id e he).2
    have hspent := h.spent id e he
    rcases hkept.amounts with hfresh | ⟨x, y, hcommitted⟩
    · have hzero : totalCharged v id = 0 := by
        rcases hspent with hparse | ⟨hzero, -⟩
        · exact eq_zero_of_parseAmount_zero (hfresh.spent ▸ hparse)
        · exact hzero
      exact ⟨0, 0, ⟨.inr ⟨rfl, hfresh.allocated⟩, .inr ⟨rfl, hfresh.spent⟩,
        .inr ⟨rfl, hfresh.available⟩⟩, le_rfl, le_rfl, hzero.symm⟩
    · have hdecimals := hkept.decimals
      refine ⟨x, y, ⟨.inl ?_, .inl ?_, .inl ?_⟩, hcommitted.nonneg, hcommitted.covered,
        hspent.eq hcommitted.spent⟩
      · rw [hdecimals]
        exact hcommitted.allocated
      · rw [hdecimals]
        exact hcommitted.spent
      · rw [hdecimals]
        exact hcommitted.available
  records id i hi hcharged := by
    have hrecorded := h.recorded id i hi
    refine ⟨hrecorded.approval ?_, hrecorded.execution hcharged, ?_⟩
    · cases hstatus : i.status <;> rw [hstatus] at hcharged <;> first | rfl | cases hcharged
    · intro envelopeId amount hdraws
      obtain ⟨n, hn, hpos⟩ := (hrecorded.drawn hcharged _ _ hdraws).amount
      rw [amountIn_of_ok hn]
      exact hpos

theorem chargedTo_nonneg (h : Books v) {id : JsString} {i : VaultIntent}
    (hi : v.intents.intents.get? id = some i) (envelopeId : JsString) :
    0 ≤ chargedTo v.intents.budget.decimals envelopeId i := by
  by_cases hcharged : i.status.isCharged = true
  · rcases hdraws : draws i.envelopeId i.params with _ | ⟨drawnId, amount⟩
    · rw [chargedTo_of_free hdraws]
    · obtain ⟨n, hn, hpos⟩ := ((h.recorded id i hi).drawn hcharged _ _ hdraws).amount
      rw [chargedTo_of_draws hcharged hdraws, amountIn_of_ok hn]
      split <;> omega
  · rw [chargedTo_of_not (Bool.eq_false_iff.mpr hcharged)]

theorem chargedTo_le (h : Books v) {id : JsString} {i : VaultIntent}
    (hi : v.intents.intents.get? id = some i) (envelopeId : JsString) :
    chargedTo v.intents.budget.decimals envelopeId i ≤ totalCharged v envelopeId := by
  apply List.single_le_sum
  · intro n hn
    obtain ⟨j, hj, rfl⟩ := List.mem_map.mp hn
    obtain ⟨k, hk⟩ := JsMap.mem_values.mp hj
    exact h.chargedTo_nonneg hk envelopeId
  · exact List.mem_map_of_mem (JsMap.mem_values.mpr ⟨id, hi⟩)

/-- What an executed intent has drawn can be given back. -/
theorem exists_reverseSpend (h : Books v) {id envelopeId : JsString} {i : VaultIntent}
    {amount : Money} (hi : v.intents.intents.get? id = some i) (hstatus : i.status = .executed)
    (hdraws : draws i.envelopeId i.params = some (envelopeId, amount)) :
    ∃ r, v.intents.budget.reverseSpend envelopeId amount = .ok r := by
  have hcharged : i.status.isCharged = true := by rw [hstatus]; rfl
  obtain ⟨hcurrency, hdecimals, ⟨k, hk⟩, ⟨n, hn, hpos⟩, henvelope⟩ :=
    (h.recorded id i hi).drawn hcharged _ _ hdraws
  obtain ⟨e, he⟩ := JsMap.mem_keys.mp henvelope
  have hcharge := h.chargedTo_le hi envelopeId
  rw [chargedTo_of_draws hcharged hdraws, if_pos rfl, amountIn_of_ok hn] at hcharge
  have hspent := h.spent envelopeId e he
  -- an envelope that has spent something is not a new one
  rcases (h.orderly.keeps envelopeId e he).2.amounts with hfresh | ⟨x, y, hcommitted⟩
  · exfalso
    rcases hspent with hparse | ⟨hzero, -⟩
    · have hzero := eq_zero_of_parseAmount_zero (hfresh.spent ▸ hparse)
      omega
    · omega
  · obtain rfl := hspent.eq hcommitted.spent
    exact BudgetEngine.exists_reverseSpend hcurrency hdecimals hk he hcommitted.toAmounts hn hpos
      hcharge

theorem exists_refund (h : Books v) {id : JsString} {i : VaultIntent}
    (hi : v.intents.intents.get? id = some i) (hstatus : i.status = .executed) :
    ∃ b, refund v.intents.budget i = .ok b ∧ v.intents.budget.SameUnit b := by
  rw [refund]
  rcases hdraws : draws i.envelopeId i.params with _ | ⟨envelopeId, amount⟩
  · exact ⟨_, rfl, rfl⟩
  · obtain ⟨r, hr⟩ := h.exists_reverseSpend hi hstatus hdraws
    exact ⟨r.1, map_eq_ok.mpr ⟨r, hr, rfl⟩, (h.orderly.keeps.reverseSpend hr).2⟩

theorem returns (h : Books v) : Returns v where
  once id i hi hstatus discrepancies verifiedAt := by
    obtain ⟨b, hb, hunit⟩ := h.exists_refund hi hstatus
    have hfail := recordIntentFailure_of_executed discrepancies verifiedAt hi hstatus
    rw [hb] at hfail
    refine ⟨_, _, hfail, rfl, JsMap.get?_set_self _ _ _, ?_⟩
    intro envelopeId
    have hi' : (v.withBudget b).intents.intents.get? id = some i := hi
    have hdecimals : (v.withBudget b).intents.budget.decimals = v.intents.budget.decimals :=
      decimals_of_sameUnit hunit
    rw [totalCharged_withIntent hi', totalCharged_withBudget hunit, hdecimals,
      chargedTo_of_not rfl, add_zero]
  final id i hi hstatus c hown := failed_kept hown (v.step_call c) hi hstatus

end Books

/-- In every run of the calls of a vault, of snapshots and of restores the budget and the intents
are in step, and an executed intent that fails gives its amount back once. -/
theorem coherent_of_reachable {s : SavedVault} (h : savedVaultSystem.Reachable s) :
    Coherent s.vault ∧ Returns s.vault :=
  ⟨(savedBooks_of_reachable h).vault.coherent, (savedBooks_of_reachable h).vault.returns⟩

/-- The calls by which a payment is declared, approved and executed. -/
def paymentCalls (id amount : String) : List VaultCall :=
  [.declare (js id) (js "transfer") (js "rent") ⟨some ⟨js amount, js "USD", .ofNat 2⟩, .undefined⟩
      (some (js "e1")) (js "t1"),
    .approve (js id) none (js "t2"), .markExecuting (js id),
    .recordExecution (js id) (js "eip155:1") (js "0x1") (js "t3")]

/-- Two payments from one envelope, of which the second fails, in a vault that is then restored
from the snapshot before the failure; and the payment fails again. -/
def paymentRun : List SavedVaultCall :=
  ([creation, funding] ++ paymentCalls "i1" "0.40" ++ paymentCalls "i2" "0.25").map .own ++
    [.save (js "now"), .own (.recordFailure (js "i2") [js "dropped"] (js "t4")), .restore 0,
      .own (.recordFailure (js "i2") [js "dropped"] (js "t5"))]

theorem coherent_of_reachable_payments :
    ∃ s, savedVaultSystem.run ⟨.new cents, []⟩ paymentRun = some s ∧
      s.vault.intents.intents.values.map (fun i => i.status) = [.executed, .failed] ∧
      totalCharged s.vault (js "e1") = 40 ∧ Coherent s.vault ∧ Returns s.vault := by
  obtain ⟨s, hs, hstatus, hcharged⟩ : ∃ s,
      savedVaultSystem.run ⟨.new cents, []⟩ paymentRun = some s ∧
        s.vault.intents.intents.values.map (fun i => i.status) = [.executed, .failed] ∧
        totalCharged s.vault (js "e1") = 40 := ⟨_, rfl, by decide +kernel, by decide +kernel⟩
  have hreachable : savedVaultSystem.Reachable s := System.Reachable.run (.init ⟨cents, rfl⟩) hs
  exact ⟨s, hs, hstatus, hcharged, coherent_of_reachable hreachable⟩

end Attestia.Vault
