import Attestia.Treasury.Execution
import Attestia.Treasury.Steps

/-!
# Generated entry ids

The ids of the entries of a posting are formed from the id of a plan or a run and the id of a
payee, with a colon between them that both may contain: two plans or two runs can come to the same
ids, and the one that is executed second is refused.
-/

namespace Attestia.Treasury

open Lib JsonNumber Ledger Effect

/-! ## Duplicate ids -/

def NotDuplicate (e : LedgerError) : Prop := e.code ≠ .duplicateEntryId

section money

variable {amount : JsString} {decimals : Number} {a b m : Money}

theorem throws_parseAmount : Throws NotDuplicate (parseAmount amount decimals) := by
  have hcode : ∀ message, NotDuplicate ⟨.invalidAmount, message⟩ := fun _ h => (nomatch h)
  unfold parseAmount
  dsimp only
  split
  · exact throws_error (hcode _)
  · split
    · exact throws_error (hcode _)
    · split
      · exact throws_error (hcode _)
      · exact throws_ok

theorem throws_validateMoney : Throws NotDuplicate (validateMoney m) := by
  have hcode : ∀ message, NotDuplicate ⟨.invalidMoney, message⟩ := fun _ h => (nomatch h)
  unfold validateMoney
  split
  · exact throws_error (hcode _)
  · split
    · exact throws_error (hcode _)
    · split
      · exact throws_error (hcode _)
      · exact throws_parseAmount.map

theorem throws_combineMoney {op : ℤ → ℤ → ℤ} : Throws NotDuplicate (combineMoney op a b) := by
  have hcode : ∀ message, NotDuplicate ⟨.currencyMismatch, message⟩ := fun _ h => (nomatch h)
  refine Throws.bind ?_ fun _ => throws_parseAmount.bind fun _ => throws_parseAmount.bind fun _ =>
    throws_ok
  unfold assertSameCurrency
  split
  · exact throws_error (hcode _)
  · split
    · exact throws_error (hcode _)
    · exact throws_ok

end money

section appends

theorem duplicate_assertUniqueIds {entryIds batchIds : List JsString} {entries : List LedgerEntry}
    {e : LedgerError} (h : assertUniqueIds entryIds batchIds entries = .error e) :
    e.code = .duplicateEntryId := by
  induction entries generalizing batchIds with
  | nil => cases h
  | cons entry entries ih =>
    rw [assertUniqueIds] at h
    split at h
    · cases h
      rfl
    · split at h
      · cases h
        rfl
      · exact ih h

/-- The rules behind that of the ids do not speak of ids. -/
theorem throws_rules (ledger : Ledger) (entries : List LedgerEntry) {α : Type}
    {x : Except LedgerError α} (hx : Throws NotDuplicate x) : Throws NotDuplicate (do
      forM entries fun entry => (ledger.accounts.assertExists entry.accountId).map fun _ => ()
      forM entries fun entry => validateMoney entry.money
      forM entries assertPositive
      assertBalanced entries
      x) := by
  refine Throws.bind (throws_forM fun e _ => Throws.map ?_) fun _ =>
    Throws.bind (throws_forM fun e _ => throws_validateMoney) fun _ =>
      Throws.bind (throws_forM fun e _ => ?_) fun _ => Throws.bind ?_ fun _ => hx
  · unfold AccountRegistry.assertExists
    split
    · exact throws_error fun h => (nomatch h)
    · exact throws_ok
  · refine throws_parseAmount.bind fun _ => ?_
    split
    · exact throws_error fun h => (nomatch h)
    · exact throws_ok
  · refine Throws.bind (throws_foldlM (fun _ _ => throws_parseAmount.bind fun _ => throws_ok) _)
      fun totals => ?_
    split
    · exact throws_ok
    · exact throws_error fun h => (nomatch h)

/-- A batch of one correlation id is refused for its ids exactly where they are not new or not
distinct. -/
theorem duplicate_append_iff {ledger : Ledger} {first : LedgerEntry} {rest : List LedgerEntry}
    {description : Option JsString}
    (hcorrelation : ∀ e ∈ first :: rest, e.correlationId = first.correlationId) :
    (∃ message, ledger.append (first :: rest) description = .error ⟨.duplicateEntryId, message⟩) ↔
      ¬ ((∀ e ∈ first :: rest, e.id ∉ ledger.entryIds) ∧
        ((first :: rest).map LedgerEntry.id).Nodup) := by
  have hcorr : forM (first :: rest) (assertCorrelationId first.correlationId) = .ok () :=
    forM_eq_ok.mpr fun e he => assertCorrelationId_eq_ok.mpr (hcorrelation e he)
  have hunique := @assertUniqueIds_eq_ok ledger.entryIds [] (first :: rest)
  simp only [List.not_mem_nil, not_false_eq_true, and_true] at hunique
  rw [append, ← hunique]
  dsimp only
  rw [hcorr]
  change (∃ message, (assertUniqueIds ledger.entryIds [] (first :: rest) >>= _) = _) ↔ _
  rcases hids : assertUniqueIds ledger.entryIds [] (first :: rest) with e | ⟨⟩
  · constructor
    · intro _ h
      cases h
    · intro _
      obtain ⟨code, message⟩ := e
      have hcode := duplicate_assertUniqueIds hids
      dsimp only at hcode
      subst hcode
      exact ⟨message, rfl⟩
  · constructor
    · rintro ⟨message, h⟩
      exact absurd rfl (throws_rules ledger (first :: rest) throws_ok _ h)
    · exact fun h => absurd rfl h

end appends

/-! ## Executions -/

/-- An execution is refused for the id of an entry. -/
def Duplicate {ε α : Type} (result : Except (ExecutionError ε) α) : Prop :=
  ∃ message, result = .error (.ledger ⟨.duplicateEntryId, message⟩)

section

variable {ε α : Type}

theorem duplicate_ledger_iff {e : LedgerError} :
    Duplicate (.error (.ledger e) : Except (ExecutionError ε) α) ↔ e.code = .duplicateEntryId := by
  constructor
  · rintro ⟨message, h⟩
    cases h
    rfl
  · intro h
    exact ⟨e.message, by rw [← h]⟩

theorem not_duplicate_own (e : ε) : ¬ Duplicate (.error (.own e) : Except (ExecutionError ε) α) :=
  fun ⟨_, h⟩ => nomatch h

theorem not_duplicate_ok (a : α) : ¬ Duplicate (.ok a : Except (ExecutionError ε) α) :=
  fun ⟨_, h⟩ => nomatch h

instance : (result : Except (ExecutionError ε) α) → Decidable (Duplicate result)
  | .error (.ledger _) => decidable_of_iff _ duplicate_ledger_iff.symm
  | .error (.own e) => .isFalse (not_duplicate_own e)
  | .ok a => .isFalse (not_duplicate_ok a)

end

/-- The ids of a posting are new and distinct. -/
def Posting.IdsFit (p : Posting) (ledger : Ledger) : Prop :=
  (∀ id ∈ p.entryIds, id ∉ ledger.entryIds) ∧ p.entryIds.Nodup

/-- An error that does not speak of the ids of entries. -/
def OtherError {ε : Type} : ExecutionError ε → Prop
  | .own _ => True
  | .ledger e => NotDuplicate e

theorem entryIds_withAccounts (clock : Clock) (refs : List AccountRef) (ledger : Ledger) :
    (withAccounts clock refs ledger).entryIds = ledger.entryIds := by
  rw [withAccounts_eq]

theorem Posting.entryIds_posted (p : Posting) (clock : Clock) (ledger : Ledger) :
    (p.posted clock ledger).entryIds = ledger.entryIds ++ p.entryIds := by
  unfold posted
  split
  · rename_i hnil
    rw [entryIds_withAccounts, entryIds, hnil, List.flatMap_nil, List.append_nil]
  · rw [← Posting.map_id_entries clock.now]

theorem duplicate_post_iff {p : Posting} {clock : Clock} {ledger : Ledger} :
    (∃ message, p.post clock ledger = .error ⟨.duplicateEntryId, message⟩) ↔ ¬ p.IdsFit ledger := by
  rw [Posting.post, Posting.IdsFit, ← Posting.map_id_entries clock.now]
  by_cases hnil : p.transfers = []
  · have hentries : p.entries clock.now = [] := by rw [Posting.entries, hnil]; rfl
    rw [if_pos hnil, hentries]
    constructor
    · rintro ⟨message, h⟩
      cases h
    · intro h
      apply absurd _ h
      exact ⟨fun id hid => absurd hid List.not_mem_nil, List.nodup_nil⟩
  · obtain ⟨t, ts, hts⟩ := List.exists_cons_of_ne_nil hnil
    obtain ⟨first, rest, hentries⟩ : ∃ first rest, p.entries clock.now = first :: rest := by
      rw [Posting.entries, hts, List.flatMap_cons]
      exact ⟨_, _, rfl⟩
    have hcorrelation : ∀ e ∈ first :: rest, e.correlationId = first.correlationId := by
      rw [← hentries]
      intro e he
      have hfirst : first ∈ p.entries clock.now := hentries ▸ .head _
      rw [(Posting.mem_entries he).1, (Posting.mem_entries hfirst).1]
    have hiff := @duplicate_append_iff (withAccounts clock p.accounts ledger) first rest
      (some p.description) hcorrelation
    rw [if_neg hnil, hentries, ← entryIds_withAccounts clock p.accounts, List.forall_mem_map, ← hiff]
    refine exists_congr fun message => ?_
    rcases (withAccounts clock p.accounts ledger).append (first :: rest) (some p.description) with
      e | r
    · exact ⟨fun h => congrArg Except.error (Except.error.inj h),
        fun h => congrArg Except.error (Except.error.inj h)⟩
    · constructor <;> intro h <;> cases h

/-- The checks aside, an execution is refused for the ids of its posting. -/
theorem duplicate_executePlan_iff {M ε α ι : Type} {clock : Clock}
    {plan : M → Except (ExecutionError ε) (Posting × M × α)} {s : M × Ledger} {due : ι → Prop}
    {posting : ι → Posting} (hother : Throws OtherError (plan s.1))
    (hdue : ∀ p, (∃ m a, plan s.1 = .ok (p, m, a)) ↔ ∃ i, due i ∧ p = posting i) :
    Duplicate (outcome (executePlan clock plan) s).1 ↔
      ∃ i, due i ∧ ¬ (posting i).IdsFit s.2 := by
  rw [outcome_executePlan]
  rcases hplan : plan s.1 with e | ⟨p, m, a⟩
  · constructor
    · rintro ⟨message, h⟩
      cases h
      exact absurd rfl (hother _ hplan)
    · rintro ⟨i, hi, -⟩
      obtain ⟨m, a, h⟩ := (hdue _).mpr ⟨i, hi, rfl⟩
      rw [hplan] at h
      cases h
  · obtain ⟨i, hi, rfl⟩ := (hdue p).mp ⟨m, a, hplan⟩
    have honly : ∀ j, due j → posting j = posting i := by
      intro j hj
      obtain ⟨m', a', h⟩ := (hdue _).mpr ⟨j, hj, rfl⟩
      rw [hplan] at h
      exact (Prod.mk.inj (Except.ok.inj h)).1.symm
    have hiff : (∃ j, due j ∧ ¬ (posting j).IdsFit s.2) ↔ ¬ (posting i).IdsFit s.2 := by
      constructor
      · rintro ⟨j, hj, hids⟩
        rwa [honly j hj] at hids
      · exact fun hids => ⟨i, hi, hids⟩
    rw [hiff, ← @duplicate_post_iff _ clock]
    refine exists_congr fun message => ?_
    dsimp only
    rcases (posting i).post clock s.2 with e | ledger
    · exact ⟨fun h => congrArg Except.error (ExecutionError.ledger.inj (Except.error.inj h)),
        fun h => congrArg (Except.error ∘ ExecutionError.ledger) (Except.error.inj h)⟩
    · constructor <;> intro h <;> cases h

/-! ## What the checks throw -/

section checks

theorem otherError_ledger {ε : Type} (e : LedgerError) (h : NotDuplicate e) :
    OtherError (.ledger e : ExecutionError ε) := h

theorem throws_bigInt {q : ℚ} : Throws OtherError (bigInt q) := by
  unfold bigInt
  split
  · exact throws_ok
  · exact throws_error trivial

theorem throws_resolveWith {engine : DistributionEngine} {plan : DistributionPlan}
    {recipients : List DistributionRecipient} {amountOf : DistributionRecipient → Distributes Money}
    (h : ∀ r, Throws OtherError (amountOf r)) :
    Throws OtherError (engine.resolveWith plan recipients amountOf) := by
  refine Throws.bind (throws_foldlM (fun sums r => ?_) _) fun sums =>
    Throws.bind (throws_combineMoney.mapError otherError_ledger) fun _ => throws_ok
  exact (h r).bind fun _ =>
    Throws.bind (throws_combineMoney.mapError otherError_ledger) fun _ => throws_ok

theorem throws_resolvePayouts (engine : DistributionEngine) (plan : DistributionPlan) :
    Throws OtherError (engine.resolvePayouts plan) := by
  unfold DistributionEngine.resolvePayouts
  split
  · refine Throws.bind (throws_parseAmount.mapError otherError_ledger) fun _ =>
      throws_resolveWith fun r => throws_bigInt.bind fun _ => throws_ok
  · exact throws_resolveWith fun r => throws_combineMoney.mapError otherError_ledger
  · refine Throws.bind (throws_parseAmount.mapError otherError_ledger) fun _ =>
      throws_resolveWith fun r => ?_
    split
    · exact throws_bigInt.bind fun _ => throws_bigInt.bind fun _ => throws_ok
    · exact throws_ok

theorem throws_planDistribution (clock : Clock) (id : JsString) (engine : DistributionEngine) :
    Throws OtherError (engine.planDistribution clock id) := by
  refine Throws.bind ?_ fun plan => Throws.bind (throws_throwIf trivial) fun _ =>
    (throws_resolvePayouts engine plan).bind fun result =>
      Throws.bind (throws_filterChecked fun payout =>
        Throws.mapError (Throws.map (Throws.map throws_parseAmount)) otherError_ledger) fun _ =>
          Throws.bind (throws_forM fun payout _ => ?_) fun _ => throws_ok
  · unfold DistributionEngine.getPlan
    split
    · exact throws_error trivial
    · exact throws_ok
  · exact Throws.bind (throws_validateMoney.mapError otherError_ledger) fun _ =>
      Throws.bind (Throws.mapError (Throws.map throws_parseAmount) otherError_ledger) fun _ =>
        throws_throwIf trivial

theorem throws_planRun (clock : Clock) (id : JsString) (engine : PayrollEngine) :
    Throws OtherError (engine.planRun clock id) := by
  have hown : ∀ e : PayrollError, True → OtherError (.own e) := fun _ _ => trivial
  refine Throws.bind (Throws.mapError (fun _ _ => trivial) hown) fun run =>
    Throws.bind (throws_throwIf trivial) fun _ =>
      Throws.bind (throws_forM fun entry _ => ?_) fun _ => throws_ok
  unfold assertPayable
  split
  · exact throws_error trivial
  · exact Throws.bind (Throws.mapError (Throws.map throws_parseAmount) otherError_ledger) fun _ =>
      throws_throwIf trivial

theorem throws_planRequest (clock : Clock) (id : JsString) (m : FundingGateManager) :
    Throws OtherError ((m.planRequest clock id).mapError ExecutionError.own) :=
  Throws.mapError (P := fun _ => True) (fun _ _ => trivial) fun _ _ => trivial

end checks

/-! ## Texts of the ids -/

/-- The texts in front of the sides fix the ids. -/
theorem eq_of_sides {a b id : JsString} (ha : id = a ++ js ":debit" ∨ id = a ++ js ":credit")
    (hb : id = b ++ js ":debit" ∨ id = b ++ js ":credit") : a = b := by
  have hends : ∀ x y : JsString, x ++ js ":debit" ≠ y ++ js ":credit" := by
    intro x y h
    have hlast := congrArg (fun s => s.reverse.take 3) h
    simp only [List.reverse_append] at hlast
    have hdebit : ((js ":debit").reverse ++ x.reverse).take 3 = (js "bit").reverse := rfl
    have hcredit : ((js ":credit").reverse ++ y.reverse).take 3 = (js "dit").reverse := rfl
    rw [hdebit, hcredit] at hlast
    revert hlast
    decide
  rcases ha with rfl | rfl <;> rcases hb with hb | hb
  · exact List.append_cancel_right hb
  · exact absurd hb (hends a b)
  · exact absurd hb.symm (hends b a)
  · exact List.append_cancel_right hb

theorem Posting.mem_entryIds {p : Posting} {id : JsString} :
    id ∈ p.entryIds ↔ ∃ t ∈ p.transfers, id = t.base ++ js ":debit" ∨ id = t.base ++ js ":credit" := by
  simp [entryIds]

/-- Two postings have an id in common where two transfers start alike. -/
theorem Posting.exists_mem_entryIds_iff {p q : Posting} :
    (∃ id ∈ p.entryIds, id ∈ q.entryIds) ↔
      ∃ t ∈ p.transfers, ∃ u ∈ q.transfers, t.base = u.base := by
  constructor
  · rintro ⟨id, hp, hq⟩
    obtain ⟨t, ht, hid⟩ := mem_entryIds.mp hp
    obtain ⟨u, hu, hid'⟩ := mem_entryIds.mp hq
    exact ⟨t, ht, u, hu, eq_of_sides hid hid'⟩
  · rintro ⟨t, ht, u, hu, heq⟩
    exact ⟨_, mem_entryIds.mpr ⟨t, ht, .inl rfl⟩, mem_entryIds.mpr ⟨u, hu, .inl (by rw [heq])⟩⟩

theorem Posting.nodup_entryIds {p : Posting} (h : (p.transfers.map Transfer.base).Nodup) :
    p.entryIds.Nodup := by
  rw [entryIds, List.nodup_flatMap]
  constructor
  · intro t _
    rw [List.nodup_cons, List.mem_singleton]
    refine ⟨fun heq => ?_, List.nodup_singleton _⟩
    have hlast := List.append_cancel_left heq
    revert hlast
    decide
  · rw [List.Nodup, List.pairwise_map] at h
    refine h.imp fun {t u} hne => ?_
    rw [Function.onFun, List.disjoint_left]
    intro id ht hu
    rw [List.mem_pair] at ht hu
    exact hne (eq_of_sides ht hu)

/-! ## Issued ids -/

/-- The payouts of a plan that are written. -/
def DistributionEngine.payoutsOf (engine : DistributionEngine) (plan : DistributionPlan) :
    List DistributionPayout :=
  match engine.resolvePayouts plan with
  | .ok result => result.payouts.filter fun p => p.amount.scaled ≠ 0
  | .error _ => []

theorem DistributionEngine.Due.payouts_eq {engine : DistributionEngine} {id : JsString}
    {plan : DistributionPlan} {payouts : List DistributionPayout}
    (h : engine.Due id plan payouts) : payouts = engine.payoutsOf plan := by
  obtain ⟨result, hresult, hpayouts⟩ := h.resolved
  rw [payoutsOf, hresult, hpayouts]

theorem DistributionEngine.nodup_payoutsOf {engine : DistributionEngine} {plan : DistributionPlan}
    (h : (plan.recipients.map DistributionRecipient.payeeId).Nodup) :
    ((engine.payoutsOf plan).map DistributionPayout.payeeId).Nodup := by
  unfold payoutsOf
  split
  · rename_i result hresult
    exact h.sublist ((List.filter_sublist.map _).trans (payeeIds_of_resolvePayouts hresult))
  · exact List.nodup_nil

/-- The id of an entry of an execution. -/
def Issued (t : Treasury) (id : JsString) : Prop :=
  (∃ plan ∈ t.distributions.plans.values, plan.status = .executed ∧
    id ∈ (distributionPosting plan (t.distributions.payoutsOf plan)).entryIds) ∨
  (∃ run ∈ t.payroll.runs.values, run.status = .executed ∧ id ∈ (payrollPosting run).entryIds) ∨
  ∃ request ∈ t.funding.requests.values, request.status = .executed ∧
    id ∈ (fundingPosting request).entryIds

def Uninterrupted (_ : Treasury) : Event → Prop
  | .call _ => True
  | .restart _ => False

section

variable {t : Treasury} {id key : JsString}

theorem issued_setPlan {plan : DistributionPlan}
    (hold : ∀ p, t.distributions.plans.get? key = some p → p.status ≠ .executed) :
    Issued { t with distributions := t.distributions.setPlan key plan } id ↔
      Issued t id ∨ plan.status = .executed ∧
        id ∈ (distributionPosting plan (t.distributions.payoutsOf plan)).entryIds := by
  have hset := @JsMap.exists_values_set _ _ _ t.distributions.plans key plan
    (fun p => p.status = .executed ∧
      id ∈ (distributionPosting p (t.distributions.payoutsOf p)).entryIds)
    fun p hp hexecuted => hold p hp hexecuted.1
  exact (or_congr_left hset).trans or_right_comm

theorem issued_setRun {run : PayrollRun}
    (hold : ∀ r, t.payroll.runs.get? key = some r → r.status ≠ .executed) :
    Issued { t with payroll := t.payroll.setRun key run } id ↔
      Issued t id ∨ run.status = .executed ∧ id ∈ (payrollPosting run).entryIds := by
  have hset := @JsMap.exists_values_set _ _ _ t.payroll.runs key run
    (fun r => r.status = .executed ∧ id ∈ (payrollPosting r).entryIds)
    fun r hr hexecuted => hold r hr hexecuted.1
  exact (or_congr_right (or_congr_left hset)).trans ((or_congr_right or_right_comm).trans or_assoc.symm)

theorem issued_setRequest {request : FundingRequest}
    (hold : ∀ r, t.funding.requests.get? key = some r → r.status ≠ .executed) :
    Issued { t with funding := t.funding.set key request } id ↔
      Issued t id ∨ request.status = .executed ∧ id ∈ (fundingPosting request).entryIds := by
  have hset := @JsMap.exists_values_set _ _ _ t.funding.requests key request
    (fun r => r.status = .executed ∧ id ∈ (fundingPosting r).entryIds)
    fun r hr hexecuted => hold r hr hexecuted.1
  exact (or_congr_right (or_congr_right hset)).trans
    ((or_congr_right or_assoc.symm).trans or_assoc.symm)

end

/-- A request changes without an execution. -/
theorem FundingGateManager.Change.not_executed {m : FundingGateManager} {id : JsString}
    {request : FundingRequest} (h : m.Change id request []) :
    (∀ r, m.requests.get? id = some r → r.status ≠ .executed) ∧ request.status ≠ .executed := by
  have hold : ∀ {r}, m.requests.get? id = some r → r.status ≠ .executed →
      ∀ r', m.requests.get? id = some r' → r'.status ≠ .executed := by
    intro r hr hne r' hr'
    rw [hr] at hr'
    rwa [← Option.some.inj hr']
  cases h with
  | submitted hnew hstatus =>
    refine ⟨fun r hr => absurd (JsMap.mem_keys.mpr ⟨r, hr⟩) hnew, ?_⟩
    rw [hstatus]
    decide
  | gate1 hget hstatus => exact ⟨hold hget (by rw [hstatus]; decide), fun h => (nomatch h)⟩
  | gate2 hget hstatus => exact ⟨hold hget (by rw [hstatus]; decide), fun h => (nomatch h)⟩
  | rejected hget hstatus hupdated =>
    refine ⟨hold hget hstatus.2, ?_⟩
    rw [hupdated]
    decide

/-- The ledger holds the ids of the executions. -/
theorem issued_step {t t' : Treasury} (h : ∀ id, id ∈ t.ledger.entryIds ↔ Issued t id)
    (hstep : t.Step t') (id : JsString) : id ∈ t'.ledger.entryIds ↔ Issued t' id := by
  have hposted : ∀ {p : Posting} {clock ledger}, p.Covered → p.post clock t.ledger = .ok ledger →
      (id ∈ ledger.entryIds ↔ Issued t id ∨ id ∈ p.entryIds) := by
    intro p clock ledger hcovered hpost
    obtain ⟨-, rfl⟩ := (Posting.post_eq_ok_iff hcovered).mp hpost
    rw [Posting.entryIds_posted, List.mem_append, h]
  cases hstep with
  | same => exact h id
  | payee hnew hactive => exact h id
  | schedule hpayee => exact h id
  | runCreated hnew hstatus hpayees =>
    rw [issued_setRun fun r hr => absurd (JsMap.mem_keys.mpr ⟨r, hr⟩) hnew, hstatus]
    simp [h]
  | runApproved hget hstatus =>
    rw [issued_setRun fun r hr => by rw [hget] at hr; cases hr; rw [hstatus]; decide]
    simp [h]
  | runExecuted hdue hpost =>
    rw [hposted (PayrollEngine.covered_payrollPosting _) hpost]
    refine ((issued_setRun fun r hr => ?_).trans ?_).symm
    swap
    · exact or_congr_right (and_iff_right rfl)
    have hget := hdue.get
    rw [hr] at hget
    cases hget
    rw [hdue.approved]
    decide
  | planCreated hnew hstatus hpayees =>
    rw [issued_setPlan fun p hp => absurd (JsMap.mem_keys.mpr ⟨p, hp⟩) hnew, hstatus]
    simp [h]
  | planApproved hget hstatus =>
    rw [issued_setPlan fun p hp => by rw [hget] at hp; cases hp; rw [hstatus]; decide]
    simp [h]
  | planExecuted hdue hpost =>
    rw [hposted (DistributionEngine.covered_distributionPosting _ _) hpost, hdue.payouts_eq]
    refine ((issued_setPlan fun p hp => ?_).trans ?_).symm
    swap
    · exact or_congr_right (and_iff_right rfl)
    have hget := hdue.get
    rw [hp] at hget
    cases hget
    rw [hdue.approved]
    decide
  | requestChanged hchange =>
    obtain ⟨hold, hstatus⟩ := hchange.not_executed
    rw [issued_setRequest hold]
    simp [h, hstatus]
  | requestExecuted hget hstatus hpost =>
    rw [hposted (FundingGateManager.covered_fundingPosting _) hpost]
    refine ((issued_setRequest fun r hr => ?_).trans ?_).symm
    swap
    · exact or_congr_right (and_iff_right rfl)
    rw [hr] at hget
    cases hget
    rw [hstatus]
    decide
  | refused clock p =>
    rw [entryIds_withAccounts]
    exact h id

theorem issued_iff {t : Treasury} (h : treasurySystem.ReachableVia Uninterrupted t) (id : JsString) :
    id ∈ t.ledger.entryIds ↔ Issued t id := by
  revert id
  apply h.invariant
  · rintro t ⟨config, hnew⟩ id
    obtain ⟨funding, hfunding, hnew⟩ := bind_eq_ok.mp hnew
    cases hnew
    unfold FundingGateManager.new at hfunding
    split at hfunding
    · cases hfunding
    · cases hfunding
      constructor
      · intro h
        cases h
      · rintro (⟨_, h, _⟩ | ⟨_, h, _⟩ | ⟨_, h, _⟩) <;> cases h
  · intro s e s' hs hok hnext
    cases e with
    | call c =>
      rw [← Option.some.inj hnext]
      exact issued_step hs (s.step_call c)
    | restart asOf => exact absurd hok not_false

/-! ## Ids that meet -/

section ids

variable {plan other : DistributionPlan} {payout payout' : DistributionPayout}
  {run run' : PayrollRun} {entry entry' : PayrollEntry} {request request' : FundingRequest}

/-- The ids of different engines start differently. -/
theorem distribution_ne_payroll :
    (distributionTransfer plan payout).base ≠ (payrollTransfer run entry).base :=
  fun h => absurd (List.cons.inj h).1 (by decide)

theorem distribution_ne_funding :
    (distributionTransfer plan payout).base ≠ js "funding:" ++ request.id :=
  fun h => absurd (List.cons.inj h).1 (by decide)

theorem payroll_ne_funding : (payrollTransfer run entry).base ≠ js "funding:" ++ request.id :=
  fun h => absurd (List.cons.inj h).1 (by decide)

theorem distribution_base_eq_iff :
    (distributionTransfer plan payout).base = (distributionTransfer other payout').base ↔
      plan.id ++ js ":" ++ payout.payeeId = other.id ++ js ":" ++ payout'.payeeId := by
  simp only [distributionTransfer, List.append_assoc, List.append_cancel_left_eq]

theorem payroll_base_eq_iff :
    (payrollTransfer run entry).base = (payrollTransfer run' entry').base ↔
      run.id ++ js ":" ++ entry.payeeId = run'.id ++ js ":" ++ entry'.payeeId := by
  simp only [payrollTransfer, List.append_assoc, List.append_cancel_left_eq]

end ids

/-- No transfer of a posting starts like one of an executed plan, run or request. -/
structure Clear (t : Treasury) (p : Posting) : Prop where
  plans : ∀ other ∈ t.distributions.plans.values, other.status = .executed →
    ∀ u ∈ p.transfers, ∀ y ∈ t.distributions.payoutsOf other,
      u.base ≠ (distributionTransfer other y).base
  runs : ∀ other ∈ t.payroll.runs.values, other.status = .executed →
    ∀ u ∈ p.transfers, ∀ y ∈ other.entries, u.base ≠ (payrollTransfer other y).base
  requests : ∀ other ∈ t.funding.requests.values, other.status = .executed →
    ∀ u ∈ p.transfers, u.base ≠ js "funding:" ++ other.id

theorem idsFit_iff {t : Treasury} (h : treasurySystem.ReachableVia Uninterrupted t) {p : Posting}
    (hnodup : (p.transfers.map Transfer.base).Nodup) : p.IdsFit t.ledger ↔ Clear t p := by
  rw [Posting.IdsFit, and_iff_left (Posting.nodup_entryIds hnodup)]
  have hdisjoint : ∀ {q : Posting}, (∀ id ∈ p.entryIds, id ∉ q.entryIds) ↔
      ∀ u ∈ p.transfers, ∀ v ∈ q.transfers, u.base ≠ v.base := by
    intro q
    have hiff := not_congr (@Posting.exists_mem_entryIds_iff p q)
    push Not at hiff
    exact hiff
  constructor
  · intro hnew
    have hnot : ∀ id ∈ p.entryIds, ¬ Issued t id := fun id hid =>
      fun hissued => hnew id hid ((issued_iff h id).mpr hissued)
    refine ⟨fun other hother hstatus u hu y hy => ?_, fun other hother hstatus u hu y hy => ?_,
      fun other hother hstatus u hu => ?_⟩
    · have hfree := hdisjoint.mp fun id hid hid' => hnot id hid (.inl ⟨other, hother, hstatus, hid'⟩)
      exact hfree u hu _ (List.mem_map_of_mem hy)
    · have hfree := hdisjoint.mp fun id hid hid' =>
        hnot id hid (.inr (.inl ⟨other, hother, hstatus, hid'⟩))
      exact hfree u hu _ (List.mem_map_of_mem hy)
    · have hfree := hdisjoint.mp fun id hid hid' =>
        hnot id hid (.inr (.inr ⟨other, hother, hstatus, hid'⟩))
      exact hfree u hu _ (.head _)
  · intro hclear id hid hmem
    rcases (issued_iff h id).mp hmem with ⟨other, hother, hstatus, hid'⟩ |
      ⟨other, hother, hstatus, hid'⟩ | ⟨other, hother, hstatus, hid'⟩
    · obtain ⟨u, hu, v, hv, heq⟩ := Posting.exists_mem_entryIds_iff.mp ⟨id, hid, hid'⟩
      obtain ⟨y, hy, rfl⟩ := List.mem_map.mp hv
      exact hclear.plans other hother hstatus u hu y hy heq
    · obtain ⟨u, hu, v, hv, heq⟩ := Posting.exists_mem_entryIds_iff.mp ⟨id, hid, hid'⟩
      obtain ⟨y, hy, rfl⟩ := List.mem_map.mp hv
      exact hclear.runs other hother hstatus u hu y hy heq
    · obtain ⟨u, hu, v, hv, heq⟩ := Posting.exists_mem_entryIds_iff.mp ⟨id, hid, hid'⟩
      cases List.mem_singleton.mp hv
      exact hclear.requests other hother hstatus u hu heq

theorem nodup_bases {α : Type} {xs : List α} {payeeId : α → JsString} {transfer : α → Transfer}
    {start : JsString} (hbase : ∀ x, (transfer x).base = start ++ payeeId x)
    (h : (xs.map payeeId).Nodup) : ((xs.map transfer).map Transfer.base).Nodup := by
  have hmap : (xs.map transfer).map Transfer.base = (xs.map payeeId).map (start ++ ·) := by
    rw [List.map_map, List.map_map]
    exact List.map_congr_left fun x _ => hbase x
  rw [hmap]
  exact h.map fun a b hab => List.append_cancel_left hab

section executions

variable {t : Treasury}

theorem clear_distributionPosting {plan : DistributionPlan} {payouts : List DistributionPayout} :
    Clear t (distributionPosting plan payouts) ↔
      ∀ other ∈ t.distributions.plans.values, other.status = .executed →
        ∀ x ∈ payouts, ∀ y ∈ t.distributions.payoutsOf other,
          plan.id ++ js ":" ++ x.payeeId ≠ other.id ++ js ":" ++ y.payeeId := by
  constructor
  · intro h other hother hstatus x hx y hy heq
    exact h.plans other hother hstatus _ (List.mem_map_of_mem hx) y hy
      (distribution_base_eq_iff.mpr heq)
  · intro h
    refine ⟨fun other hother hstatus u hu y hy => ?_, fun other _ _ u hu y _ => ?_,
      fun other _ _ u hu => ?_⟩ <;> obtain ⟨x, hx, rfl⟩ := List.mem_map.mp hu
    · exact fun heq => h other hother hstatus x hx y hy (distribution_base_eq_iff.mp heq)
    · exact distribution_ne_payroll
    · exact distribution_ne_funding

theorem clear_payrollPosting {run : PayrollRun} :
    Clear t (payrollPosting run) ↔
      ∀ other ∈ t.payroll.runs.values, other.status = .executed →
        ∀ x ∈ run.entries, ∀ y ∈ other.entries,
          run.id ++ js ":" ++ x.payeeId ≠ other.id ++ js ":" ++ y.payeeId := by
  constructor
  · intro h other hother hstatus x hx y hy heq
    exact h.runs other hother hstatus _ (List.mem_map_of_mem hx) y hy (payroll_base_eq_iff.mpr heq)
  · intro h
    refine ⟨fun other _ _ u hu y _ => ?_, fun other hother hstatus u hu y hy => ?_,
      fun other _ _ u hu => ?_⟩ <;> obtain ⟨x, hx, rfl⟩ := List.mem_map.mp hu
    · exact distribution_ne_payroll.symm
    · exact fun heq => h other hother hstatus x hx y hy (payroll_base_eq_iff.mp heq)
    · exact payroll_ne_funding

/-- The request of an id that is approved meets none that is executed. -/
theorem clear_fundingPosting (h : Coherent t) {id : JsString} {request : FundingRequest}
    (hget : t.funding.requests.get? id = some request) (hstatus : request.status = .approved) :
    Clear t (fundingPosting request) := by
  refine ⟨fun other _ _ u hu y _ => ?_, fun other _ _ u hu y _ => ?_,
    fun other hother hexecuted u hu heq => ?_⟩ <;> cases List.mem_singleton.mp hu
  · exact distribution_ne_funding.symm
  · exact payroll_ne_funding.symm
  · obtain ⟨key, hkey⟩ := JsMap.mem_values.mp hother
    have hid : request.id = other.id := List.append_cancel_left heq
    rw [h.requests id request hget, h.requests key other hkey] at hid
    rw [hid, hkey] at hget
    cases hget
    rw [hstatus] at hexecuted
    cases hexecuted

variable (h : treasurySystem.ReachableVia Uninterrupted t) (clock : Clock) (id : JsString)
include h

theorem not_duplicate_executeDistribution_iff :
    ¬ Duplicate (outcome (DistributionEngine.executeDistribution clock id)
        (t.distributions, t.ledger)).1 ↔
      ∀ plan payouts, t.distributions.Due id plan payouts →
        ∀ other ∈ t.distributions.plans.values, other.status = .executed →
          ∀ x ∈ payouts, ∀ y ∈ t.distributions.payoutsOf other,
            plan.id ++ js ":" ++ x.payeeId ≠ other.id ++ js ":" ++ y.payeeId := by
  rw [DistributionEngine.outcome_executeDistribution, duplicate_executePlan_iff
    (throws_planDistribution clock id t.distributions)
    (exists_planDistribution_iff clock id t.distributions)]
  simp only [not_exists, not_and, not_not, Prod.forall]
  refine forall_congr' fun plan => forall_congr' fun payouts => forall_congr' fun hdue => ?_
  have hpayees := ((coherent_of_reachableVia h).plans id plan hdue.get).2
  have hnodup : ((distributionPosting plan payouts).transfers.map Transfer.base).Nodup :=
    nodup_bases (fun _ => rfl) (hdue.payouts_eq ▸ DistributionEngine.nodup_payoutsOf hpayees)
  exact (idsFit_iff h hnodup).trans clear_distributionPosting

theorem not_duplicate_executeRun_iff :
    ¬ Duplicate (outcome (PayrollEngine.executeRun clock id) (t.payroll, t.ledger)).1 ↔
      ∀ run, t.payroll.Due id run →
        ∀ other ∈ t.payroll.runs.values, other.status = .executed →
          ∀ x ∈ run.entries, ∀ y ∈ other.entries,
            run.id ++ js ":" ++ x.payeeId ≠ other.id ++ js ":" ++ y.payeeId := by
  rw [PayrollEngine.executeRun, duplicate_executePlan_iff (throws_planRun clock id t.payroll)
    (exists_planRun_iff clock id t.payroll)]
  simp only [not_exists, not_and, not_not]
  refine forall_congr' fun run => forall_congr' fun hdue => ?_
  have hpayees := ((coherent_of_reachableVia h).runs id run hdue.get).2
  have hnodup : ((payrollPosting run).transfers.map Transfer.base).Nodup :=
    nodup_bases (fun _ => rfl) hpayees
  exact (idsFit_iff h hnodup).trans clear_payrollPosting

theorem not_duplicate_executeRequest :
    ¬ Duplicate (outcome (FundingGateManager.executeRequest clock id) (t.funding, t.ledger)).1 := by
  rw [FundingGateManager.executeRequest, duplicate_executePlan_iff
    (throws_planRequest clock id t.funding) (exists_planRequest_iff clock id t.funding)]
  simp only [not_exists, not_and, not_not]
  rintro request ⟨hget, hstatus⟩
  have hnodup : ((fundingPosting request).transfers.map Transfer.base).Nodup :=
    List.nodup_singleton _
  exact (idsFit_iff h hnodup).mpr
    (clear_fundingPosting (coherent_of_reachableVia h) hget hstatus)

/-- An execution is refused for the id of an entry exactly where its plan or its run and one that
was executed before it have recipients or payees with whose ids theirs come to the same text. A
request is never refused for it. -/
theorem entryIds_new_iff :
    (¬ Duplicate (outcome (DistributionEngine.executeDistribution clock id)
        (t.distributions, t.ledger)).1 ↔
      ∀ plan payouts, t.distributions.Due id plan payouts →
        ∀ other ∈ t.distributions.plans.values, other.status = .executed →
          ∀ x ∈ payouts, ∀ y ∈ t.distributions.payoutsOf other,
            plan.id ++ js ":" ++ x.payeeId ≠ other.id ++ js ":" ++ y.payeeId) ∧
    (¬ Duplicate (outcome (PayrollEngine.executeRun clock id) (t.payroll, t.ledger)).1 ↔
      ∀ run, t.payroll.Due id run →
        ∀ other ∈ t.payroll.runs.values, other.status = .executed →
          ∀ x ∈ run.entries, ∀ y ∈ other.entries,
            run.id ++ js ":" ++ x.payeeId ≠ other.id ++ js ":" ++ y.payeeId) ∧
    ¬ Duplicate (outcome (FundingGateManager.executeRequest clock id) (t.funding, t.ledger)).1 :=
  ⟨not_duplicate_executeDistribution_iff h clock id, not_duplicate_executeRun_iff h clock id,
    not_duplicate_executeRequest h clock id⟩

end executions

/-! ### Two plans of one text -/

def wholePool (payeeId : JsString) : DistributionRecipient :=
  ⟨payeeId, some (.ofNat 10000), none, none⟩

/-- The plan "a" pays "b:c", and the plan "a:b" pays "c". -/
def meetingCalls : List Call :=
  [.createDistribution (js "a") (js "A") .proportional (dollars "1.00") [wholePool (js "b:c")]
      (js "t"),
    .createDistribution (js "a:b") (js "B") .proportional (dollars "1.00") [wholePool (js "c")]
      (js "t"),
    .approveDistribution (js "a"), .approveDistribution (js "a:b")]

def meetingTreasury : Treasury := meetingCalls.foldl call freshTreasury

def meetingClock : Clock := ⟨fun _ => js "t", js "t", js "t"⟩

def metTreasury : Treasury := meetingTreasury.call (.executeDistribution meetingClock (js "a"))

theorem reachable_meetingTreasury : treasurySystem.ReachableVia Uninterrupted meetingTreasury := by
  have hrun : treasurySystem.run freshTreasury (meetingCalls.map Event.call) =
      some meetingTreasury := rfl
  refine System.ReachableVia.run (.init init_freshTreasury) ?_ hrun
  intro e he s
  obtain ⟨c, -, rfl⟩ := List.mem_map.mp he
  trivial

/-- The plan "a:b" can not be executed any more. -/
theorem duplicate_meetingTreasury :
    ¬ ∀ t, treasurySystem.ReachableVia Uninterrupted t → ∀ clock id,
      ¬ Duplicate (outcome (DistributionEngine.executeDistribution clock id)
        (t.distributions, t.ledger)).1 := by
  intro h
  have hreach : treasurySystem.ReachableVia Uninterrupted metTreasury :=
    reachable_meetingTreasury.step (e := .call (.executeDistribution meetingClock (js "a"))) trivial
      rfl
  apply h _ hreach meetingClock (js "a:b")
  decide +kernel

/-- The first of the two is executed, and a third plan for the same recipient is approved. -/
def laterCalls : List Call :=
  [.executeDistribution meetingClock (js "a"),
    .createDistribution (js "c") (js "C") .proportional (dollars "1.00") [wholePool (js "b:c")] (js "t"),
    .approveDistribution (js "c")]

def laterTreasury : Treasury := laterCalls.foldl call meetingTreasury

theorem reachable_laterTreasury : treasurySystem.ReachableVia Uninterrupted laterTreasury := by
  have hrun : treasurySystem.run meetingTreasury (laterCalls.map Event.call) =
      some laterTreasury := rfl
  refine System.ReachableVia.run reachable_meetingTreasury ?_ hrun
  intro e he s
  obtain ⟨c, -, rfl⟩ := List.mem_map.mp he
  trivial

/-- The third plan is not refused. -/
theorem entryIds_new_laterTreasury :
    laterTreasury.distributions.plans.values.any (fun p => p.status = .executed) = true ∧
      ¬ Duplicate (outcome (DistributionEngine.executeDistribution meetingClock (js "c"))
        (laterTreasury.distributions, laterTreasury.ledger)).1 := by
  have hexecuted : laterTreasury.distributions.plans.values.any (fun p => p.status = .executed) = true ∧
      (∀ p ∈ laterTreasury.distributions.plans.values, p.status = .executed → p.id = js "a") ∧
      (laterTreasury.distributions.plans.get? (js "c")).map (fun p => p.id) = some (js "c") := by
    decide +kernel
  refine ⟨hexecuted.1, (entryIds_new_iff reachable_laterTreasury meetingClock (js "c")).1.mpr ?_⟩
  intro plan payouts hdue other hother hstatus x _ y _ heq
  have hid : some plan.id = some (js "c") := by
    rw [← hexecuted.2.2, hdue.get]
    rfl
  rw [hexecuted.2.1 other hother hstatus, Option.some.inj hid] at heq
  rw [List.append_assoc, List.append_assoc] at heq
  have hc : js "c" = js "a" := List.append_inj_left heq rfl
  simp at hc

end Attestia.Treasury
