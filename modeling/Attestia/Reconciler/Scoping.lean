import Attestia.Reconciler.Soundness

/-!
# Scopes and clean books

A scope drops intents by all of its fields, entries by the correlation alone and events by the chain
alone. The report of a scope of clean books is clean exactly where the scope keeps, with each record,
the records that answer for it.
-/

namespace Attestia.Reconciler

open Lib JsonNumber Ledger

/-! ## Events that can stand for one another -/

/-- Both events are worth the same, and their numbers of decimals differ by an integer. -/
structure Alike (e f : ReconcilableChainEvent) : Prop where
  worth : eventWorth e = eventWorth f
  scales : ∃ d d', e.decimals = .finite d ∧ f.decimals = .finite d' ∧ (d.val - d'.val).den = 1

theorem agrees_iff_alike {money : Money} {e f : ReconcilableChainEvent} (h : Agrees money f) :
    Agrees money e ↔ Alike e f := by
  obtain ⟨⟨x, hf, hmoney⟩, d', hd', hden'⟩ := h
  constructor
  · rintro ⟨⟨y, he, hmoney'⟩, d, hd, hden⟩
    refine ⟨?_, d, d', hd, hd', den_sub_trans hden (den_sub_comm _ _ ▸ hden')⟩
    rw [he, hf, ← hmoney, hmoney']
  · rintro ⟨hworth, d, e', hd, he', hden⟩
    cases hd'.symm.trans he'
    exact ⟨⟨x, hworth.trans hf, hmoney⟩, d, hd, den_sub_trans hden hden'⟩

/-- The first event of a transaction in a currency that is kept is like the first one of all. -/
def KeepsFirst (kept all : List ReconcilableChainEvent) (txHash currency : JsString) : Prop :=
  ∃ e f, firstEvent kept txHash currency = some e ∧ firstEvent all txHash currency = some f ∧
    Alike e f

theorem settles_kept_iff {kept all : List ReconcilableChainEvent} {txHash : JsString} {money : Money}
    {event : ReconcilableChainEvent} (h : Settles all txHash money event) :
    (∃ e, Settles kept txHash money e) ↔ KeepsFirst kept all txHash money.currency := by
  constructor
  · rintro ⟨e, he⟩
    exact ⟨e, event, he.first, h.first, (agrees_iff_alike h.agrees).mp he.agrees⟩
  · rintro ⟨e, f, he, hf, halike⟩
    cases h.first.symm.trans hf
    exact ⟨e, he, (agrees_iff_alike h.agrees).mpr halike⟩

/-- The events that an intent is compared with are kept. -/
structure KeepsEvents (kept all : List ReconcilableChainEvent) (txHash : JsString)
    (intent : ReconcilableIntent) : Prop where
  priced : ∀ amount, intent.amount = some amount → KeepsFirst kept all txHash amount.currency
  unpriced : intent.amount = none → ∃ e ∈ kept, e.txHash = txHash

theorem settlesIntent_kept_iff {kept all : List ReconcilableChainEvent} {txHash : JsString}
    {intent : ReconcilableIntent} {event : ReconcilableChainEvent}
    (h : SettlesIntent all txHash intent event) :
    (∃ e, SettlesIntent kept txHash intent e) ↔ KeepsEvents kept all txHash intent := by
  constructor
  · rintro ⟨e, he⟩
    constructor
    · intro amount hamount
      exact (settles_kept_iff (h.priced amount hamount)).mp ⟨e, he.priced amount hamount⟩
    · intro hamount
      have hfirst := he.unpriced hamount
      have htx := List.find?_some hfirst
      rw [decide_eq_true_eq] at htx
      exact ⟨e, List.mem_of_find?_eq_some hfirst, htx⟩
  · rintro ⟨hpriced, hunpriced⟩
    rcases hamount : intent.amount with _ | amount
    · obtain ⟨e, he, htx⟩ := hunpriced hamount
      have hsome : (kept.find? fun e => e.txHash = txHash).isSome = true :=
        List.find?_isSome.mpr ⟨e, he, decide_eq_true htx⟩
      obtain ⟨first, hfirst⟩ := Option.isSome_iff_exists.mp hsome
      refine ⟨first, fun amount h => ?_, fun _ => hfirst⟩
      rw [hamount] at h
      cases h
    · obtain ⟨e, he⟩ := (settles_kept_iff (h.priced amount hamount)).mpr (hpriced amount hamount)
      refine ⟨e, fun a ha => ?_, fun hnone => ?_⟩
      · rw [hamount] at ha
        cases ha
        exact he
      · rw [hamount] at hnone
        cases hnone

/-! ## Entries that can stand for one another -/

namespace IntentLedgerMatcher

/-- The debits among entries. -/
def debitsOf (entries : List ReconcilableLedgerEntry) : List ReconcilableLedgerEntry :=
  entries.filter fun e => e.type = .debit

/-- The entries of an intent that are kept still answer for it: what is dropped of the debits is
worth nothing. -/
structure KeepsEntries (intent : ReconcilableIntent) (kept all : List ReconcilableLedgerEntry) :
    Prop where
  settled : isSettled intent = true → kept ≠ []
  debits : kept ≠ [] → intent.amount.isSome →
    debitsOf kept ≠ [] ∧ worthOf (debitsOf kept) = worthOf (debitsOf all)

theorem settledBy_kept_iff {intent : ReconcilableIntent} {kept all : List ReconcilableLedgerEntry}
    (hsub : kept ⊆ all) (h : SettledBy intent all) :
    SettledBy intent kept ↔ KeepsEntries intent kept all := by
  have hall : kept ≠ [] → all ≠ [] := by
    rintro hne rfl
    exact hne (List.eq_nil_of_subset_nil hsub)
  have hdebits : ∀ d ∈ debitsOf kept, d ∈ debitsOf all := by
    intro d hd
    obtain ⟨hmem, hdebit⟩ := List.mem_filter.mp hd
    exact List.mem_filter.mpr ⟨hsub hmem, hdebit⟩
  constructor
  · rintro ⟨hempty, hpays⟩
    constructor
    · intro hsettled hnil
      rw [hempty hnil] at hsettled
      cases hsettled
    · intro hne hsome
      obtain ⟨amount, hamount⟩ := Option.isSome_iff_exists.mp hsome
      have hkept := hpays hne amount hamount
      have hworth := hkept.worth.symm.trans (h.pays (hall hne) amount hamount).worth
      exact ⟨hkept.nonempty, Option.some.inj hworth⟩
  · rintro ⟨hsettled, hkeeps⟩
    constructor
    · intro hnil
      by_contra hsome
      exact hsettled (Bool.not_eq_false _ |>.mp hsome) hnil
    · intro hne amount hamount
      have hpays := h.pays (hall hne) amount hamount
      obtain ⟨hnonempty, hworth⟩ := hkeeps hne (by rw [hamount, Option.isSome_some])
      exact ⟨hnonempty, fun d hd => hpays.currency d (hdebits d hd),
        fun d hd => hpays.summable d (hdebits d hd), hpays.worth.trans (congrArg some hworth.symm)⟩

end IntentLedgerMatcher

/-! ## Scopes -/

open IntentLedgerMatcher (linked KeepsEntries SettledBy)

/-- The scope keeps with each record the records that answer for it. -/
structure KeepsPartners (input : ReconciliationInput) : Prop where
  entryIntents : ∀ n ∈ input.filterEntries, (truthy n.intentId).isSome →
    ∃ i ∈ input.filterIntents, ∃ m ∈ linked input.filterEntries i.id, m.id = n.id
  intentEntries : ∀ i ∈ input.filterIntents,
    KeepsEntries i (linked input.filterEntries i.id) (linked input.ledgerEntries i.id)
  entryEvents : ∀ n ∈ input.filterEntries, ∀ txHash, truthy n.txHash = some txHash →
    KeepsFirst input.filterEvents input.chainEvents txHash n.money.currency
  intentEvents : ∀ i ∈ input.filterIntents, ∀ txHash, truthy i.txHash = some txHash →
    KeepsEvents input.filterEvents input.chainEvents txHash i
  eventEntries : ∀ e ∈ input.filterEvents, ∃ n ∈ input.filterEntries,
    truthy n.txHash = some e.txHash
  eventIntents : ∀ e ∈ input.filterEvents, ∃ i ∈ input.filterIntents,
    truthy i.txHash = some e.txHash

section filters

variable {input : ReconciliationInput}

theorem filterIntents_subset : input.filterIntents ⊆ input.intents := by
  unfold ReconciliationInput.filterIntents
  split
  · exact List.Subset.refl _
  · exact List.filter_sublist.subset

theorem filterEntries_subset : input.filterEntries ⊆ input.ledgerEntries := by
  unfold ReconciliationInput.filterEntries
  split
  · exact List.Subset.refl _
  · exact List.filter_sublist.subset

theorem linked_filterEntries_subset (intentId : JsString) :
    linked input.filterEntries intentId ⊆ linked input.ledgerEntries intentId := by
  intro n hn
  rw [IntentLedgerMatcher.mem_linked] at hn ⊢
  exact ⟨filterEntries_subset hn.1, hn.2⟩

end filters

/-- The input without its scope. -/
def ReconciliationInput.unscoped (input : ReconciliationInput) : ReconciliationInput :=
  { input with scope := none }

/-- The clean books of two intents. -/
def twoIntents (scope : Option ReconciliationScope) : ReconciliationInput where
  intents := [executedIntent (js "i1") (js "t1"), executedIntent (js "i2") (js "t2")]
  ledgerEntries := [debitOf (js "i1") (js "t1"), debitOf (js "i2") (js "t2")]
  chainEvents := [transferOf (js "c1") (js "t1") (js "100"), transferOf (js "c1") (js "t2") (js "100")]
  scope := scope

theorem clean_twoIntents : Clean readingClock 1 (twoIntents none) := by
  apply clean_of_toOption
  decide +kernel

theorem not_allReconciled_intentScope {report : ReconciliationReport}
    (h : reconcile readingClock 1
      (twoIntents (some { emptyScope with intentId := some (js "i1") })) = .ok report) :
    ¬ report.summary.allReconciled = true := by
  have hreported : ((reconcile readingClock 1
      (twoIntents (some { emptyScope with intentId := some (js "i1") }))).toOption.map
        fun r => r.summary.allReconciled) = some false := by
    decide +kernel
  rw [h] at hreported
  rw [show report.summary.allReconciled = false from Option.some.inj hreported]
  exact Bool.false_ne_true

def february : JsString := js "2024-02-01"

/-- The clean books of an intent of January and one of February. -/
def twoMonths (scope : Option ReconciliationScope) : ReconciliationInput where
  intents := [executedIntent (js "i1") (js "t1"),
    { executedIntent (js "i2") (js "t2") with declaredAt := february }]
  ledgerEntries := [debitOf (js "i1") (js "t1"),
    { debitOf (js "i2") (js "t2") with timestamp := february }]
  chainEvents := [transferOf (js "c1") (js "t1") (js "100"),
    { transferOf (js "c1") (js "t2") (js "100") with timestamp := february }]
  scope := scope

def fromFebruary : ReconciliationScope := { emptyScope with fromTime := some february }

theorem clean_twoMonths : Clean readingClock 1 (twoMonths (some fromFebruary)).unscoped := by
  apply clean_of_toOption
  decide +kernel

theorem clean_fromFebruary : Clean readingClock 2 (twoMonths (some fromFebruary)) := by
  apply clean_of_toOption
  decide +kernel

end Attestia.Reconciler
