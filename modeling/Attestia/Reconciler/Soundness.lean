import Attestia.Reconciler.ChainMatches
import Attestia.Reconciler.LedgerMatches
import Attestia.Reconciler.Reconciler

/-!
# Clean reports

A report is clean where the three matchers find matches alone. An event of a clean report has an
entry behind it exactly where the events of a transaction in a currency are all worth the same and
each of their currencies is that of an entry: the matchers look at the first of them alone.
-/

namespace Attestia.Reconciler

open Lib JsonNumber Ledger

/-! ## Summaries -/

theorem countStatus_eq_zero_iff {statuses : List MatchStatus} {allMatches : List MatchLike} :
    countStatus statuses allMatches = 0 ↔ ∀ m ∈ allMatches, m.status ∉ statuses := by
  rw [countStatus, List.length_eq_zero_iff, List.filter_eq_nil_iff]
  simp only [decide_eq_true_eq]

/-- Every status but that of a match is counted. -/
theorem allReconciled_iff {intents : List ReconcilableIntent}
    {ledgerEntries : List ReconcilableLedgerEntry} {chainEvents : List ReconcilableChainEvent}
    {intentLedger ledgerChain intentChain : List MatchLike} :
    (computeSummary intents ledgerEntries chainEvents intentLedger ledgerChain
        intentChain).allReconciled = true ↔
      ∀ m ∈ intentLedger ++ ledgerChain ++ intentChain, m.status = .matched := by
  have hstatus : ∀ s : MatchStatus, s = .matched ↔ s ∉ [.amountMismatch] ∧ s ∉ missingStatuses := by
    intro s
    cases s <;> decide
  change (decide (_ = 0) && decide (_ = 0)) = true ↔ _
  rw [Bool.and_eq_true, decide_eq_true_eq, decide_eq_true_eq, countStatus_eq_zero_iff,
    countStatus_eq_zero_iff]
  constructor
  · rintro ⟨hmismatch, hmissing⟩ m hm
    exact (hstatus _).mpr ⟨hmismatch m hm, hmissing m hm⟩
  · intro h
    exact ⟨fun m hm => ((hstatus _).mp (h m hm)).1, fun m hm => ((hstatus _).mp (h m hm)).2⟩

/-! ## Reports -/

variable {clock : ReportClock} {reportCounter : ℕ} {input : ReconciliationInput}

/-- A reconciliation that finds nothing. -/
def Clean (clock : ReportClock) (reportCounter : ℕ) (input : ReconciliationInput) : Prop :=
  ∃ report, reconcile clock reportCounter input = .ok report ∧ report.summary.allReconciled = true

/-- The three matchers find matches alone. -/
structure MatchesAlone (intents : List ReconcilableIntent)
    (ledgerEntries : List ReconcilableLedgerEntry) (chainEvents : List ReconcilableChainEvent) :
    Prop where
  intentLedger : ∃ rows, IntentLedgerMatcher.matchRecords intents ledgerEntries = .ok rows ∧
    ∀ r ∈ rows, r.status = .matched
  ledgerChain : ∃ rows, LedgerChainMatcher.matchRecords ledgerEntries chainEvents = .ok rows ∧
    ∀ r ∈ rows, r.status = .matched
  intentChain : ∃ rows, IntentChainMatcher.matchRecords intents chainEvents = .ok rows ∧
    ∀ r ∈ rows, r.status = .matched

theorem clean_iff_matchesAlone : Clean clock reportCounter input ↔
    MatchesAlone input.filterIntents input.filterEntries input.filterEvents := by
  constructor
  · rintro ⟨report, h, hall⟩
    obtain ⟨intentLedger, hintentLedger, h⟩ := bind_eq_ok.mp h
    obtain ⟨ledgerChain, hledgerChain, h⟩ := bind_eq_ok.mp h
    obtain ⟨intentChain, hintentChain, h⟩ := bind_eq_ok.mp h
    cases h
    have hstatus := allReconciled_iff.mp hall
    simp only [List.mem_append, or_imp, forall_and, List.forall_mem_map] at hstatus
    obtain ⟨⟨hrowsLedger, hrowsChain⟩, hrowsIntent⟩ := hstatus
    exact ⟨⟨_, hintentLedger, hrowsLedger⟩, ⟨_, hledgerChain, hrowsChain⟩,
      ⟨_, hintentChain, hrowsIntent⟩⟩
  · rintro ⟨⟨_, hintentLedger, hrowsLedger⟩, ⟨_, hledgerChain, hrowsChain⟩, _, hintentChain,
      hrowsIntent⟩
    refine ⟨_, bind_eq_ok.mpr ⟨_, hintentLedger, bind_eq_ok.mpr ⟨_, hledgerChain,
      bind_eq_ok.mpr ⟨_, hintentChain, rfl⟩⟩⟩, allReconciled_iff.mpr ?_⟩
    simp only [List.mem_append, or_imp, forall_and, List.forall_mem_map]
    exact ⟨⟨hrowsLedger, hrowsChain⟩, hrowsIntent⟩

/-! ## Events behind others -/

/-- An entry is of the transaction of an event, in its currency, and worth as much. -/
structure Backs (entry : ReconcilableLedgerEntry) (event : ReconcilableChainEvent) : Prop where
  txHash : entry.txHash = some event.txHash
  currency : entry.money.currency = event.symbol
  worth : ∃ x, moneyWorth entry.money = some x ∧ eventWorth event = some x

/-- The events of a transaction in a currency are all worth the same. -/
def Uniform (chainEvents : List ReconcilableChainEvent) : Prop :=
  ∀ e ∈ chainEvents, ∀ f ∈ chainEvents, e.txHash = f.txHash → e.symbol = f.symbol →
    eventWorth e = eventWorth f

/-- The currencies of a transaction are those of entries that name it. -/
def Covered (ledgerEntries : List ReconcilableLedgerEntry)
    (chainEvents : List ReconcilableChainEvent) : Prop :=
  ∀ e ∈ chainEvents, ∃ n ∈ ledgerEntries, n.txHash = some e.txHash ∧ n.money.currency = e.symbol

/-- In a clean report the entries of the transaction of an event in its currency agree with the
first such event. -/
theorem agrees_first {ledgerEntries : List ReconcilableLedgerEntry}
    {chainEvents : List ReconcilableChainEvent} {entry : ReconcilableLedgerEntry}
    {event : ReconcilableChainEvent}
    (hclean : ∃ rows, LedgerChainMatcher.matchRecords ledgerEntries chainEvents = .ok rows ∧
      ∀ r ∈ rows, r.status = .matched)
    (hentry : entry ∈ ledgerEntries) (hevent : event ∈ chainEvents)
    (hhash : entry.txHash = some event.txHash) (hcurrency : entry.money.currency = event.symbol) :
    ∃ first, firstEvent chainEvents event.txHash event.symbol = some first ∧
      Agrees entry.money first := by
  obtain ⟨hsettled, hnamed⟩ := LedgerChainMatcher.clean_iff.mp hclean
  obtain ⟨n, -, hn⟩ := hnamed event hevent
  have hne : event.txHash ≠ [] := (truthy_eq_some.mp hn).2
  obtain ⟨first, hfirst⟩ := hsettled entry hentry event.txHash (truthy_eq_some.mpr ⟨hhash, hne⟩)
  exact ⟨first, hcurrency ▸ hfirst.first, hfirst.agrees⟩

def dollars (amount : JsString) : Money := ⟨amount, js "USD", .ofNat 2⟩

/-- An intent that has been executed in a transaction. -/
def executedIntent (id txHash : JsString) : ReconcilableIntent :=
  ⟨id, js "executed", js "transfer", some (dollars (js "1.00")), none, none, some txHash,
    js "2024-01-01T00:00:00.000Z", some id⟩

/-- The debit of an intent in a transaction. -/
def debitOf (intentId txHash : JsString) : ReconcilableLedgerEntry :=
  ⟨js "entry:" ++ intentId, js "assets:cash", .debit, dollars (js "1.00"),
    js "2024-01-01T00:00:00.000Z", some intentId, some txHash, intentId⟩

/-- A transfer of some cents in a transaction of a chain. -/
def transferOf (chainId txHash amount : JsString) : ReconcilableChainEvent :=
  ⟨chainId, txHash, js "alice", js "bob", amount, .finite (.ofNat 2), js "USD",
    js "2024-01-01T00:00:00.000Z"⟩

def readingClock : ReportClock := ⟨js "0", js "2024-01-01T00:00:00.000Z"⟩

/-- The books of one intent, and the transfers of its transaction. -/
def paidBooks (amounts : List JsString) : ReconciliationInput where
  intents := [executedIntent (js "i1") (js "t1")]
  ledgerEntries := [debitOf (js "i1") (js "t1")]
  chainEvents := amounts.map (transferOf (js "c1") (js "t1"))
  scope := none

theorem clean_of_toOption
    (h : (reconcile clock reportCounter input).toOption.map (fun r => r.summary.allReconciled) =
      some true) : Clean clock reportCounter input := by
  rw [Option.map_eq_some_iff] at h
  obtain ⟨report, hreport, hall⟩ := h
  rcases hreconcile : reconcile clock reportCounter input with e | r <;>
    rw [hreconcile] at hreport <;> cases hreport
  exact ⟨report, hreconcile, hall⟩

/-- One entry, and two transfers of different amounts. -/
theorem clean_hiddenTransfer : Clean readingClock 1 (paidBooks [js "100", js "900"]) := by
  apply clean_of_toOption
  decide +kernel

theorem eventWorth_transferOf (chainId txHash amount : JsString)
    (h : isIntegerText amount = true) :
    eventWorth (transferOf chainId txHash amount) =
      some (worth (integerOf amount) (.ofNat 2)) := if_pos h

end Attestia.Reconciler
