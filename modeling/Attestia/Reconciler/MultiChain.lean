import Attestia.Reconciler.CrossChainRules
import Attestia.Reconciler.LedgerChainMatcher

/-!
# Matching over several chains

`matchMultiChain` removes the settlement artifacts before it matches. The events that are kept and
those that are removed are found again by their chain and transaction, so that two transfers of one
transaction, of which one is an artifact, are both kept and both removed.
-/

namespace Attestia.Reconciler

open Lib

namespace LedgerChainMatcher

/-- The number of the block plays no part. -/
def toCrossChainEvent (event : ReconcilableChainEvent) : CrossChainEvent where
  chainId := event.chainId
  txHash := event.txHash
  blockNumber := .finite 0
  amount := event.amount
  symbol := event.symbol
  fromAddress := event.fromAddress
  toAddress := event.toAddress
  timestamp := event.timestamp

/-- A chain and a transaction. -/
def transactionKey (chainId txHash : JsString) : JsString := chainId ++ js ":" ++ txHash

/-- The events whose transaction is that of one of the others. -/
def selectBy (chainEvents : List ReconcilableChainEvent) (selected : List CrossChainEvent) :
    List ReconcilableChainEvent :=
  let txHashes := selected.map fun e => transactionKey e.chainId e.txHash
  chainEvents.filter fun e => transactionKey e.chainId e.txHash ∈ txHashes

def deduplicate (chainEvents : List ReconcilableChainEvent) : Deduplicated :=
  preventDoubleCounting defaultSettlementPairs (chainEvents.map toCrossChainEvent)

def dedupedEvents (chainEvents : List ReconcilableChainEvent) : List ReconcilableChainEvent :=
  selectBy chainEvents (deduplicate chainEvents).kept

def removedEvents (chainEvents : List ReconcilableChainEvent) : List ReconcilableChainEvent :=
  selectBy chainEvents (deduplicate chainEvents).removed

structure MultiChainMatch where
  results : List LedgerChainMatch
  removedSettlementArtifacts : List ReconcilableChainEvent

def matchMultiChain (ledgerEntries : List ReconcilableLedgerEntry)
    (chainEvents : List ReconcilableChainEvent) : Except MatchFault MultiChainMatch := do
  let results ← matchRecords ledgerEntries (dedupedEvents chainEvents)
  return ⟨results, removedEvents chainEvents⟩

/-! ## What is found again -/

variable {chainEvents : List ReconcilableChainEvent} {event : ReconcilableChainEvent}

/-- An event is a settlement artifact among others: one of the same transfer is on a chain that
settles on the chain of the event. -/
def IsSettlementArtifact (chainEvents : List ReconcilableChainEvent)
    (event : ReconcilableChainEvent) : Prop :=
  IsArtifact defaultSettlementPairs (chainEvents.map toCrossChainEvent) (toCrossChainEvent event)

theorem mem_selectBy {selected : List CrossChainEvent} :
    event ∈ selectBy chainEvents selected ↔ event ∈ chainEvents ∧
      ∃ e ∈ selected, transactionKey e.chainId e.txHash =
        transactionKey event.chainId event.txHash := by
  rw [selectBy, List.mem_filter, decide_eq_true_eq, List.mem_map]

theorem exists_mem_map {P : CrossChainEvent → Prop} :
    (∃ e ∈ chainEvents.map toCrossChainEvent, P e) ↔
      ∃ e ∈ chainEvents, P (toCrossChainEvent e) := by
  simp only [List.mem_map, exists_exists_and_eq_and]

/-- An event is used for matching exactly where one of its transaction is no artifact. -/
theorem mem_dedupedEvents_iff : event ∈ dedupedEvents chainEvents ↔ event ∈ chainEvents ∧
    ∃ e ∈ chainEvents, transactionKey e.chainId e.txHash =
      transactionKey event.chainId event.txHash ∧ ¬ IsSettlementArtifact chainEvents e := by
  rw [dedupedEvents, deduplicate, mem_selectBy]
  simp only [mem_kept_iff acyclic_default.not_settlesOn, and_assoc]
  rw [exists_mem_map]
  apply and_congr_right
  intro _
  apply exists_congr
  intro e
  apply and_congr_right
  intro _
  exact and_comm

theorem mem_removedEvents_iff : event ∈ removedEvents chainEvents ↔ event ∈ chainEvents ∧
    ∃ e ∈ chainEvents, transactionKey e.chainId e.txHash =
      transactionKey event.chainId event.txHash ∧ IsSettlementArtifact chainEvents e := by
  rw [removedEvents, deduplicate, mem_selectBy]
  simp only [mem_removed_iff acyclic_default.not_settlesOn, and_assoc]
  rw [exists_mem_map]
  apply and_congr_right
  intro _
  apply exists_congr
  intro e
  apply and_congr_right
  intro _
  exact and_comm

/-- Every event is found again, and one of a transaction whose transfers are of one kind once. -/
theorem mem_deduped_or_removed (h : event ∈ chainEvents) :
    event ∈ dedupedEvents chainEvents ∨ event ∈ removedEvents chainEvents := by
  by_cases hartifact : IsSettlementArtifact chainEvents event
  · exact .inr (mem_removedEvents_iff.mpr ⟨h, event, h, rfl, hartifact⟩)
  · exact .inl (mem_dedupedEvents_iff.mpr ⟨h, event, h, rfl, hartifact⟩)

/-- Every event is in one of the two lists exactly where the transfers of each transaction are all
artifacts or none is. -/
theorem exclusive_iff :
    (∀ e ∈ chainEvents, Xor (e ∈ dedupedEvents chainEvents) (e ∈ removedEvents chainEvents)) ↔
      ∀ e ∈ chainEvents, ∀ o ∈ chainEvents,
        transactionKey e.chainId e.txHash = transactionKey o.chainId o.txHash →
        (IsSettlementArtifact chainEvents e ↔ IsSettlementArtifact chainEvents o) := by
  constructor
  · intro h e he o ho hkey
    by_contra hne
    -- the one that is no artifact keeps both, the other one removes both
    have hboth : ∀ a ∈ chainEvents, ∀ b ∈ chainEvents,
        transactionKey a.chainId a.txHash = transactionKey b.chainId b.txHash →
        IsSettlementArtifact chainEvents a → ¬ IsSettlementArtifact chainEvents b → False := by
      intro a ha b hb hab hartifact hnot
      have hkept := mem_dedupedEvents_iff.mpr ⟨ha, b, hb, hab.symm, hnot⟩
      have hremoved := mem_removedEvents_iff.mpr ⟨ha, a, ha, rfl, hartifact⟩
      rcases h a ha with ⟨-, hno⟩ | ⟨-, hno⟩
      · exact hno hremoved
      · exact hno hkept
    by_cases hartifact : IsSettlementArtifact chainEvents e
    · apply hboth e he o ho hkey hartifact
      intro hart
      exact hne (iff_of_true hartifact hart)
    · apply hboth o ho e he hkey.symm _ hartifact
      by_contra hart
      exact hne (iff_of_false hartifact hart)
  · intro h e he
    have hexclusive : ¬ (e ∈ dedupedEvents chainEvents ∧ e ∈ removedEvents chainEvents) := by
      rintro ⟨hkept, hremoved⟩
      obtain ⟨-, a, ha, hakey, hnot⟩ := mem_dedupedEvents_iff.mp hkept
      obtain ⟨-, b, hb, hbkey, hartifact⟩ := mem_removedEvents_iff.mp hremoved
      exact hnot ((h b hb a ha (hbkey.trans hakey.symm)).mp hartifact)
    rcases mem_deduped_or_removed he with hkept | hremoved
    · exact .inl ⟨hkept, fun hremoved => hexclusive ⟨hkept, hremoved⟩⟩
    · exact .inr ⟨hremoved, fun hkept => hexclusive ⟨hkept, hremoved⟩⟩

/-- The two lists are parts of the input, so that they divide it where no event is in both. -/
theorem perm_iff_exclusive :
    (dedupedEvents chainEvents ++ removedEvents chainEvents).Perm chainEvents ↔
      ∀ e ∈ chainEvents, Xor (e ∈ dedupedEvents chainEvents) (e ∈ removedEvents chainEvents) := by
  refine perm_filter_append_filter_iff.trans ?_
  apply forall_congr'
  intro e
  apply forall_congr'
  intro he
  rw [dedupedEvents, removedEvents, mem_selectBy, mem_selectBy, and_iff_right he, and_iff_right he,
    xor_iff_not_iff, ← List.mem_map, ← List.mem_map, ne_eq, decide_eq_decide]

/-- The ledger is matched against the events that are kept, those that are removed are reported, and
the two divide the events exactly where the transfers of each transaction are all artifacts or none
is. -/
theorem matchMultiChain_divides_iff (ledgerEntries : List ReconcilableLedgerEntry)
    (chainEvents : List ReconcilableChainEvent) :
    matchMultiChain ledgerEntries chainEvents =
        (matchRecords ledgerEntries (dedupedEvents chainEvents)).map
          (MultiChainMatch.mk · (removedEvents chainEvents)) ∧
      ((dedupedEvents chainEvents ++ removedEvents chainEvents).Perm chainEvents ↔
        ∀ e ∈ chainEvents, ∀ o ∈ chainEvents,
          transactionKey e.chainId e.txHash = transactionKey o.chainId o.txHash →
          (IsSettlementArtifact chainEvents e ↔ IsSettlementArtifact chainEvents o)) := by
  refine ⟨?_, perm_iff_exclusive.trans exclusive_iff⟩
  rw [matchMultiChain]
  cases matchRecords ledgerEntries (dedupedEvents chainEvents) <;> rfl

/-- A transfer of some amount from Alice to Bob in a transaction of a chain. -/
def transferIn (chainId txHash amount : JsString) : ReconcilableChainEvent :=
  ⟨chainId, txHash, js "alice", js "bob", amount, .finite (.ofNat 6), js "USDC",
    js "2024-01-01T00:00:00.000Z"⟩

/-- A transaction settles a transfer of ten and makes one of twenty. -/
def mixedTransaction : List ReconcilableChainEvent :=
  [transferIn (js "eip155:10") (js "a") (js "10"), transferIn (js "eip155:1") (js "b") (js "10"),
    transferIn (js "eip155:1") (js "b") (js "20")]

/-- All three events are kept, two of them are removed as well. -/
theorem mixedTransaction_overlaps : ¬ ∀ ledgerEntries chainEvents found,
    matchMultiChain ledgerEntries chainEvents = .ok found →
      (dedupedEvents chainEvents ++ found.removedSettlementArtifacts).Perm chainEvents := by
  intro hclaim
  obtain ⟨found, hfound⟩ := exists_eq_ok_of_isOk (x := matchMultiChain [] mixedTransaction)
    (by decide +kernel)
  have hperm := hclaim [] mixedTransaction found hfound
  obtain ⟨rows, -, hrows⟩ := bind_eq_ok.mp hfound
  obtain rfl := Except.ok.inj hrows
  have hlength : (dedupedEvents mixedTransaction ++ removedEvents mixedTransaction).length =
      mixedTransaction.length := hperm.length_eq
  revert hlength
  decide +kernel

end LedgerChainMatcher

end Attestia.Reconciler
