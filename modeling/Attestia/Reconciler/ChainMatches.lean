import Attestia.Reconciler.IntentChainMatcher
import Attestia.Reconciler.LedgerChainMatcher
import Attestia.Reconciler.Worth

/-!
# Matches with chain events

An entry or an intent is matched exactly where the first event of its transaction in its currency
is worth as much; and a chain event is reported exactly where no entry, or no intent, names its
transaction.
-/

namespace Attestia.Reconciler

open Lib JsonNumber Ledger

/-- The first event of a transaction in a currency. -/
def firstEvent (chainEvents : List ReconcilableChainEvent) (txHash currency : JsString) :
    Option ReconcilableChainEvent :=
  chainEvents.find? fun e => e.txHash = txHash ∧ e.symbol = currency

theorem find?_eventsOf (chainEvents : List ReconcilableChainEvent) (txHash currency : JsString) :
    (eventsOf (byTxHash chainEvents) txHash).find? (fun e => e.symbol = currency) =
      firstEvent chainEvents txHash currency := by
  rw [eventsOf_byTxHash, List.find?_filter, firstEvent]
  simp only [decide_eq_true_eq]

theorem firstEvent_eq_some {chainEvents : List ReconcilableChainEvent} {txHash currency : JsString}
    {event : ReconcilableChainEvent} (h : firstEvent chainEvents txHash currency = some event) :
    event ∈ chainEvents ∧ event.txHash = txHash ∧ event.symbol = currency := by
  have hcheck := List.find?_some h
  rw [decide_eq_true_eq] at hcheck
  exact ⟨List.mem_of_find?_eq_some h, hcheck⟩

theorem eventsOf_eq_nil_iff {chainEvents : List ReconcilableChainEvent} {txHash : JsString} :
    eventsOf (byTxHash chainEvents) txHash = [] ↔ ∀ e ∈ chainEvents, e.txHash ≠ txHash := by
  rw [eventsOf_byTxHash, List.filter_eq_nil_iff]
  simp only [decide_eq_true_eq]

/-- A money is settled by the first event of a transaction in its currency. -/
structure Settles (chainEvents : List ReconcilableChainEvent) (txHash : JsString) (money : Money)
    (event : ReconcilableChainEvent) : Prop where
  first : firstEvent chainEvents txHash money.currency = some event
  agrees : Agrees money event

theorem isIntegerText_of_agrees {money : Money} {event : ReconcilableChainEvent}
    (h : Agrees money event) : isIntegerText event.amount = true := by
  obtain ⟨⟨x, hevent, -⟩, decimals, hdecimals, -⟩ := h
  by_contra htext
  rw [eventWorth, hdecimals] at hevent
  dsimp only at hevent
  rw [if_neg htext] at hevent
  cases hevent

theorem mem_matchedTxHashes {α : Type} {index : JsMap JsString (List ReconcilableChainEvent)}
    {records : List α} {txHash : α → Option JsString} {hash : JsString} :
    hash ∈ ((records.filterMap fun r => truthy (txHash r)).filter fun h =>
        eventsOf index h ≠ []) ↔
      (∃ r ∈ records, truthy (txHash r) = some hash) ∧ eventsOf index hash ≠ [] := by
  rw [List.mem_filter, List.mem_filterMap, decide_eq_true_eq]

/-! ## Ledger entries -/

namespace LedgerChainMatcher

variable {chainEvents : List ReconcilableChainEvent} {entry : ReconcilableLedgerEntry}
  {txHash : JsString}

theorem matchEntry_of_settles {event : ReconcilableChainEvent}
    (hhash : truthy entry.txHash = some txHash) (h : Settles chainEvents txHash entry.money event) :
    matchEntry (byTxHash chainEvents) entry = .ok (some (compared entry txHash event none)) := by
  obtain ⟨hfirst, hagrees⟩ := h
  have htext := isIntegerText_of_agrees hagrees
  rw [← find?_eventsOf] at hfirst
  rw [matchEntry, hhash]
  dsimp only
  rcases hevents : eventsOf (byTxHash chainEvents) txHash with _ | ⟨first, rest⟩
  · rw [hevents] at hfirst
    cases hfirst
  · rw [hevents] at hfirst
    dsimp only
    rw [hfirst]
    dsimp only
    rw [htext]
    exact bind_eq_ok.mpr ⟨none, (compareAmounts_eq_none_iff htext).mpr hagrees, rfl⟩

/-- A result that is a match comes from an event that settles the entry. -/
theorem settles_of_matchEntry {row : LedgerChainMatch}
    (h : matchEntry (byTxHash chainEvents) entry = .ok (some row)) (hstatus : row.status = .matched) :
    ∃ txHash event, truthy entry.txHash = some txHash ∧ Settles chainEvents txHash entry.money event ∧
      row = compared entry txHash event none := by
  unfold matchEntry at h
  split at h
  · cases h
  · rename_i txHash hhash
    split at h
    · cases h
      cases hstatus
    · rename_i first rest hevents
      split at h
      · cases h
        cases hstatus
      · rename_i event hfirst
        rw [← hevents, find?_eventsOf] at hfirst
        split at h
        · obtain ⟨discrepancy, -, h⟩ := bind_eq_ok.mp h
          cases h
          cases hstatus
        · rename_i htext
          rw [Bool.not_eq_true, Bool.not_eq_false'] at htext
          obtain ⟨discrepancy, hcompare, h⟩ := bind_eq_ok.mp h
          cases h
          cases discrepancy with
          | none =>
            exact ⟨txHash, event, hhash, ⟨hfirst, (compareAmounts_eq_none_iff htext).mp hcompare⟩, rfl⟩
          | some d => cases hstatus

theorem matchEntry_eq_none_iff :
    matchEntry (byTxHash chainEvents) entry = .ok none ↔ truthy entry.txHash = none := by
  constructor
  · intro h
    unfold matchEntry at h
    split at h
    · assumption
    · split at h
      · cases h
      · split at h
        · cases h
        · split at h <;> obtain ⟨_, -, h⟩ := bind_eq_ok.mp h <;> cases h
  · intro h
    rw [matchEntry, h]

theorem clean_matchEntry_iff :
    (matchEntry (byTxHash chainEvents) entry = .ok none ∨
        ∃ row, matchEntry (byTxHash chainEvents) entry = .ok (some row) ∧ row.status = .matched) ↔
      ∀ txHash, truthy entry.txHash = some txHash →
        ∃ event, Settles chainEvents txHash entry.money event := by
  constructor
  · rintro (h | ⟨row, h, hstatus⟩) txHash hhash
    · rw [matchEntry_eq_none_iff.mp h] at hhash
      cases hhash
    · obtain ⟨txHash', event, hhash', hsettles, -⟩ := settles_of_matchEntry h hstatus
      rw [hhash] at hhash'
      cases hhash'
      exact ⟨event, hsettles⟩
  · intro h
    rcases hhash : truthy entry.txHash with _ | txHash
    · exact .inl (matchEntry_eq_none_iff.mpr hhash)
    · obtain ⟨event, hsettles⟩ := h txHash hhash
      exact .inr ⟨_, matchEntry_of_settles hhash hsettles, rfl⟩

/-- The matcher finds matches alone exactly where every entry with a transaction is settled and
every event is of a transaction that an entry names. -/
theorem clean_iff {ledgerEntries : List ReconcilableLedgerEntry} :
    (∃ rows, matchRecords ledgerEntries chainEvents = .ok rows ∧ ∀ r ∈ rows, r.status = .matched) ↔
      (∀ n ∈ ledgerEntries, ∀ txHash, truthy n.txHash = some txHash →
        ∃ event, Settles chainEvents txHash n.money event) ∧
      ∀ e ∈ chainEvents, ∃ n ∈ ledgerEntries, truthy n.txHash = some e.txHash := by
  have hmissing : ∀ matched : List JsString,
      (∀ r ∈ (chainEvents.filter fun e => e.txHash ∉ matched).map missingLedger,
        r.status = .matched) ↔ ∀ e ∈ chainEvents, e.txHash ∈ matched := by
    intro matched
    constructor
    · intro h e he
      by_contra hnot
      have hmem : e ∈ chainEvents.filter fun e => e.txHash ∉ matched :=
        List.mem_filter.mpr ⟨he, decide_eq_true hnot⟩
      cases h _ (List.mem_map_of_mem hmem)
    · intro h r hr
      obtain ⟨e, he, rfl⟩ := List.mem_map.mp hr
      obtain ⟨he, hnot⟩ := List.mem_filter.mp he
      exact absurd (h e he) (of_decide_eq_true hnot)
  have hnamed : (∀ e ∈ chainEvents, e.txHash ∈ matchedTxHashes (byTxHash chainEvents) ledgerEntries) ↔
      ∀ e ∈ chainEvents, ∃ n ∈ ledgerEntries, truthy n.txHash = some e.txHash := by
    refine forall_congr' fun e => forall_congr' fun he => ?_
    rw [matchedTxHashes, mem_matchedTxHashes]
    exact and_iff_left fun hnil => eventsOf_eq_nil_iff.mp hnil e he rfl
  simp only [← clean_matchEntry_iff, ← filterMapChecked_forall_iff, ← hnamed]
  constructor
  · rintro ⟨rows, h, hrows⟩
    obtain ⟨results, hresults, h⟩ := bind_eq_ok.mp h
    cases h
    exact ⟨⟨results, hresults, fun r hr => hrows r (List.mem_append_left _ hr)⟩,
      (hmissing _).mp fun r hr => hrows r (List.mem_append_right _ hr)⟩
  · rintro ⟨⟨results, hresults, hmatched⟩, hall⟩
    refine ⟨_, bind_eq_ok.mpr ⟨results, hresults, rfl⟩, fun r hr => ?_⟩
    rcases List.mem_append.mp hr with hr | hr
    · exact hmatched r hr
    · exact (hmissing _).mpr hall r hr

end LedgerChainMatcher

/-! ## Intents -/

/-- An intent is settled by the first event of its transaction, in its currency where it has an
amount. -/
structure SettlesIntent (chainEvents : List ReconcilableChainEvent) (txHash : JsString)
    (intent : ReconcilableIntent) (event : ReconcilableChainEvent) : Prop where
  priced : ∀ amount, intent.amount = some amount → Settles chainEvents txHash amount event
  unpriced : intent.amount = none →
    (chainEvents.find? fun e => e.txHash = txHash) = some event

namespace IntentChainMatcher

variable {chainEvents : List ReconcilableChainEvent} {intent : ReconcilableIntent}
  {txHash : JsString}

theorem head?_eventsOf (chainEvents : List ReconcilableChainEvent) (txHash : JsString) :
    (eventsOf (byTxHash chainEvents) txHash).head? =
      chainEvents.find? fun e => e.txHash = txHash := by
  rw [eventsOf_byTxHash, List.head?_filter]

theorem matchIntent_of_settles {event : ReconcilableChainEvent}
    (hhash : truthy intent.txHash = some txHash) (h : SettlesIntent chainEvents txHash intent event) :
    matchIntent (byTxHash chainEvents) intent = .ok (some (compared intent txHash event none)) := by
  rw [matchIntent, hhash]
  dsimp only
  rcases hamount : intent.amount with _ | amount
  · have hfirst := h.unpriced hamount
    rw [← head?_eventsOf] at hfirst
    obtain ⟨rest, hevents⟩ := List.head?_eq_some_iff.mp hfirst
    rw [hevents]
  · obtain ⟨hfirst, hagrees⟩ := h.priced amount hamount
    have htext := isIntegerText_of_agrees hagrees
    rw [← find?_eventsOf] at hfirst
    rcases hevents : eventsOf (byTxHash chainEvents) txHash with _ | ⟨first, rest⟩
    · rw [hevents] at hfirst
      cases hfirst
    · rw [hevents] at hfirst
      dsimp only
      rw [hfirst]
      dsimp only
      rw [htext]
      exact bind_eq_ok.mpr ⟨none, (compareAmounts_eq_none_iff htext).mpr hagrees, rfl⟩

theorem settles_of_matchIntent {row : IntentChainMatch}
    (h : matchIntent (byTxHash chainEvents) intent = .ok (some row)) (hstatus : row.status = .matched) :
    ∃ txHash event, truthy intent.txHash = some txHash ∧
      SettlesIntent chainEvents txHash intent event ∧ row = compared intent txHash event none := by
  unfold matchIntent at h
  split at h
  · cases h
  · rename_i txHash hhash
    split at h
    · cases h
      cases hstatus
    · rename_i first rest hevents
      split at h
      · rename_i hamount
        cases h
        refine ⟨txHash, first, hhash, ⟨fun amount h => ?_, fun _ => ?_⟩, rfl⟩
        · rw [hamount] at h
          cases h
        · rw [← head?_eventsOf, hevents]
          rfl
      · rename_i amount hamount
        split at h
        · cases h
          cases hstatus
        · rename_i event hfirst
          rw [← hevents, find?_eventsOf] at hfirst
          split at h
          · obtain ⟨discrepancy, -, h⟩ := bind_eq_ok.mp h
            cases h
            cases hstatus
          · rename_i htext
            rw [Bool.not_eq_true, Bool.not_eq_false'] at htext
            obtain ⟨discrepancy, hcompare, h⟩ := bind_eq_ok.mp h
            cases h
            cases discrepancy with
            | none =>
              refine ⟨txHash, event, hhash, ⟨fun a ha => ?_, fun hnone => ?_⟩, rfl⟩
              · rw [hamount] at ha
                cases ha
                exact ⟨hfirst, (compareAmounts_eq_none_iff htext).mp hcompare⟩
              · rw [hamount] at hnone
                cases hnone
            | some d => cases hstatus

theorem matchIntent_eq_none_iff :
    matchIntent (byTxHash chainEvents) intent = .ok none ↔ truthy intent.txHash = none := by
  constructor
  · intro h
    unfold matchIntent at h
    split at h
    · assumption
    · split at h
      · cases h
      · split at h
        · cases h
        · split at h
          · cases h
          · split at h <;> obtain ⟨_, -, h⟩ := bind_eq_ok.mp h <;> cases h
  · intro h
    rw [matchIntent, h]

theorem clean_matchIntent_iff :
    (matchIntent (byTxHash chainEvents) intent = .ok none ∨
        ∃ row, matchIntent (byTxHash chainEvents) intent = .ok (some row) ∧ row.status = .matched) ↔
      ∀ txHash, truthy intent.txHash = some txHash →
        ∃ event, SettlesIntent chainEvents txHash intent event := by
  constructor
  · rintro (h | ⟨row, h, hstatus⟩) txHash hhash
    · rw [matchIntent_eq_none_iff.mp h] at hhash
      cases hhash
    · obtain ⟨txHash', event, hhash', hsettles, -⟩ := settles_of_matchIntent h hstatus
      rw [hhash] at hhash'
      cases hhash'
      exact ⟨event, hsettles⟩
  · intro h
    rcases hhash : truthy intent.txHash with _ | txHash
    · exact .inl (matchIntent_eq_none_iff.mpr hhash)
    · obtain ⟨event, hsettles⟩ := h txHash hhash
      exact .inr ⟨_, matchIntent_of_settles hhash hsettles, rfl⟩

/-- Events that are not reported are of transactions that were matched or reported before. -/
theorem orphans_eq_nil_iff {matched : List JsString} :
    orphans matched [] chainEvents = [] ↔ ∀ e ∈ chainEvents, e.txHash ∈ matched := by
  induction chainEvents with
  | nil => simp [orphans]
  | cons e es ih =>
    rw [orphans, List.forall_mem_cons, ← ih]
    split
    · rename_i h
      have hmatched : e.txHash ∈ matched := h.resolve_right List.not_mem_nil
      exact (and_iff_right hmatched).symm
    · rename_i h
      constructor
      · intro hcons
        cases hcons
      · rintro ⟨hmatched, -⟩
        exact absurd (.inl hmatched) h

theorem status_of_mem_orphans {matched reported : List JsString} {row : IntentChainMatch}
    (h : row ∈ orphans matched reported chainEvents) : row.status = .missingIntent := by
  induction chainEvents generalizing reported with
  | nil => cases h
  | cons e es ih =>
    rw [orphans] at h
    split at h
    · exact ih h
    · rcases List.mem_cons.mp h with rfl | h
      · rfl
      · exact ih h

/-- The matcher finds matches alone exactly where every intent with a transaction is settled and
every event is of a transaction that an intent names. -/
theorem clean_iff {intents : List ReconcilableIntent} :
    (∃ rows, matchRecords intents chainEvents = .ok rows ∧ ∀ r ∈ rows, r.status = .matched) ↔
      (∀ i ∈ intents, ∀ txHash, truthy i.txHash = some txHash →
        ∃ event, SettlesIntent chainEvents txHash i event) ∧
      ∀ e ∈ chainEvents, ∃ i ∈ intents, truthy i.txHash = some e.txHash := by
  have hnamed : (∀ e ∈ chainEvents, e.txHash ∈ matchedTxHashes (byTxHash chainEvents) intents) ↔
      ∀ e ∈ chainEvents, ∃ i ∈ intents, truthy i.txHash = some e.txHash := by
    refine forall_congr' fun e => forall_congr' fun he => ?_
    rw [matchedTxHashes, mem_matchedTxHashes]
    exact and_iff_left fun hnil => eventsOf_eq_nil_iff.mp hnil e he rfl
  simp only [← clean_matchIntent_iff, ← filterMapChecked_forall_iff, ← hnamed, ← orphans_eq_nil_iff]
  constructor
  · rintro ⟨rows, h, hrows⟩
    obtain ⟨results, hresults, h⟩ := bind_eq_ok.mp h
    cases h
    refine ⟨⟨results, hresults, fun r hr => hrows r (List.mem_append_left _ hr)⟩, ?_⟩
    rw [List.eq_nil_iff_forall_not_mem]
    intro r hr
    have hmatched := hrows r (List.mem_append_right _ hr)
    rw [status_of_mem_orphans hr] at hmatched
    cases hmatched
  · rintro ⟨⟨results, hresults, hmatched⟩, hnil⟩
    refine ⟨_, bind_eq_ok.mpr ⟨results, hresults, rfl⟩, fun r hr => ?_⟩
    rw [hnil, List.append_nil] at hr
    exact hmatched r hr

end IntentChainMatcher

end Attestia.Reconciler
