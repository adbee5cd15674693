import Attestia.Reconciler.ChainMatches
import Attestia.Reconciler.Soundness

/-!
# Counterparts

The event that a record is matched with is the first one of the transaction that the record names,
in its currency where it has an amount. Records that name different transactions never share it,
and entries that name one transaction share it exactly where they are in one currency, whatever
their correlation ids are.
-/

namespace Attestia.Reconciler

open Lib JsonNumber Ledger

/-- The position of the first event of a transaction, in a currency where one is given. -/
def firstPosition (chainEvents : List ReconcilableChainEvent) (txHash : JsString)
    (currency : Option JsString) : Option ℕ :=
  chainEvents.findIdx? fun e => e.txHash = txHash ∧ ∀ c ∈ currency, e.symbol = c

section positions

variable {chainEvents : List ReconcilableChainEvent} {txHash : JsString}
  {currency : Option JsString} {k : ℕ}

theorem firstPosition_spec (h : firstPosition chainEvents txHash currency = some k) :
    ∃ event, chainEvents[k]? = some event ∧ event.txHash = txHash ∧
      ∀ c ∈ currency, event.symbol = c := by
  obtain ⟨hlt, hcheck, -⟩ := List.findIdx?_eq_some_iff_getElem.mp h
  exact ⟨chainEvents[k], List.getElem?_eq_getElem hlt, of_decide_eq_true hcheck⟩

theorem find?_firstPosition (h : firstPosition chainEvents txHash currency = some k) :
    chainEvents.find? (fun e => e.txHash = txHash ∧ ∀ c ∈ currency, e.symbol = c) =
      chainEvents[k]? := by
  rw [List.find?_eq_bind_findIdx?_getElem?]
  exact congrArg (Option.bind · fun i => chainEvents[i]?) h

theorem isSome_firstPosition {event : ReconcilableChainEvent} (hmem : event ∈ chainEvents)
    (hhash : event.txHash = txHash) (hsymbol : ∀ c ∈ currency, event.symbol = c) :
    ∃ k, firstPosition chainEvents txHash currency = some k := by
  rw [← Option.isSome_iff_exists, firstPosition, List.findIdx?_isSome, List.any_eq_true]
  exact ⟨event, hmem, decide_eq_true ⟨hhash, hsymbol⟩⟩

/-- Positions are the same where the transactions and the currencies are. -/
theorem firstPosition_eq_iff {other a b : JsString} {l : ℕ}
    (hk : firstPosition chainEvents txHash (some a) = some k)
    (hl : firstPosition chainEvents other (some b) = some l) : k = l ↔ txHash = other ∧ a = b := by
  constructor
  · rintro rfl
    obtain ⟨event, hevent, htx, hsymbol⟩ := firstPosition_spec hk
    obtain ⟨event', hevent', htx', hsymbol'⟩ := firstPosition_spec hl
    cases hevent.symm.trans hevent'
    exact ⟨htx.symm.trans htx', (hsymbol a rfl).symm.trans (hsymbol' b rfl)⟩
  · rintro ⟨rfl, rfl⟩
    exact Option.some.inj (hk.symm.trans hl)

end positions

namespace IntentChainMatcher

variable {chainEvents : List ReconcilableChainEvent} {intent other : ReconcilableIntent} {k l : ℕ}

/-- The event at a position is what an intent is matched with. -/
structure Counterpart (chainEvents : List ReconcilableChainEvent) (intent : ReconcilableIntent)
    (k : ℕ) : Prop where
  matched : ∃ row, matchIntent (byTxHash chainEvents) intent = .ok (some row) ∧ row.status = .matched
  position : ∃ txHash, truthy intent.txHash = some txHash ∧
    firstPosition chainEvents txHash (intent.amount.map Money.currency) = some k

theorem SettlesIntent.find? {txHash : JsString} {event : ReconcilableChainEvent}
    (h : SettlesIntent chainEvents txHash intent event) :
    chainEvents.find? (fun e => e.txHash = txHash ∧
      ∀ c ∈ intent.amount.map Money.currency, e.symbol = c) = some event := by
  rcases hamount : intent.amount with _ | amount
  · simpa using h.unpriced hamount
  · simpa [firstEvent] using (h.priced amount hamount).first

/-- The row of a matched intent is that of its counterpart. -/
theorem row_of_matched {row : IntentChainMatch}
    (h : matchIntent (byTxHash chainEvents) intent = .ok (some row)) (hstatus : row.status = .matched) :
    ∃ k event, Counterpart chainEvents intent k ∧ chainEvents[k]? = some event ∧
      intent.txHash = some event.txHash ∧ row = compared intent event.txHash event none ∧
      ∀ amount, intent.amount = some amount → Agrees amount event ∧ event.symbol = amount.currency := by
  obtain ⟨txHash, event, hhash, hsettles, hrow⟩ := settles_of_matchIntent h hstatus
  have hfind := SettlesIntent.find? hsettles
  have hcheck := List.find?_some hfind
  rw [decide_eq_true_eq] at hcheck
  obtain ⟨rfl, hsymbol⟩ := hcheck
  obtain ⟨k, hk⟩ := isSome_firstPosition (List.mem_of_find?_eq_some hfind) rfl hsymbol
  rw [find?_firstPosition hk] at hfind
  refine ⟨k, event, ⟨⟨row, h, hstatus⟩, _, hhash, hk⟩, hfind, (truthy_eq_some.mp hhash).1, hrow, ?_⟩
  intro amount hamount
  exact ⟨(hsettles.priced amount hamount).agrees,
    (firstEvent_eq_some (hsettles.priced amount hamount).first).2.2⟩

theorem Counterpart.txHash_eq (h : Counterpart chainEvents intent k) :
    ∃ event, chainEvents[k]? = some event ∧ intent.txHash = some event.txHash := by
  obtain ⟨-, txHash, hhash, hk⟩ := h
  obtain ⟨event, hevent, rfl, -⟩ := firstPosition_spec hk
  exact ⟨event, hevent, (truthy_eq_some.mp hhash).1⟩

/-- Matched intents with amounts share their counterpart exactly where they name one transaction
and are in one currency. -/
theorem Counterpart.eq_iff {a b : Money} (h : Counterpart chainEvents intent k)
    (h' : Counterpart chainEvents other l) (ha : intent.amount = some a) (hb : other.amount = some b) :
    k = l ↔ intent.txHash = other.txHash ∧ a.currency = b.currency := by
  obtain ⟨-, txHash, hhash, hk⟩ := h
  obtain ⟨-, txHash', hhash', hl⟩ := h'
  rw [ha] at hk
  rw [hb] at hl
  rw [firstPosition_eq_iff hk hl, (truthy_eq_some.mp hhash).1, (truthy_eq_some.mp hhash').1,
    Option.some.injEq]

end IntentChainMatcher

namespace LedgerChainMatcher

variable {chainEvents : List ReconcilableChainEvent} {entry other : ReconcilableLedgerEntry}
  {k l : ℕ}

/-- The event at a position is what an entry is matched with. -/
structure Counterpart (chainEvents : List ReconcilableChainEvent) (entry : ReconcilableLedgerEntry)
    (k : ℕ) : Prop where
  matched : ∃ row, matchEntry (byTxHash chainEvents) entry = .ok (some row) ∧ row.status = .matched
  position : ∃ txHash, truthy entry.txHash = some txHash ∧
    firstPosition chainEvents txHash (some entry.money.currency) = some k

theorem row_of_matched {row : LedgerChainMatch}
    (h : matchEntry (byTxHash chainEvents) entry = .ok (some row)) (hstatus : row.status = .matched) :
    ∃ k event, Counterpart chainEvents entry k ∧ chainEvents[k]? = some event ∧
      entry.txHash = some event.txHash ∧ row = compared entry event.txHash event none ∧
      Agrees entry.money event ∧ event.symbol = entry.money.currency := by
  obtain ⟨txHash, event, hhash, hsettles, hrow⟩ := settles_of_matchEntry h hstatus
  obtain ⟨hmem, rfl, hsymbol⟩ := firstEvent_eq_some hsettles.first
  obtain ⟨k, hk⟩ := @isSome_firstPosition _ _ (some entry.money.currency) _ hmem rfl
    fun c hc => hsymbol.trans (Option.some.inj hc)
  have hfind : chainEvents[k]? = some event := by
    rw [← find?_firstPosition hk, ← hsettles.first, firstEvent]
    simp
  exact ⟨k, event, ⟨⟨row, h, hstatus⟩, _, hhash, hk⟩, hfind, (truthy_eq_some.mp hhash).1, hrow,
    hsettles.agrees, hsymbol⟩

/-- Matched entries share their counterpart exactly where they name one transaction and are in one
currency. -/
theorem Counterpart.eq_iff (h : Counterpart chainEvents entry k)
    (h' : Counterpart chainEvents other l) :
    k = l ↔ entry.txHash = other.txHash ∧ entry.money.currency = other.money.currency := by
  obtain ⟨-, txHash, hhash, hk⟩ := h
  obtain ⟨-, txHash', hhash', hl⟩ := h'
  rw [firstPosition_eq_iff hk hl, (truthy_eq_some.mp hhash).1, (truthy_eq_some.mp hhash').1,
    Option.some.injEq]

end LedgerChainMatcher

/-! ## Both matchers -/

/-- The rows of both matchers that are matches are those of counterparts; these are of the
transaction that the record names, and are shared by records of one transaction alone. -/
theorem counterparts (intents : List ReconcilableIntent)
    (ledgerEntries : List ReconcilableLedgerEntry) (chainEvents : List ReconcilableChainEvent) :
    (∀ rows, IntentChainMatcher.matchRecords intents chainEvents = .ok rows →
      ∀ row ∈ rows, row.status = .matched → ∃ i ∈ intents, ∃ k event,
        IntentChainMatcher.Counterpart chainEvents i k ∧ chainEvents[k]? = some event ∧
        row = IntentChainMatcher.compared i event.txHash event none) ∧
    (∀ i ∈ intents, ∀ k, IntentChainMatcher.Counterpart chainEvents i k →
      ∃ event, chainEvents[k]? = some event ∧ i.txHash = some event.txHash ∧
        ∀ chain, (∀ e ∈ chainEvents, i.txHash = some e.txHash → e.chainId = chain) →
          event.chainId = chain) ∧
    (∀ i ∈ intents, ∀ j ∈ intents, ∀ k, IntentChainMatcher.Counterpart chainEvents i k →
      IntentChainMatcher.Counterpart chainEvents j k → i.txHash = j.txHash) ∧
    (∀ i ∈ intents, ∀ j ∈ intents, ∀ k l a b, IntentChainMatcher.Counterpart chainEvents i k →
      IntentChainMatcher.Counterpart chainEvents j l → i.amount = some a → j.amount = some b →
        (k = l ↔ i.txHash = j.txHash ∧ a.currency = b.currency)) ∧
    (∀ rows, LedgerChainMatcher.matchRecords ledgerEntries chainEvents = .ok rows →
      ∀ row ∈ rows, row.status = .matched → ∃ n ∈ ledgerEntries, ∃ k event,
        LedgerChainMatcher.Counterpart chainEvents n k ∧ chainEvents[k]? = some event ∧
        row = LedgerChainMatcher.compared n event.txHash event none) ∧
    (∀ n ∈ ledgerEntries, ∀ m ∈ ledgerEntries, ∀ k l, LedgerChainMatcher.Counterpart chainEvents n k →
      LedgerChainMatcher.Counterpart chainEvents m l →
        (k = l ↔ n.txHash = m.txHash ∧ n.money.currency = m.money.currency)) := by
  refine ⟨?_, ?_, ?_, ?_, ?_, ?_⟩
  · intro rows h row hrow hstatus
    obtain ⟨results, hresults, h⟩ := bind_eq_ok.mp h
    cases h
    rcases List.mem_append.mp hrow with hrow | hrow
    · obtain ⟨i, hi, hmatch⟩ := (mem_filterMapChecked hresults).mp hrow
      obtain ⟨k, event, hk, hevent, -, heq, -⟩ := IntentChainMatcher.row_of_matched hmatch hstatus
      exact ⟨i, hi, k, event, hk, hevent, heq⟩
    · rw [IntentChainMatcher.status_of_mem_orphans hrow] at hstatus
      cases hstatus
  · intro i _ k hk
    obtain ⟨event, hevent, hhash⟩ := hk.txHash_eq
    exact ⟨event, hevent, hhash, fun chain hchain =>
      hchain event (List.mem_of_getElem? hevent) hhash⟩
  · intro i _ j _ k hi hj
    obtain ⟨event, hevent, hhash⟩ := hi.txHash_eq
    obtain ⟨event', hevent', hhash'⟩ := hj.txHash_eq
    cases hevent.symm.trans hevent'
    exact hhash.trans hhash'.symm
  · intro i _ j _ k l a b hi hj ha hb
    exact hi.eq_iff hj ha hb
  · intro rows h row hrow hstatus
    obtain ⟨results, hresults, h⟩ := bind_eq_ok.mp h
    cases h
    rcases List.mem_append.mp hrow with hrow | hrow
    · obtain ⟨n, hn, hmatch⟩ := (mem_filterMapChecked hresults).mp hrow
      obtain ⟨k, event, hk, hevent, -, heq, -⟩ := LedgerChainMatcher.row_of_matched hmatch hstatus
      exact ⟨n, hn, k, event, hk, hevent, heq⟩
    · obtain ⟨e, -, rfl⟩ := List.mem_map.mp hrow
      cases hstatus
  · intro n _ m _ k l hn hm
    exact hn.eq_iff hm

/-! ## Two records of one transfer -/

theorem agrees_dollars (chainId txHash : JsString) :
    Agrees (dollars (js "1.00")) (transferOf chainId txHash (js "100")) := by
  have hparse : parseAmount (js "1.00") (.ofNat 2) = .ok 100 := by decide +kernel
  have hamount : integerOf (js "100") = 100 := by decide
  constructor
  · refine ⟨_, eventWorth_transferOf chainId txHash _ (by decide), ?_⟩
    rw [hamount]
    exact moneyWorth_of_eq_ok hparse
  · refine ⟨.ofNat 2, rfl, ?_⟩
    rw [dollars, sub_self]
    rfl

def oneTransfer : List ReconcilableChainEvent := [transferOf (js "c1") (js "t1") (js "100")]

/-- Any intent of the transaction over its amount is matched with the transfer. -/
theorem counterpart_oneTransfer {intent : ReconcilableIntent}
    (hhash : intent.txHash = some (js "t1")) (hamount : intent.amount = some (dollars (js "1.00"))) :
    IntentChainMatcher.Counterpart oneTransfer intent 0 := by
  have htruthy : truthy intent.txHash = some (js "t1") :=
    truthy_eq_some.mpr ⟨hhash, List.cons_ne_nil _ _⟩
  have hsettles : SettlesIntent oneTransfer (js "t1") intent
      (transferOf (js "c1") (js "t1") (js "100")) := by
    constructor
    · intro amount h
      rw [hamount] at h
      cases h
      exact ⟨rfl, agrees_dollars _ _⟩
    · intro h
      rw [hamount] at h
      cases h
  refine ⟨⟨_, IntentChainMatcher.matchIntent_of_settles htruthy hsettles, rfl⟩, _, htruthy, ?_⟩
  rw [hamount]
  decide

theorem entry_counterpart_oneTransfer (intentId : JsString) :
    LedgerChainMatcher.Counterpart oneTransfer (debitOf intentId (js "t1")) 0 := by
  have htruthy : truthy (debitOf intentId (js "t1")).txHash = some (js "t1") :=
    truthy_eq_some.mpr ⟨rfl, List.cons_ne_nil _ _⟩
  have hsettles : Settles oneTransfer (js "t1") (debitOf intentId (js "t1")).money
      (transferOf (js "c1") (js "t1") (js "100")) := ⟨rfl, agrees_dollars _ _⟩
  exact ⟨⟨_, LedgerChainMatcher.matchEntry_of_settles htruthy hsettles, rfl⟩, _, htruthy, rfl⟩

/-- An intent of another chain, two intents, and entries of two correlations are all matched with
one transfer. -/
theorem counterparts_shared :
    (¬ ∀ chainEvents intent k chain event, IntentChainMatcher.Counterpart chainEvents intent k →
      truthy intent.chainId = some chain → chainEvents[k]? = some event → event.chainId = chain) ∧
    (¬ ∀ chainEvents intent other k, IntentChainMatcher.Counterpart chainEvents intent k →
      IntentChainMatcher.Counterpart chainEvents other k → intent = other) ∧
    (¬ ∀ chainEvents entry other k, LedgerChainMatcher.Counterpart chainEvents entry k →
      LedgerChainMatcher.Counterpart chainEvents other k →
        entry.correlationId = other.correlationId) := by
  refine ⟨?_, ?_, ?_⟩
  · intro h
    have hchain := h oneTransfer { executedIntent (js "i1") (js "t1") with chainId := some (js "c2") }
      0 (js "c2") _ (counterpart_oneTransfer rfl rfl) rfl rfl
    revert hchain
    decide
  · intro h
    have hsame := congrArg ReconcilableIntent.id (h oneTransfer (executedIntent (js "i1") (js "t1"))
      (executedIntent (js "i2") (js "t1")) 0 (counterpart_oneTransfer rfl rfl)
      (counterpart_oneTransfer rfl rfl))
    revert hsame
    decide
  · intro h
    have hsame := h oneTransfer _ _ 0 (entry_counterpart_oneTransfer (js "i1"))
      (entry_counterpart_oneTransfer (js "i2"))
    revert hsame
    decide

end Attestia.Reconciler
