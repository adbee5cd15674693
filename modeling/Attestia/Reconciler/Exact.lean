import Attestia.Ledger.AmountText
import Attestia.Reconciler.Scoping
import Attestia.Reconciler.Soundness

/-!
# Exact comparison

Amounts with a natural number of decimals are compared as rational numbers, however far apart the
numbers of decimals are: no matcher rounds.
-/

namespace Attestia.Reconciler

open Lib JsonNumber Ledger

/-! ## Amounts as rational numbers -/

/-- An amount that can be read, with a natural number of decimals. -/
structure Readable (money : Money) : Prop where
  decimals : money.decimals = .ofNat money.scale
  parses : parseAmount money.amount money.decimals = .ok money.scaled

namespace ReconcilableChainEvent

def scale (event : ReconcilableChainEvent) : ℕ :=
  match event.decimals with
  | .finite decimals => ⌊decimals.val⌋.toNat
  | _ => 0

/-- What the event is worth. -/
def value (event : ReconcilableChainEvent) : ℚ := integerOf event.amount / 10 ^ event.scale

/-- The same for an event: its amount is the text of an integer. -/
structure Readable (event : ReconcilableChainEvent) : Prop where
  decimals : event.decimals = .finite (.ofNat event.scale)
  text : isIntegerText event.amount = true

end ReconcilableChainEvent

/-- A readable amount is worth the numeral that its text is. -/
theorem Readable.exists_numeral {money : Money} (h : Readable money) :
    ∃ n : Numeral, n.text = DecimalText.trim money.amount ∧ money.value = n.value := by
  have hparse := h.parses
  rw [h.decimals] at hparse
  obtain ⟨n, htext, hlength, hscaled⟩ := parseAmount_eq_ok_iff.mp hparse
  have hpow : (10 : ℚ) ^ money.scale ≠ 0 := by positivity
  refine ⟨n, htext, ?_⟩
  rw [Money.value, ← hscaled, Numeral.scaled_eq hlength, mul_div_cancel_right₀ _ hpow]

theorem worth_ofNat (n : ℤ) (d : ℕ) : worth n (.ofNat d) = ((n / 10 ^ d : ℚ) : ℝ) := by
  have hval : (((Number.ofNat d).val : ℚ) : ℝ) = (d : ℝ) := Rat.cast_natCast d
  rw [worth, hval, Real.rpow_natCast]
  push_cast
  rfl

theorem moneyWorth_of_readable {money : Money} (h : Readable money) :
    moneyWorth money = some (money.value : ℝ) := by
  rw [moneyWorth_of_eq_ok h.parses, h.decimals, worth_ofNat]
  rfl

theorem eventWorth_of_readable {event : ReconcilableChainEvent} (h : event.Readable) :
    eventWorth event = some (event.value : ℝ) := by
  rw [eventWorth, h.decimals]
  dsimp only
  rw [if_pos h.text, worth_ofNat]
  rfl

theorem den_ofNat_sub (d e : ℕ) : ((Number.ofNat d).val - (Number.ofNat e).val).den = 1 := by
  have hcast : (Number.ofNat d).val - (Number.ofNat e).val = ((d - e : ℤ) : ℚ) := by
    push_cast
    rfl
  rw [hcast, Rat.den_intCast]

/-! ## The verdict on two totals -/

/-- A matcher says a match exactly where `equal` holds, an amount mismatch otherwise, and it reports
the amounts exactly where `differing` holds. -/
structure Judges (status : MatchStatus) (discrepancies : List Discrepancy)
    (equal differing : Prop) : Prop where
  matched : status = .matched ↔ equal
  mismatched : status = .amountMismatch ↔ ¬ equal
  reported : (∃ d ∈ discrepancies, d.code = .amountMismatch) ↔ differing

theorem judges_ite {p equal differing : Prop} [Decidable p] {discrepancies : List Discrepancy}
    (hp : p ↔ equal)
    (hreported : (∃ d ∈ discrepancies, d.code = .amountMismatch) ↔ differing) :
    Judges (if p then .matched else .amountMismatch) discrepancies equal differing := by
  refine ⟨?_, ?_, hreported⟩ <;> rw [← hp] <;> split
  · exact iff_of_true rfl ‹p›
  · exact iff_of_false (fun h => nomatch h) ‹¬p›
  · exact iff_of_false (fun h => nomatch h) (not_not.mpr ‹p›)
  · exact iff_of_true rfl ‹¬p›

section events

variable {money : Money} {event : ReconcilableChainEvent} {w : Wording}

theorem agrees_iff_value_eq (hmoney : Readable money) (hevent : event.Readable) :
    Agrees money event ↔ money.value = event.value := by
  constructor
  · rintro ⟨⟨x, hx, hy⟩, -⟩
    rw [eventWorth_of_readable hevent] at hx
    rw [moneyWorth_of_readable hmoney, ← hx] at hy
    exact_mod_cast Option.some.inj hy
  · intro h
    refine ⟨⟨_, eventWorth_of_readable hevent, ?_⟩, _, hevent.decimals, ?_⟩
    · rw [moneyWorth_of_readable hmoney, h]
    · rw [hmoney.decimals]
      exact den_ofNat_sub _ _

/-- The comparison never throws. -/
theorem exists_compareAmounts (hmoney : Readable money) (hevent : event.Readable) :
    ∃ discrepancy, compareAmounts w money event = .ok discrepancy ∧
      ∀ d ∈ discrepancy, d.code = .amountMismatch := by
  have hraw : (parseAmount money.amount money.decimals).mapError MatchFault.ledger =
      .ok money.scaled := mapError_eq_ok.mpr hmoney.parses
  rw [compareAmounts, hraw, hevent.decimals]
  show ∃ discrepancy, (if money.decimals = .ofNat event.scale then _ else _) = _ ∧ _
  split
  · refine ⟨_, rfl, fun d hd => ?_⟩
    split at hd
    · cases hd
    · cases hd
      rfl
  · have hdens := den_maxDecimals_sub_iff.mpr
      (hmoney.decimals ▸ den_ofNat_sub event.scale money.scale :
        ((Number.ofNat event.scale).val - money.decimals.val).den = 1)
    obtain ⟨norm, hnorm⟩ := exists_rescale_iff.mpr hdens.1
    obtain ⟨chainNorm, hchainNorm⟩ := exists_rescale_iff.mpr hdens.2
    refine ⟨_, bind_eq_ok.mpr ⟨norm, hnorm, bind_eq_ok.mpr ⟨chainNorm, hchainNorm, rfl⟩⟩,
      fun d hd => ?_⟩
    split at hd
    · cases hd
    · cases hd
      rfl

/-- The result of a comparison judges the two values. -/
theorem judges_of_compareAmounts (hmoney : Readable money) (hevent : event.Readable)
    {discrepancy : Option Discrepancy} (h : compareAmounts w money event = .ok discrepancy) :
    Judges (if discrepancy.isNone then .matched else .amountMismatch) discrepancy.toList
      (money.value = event.value) (money.value ≠ event.value) := by
  have hequal : discrepancy = none ↔ money.value = event.value := by
    rw [← agrees_iff_value_eq hmoney hevent, ← compareAmounts_eq_none_iff hevent.text, h,
      Except.ok.injEq]
  obtain ⟨discrepancy', h', hcode⟩ := @exists_compareAmounts money event w hmoney hevent
  cases h.symm.trans h'
  apply judges_ite
  · rw [← hequal, Option.isNone_iff_eq_none]
  · refine Iff.trans ?_ hequal.not
    cases discrepancy with
    | none =>
      refine iff_of_false ?_ (not_not.mpr rfl)
      rintro ⟨d, hd, -⟩
      cases hd
    | some d =>
      refine iff_of_true ⟨d, List.mem_singleton.mpr rfl, hcode d rfl⟩ ?_
      intro h
      cases h

end events

section debits

variable {debits : List ReconcilableLedgerEntry}

/-- The sum of what the entries are worth. -/
def totalOf (entries : List ReconcilableLedgerEntry) : ℚ :=
  (entries.map fun e => e.money.value).sum

theorem worthOf_readable (h : ∀ d ∈ debits, Readable d.money) :
    IntentLedgerMatcher.worthOf debits = (totalOf debits : ℝ) := by
  have hmap : (debits.map fun d => (moneyWorth d.money).getD 0) =
      debits.map fun d => ((d.money.value : ℚ) : ℝ) := by
    apply List.map_congr_left
    intro d hd
    rw [moneyWorth_of_readable (h d hd), Option.getD_some]
  rw [IntentLedgerMatcher.worthOf, hmap, totalOf, Rat.cast_list_sum, List.map_map]
  rfl

end debits

namespace IntentLedgerMatcher

variable {intent : ReconcilableIntent} {amount : Money} {first : ReconcilableLedgerEntry}
  {debits : List ReconcilableLedgerEntry}

/-- The debits in the currency of an amount. -/
def sameCurrency (amount : Money) (debits : List ReconcilableLedgerEntry) :
    List ReconcilableLedgerEntry :=
  debits.filter fun d => d.money.currency = amount.currency

theorem filter_foreign_eq_nil_iff :
    (debits.filter fun d => d.money.currency ≠ amount.currency) = [] ↔
      ∀ d ∈ debits, d.money.currency = amount.currency := by
  rw [List.filter_eq_nil_iff]
  apply forall_congr'
  intro d
  apply forall_congr'
  intro _
  rw [decide_eq_true_eq, not_not]

/-- Of the discrepancies of a comparison, the sums alone name the amount. -/
theorem reported_iff {maxDec : Number} {norm total : ℤ} (foreign : List ReconcilableLedgerEntry) :
    (∃ d ∈ foreign.map (foreignDebit amount) ++
        (sumDiscrepancy amount debits maxDec norm total).toList, d.code = .amountMismatch) ↔
      norm ≠ total := by
  constructor
  · rintro ⟨d, hd, hcode⟩ hequal
    rcases List.mem_append.mp hd with hd | hd
    · obtain ⟨e, -, rfl⟩ := List.mem_map.mp hd
      cases hcode
    · rw [sumDiscrepancy, if_neg (not_not.mpr hequal)] at hd
      split at hd
      · cases List.mem_singleton.mp hd
        cases hcode
      · cases hd
  · intro hne
    obtain ⟨d, hd, hcode⟩ : ∃ d, sumDiscrepancy amount debits maxDec norm total = some d ∧
      d.code = .amountMismatch := ⟨_, if_pos hne, rfl⟩
    refine ⟨d, List.mem_append_right _ ?_, hcode⟩
    rw [hd]
    exact List.mem_singleton.mpr rfl

theorem exists_compareDebits (hamount : Readable amount)
    (hdebits : ∀ d ∈ debits, Readable d.money) :
    ∃ row, compareDebits intent amount first debits = .ok row ∧ row.intentId = intent.id ∧
      Judges row.status row.structuredDiscrepancies
        ((∀ d ∈ debits, d.money.currency = amount.currency) ∧
          amount.value = totalOf (sameCurrency amount debits))
        (amount.value ≠ totalOf (sameCurrency amount debits)) := by
  have hsame : ∀ d ∈ sameCurrency amount debits, Readable d.money := fun d hd =>
    hdebits d (List.mem_of_mem_filter hd)
  obtain ⟨hle, hles, -⟩ := greatestDecimals_spec amount (sameCurrency amount debits)
  obtain ⟨hden, hdens⟩ := (@den_greatestDecimals_iff (sameCurrency amount debits) amount).mpr
    fun d hd => by
      rw [(hsame d hd).decimals, hamount.decimals]
      exact den_ofNat_sub _ _
  obtain ⟨norm, hnorm⟩ := @exists_rescale_iff amount.scaled _ _ |>.mpr hden
  obtain ⟨total, htotal⟩ := @exists_foldlM _ _ 0 fun d hd =>
    ⟨isSome_moneyWorth_iff.mpr ⟨_, (hsame d hd).parses⟩, hdens d hd⟩
  have hequal : norm = total ↔ amount.value = totalOf (sameCurrency amount debits) := by
    have htotalWorth := (worth_of_foldlM hles htotal).1
    rw [worth_zero, zero_add, worthOf_readable hsame] at htotalWorth
    have hnormWorth : worth norm (greatestDecimals amount (sameCurrency amount debits)) =
        (amount.value : ℝ) := by
      rw [worth_rescale hle hnorm, hamount.decimals, worth_ofNat]
      rfl
    rw [← Rat.cast_inj (α := ℝ), ← htotalWorth, ← hnormWorth]
    exact ⟨fun h => by rw [h], worth_inj⟩
  refine ⟨_, bind_eq_ok.mpr ⟨_, mapError_eq_ok.mpr hamount.parses, bind_eq_ok.mpr ⟨norm, hnorm,
    bind_eq_ok.mpr ⟨total, htotal, rfl⟩⟩⟩, rfl, ?_⟩
  apply judges_ite
  · rw [hequal, filter_foreign_eq_nil_iff, and_comm]
  · exact (reported_iff _).trans hequal.not

theorem exists_noDebits (hamount : Readable amount) :
    ∃ row, noDebits intent amount first = .ok row ∧ row.intentId = intent.id ∧
      ∀ equal differing : Prop, ¬ equal → differing →
        Judges row.status row.structuredDiscrepancies equal differing := by
  refine ⟨_, bind_eq_ok.mpr ⟨_, mapError_eq_ok.mpr hamount.parses, rfl⟩, rfl, ?_⟩
  intro equal differing hequal hdiffering
  refine ⟨iff_of_false (fun h => nomatch h) hequal, iff_of_true rfl hequal,
    iff_of_true ?_ hdiffering⟩
  exact ⟨_, List.mem_singleton.mpr rfl, rfl⟩

/-- What the loop says of an intent with an amount that some entries name. -/
theorem exists_matchEntries {entries : List ReconcilableLedgerEntry}
    (hintent : intent.amount = some amount) (hamount : Readable amount)
    (hentries : ∀ e ∈ entries, Readable e.money) (hne : entries ≠ []) :
    ∃ row, matchEntries intent entries = .ok (some row) ∧ row.intentId = intent.id ∧
      Judges row.status row.structuredDiscrepancies
        (debitsOf entries ≠ [] ∧ (∀ d ∈ debitsOf entries, d.money.currency = amount.currency) ∧
          amount.value = totalOf (sameCurrency amount (debitsOf entries)))
        (debitsOf entries = [] ∨
          amount.value ≠ totalOf (sameCurrency amount (debitsOf entries))) := by
  rcases entries with _ | ⟨first, rest⟩
  · exact absurd rfl hne
  · have hdebits : ∀ d ∈ debitsOf (first :: rest), Readable d.money := fun d hd =>
      hentries d (List.mem_of_mem_filter hd)
    rw [matchEntries, hintent]
    have hfilter : ((first :: rest).filter fun e => e.type = .debit) =
        debitsOf (first :: rest) := rfl
    rw [hfilter]
    generalize debitsOf (first :: rest) = debits at hdebits
    cases debits with
    | nil =>
      obtain ⟨row, hrow, hid, hjudges⟩ := @exists_noDebits intent amount first hamount
      refine ⟨row, map_eq_ok.mpr ⟨row, hrow, rfl⟩, hid, hjudges _ _ ?_ (.inl rfl)⟩
      exact fun h => h.1 rfl
    | cons debit debits =>
      obtain ⟨row, hrow, hid, hjudges⟩ :=
        @exists_compareDebits intent amount first _ hamount hdebits
      refine ⟨row, map_eq_ok.mpr ⟨row, hrow, rfl⟩, hid, ?_⟩
      rwa [and_iff_right (List.cons_ne_nil debit debits),
        or_iff_right (List.cons_ne_nil debit debits)]

end IntentLedgerMatcher

/-! ## The three matchers -/

theorem readable_of_firstEvent {chainEvents : List ReconcilableChainEvent}
    {txHash currency : JsString} {event : ReconcilableChainEvent}
    (hevents : ∀ e ∈ chainEvents, e.Readable)
    (h : firstEvent chainEvents txHash currency = some event) : event.Readable :=
  hevents event (firstEvent_eq_some h).1

theorem LedgerChainMatcher.exists_matchEntry {chainEvents : List ReconcilableChainEvent}
    {entry : ReconcilableLedgerEntry} (hentry : Readable entry.money)
    (hevents : ∀ e ∈ chainEvents, e.Readable) :
    ∃ o, matchEntry (byTxHash chainEvents) entry = .ok o ∧
      ∀ txHash event, truthy entry.txHash = some txHash →
        firstEvent chainEvents txHash entry.money.currency = some event →
        ∃ discrepancy, o = some (compared entry txHash event discrepancy) ∧
          compareAmounts ledgerWording entry.money event = .ok discrepancy := by
  rw [matchEntry]
  rcases truthy entry.txHash with _ | txHash
  · refine ⟨none, rfl, fun _ _ hhash => ?_⟩
    cases hhash
  · dsimp only
    rcases hindex : eventsOf (byTxHash chainEvents) txHash with _ | ⟨first, rest⟩
    · refine ⟨_, rfl, fun txHash' event hhash hfirst => ?_⟩
      cases hhash
      rw [← find?_eventsOf, hindex] at hfirst
      cases hfirst
    · dsimp only
      rw [← hindex, find?_eventsOf]
      rcases hfirst : firstEvent chainEvents txHash entry.money.currency with _ | event
      · refine ⟨_, rfl, fun txHash' event hhash hfirst' => ?_⟩
        cases hhash
        rw [hfirst] at hfirst'
        cases hfirst'
      · have hread := readable_of_firstEvent hevents hfirst
        obtain ⟨discrepancy, hcompare, -⟩ :=
          @exists_compareAmounts entry.money event ledgerWording hentry hread
        dsimp only
        rw [hread.text]
        refine ⟨_, bind_eq_ok.mpr ⟨discrepancy, hcompare, rfl⟩,
          fun txHash' event' hhash hfirst' => ?_⟩
        cases hhash
        cases hfirst.symm.trans hfirst'
        exact ⟨discrepancy, rfl, hcompare⟩

theorem IntentChainMatcher.exists_matchIntent {chainEvents : List ReconcilableChainEvent}
    {intent : ReconcilableIntent} (hintent : ∀ amount ∈ intent.amount, Readable amount)
    (hevents : ∀ e ∈ chainEvents, e.Readable) :
    ∃ o, matchIntent (byTxHash chainEvents) intent = .ok o ∧
      ∀ txHash event amount, truthy intent.txHash = some txHash → intent.amount = some amount →
        firstEvent chainEvents txHash amount.currency = some event →
        ∃ discrepancy, o = some (compared intent txHash event discrepancy) ∧
          compareAmounts intentWording amount event = .ok discrepancy := by
  rw [matchIntent]
  rcases truthy intent.txHash with _ | txHash
  · refine ⟨none, rfl, fun _ _ _ hhash => ?_⟩
    cases hhash
  · dsimp only
    rcases hindex : eventsOf (byTxHash chainEvents) txHash with _ | ⟨first, rest⟩
    · refine ⟨_, rfl, fun txHash' event amount hhash _ hfirst => ?_⟩
      cases hhash
      rw [← find?_eventsOf, hindex] at hfirst
      cases hfirst
    · dsimp only
      rcases hamount : intent.amount with _ | amount
      · refine ⟨_, rfl, fun _ _ _ _ hamount' => ?_⟩
        cases hamount'
      · dsimp only
        rw [← hindex, find?_eventsOf]
        rcases hfirst : firstEvent chainEvents txHash amount.currency with _ | event
        · refine ⟨_, rfl, fun txHash' event amount' hhash hamount' hfirst' => ?_⟩
          cases hhash
          cases hamount'
          rw [hfirst] at hfirst'
          cases hfirst'
        · have hread := readable_of_firstEvent hevents hfirst
          obtain ⟨discrepancy, hcompare, -⟩ :=
            @exists_compareAmounts amount event intentWording (hintent amount hamount) hread
          dsimp only
          rw [hread.text]
          refine ⟨_, bind_eq_ok.mpr ⟨discrepancy, hcompare, rfl⟩,
            fun txHash' event' amount' hhash hamount' hfirst' => ?_⟩
          cases hhash
          cases hamount'
          cases hfirst.symm.trans hfirst'
          exact ⟨discrepancy, rfl, hcompare⟩

section matchers

variable {intents : List ReconcilableIntent} {ledgerEntries : List ReconcilableLedgerEntry}
  {chainEvents : List ReconcilableChainEvent}

/-- An intent with an amount is compared with the debits that name it. -/
theorem IntentLedgerMatcher.judged (hintents : ∀ i ∈ intents, ∀ amount ∈ i.amount, Readable amount)
    (hentries : ∀ n ∈ ledgerEntries, Readable n.money) :
    ∃ rows, matchRecords intents ledgerEntries = .ok rows ∧
      ∀ i ∈ intents, ∀ amount ∈ i.amount, linked ledgerEntries i.id ≠ [] →
        ∃ row ∈ rows, matchIntent (byIntentId ledgerEntries) i = .ok (some row) ∧
          row.intentId = i.id ∧
          Judges row.status row.structuredDiscrepancies
            (debitsOf (linked ledgerEntries i.id) ≠ [] ∧
              (∀ d ∈ debitsOf (linked ledgerEntries i.id), d.money.currency = amount.currency) ∧
              amount.value = totalOf (sameCurrency amount (debitsOf (linked ledgerEntries i.id))))
            (debitsOf (linked ledgerEntries i.id) = [] ∨
              amount.value ≠
                totalOf (sameCurrency amount (debitsOf (linked ledgerEntries i.id)))) := by
  have hlinked : ∀ i : ReconcilableIntent, ∀ e ∈ linked ledgerEntries i.id, Readable e.money :=
    fun i e he => hentries e (mem_linked.mp he).1
  have hmatch : ∀ i : ReconcilableIntent, matchIntent (byIntentId ledgerEntries) i =
      matchEntries i (linked ledgerEntries i.id) := fun i => by
    rw [matchIntent, entriesOf_byIntentId]
  obtain ⟨results, hresults⟩ : ∃ results,
      filterMapChecked (matchIntent (byIntentId ledgerEntries)) intents = .ok results := by
    apply exists_filterMapChecked_iff.mpr
    intro i hi
    rw [hmatch]
    rcases hnames : linked ledgerEntries i.id with _ | ⟨first, rest⟩
    · exact ⟨_, rfl⟩
    · rcases hamount : i.amount with _ | amount
      · refine ⟨some (unpriced i first), ?_⟩
        rw [matchEntries, hamount]
      · have hread := hlinked i
        rw [hnames] at hread
        obtain ⟨row, hrow, -⟩ := exists_matchEntries hamount (hintents i hi amount hamount) hread
          (List.cons_ne_nil _ _)
        exact ⟨_, hrow⟩
  refine ⟨_, bind_eq_ok.mpr ⟨results, hresults, rfl⟩, fun i hi amount hamount hne => ?_⟩
  obtain ⟨row, hrow, hid, hjudges⟩ :=
    exists_matchEntries hamount (hintents i hi amount hamount) (hlinked i) hne
  rw [← hmatch] at hrow
  exact ⟨row, subset_addOrphans ((mem_filterMapChecked hresults).mpr ⟨i, hi, hrow⟩), hrow, hid,
    hjudges⟩

/-- An entry is compared with the first event of its transaction in its currency. -/
theorem LedgerChainMatcher.judged (hentries : ∀ n ∈ ledgerEntries, Readable n.money)
    (hevents : ∀ e ∈ chainEvents, e.Readable) :
    ∃ rows, matchRecords ledgerEntries chainEvents = .ok rows ∧
      ∀ n ∈ ledgerEntries, ∀ txHash event, truthy n.txHash = some txHash →
        firstEvent chainEvents txHash n.money.currency = some event →
        ∃ row ∈ rows, matchEntry (byTxHash chainEvents) n = .ok (some row) ∧
          row.txHash = some txHash ∧
          Judges row.status row.structuredDiscrepancies (n.money.value = event.value)
            (n.money.value ≠ event.value) := by
  obtain ⟨results, hresults⟩ : ∃ results,
      filterMapChecked (matchEntry (byTxHash chainEvents)) ledgerEntries = .ok results := by
    apply exists_filterMapChecked_iff.mpr
    intro n hn
    obtain ⟨o, ho, -⟩ := exists_matchEntry (hentries n hn) hevents
    exact ⟨o, ho⟩
  refine ⟨_, bind_eq_ok.mpr ⟨results, hresults, rfl⟩, fun n hn txHash event hhash hfirst => ?_⟩
  obtain ⟨o, ho, hcompared⟩ := exists_matchEntry (hentries n hn) hevents
  obtain ⟨discrepancy, rfl, hcompare⟩ := hcompared txHash event hhash hfirst
  exact ⟨_, List.mem_append_left _ ((mem_filterMapChecked hresults).mpr ⟨n, hn, ho⟩), ho, rfl,
    judges_of_compareAmounts (hentries n hn) (readable_of_firstEvent hevents hfirst) hcompare⟩

/-- An intent is compared with the first event of its transaction in its currency. -/
theorem IntentChainMatcher.judged (hintents : ∀ i ∈ intents, ∀ amount ∈ i.amount, Readable amount)
    (hevents : ∀ e ∈ chainEvents, e.Readable) :
    ∃ rows, matchRecords intents chainEvents = .ok rows ∧
      ∀ i ∈ intents, ∀ txHash event amount, truthy i.txHash = some txHash → i.amount = some amount →
        firstEvent chainEvents txHash amount.currency = some event →
        ∃ row ∈ rows, matchIntent (byTxHash chainEvents) i = .ok (some row) ∧
          row.intentId = i.id ∧
          Judges row.status row.structuredDiscrepancies (amount.value = event.value)
            (amount.value ≠ event.value) := by
  obtain ⟨results, hresults⟩ :
      ∃ results, filterMapChecked (matchIntent (byTxHash chainEvents)) intents = .ok results := by
    apply exists_filterMapChecked_iff.mpr
    intro i hi
    obtain ⟨o, ho, -⟩ := exists_matchIntent (hintents i hi) hevents
    exact ⟨o, ho⟩
  refine ⟨_, bind_eq_ok.mpr ⟨results, hresults, rfl⟩,
    fun i hi txHash event amount hhash hamount hfirst => ?_⟩
  obtain ⟨o, ho, hcompared⟩ := exists_matchIntent (hintents i hi) hevents
  obtain ⟨discrepancy, rfl, hcompare⟩ := hcompared txHash event amount hhash hamount hfirst
  exact ⟨_, List.mem_append_left _ ((mem_filterMapChecked hresults).mpr ⟨i, hi, ho⟩), ho, rfl,
    judges_of_compareAmounts (hintents i hi amount hamount) (readable_of_firstEvent hevents hfirst)
      hcompare⟩

end matchers

/-! ## A debit of another currency, and an intent without debits -/

/-- A part of a cent more than a dollar, in nine decimals. -/
def scaledTransfer : ReconcilableChainEvent :=
  { transferOf (js "c1") (js "t1") (js "1000000001") with decimals := .finite (.ofNat 9) }

theorem readable_of_parse {amount : JsString} {n : ℤ} (h : parseAmount amount (.ofNat 2) = .ok n) :
    Readable (dollars amount) := by
  have hscale := scale_ofNat amount (js "USD") 2
  refine ⟨?_, ?_⟩
  · show _ = Number.ofNat (Money.scale ⟨amount, js "USD", .ofNat 2⟩)
    rw [hscale]
    rfl
  · rw [scaled_of_parseAmount (m := dollars amount) h]
    exact h

/-- A debit of five euros that names an intent of a dollar. -/
def euroDebit : ReconcilableLedgerEntry :=
  { debitOf (js "i1") (js "t1") with
    id := js "entry:euro", money := ⟨js "5.00", js "EUR", .ofNat 2⟩ }

/-- An intent of nothing, and its entry, a credit. -/
def emptyIntent : ReconcilableIntent :=
  { executedIntent (js "i1") (js "t1") with amount := some (dollars (js "0.00")) }

def emptyCredit : ReconcilableLedgerEntry :=
  { debitOf (js "i1") (js "t1") with type := .credit, money := dollars (js "0.00") }

def statusesOf (intents : List ReconcilableIntent) (ledgerEntries : List ReconcilableLedgerEntry) :
    Option (List MatchStatus) :=
  (IntentLedgerMatcher.matchRecords intents ledgerEntries).toOption.map fun rows =>
    rows.map IntentLedgerMatch.status

end Attestia.Reconciler
