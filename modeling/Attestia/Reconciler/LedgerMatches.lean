import Attestia.Reconciler.IntentLedgerMatcher
import Attestia.Reconciler.Worth

/-!
# Matches with ledger entries

An intent is matched exactly where the debits that name it are worth its amount together; and an
entry is reported exactly where no entry of its id names one of the intents.
-/

namespace Attestia.Reconciler

open Lib JsonNumber Ledger

namespace IntentLedgerMatcher

/-- The entries that name an intent. -/
def linked (ledgerEntries : List ReconcilableLedgerEntry) (intentId : JsString) :
    List ReconcilableLedgerEntry :=
  ledgerEntries.filter fun e => truthy e.intentId = some intentId

theorem entriesOf_byIntentId (ledgerEntries : List ReconcilableLedgerEntry) (intentId : JsString) :
    entriesOf (byIntentId ledgerEntries) intentId = linked ledgerEntries intentId := by
  have hfilter : (ledgerEntries.filter fun e => (truthy e.intentId).isSome).filter
      (fun e => e.intentId.getD [] = intentId) = linked ledgerEntries intentId := by
    rw [List.filter_filter, linked]
    refine List.filter_congr fun e _ => ?_
    rw [Bool.eq_iff_iff, Bool.and_eq_true, decide_eq_true_eq, decide_eq_true_eq]
    constructor
    · rintro ⟨hid, hsome⟩
      obtain ⟨id, hid'⟩ := Option.isSome_iff_exists.mp hsome
      rw [(truthy_eq_some.mp hid').1, Option.getD_some] at hid
      rw [hid', hid]
    · intro h
      exact ⟨by rw [(truthy_eq_some.mp h).1, Option.getD_some], by rw [h, Option.isSome_some]⟩
  rw [entriesOf, byIntentId, JsMap.get?_groupBy, hfilter]
  split
  · rename_i hnil
    rw [hnil]
    rfl
  · rfl

/-! ## Sums of debits -/

/-- What the debits are worth together, where all of them can be read. -/
noncomputable def worthOf (debits : List ReconcilableLedgerEntry) : ℝ :=
  (debits.map fun d => (moneyWorth d.money).getD 0).sum

/-- A debit that can be summed up with a money. -/
structure Summable (amount : Money) (debit : ReconcilableLedgerEntry) : Prop where
  parses : (moneyWorth debit.money).isSome
  scales : (debit.money.decimals.val - amount.decimals.val).den = 1

theorem isSome_moneyWorth_iff {money : Money} :
    (moneyWorth money).isSome ↔ ∃ raw, parseAmount money.amount money.decimals = .ok raw := by
  rw [moneyWorth]
  rcases parseAmount money.amount money.decimals with e | raw
  · constructor
    · intro h
      cases h
    · rintro ⟨raw, h⟩
      cases h
  · exact ⟨fun _ => ⟨raw, rfl⟩, fun _ => rfl⟩

section sums

variable {maxDec : Number} {debits : List ReconcilableLedgerEntry}

/-- A sum is worth what is summed up. -/
theorem worth_of_foldlM {start total : ℤ}
    (hle : ∀ d ∈ debits, d.money.decimals.val ≤ maxDec.val)
    (h : debits.foldlM (fun total d => do
      let raw ← (parseAmount d.money.amount d.money.decimals).mapError MatchFault.ledger
      let norm ← rescale raw maxDec d.money.decimals
      return total + norm) start = .ok total) :
    worth total maxDec = worth start maxDec + worthOf debits ∧
      ∀ d ∈ debits, (moneyWorth d.money).isSome ∧ (maxDec.val - d.money.decimals.val).den = 1 := by
  induction debits generalizing start with
  | nil =>
    cases h
    exact ⟨(add_zero _).symm, fun d hd => absurd hd List.not_mem_nil⟩
  | cons d ds ih =>
    rw [List.foldlM_cons] at h
    obtain ⟨next, hnext, h⟩ := bind_eq_ok.mp h
    obtain ⟨raw, hraw, hnext⟩ := bind_eq_ok.mp hnext
    obtain ⟨norm, hnorm, hnext⟩ := bind_eq_ok.mp hnext
    cases hnext
    obtain ⟨hworth, hrest⟩ := ih (fun d hd => hle d (.tail _ hd)) h
    have hmoney := moneyWorth_of_eq_ok (mapError_eq_ok.mp hraw)
    refine ⟨?_, List.forall_mem_cons.mpr ⟨⟨?_, exists_rescale_iff.mp ⟨norm, hnorm⟩⟩, hrest⟩⟩
    · rw [hworth, worth_add, worth_rescale (hle d (.head _)) hnorm, worthOf, worthOf, List.map_cons,
        List.sum_cons, hmoney, Option.getD_some, add_assoc]
    · rw [hmoney, Option.isSome_some]

theorem exists_foldlM {start : ℤ}
    (h : ∀ d ∈ debits, (moneyWorth d.money).isSome ∧ (maxDec.val - d.money.decimals.val).den = 1) :
    ∃ total, debits.foldlM (fun total d => do
      let raw ← (parseAmount d.money.amount d.money.decimals).mapError MatchFault.ledger
      let norm ← rescale raw maxDec d.money.decimals
      return total + norm) start = .ok total := by
  induction debits generalizing start with
  | nil => exact ⟨start, rfl⟩
  | cons d ds ih =>
    obtain ⟨⟨hparses, hscales⟩, hrest⟩ := List.forall_mem_cons.mp h
    obtain ⟨raw, hraw⟩ := isSome_moneyWorth_iff.mp hparses
    obtain ⟨norm, hnorm⟩ := exists_rescale_iff.mpr hscales
    obtain ⟨total, htotal⟩ := @ih (start + norm) hrest
    refine ⟨total, ?_⟩
    rw [List.foldlM_cons]
    exact bind_eq_ok.mpr ⟨start + norm, bind_eq_ok.mpr ⟨raw, mapError_eq_ok.mpr hraw,
      bind_eq_ok.mpr ⟨norm, hnorm, rfl⟩⟩, htotal⟩

/-- The greatest number of decimals is one of them. -/
theorem greatestDecimals_spec (amount : Money) (debits : List ReconcilableLedgerEntry) :
    amount.decimals.val ≤ (greatestDecimals amount debits).val ∧
      (∀ d ∈ debits, d.money.decimals.val ≤ (greatestDecimals amount debits).val) ∧
      (greatestDecimals amount debits = amount.decimals ∨
        ∃ d ∈ debits, greatestDecimals amount debits = d.money.decimals) := by
  unfold greatestDecimals
  generalize amount.decimals = start
  induction debits generalizing start with
  | nil => exact ⟨le_refl _, fun d hd => absurd hd List.not_mem_nil, .inl rfl⟩
  | cons d ds ih =>
    rw [List.foldl_cons]
    obtain ⟨hstart, hds, hone⟩ := ih (maxDecimals start d.money.decimals)
    refine ⟨(le_maxDecimals_left _ _).trans hstart, List.forall_mem_cons.mpr
      ⟨(le_maxDecimals_right _ _).trans hstart, hds⟩, ?_⟩
    rcases hone with hone | ⟨e, he, hone⟩
    · rw [hone]
      unfold maxDecimals
      split
      · exact .inr ⟨d, .head _, rfl⟩
      · exact .inl rfl
    · exact .inr ⟨e, .tail _ he, hone⟩

/-- All differ from the greatest one by an integer exactly where they do from the first one. -/
theorem den_greatestDecimals_iff {amount : Money} :
    ((greatestDecimals amount debits).val - amount.decimals.val).den = 1 ∧
        (∀ d ∈ debits, ((greatestDecimals amount debits).val - d.money.decimals.val).den = 1) ↔
      ∀ d ∈ debits, (d.money.decimals.val - amount.decimals.val).den = 1 := by
  constructor
  · rintro ⟨hamount, hdebits⟩ d hd
    exact den_sub_trans (den_sub_comm _ _ ▸ hdebits d hd) hamount
  · intro h
    obtain ⟨-, -, hone⟩ := greatestDecimals_spec amount debits
    have hamount : ((greatestDecimals amount debits).val - amount.decimals.val).den = 1 := by
      rcases hone with hone | ⟨d, hd, hone⟩
      · rw [hone, sub_self]
        rfl
      · rw [hone]
        exact h d hd
    refine ⟨hamount, fun d hd => ?_⟩
    exact den_sub_trans hamount (den_sub_comm _ _ ▸ h d hd)

end sums

/-! ## Intents -/

/-- Debits are worth an amount together. -/
structure Pays (amount : Money) (debits : List ReconcilableLedgerEntry) : Prop where
  nonempty : debits ≠ []
  currency : ∀ d ∈ debits, d.money.currency = amount.currency
  summable : ∀ d ∈ debits, Summable amount d
  worth : moneyWorth amount = some (worthOf debits)

/-- An intent is settled by the entries that name it. -/
structure SettledBy (intent : ReconcilableIntent) (entries : List ReconcilableLedgerEntry) :
    Prop where
  empty : entries = [] → isSettled intent = false
  pays : entries ≠ [] → ∀ amount, intent.amount = some amount →
    Pays amount (entries.filter fun e => e.type = .debit)

section intents

variable {intent : ReconcilableIntent} {amount : Money} {first : ReconcilableLedgerEntry}
  {debits entries : List ReconcilableLedgerEntry}

theorem compareDebits_matched_iff (hne : debits ≠ []) :
    (∃ row, compareDebits intent amount first debits = .ok row ∧ row.status = .matched) ↔
      Pays amount debits := by
  obtain ⟨hle, hles, -⟩ := greatestDecimals_spec amount
    (debits.filter fun d => d.money.currency = amount.currency)
  constructor
  · rintro ⟨row, h, hstatus⟩
    obtain ⟨raw, hraw, h⟩ := bind_eq_ok.mp h
    obtain ⟨norm, hnorm, h⟩ := bind_eq_ok.mp h
    obtain ⟨total, htotal, h⟩ := bind_eq_ok.mp h
    cases h
    dsimp only at hstatus
    split at hstatus
    · rename_i hmatched
      obtain ⟨hequal, hforeign⟩ := hmatched
      have hcurrency : ∀ d ∈ debits, d.money.currency = amount.currency := by
        intro d hd
        by_contra hne
        exact List.filter_eq_nil_iff.mp hforeign d hd (decide_eq_true hne)
      have hsame : (debits.filter fun d => d.money.currency = amount.currency) = debits :=
        List.filter_eq_self.mpr fun d hd => decide_eq_true (hcurrency d hd)
      obtain ⟨hworth, hsummable⟩ := worth_of_foldlM hles htotal
      rw [hsame] at hworth hsummable hnorm hle
      have hscales := den_greatestDecimals_iff.mp
        ⟨exists_rescale_iff.mp ⟨norm, hnorm⟩, fun d hd => (hsummable d hd).2⟩
      refine ⟨hne, hcurrency, fun d hd => ⟨(hsummable d hd).1, hscales d hd⟩, ?_⟩
      rw [moneyWorth_of_eq_ok (mapError_eq_ok.mp hraw), ← worth_rescale hle hnorm, hequal,
        hworth, worth_zero, zero_add]
    · cases hstatus
  · rintro ⟨-, hcurrency, hsummable, hworth⟩
    have hsame : (debits.filter fun d => d.money.currency = amount.currency) = debits :=
      List.filter_eq_self.mpr fun d hd => decide_eq_true (hcurrency d hd)
    have hforeign : (debits.filter fun d => d.money.currency ≠ amount.currency) = [] := by
      rw [List.filter_eq_nil_iff]
      intro d hd h
      exact of_decide_eq_true h (hcurrency d hd)
    obtain ⟨hden, hdens⟩ := den_greatestDecimals_iff.mpr fun d hd => (hsummable d hd).scales
    obtain ⟨raw, hraw⟩ := isSome_moneyWorth_iff.mp (by rw [hworth, Option.isSome_some])
    obtain ⟨norm, hnorm⟩ := exists_rescale_iff.mpr hden
    obtain ⟨total, htotal⟩ := @exists_foldlM _ _ 0 fun d hd =>
      ⟨(hsummable d hd).parses, hdens d hd⟩
    rw [hsame] at hle hles
    have hequal : norm = total := by
      have htotalWorth := (worth_of_foldlM hles htotal).1
      rw [worth_zero, zero_add] at htotalWorth
      rw [moneyWorth_of_eq_ok hraw, ← worth_rescale hle hnorm, ← htotalWorth] at hworth
      exact worth_inj (Option.some.inj hworth)
    refine ⟨_, bind_eq_ok.mpr ⟨raw, mapError_eq_ok.mpr hraw, bind_eq_ok.mpr ⟨norm, ?_,
      bind_eq_ok.mpr ⟨total, ?_, rfl⟩⟩⟩, if_pos ⟨hequal, hforeign⟩⟩
    · rw [hsame]
      exact hnorm
    · rw [hsame]
      exact htotal

theorem noDebits_ne_matched {row : IntentLedgerMatch} (h : noDebits intent amount first = .ok row) :
    row.status ≠ .matched := by
  obtain ⟨raw, -, h⟩ := bind_eq_ok.mp h
  cases h
  intro hstatus
  cases hstatus

/-- The loop finds no fault with an intent exactly where its entries settle it. -/
theorem clean_matchEntries_iff :
    (matchEntries intent entries = .ok none ∨
        ∃ row, matchEntries intent entries = .ok (some row) ∧ row.status = .matched) ↔
      SettledBy intent entries := by
  rcases entries with _ | ⟨first, rest⟩
  · rw [matchEntries]
    constructor
    · intro h
      refine ⟨fun _ => ?_, fun hne => absurd rfl hne⟩
      by_contra hsettled
      rw [Bool.not_eq_false] at hsettled
      rw [if_pos hsettled] at h
      rcases h with h | ⟨row, h, hstatus⟩
      · cases h
      · cases h
        cases hstatus
    · intro h
      left
      rw [h.empty rfl]
      rfl
  · have hpays : SettledBy intent (first :: rest) ↔ ∀ amount, intent.amount = some amount →
        Pays amount ((first :: rest).filter fun e => e.type = .debit) :=
      ⟨fun h => h.pays (List.cons_ne_nil _ _),
        fun h => ⟨fun hnil => absurd hnil (List.cons_ne_nil _ _), fun _ => h⟩⟩
    rw [hpays, matchEntries]
    rcases hamount : intent.amount with _ | amount
    · constructor
      · intro _ amount h
        cases h
      · intro _
        exact .inr ⟨unpriced intent first, rfl, rfl⟩
    · simp only [Option.some.injEq, forall_eq']
      rcases hdebits : (first :: rest).filter fun e => e.type = .debit with _ | ⟨debit, debits⟩ <;>
        rw [hdebits]
      · constructor
        · rintro (h | ⟨row, h, hstatus⟩)
          · obtain ⟨row, -, h⟩ := map_eq_ok.mp h
            cases h
          · obtain ⟨row', h, hrow⟩ := map_eq_ok.mp h
            cases hrow
            exact absurd hstatus (noDebits_ne_matched h)
        · intro h
          exact absurd rfl h.nonempty
      · rw [← @compareDebits_matched_iff intent amount first _ (List.cons_ne_nil debit debits)]
        constructor
        · rintro (h | ⟨row, h, hstatus⟩)
          · obtain ⟨row, -, h⟩ := map_eq_ok.mp h
            cases h
          · obtain ⟨row', h, hrow⟩ := map_eq_ok.mp h
            cases hrow
            exact ⟨row, h, hstatus⟩
        · rintro ⟨row, h, hstatus⟩
          exact .inr ⟨row, map_eq_ok.mpr ⟨row, h, rfl⟩, hstatus⟩

end intents

/-! ## Entries that name an intent -/

theorem subset_addOrphans {matched : List JsString} {results : List IntentLedgerMatch}
    {entries : List ReconcilableLedgerEntry} : results ⊆ addOrphans matched results entries := by
  induction entries generalizing results with
  | nil => exact List.Subset.refl _
  | cons n ns ih =>
    rw [addOrphans]
    split
    · exact ih
    · split
      · exact ih
      · exact List.Subset.trans (List.subset_append_left _ _) ih

/-- An entry that is not skipped adds a result that is no match. -/
theorem matched_addOrphans_iff {matched : List JsString} {results : List IntentLedgerMatch}
    {entries : List ReconcilableLedgerEntry} :
    (∀ r ∈ addOrphans matched results entries, r.status = .matched) ↔
      (∀ r ∈ results, r.status = .matched) ∧ ∀ n ∈ entries, ∀ id, truthy n.intentId = some id →
        n.id ∈ matched ∨ id ∈ results.map IntentLedgerMatch.intentId := by
  induction entries with
  | nil => exact (and_iff_left fun n hn => absurd hn List.not_mem_nil).symm
  | cons n ns ih =>
    rw [addOrphans, List.forall_mem_cons]
    split
    · rename_i hnone
      simp only [hnone, reduceCtorEq, false_implies, implies_true, true_and]
      exact ih
    · rename_i id hid
      simp only [hid, Option.some.injEq, forall_eq']
      split
      · rename_i hskip
        rw [ih, and_iff_right hskip]
      · rename_i hreport
        constructor
        · intro h
          have hrow : missingIntent n id ∈ addOrphans matched (results ++ [missingIntent n id]) ns :=
            subset_addOrphans (List.mem_append_right _ (List.mem_singleton.mpr rfl))
          cases h _ hrow
        · rintro ⟨-, hskip, -⟩
          exact absurd hskip hreport

theorem intentId_of_matchEntries {intent : ReconcilableIntent}
    {entries : List ReconcilableLedgerEntry} {row : IntentLedgerMatch}
    (h : matchEntries intent entries = .ok (some row)) : row.intentId = intent.id := by
  unfold matchEntries at h
  split at h
  · split at h
    · cases h
      rfl
    · cases h
  · split at h
    · obtain ⟨row', h, hrow⟩ := map_eq_ok.mp h
      cases hrow
      obtain ⟨raw, -, h⟩ := bind_eq_ok.mp h
      cases h
      rfl
    · obtain ⟨row', h, hrow⟩ := map_eq_ok.mp h
      cases hrow
      obtain ⟨raw, -, h⟩ := bind_eq_ok.mp h
      obtain ⟨norm, -, h⟩ := bind_eq_ok.mp h
      obtain ⟨total, -, h⟩ := bind_eq_ok.mp h
      cases h
      rfl
    · cases h
      rfl

theorem mem_linked {ledgerEntries : List ReconcilableLedgerEntry} {intentId : JsString}
    {entry : ReconcilableLedgerEntry} :
    entry ∈ linked ledgerEntries intentId ↔
      entry ∈ ledgerEntries ∧ truthy entry.intentId = some intentId := by
  rw [linked, List.mem_filter, decide_eq_true_eq]

theorem mem_matchedEntryIds {ledgerEntries : List ReconcilableLedgerEntry}
    {intents : List ReconcilableIntent} {id : JsString} :
    id ∈ matchedEntryIds (byIntentId ledgerEntries) intents ↔
      ∃ i ∈ intents, ∃ m ∈ linked ledgerEntries i.id, m.id = id := by
  simp only [matchedEntryIds, List.mem_flatMap, List.mem_map, entriesOf_byIntentId]

/-- The matcher finds matches alone exactly where every intent is settled by the entries that name
it, and every entry that names an intent has the id of an entry that names one of the intents. -/
theorem clean_iff {intents : List ReconcilableIntent} {ledgerEntries : List ReconcilableLedgerEntry} :
    (∃ rows, matchRecords intents ledgerEntries = .ok rows ∧ ∀ r ∈ rows, r.status = .matched) ↔
      (∀ i ∈ intents, SettledBy i (linked ledgerEntries i.id)) ∧
      ∀ n ∈ ledgerEntries, (truthy n.intentId).isSome →
        ∃ i ∈ intents, ∃ m ∈ linked ledgerEntries i.id, m.id = n.id := by
  have hskipped : ∀ results,
      filterMapChecked (matchIntent (byIntentId ledgerEntries)) intents = .ok results →
      ((∀ n ∈ ledgerEntries, ∀ id, truthy n.intentId = some id →
          n.id ∈ matchedEntryIds (byIntentId ledgerEntries) intents ∨
            id ∈ results.map IntentLedgerMatch.intentId) ↔
        ∀ n ∈ ledgerEntries, (truthy n.intentId).isSome →
          ∃ i ∈ intents, ∃ m ∈ linked ledgerEntries i.id, m.id = n.id) := by
    intro results hresults
    refine forall_congr' fun n => forall_congr' fun hn => ?_
    simp only [Option.isSome_iff_exists, forall_exists_index]
    refine forall_congr' fun id => forall_congr' fun hid => ?_
    rw [← mem_matchedEntryIds, or_iff_left_iff_imp]
    intro hmem
    obtain ⟨row, hrow, hrowId⟩ := List.mem_map.mp hmem
    -- an intent with a result is there, and the entry itself names it
    obtain ⟨i, hi, hmatch⟩ := (mem_filterMapChecked hresults).mp hrow
    have hintent := intentId_of_matchEntries hmatch
    refine mem_matchedEntryIds.mpr ⟨i, hi, n, mem_linked.mpr ⟨hn, ?_⟩, rfl⟩
    rw [hid, ← hrowId, hintent]
  have hsettled : ∀ i, SettledBy i (linked ledgerEntries i.id) ↔
      (matchIntent (byIntentId ledgerEntries) i = .ok none ∨
        ∃ row, matchIntent (byIntentId ledgerEntries) i = .ok (some row) ∧ row.status = .matched) := by
    intro i
    rw [← clean_matchEntries_iff, matchIntent, entriesOf_byIntentId]
  simp only [hsettled, ← filterMapChecked_forall_iff]
  constructor
  · rintro ⟨rows, h, hrows⟩
    obtain ⟨results, hresults, h⟩ := bind_eq_ok.mp h
    cases h
    obtain ⟨hmatched, hall⟩ := matched_addOrphans_iff.mp hrows
    exact ⟨⟨results, hresults, hmatched⟩, (hskipped results hresults).mp hall⟩
  · rintro ⟨⟨results, hresults, hmatched⟩, hall⟩
    exact ⟨_, bind_eq_ok.mpr ⟨results, hresults, rfl⟩,
      matched_addOrphans_iff.mpr ⟨hmatched, (hskipped results hresults).mpr hall⟩⟩

end IntentLedgerMatcher

end Attestia.Reconciler
