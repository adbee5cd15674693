import Attestia.Ledger.Balances
import Mathlib.Algebra.Order.Field.Basic

/-!
# The trial balance

The trial balance of a reachable ledger is exact, with one line for each account and
currency, exactly when the keys of its accumulators tell the accounts and currencies of its
entries apart: the key joins both with `::`, which either of them may contain.
-/

namespace Attestia.Ledger

open Lib JsonNumber

/-! ## The report -/

/-- Both columns of a line: the net amount stands on its side. -/
theorem columns_eq (normal : NormalBalance) (acc : BalanceAccumulator) :
    columns normal acc = ⟨max (acc.totalDebits - acc.totalCredits) 0,
      max (acc.totalCredits - acc.totalDebits) 0⟩ := by
  cases normal <;> simp only [columns] <;> split <;> congr 1 <;> omega

/-- The line of an accumulator whose account is registered. -/
def lineOf (accounts : AccountRegistry) (acc : BalanceAccumulator) : TrialBalanceLine :=
  trialBalanceLine (((accounts.get? acc.accountId).map fun a => a.ref.type).getD .asset) acc

/-- The columns, whatever the type of the account. -/
def columnsOf (acc : BalanceAccumulator) : CurrencyTotals := columns .debit acc

theorem columns_eq_columnsOf (normal : NormalBalance) (acc : BalanceAccumulator) :
    columns normal acc = columnsOf acc := by
  rw [columnsOf, columns_eq, columns_eq]

theorem foldlM_trialBalanceStep {accounts : AccountRegistry} {accs : List BalanceAccumulator}
    (h : ∀ acc ∈ accs, ∃ account, accounts.get? acc.accountId = some account)
    (lines : List TrialBalanceLine) (totals : JsMap JsString CurrencyTotals) :
    accs.foldlM (trialBalanceStep accounts) (lines, totals) =
      .ok (lines ++ accs.map (lineOf accounts), accs.foldl (fun totals acc =>
        addTotals totals acc.currency (columnsOf acc)) totals) := by
  induction accs generalizing lines totals with
  | nil => simp [pure, Except.pure]
  | cons acc accs ih =>
    obtain ⟨account, haccount⟩ := h acc (.head _)
    have htype : accounts.getType acc.accountId = .ok account.ref.type :=
      map_eq_ok.mpr ⟨account, AccountRegistry.assertExists_eq_ok.mpr haccount, rfl⟩
    have hstep : trialBalanceStep accounts (lines, totals) acc =
        .ok (lines ++ [lineOf accounts acc], addTotals totals acc.currency (columnsOf acc)) := by
      rw [trialBalanceStep, htype, lineOf, haccount]
      simp only [columns_eq_columnsOf]
      rfl
    rw [List.foldlM_cons, hstep]
    refine (ih (fun a ha => h a (.tail _ ha)) _ _).trans ?_
    simp

/-- The parsed columns of a line are those of its accumulator. -/
theorem lineTotals_lineOf {acc : BalanceAccumulator} {d : ℕ} (hd : acc.decimals = .ofNat d)
    (accounts : AccountRegistry) (totals : JsMap JsString CurrencyTotals) :
    lineTotals totals (lineOf accounts acc) =
      .ok (addTotals totals acc.currency (columnsOf acc)) := by
  simp only [lineTotals, lineOf, trialBalanceLine, columns_eq_columnsOf, hd,
    parseAmount_formatAmount]
  rfl

theorem assertTrialBalanced_eq_ok {report tb : TrialBalance}
    {totals : JsMap JsString CurrencyTotals}
    (h : report.lines.foldlM lineTotals .empty = .ok totals) :
    assertTrialBalanced report = .ok tb ↔
      tb = report ∧ ∀ e ∈ totals.entries, e.2.debits = e.2.credits := by
  rw [← find?_unbalanced_eq_none, assertTrialBalanced, h]
  simp only [bind, Except.bind]
  split
  · rename_i hnone
    exact ⟨fun heq => ⟨(Except.ok.inj heq).symm, hnone⟩, fun heq => heq.1 ▸ rfl⟩
  · rename_i hsome
    exact ⟨fun h => (nomatch h), fun h => by rw [hsome] at h; cases h.2⟩

/-- What `getTrialBalance` does with the accumulators. -/
theorem getTrialBalance_eq_ok {ledger : Ledger} {m : JsMap JsString BalanceAccumulator}
    (hm : buildAccumulators ledger.entries = .ok m)
    (haccounts : ∀ acc ∈ m.values, ∃ account, ledger.accounts.get? acc.accountId = some account)
    (hdecimals : ∀ acc ∈ m.values, ∃ d : ℕ, acc.decimals = .ofNat d) {timestamp : JsString}
    {tb : TrialBalance} :
    ledger.getTrialBalance timestamp = .ok tb ↔
      tb = ⟨m.values.map (lineOf ledger.accounts), timestamp, true⟩ ∧
      ∀ c, debitsIn BalanceAccumulator.currency columnsOf m.values c =
        creditsIn BalanceAccumulator.currency columnsOf m.values c := by
  let totals := totalsBy BalanceAccumulator.currency columnsOf m.values
  let balanced := totals.values.all fun t => decide (t.debits = t.credits)
  have hreport : computeTrialBalance ledger.entries ledger.accounts timestamp =
      .ok ⟨m.values.map (lineOf ledger.accounts), timestamp, balanced⟩ := by
    rw [computeTrialBalance, hm]
    exact bind_eq_ok.mpr ⟨m, rfl, bind_eq_ok.mpr ⟨_, foldlM_trialBalanceStep haccounts _ _, rfl⟩⟩
  have htotals : (m.values.map (lineOf ledger.accounts)).foldlM lineTotals .empty = .ok totals := by
    rw [List.foldlM_map]
    apply foldlM_eq_ok
    intro totals acc hacc
    obtain ⟨d, hd⟩ := hdecimals acc hacc
    exact lineTotals_lineOf hd ledger.accounts totals
  have hbalanced : (∀ e ∈ totals.entries, e.2.debits = e.2.credits) → balanced = true := by
    intro hall
    rw [List.all_eq_true]
    intro t ht
    obtain ⟨e, he, rfl⟩ := List.mem_map.mp ht
    exact decide_eq_true (hall e he)
  have hget : ledger.getTrialBalance timestamp =
      assertTrialBalanced ⟨m.values.map (lineOf ledger.accounts), timestamp, balanced⟩ := by
    rw [Ledger.getTrialBalance, hreport]
    rfl
  rw [hget, assertTrialBalanced_eq_ok htotals, ← forall_totalsBy]
  constructor
  · rintro ⟨rfl, hall⟩
    exact ⟨by rw [hbalanced hall], hall⟩
  · rintro ⟨rfl, hall⟩
    exact ⟨by rw [hbalanced hall], hall⟩

/-! ## The accumulators of a ledger -/

/-- The keys tell the accounts and currencies of the entries apart. -/
def KeysDistinct (entries : List LedgerEntry) : Prop :=
  ∀ e ∈ entries, ∀ f ∈ entries, keyOf e = keyOf f →
    e.accountId = f.accountId ∧ e.money.currency = f.money.currency

/-- Every accumulator stands under its own key and starts with one of the entries. -/
theorem exists_first_of_get? {entries : List LedgerEntry} {k : JsString} {acc : BalanceAccumulator}
    (hk : (accumulators entries).get? k = some acc) :
    k = balanceKey acc.accountId acc.currency ∧ ∃ first ∈ entries, keyOf first = k ∧
      acc = accumulatorOf first (entries.filter fun e => keyOf e = k) := by
  rw [get?_accumulators] at hk
  obtain ⟨first, hhead, rfl⟩ := Option.map_eq_some_iff.mp hk
  obtain ⟨hmem, hkey⟩ := List.mem_filter.mp (List.mem_of_head? hhead)
  rw [decide_eq_true_eq] at hkey
  exact ⟨hkey.symm, first, hmem, hkey, rfl⟩

theorem filter_keyOf_of_keysDistinct {entries : List LedgerEntry} (h : KeysDistinct entries)
    {e : LedgerEntry} (he : e ∈ entries) :
    entries.filter (fun f => keyOf f = keyOf e) =
      entriesOf e.accountId e.money.currency entries := by
  apply List.filter_congr
  intro f hf
  rw [decide_eq_decide]
  constructor
  · exact h f hf e he
  · rintro ⟨hid, hcur⟩
    rw [keyOf, keyOf, hid, hcur]

theorem accumulator_of_keysDistinct {entries : List LedgerEntry} (h : KeysDistinct entries)
    {e : LedgerEntry} (he : e ∈ entries) {acc : BalanceAccumulator}
    (hk : (accumulators entries).get? (keyOf e) = some acc) :
    acc.accountId = e.accountId ∧ acc.currency = e.money.currency := by
  obtain ⟨-, first, hfirst, hkey, rfl⟩ := exists_first_of_get? hk
  exact h first hfirst e he hkey

/-- The net amounts of the accumulators of a currency add up to those of its entries. -/
theorem columns_accumulators {entries : List LedgerEntry} (h : KeysDistinct entries)
    (c : JsString) :
    debitsIn BalanceAccumulator.currency columnsOf (accumulators entries).values c -
        creditsIn BalanceAccumulator.currency columnsOf (accumulators entries).values c =
      debitsIn (fun e => e.money.currency) entryColumns entries c -
        creditsIn (fun e => e.money.currency) entryColumns entries c := by
  rw [debitsIn_sub_creditsIn, debitsIn_sub_creditsIn]
  apply JsMap.sum_values_collect
  · intro e
    simp [columnsOf, columns_eq, BalanceAccumulator.start]
  · intro pre e hpre acc hacc
    -- the accumulator that the entry is added to has the currency of the entry
    have hcurrency : acc.currency = e.money.currency := by
      cases hget : (accumulators pre).get? (keyOf e) with
      | none =>
        rw [accumulators] at hget
        rw [hacc, hget]
        rfl
      | some acc' =>
        obtain ⟨-, first, hfirst, hkey, rfl⟩ := exists_first_of_get? hget
        rw [accumulators] at hget
        rw [hacc, hget]
        exact (h first (hpre.subset (List.mem_append_left _ hfirst)) e
          (hpre.subset (by simp)) hkey).2
    have hadd : (acc.add e.type e.money.scaled).currency = acc.currency := by
      cases e.type <;> rfl
    rw [hadd, hcurrency]
    split
    · cases ht : e.type <;>
        simp only [columnsOf, columns_eq, BalanceAccumulator.add, entryColumns, ht] <;> omega
    · rfl

/-! ## Exact trial balances -/

/-- The value of a printed amount of a line. -/
def TrialBalanceLine.valueOf (line : TrialBalanceLine) (text : JsString) : ℚ :=
  Money.value ⟨text, line.currency, line.decimals⟩

/-- The account and the currency of a line. -/
def TrialBalanceLine.pair (line : TrialBalanceLine) : JsString × JsString :=
  (line.accountId, line.currency)

/-- One line for each account and currency with entries; the net of their exact sums stands
in the column of its side. -/
structure TrialBalanceExact (entries : List LedgerEntry) (tb : TrialBalance) : Prop where
  balanced : tb.balanced = true
  nodup : (tb.lines.map TrialBalanceLine.pair).Nodup
  pairs : ∀ a c, (a, c) ∈ tb.lines.map TrialBalanceLine.pair ↔ entriesOf a c entries ≠ []
  debit : ∀ line ∈ tb.lines, line.valueOf line.debitBalance =
    max (sideOf .debit line.accountId line.currency entries -
      sideOf .credit line.accountId line.currency entries) 0
  credit : ∀ line ∈ tb.lines, line.valueOf line.creditBalance =
    max (sideOf .credit line.accountId line.currency entries -
      sideOf .debit line.accountId line.currency entries) 0

theorem cast_max_sub_div (m n : ℤ) (d : ℕ) :
    ((max (m - n) 0 : ℤ) : ℚ) / 10 ^ d = max ((m : ℚ) / 10 ^ d - (n : ℚ) / 10 ^ d) 0 := by
  have hpos : (0 : ℚ) ≤ 10 ^ d := by positivity
  rw [Int.cast_max, Int.cast_sub, Int.cast_zero, ← max_div_div_right hpos, zero_div, sub_div]

theorem lineOf_exact {first : LedgerEntry} {group : List LedgerEntry} {d : ℕ}
    (hfirst : first.money.decimals = .ofNat d) (hgroup : ∀ e ∈ group, e.money.scale = d)
    (accounts : AccountRegistry) :
    let line := lineOf accounts (accumulatorOf first group)
    line.valueOf line.debitBalance =
        max (sumOf .debit Money.value group - sumOf .credit Money.value group) 0 ∧
      line.valueOf line.creditBalance =
        max (sumOf .credit Money.value group - sumOf .debit Money.value group) 0 := by
  intro line
  constructor <;>
    simp only [line, TrialBalanceLine.valueOf, lineOf, trialBalanceLine, columns_eq,
      accumulatorOf, hfirst, value_formatAmount, cast_max_sub_div, sumOf_value hgroup]

theorem scaledBalanced_flatMap {transactions : List LedgerTransaction}
    (h : ∀ t ∈ transactions, ScaledBalanced t.entries) :
    ScaledBalanced (transactions.flatMap LedgerTransaction.entries) := by
  intro c
  induction transactions with
  | nil => rfl
  | cons t ts ih =>
    rw [List.flatMap_cons, inCurrency_append, sumOf_append, sumOf_append, h t (.head _) c,
      ih fun t ht => h t (.tail _ ht)]

theorem Sound.scaledBalanced {ledger : Ledger} (h : Sound ledger) :
    ScaledBalanced ledger.entries := by
  rw [h.entries]
  exact scaledBalanced_flatMap h.balanced

/-- The condition of `getTrialBalance_eq_ok` on a sound ledger. -/
theorem Sound.getTrialBalance_eq_ok {ledger : Ledger} (h : Sound ledger) {timestamp : JsString}
    {tb : TrialBalance} :
    ledger.getTrialBalance timestamp = .ok tb ↔
      tb = ⟨(accumulators ledger.entries).values.map (lineOf ledger.accounts), timestamp, true⟩ ∧
      ∀ c, debitsIn BalanceAccumulator.currency columnsOf (accumulators ledger.entries).values c =
        creditsIn BalanceAccumulator.currency columnsOf (accumulators ledger.entries).values c := by
  apply Ledger.getTrialBalance_eq_ok (buildAccumulators_eq_ok h.valid)
  · intro acc hacc
    obtain ⟨k, hk⟩ := JsMap.mem_values.mp hacc
    obtain ⟨-, first, hfirst, -, rfl⟩ := exists_first_of_get? hk
    exact h.accounts first hfirst
  · intro acc hacc
    obtain ⟨k, hk⟩ := JsMap.mem_values.mp hacc
    obtain ⟨-, first, hfirst, -, rfl⟩ := exists_first_of_get? hk
    exact ⟨_, (h.valid first hfirst).decimals⟩

/-- With distinct keys the report of a sound ledger of one scale is exact. -/
theorem Sound.trialBalanceExact {ledger : Ledger} (h : Sound ledger)
    (hscale : UniformScale ledger.entries) (hkeys : KeysDistinct ledger.entries)
    (timestamp : JsString) :
    ∃ tb, ledger.getTrialBalance timestamp = .ok tb ∧ TrialBalanceExact ledger.entries tb := by
  let m := accumulators ledger.entries
  have hbalanced : ∀ c, debitsIn BalanceAccumulator.currency columnsOf m.values c =
      creditsIn BalanceAccumulator.currency columnsOf m.values c := by
    intro c
    have hcolumns := columns_accumulators hkeys c
    rw [scaledBalanced_iff.mp h.scaledBalanced c, sub_self] at hcolumns
    exact sub_eq_zero.mp hcolumns
  -- a line is that of the group of its own account and currency
  have hline : ∀ line ∈ m.values.map (lineOf ledger.accounts), ∃ first ∈ ledger.entries,
      line = lineOf ledger.accounts (accumulatorOf first
        (entriesOf first.accountId first.money.currency ledger.entries)) := by
    intro line hline
    obtain ⟨acc, hacc, rfl⟩ := List.mem_map.mp hline
    obtain ⟨k, hk⟩ := JsMap.mem_values.mp hacc
    obtain ⟨-, first, hfirst, rfl, rfl⟩ := exists_first_of_get? hk
    exact ⟨first, hfirst, by rw [filter_keyOf_of_keysDistinct hkeys hfirst]⟩
  have hgroup : ∀ first ∈ ledger.entries,
      ∀ e ∈ entriesOf first.accountId first.money.currency ledger.entries,
        e.money.scale = first.money.scale := by
    intro first hfirst e he
    obtain ⟨he, -, hcurrency⟩ := mem_entriesOf.mp he
    rw [Money.scale, Money.scale, hscale e he first hfirst hcurrency]
  refine ⟨_, h.getTrialBalance_eq_ok.mpr ⟨rfl, hbalanced⟩, rfl, ?_, fun a c => ⟨?_, ?_⟩, ?_, ?_⟩
  · rw [List.map_map]
    exact JsMap.nodup_map_values (g := fun p => balanceKey p.1 p.2) fun k acc hk =>
      (exists_first_of_get? hk).1.symm
  · intro hmem
    obtain ⟨line, hmem, hpair⟩ := List.mem_map.mp hmem
    obtain ⟨first, hfirst, rfl⟩ := hline line hmem
    cases hpair
    exact List.ne_nil_of_mem (mem_entriesOf.mpr ⟨hfirst, rfl, rfl⟩)
  · intro hne
    obtain ⟨e, hmem⟩ := List.exists_mem_of_ne_nil _ hne
    obtain ⟨he, rfl, rfl⟩ := mem_entriesOf.mp hmem
    obtain ⟨acc, hacc⟩ : ∃ acc, m.get? (keyOf e) = some acc :=
      JsMap.mem_keys.mp ((JsMap.mem_keys_collect _ _ _).mpr ⟨e, he, rfl⟩)
    obtain ⟨hid, hcurrency⟩ := accumulator_of_keysDistinct hkeys he hacc
    refine List.mem_map.mpr ⟨_, List.mem_map_of_mem (JsMap.mem_values.mpr ⟨_, hacc⟩), ?_⟩
    exact Prod.ext hid hcurrency
  · intro line hmem
    obtain ⟨first, hfirst, rfl⟩ := hline line hmem
    exact (lineOf_exact (h.valid first hfirst).decimals (hgroup first hfirst) _).1
  · intro line hmem
    obtain ⟨first, hfirst, rfl⟩ := hline line hmem
    exact (lineOf_exact (h.valid first hfirst).decimals (hgroup first hfirst) _).2

/-- Two accounts and currencies of one key would share a line. -/
theorem Sound.keysDistinct {ledger : Ledger} (h : Sound ledger) {timestamp : JsString}
    {tb : TrialBalance} (htb : ledger.getTrialBalance timestamp = .ok tb)
    (hexact : TrialBalanceExact ledger.entries tb) : KeysDistinct ledger.entries := by
  obtain ⟨rfl, -⟩ := h.getTrialBalance_eq_ok.mp htb
  have hown : ∀ e ∈ ledger.entries, ∃ acc, (accumulators ledger.entries).get? (keyOf e) = some acc ∧
      acc.accountId = e.accountId ∧ acc.currency = e.money.currency := by
    intro e he
    have hne := List.ne_nil_of_mem (mem_entriesOf.mpr ⟨he, rfl, rfl⟩)
    obtain ⟨line, hline, hpair⟩ := List.mem_map.mp ((hexact.pairs _ _).mpr hne)
    obtain ⟨acc, hacc, rfl⟩ := List.mem_map.mp hline
    obtain ⟨k, hk⟩ := JsMap.mem_values.mp hacc
    obtain ⟨hid, hcurrency⟩ := Prod.mk.inj hpair
    refine ⟨acc, ?_, hid, hcurrency⟩
    rw [← hk, (exists_first_of_get? hk).1, keyOf, ← hid, ← hcurrency]
    rfl
  intro e he f hf hkey
  obtain ⟨acc, hacc, hid, hcurrency⟩ := hown e he
  obtain ⟨acc', hacc', hid', hcurrency'⟩ := hown f hf
  rw [← hkey, hacc] at hacc'
  cases hacc'
  exact ⟨hid.symm.trans hid', hcurrency.symm.trans hcurrency'⟩

/-- The trial balance of a reachable ledger of one scale is exact exactly when the keys tell
the accounts and currencies of its entries apart. -/
theorem getTrialBalance_exact_iff (ledger : Ledger) (h : ledgerSystem.Reachable ledger)
    (hscale : UniformScale ledger.entries) (timestamp : JsString) :
    (∃ tb, ledger.getTrialBalance timestamp = .ok tb ∧ TrialBalanceExact ledger.entries tb) ↔
      KeysDistinct ledger.entries := by
  have hsound := sound_of_reachableVia h
  constructor
  · rintro ⟨tb, htb, hexact⟩
    exact hsound.keysDistinct htb hexact
  · exact fun hkeys => hsound.trialBalanceExact hscale hkeys timestamp

/-! ### Two pairs of one key -/

/-- A ledger with the accounts `a`, `a::b` and `z`. -/
def threeAccounts : Ledger :=
  ((Ledger.new.call (.registerAccount ⟨js "a", .asset, js "A"⟩ (js "t"))).call
    (.registerAccount ⟨js "a::b", .asset, js "B"⟩ (js "t"))).call
    (.registerAccount ⟨js "z", .income, js "Z"⟩ (js "t"))

/-- The account `a` in the currency `b::c` and the account `a::b` in the currency `c`. -/
def collidingLedger : Ledger :=
  (threeAccounts.call (.append [entryOf "1" "a" .debit "1" "b::c" 0 "x",
    entryOf "2" "z" .credit "1" "b::c" 0 "x"] none)).call
    (.append [entryOf "3" "a::b" .debit "5" "c" 0 "y", entryOf "4" "z" .credit "5" "c" 0 "y"] none)

theorem uniformScale_of_decimals {entries : List LedgerEntry} {d : ℕ}
    (h : ∀ e ∈ entries, e.money.decimals = .ofNat d) : UniformScale entries :=
  fun e he f hf _ => (h e he).trans (h f hf).symm

theorem not_trialBalanceExact_collidingLedger :
    ¬ ∀ ledger, ledgerSystem.Reachable ledger → UniformScale ledger.entries → ∀ timestamp,
      ∃ tb, ledger.getTrialBalance timestamp = .ok tb ∧ TrialBalanceExact ledger.entries tb := by
  intro h
  have hnew : ledgerSystem.Reachable .new := .init rfl
  have hthree : ledgerSystem.Reachable threeAccounts := ((hnew.next rfl).next rfl).next rfl
  have hreach : ledgerSystem.Reachable collidingLedger := (hthree.next rfl).next rfl
  have hscale : UniformScale collidingLedger.entries :=
    uniformScale_of_decimals (d := 0) (by decide +kernel)
  obtain ⟨tb, htb, -⟩ := h _ hreach hscale (js "t")
  have herror : (collidingLedger.getTrialBalance (js "t")).toOption = none := by decide +kernel
  rw [htb] at herror
  cases herror

theorem getTrialBalance_exact_evenBatch :
    let ledger := twoAccounts.call (.append evenBatch none)
    ledger.entries.length = 2 ∧ ∃ tb, ledger.getTrialBalance (js "t") = .ok tb ∧
      TrialBalanceExact ledger.entries tb := by
  intro ledger
  have hreach : ledgerSystem.Reachable ledger :=
    (reachableVia_twoAccounts fun _ _ _ => trivial).step trivial rfl
  have hscale : UniformScale ledger.entries := uniformScale_of_decimals (d := 2) (by decide +kernel)
  refine ⟨by decide +kernel, (getTrialBalance_exact_iff ledger hreach hscale (js "t")).mpr ?_⟩
  have hkeys : ∀ e ∈ ledger.entries, ∀ f ∈ ledger.entries, keyOf e = keyOf f →
      e.accountId = f.accountId ∧ e.money.currency = f.money.currency := by decide +kernel
  exact hkeys

end Attestia.Ledger
