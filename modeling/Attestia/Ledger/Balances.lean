import Attestia.Ledger.Conservation

/-!
# Exact balances

The accumulator of an account and a currency holds the sums of their scaled amounts under
the decimals of the first entry. Where the entries of an account and a currency declare the
same decimals, the printed balances are the exact sums of the values.
-/

namespace Attestia.Ledger

open Lib JsonNumber

/-! ## Accumulators -/

def entriesOf (accountId currency : JsString) (entries : List LedgerEntry) : List LedgerEntry :=
  entries.filter fun e => e.accountId = accountId ∧ e.money.currency = currency

def keyOf (e : LedgerEntry) : JsString := balanceKey e.accountId e.money.currency

/-- The accumulator of a group of entries that starts with the given one. -/
def accumulatorOf (first : LedgerEntry) (group : List LedgerEntry) : BalanceAccumulator :=
  ⟨first.accountId, first.money.currency, first.money.decimals,
    sumOf .debit Money.scaled group, sumOf .credit Money.scaled group⟩

theorem balanceKey_inj_currency {a c d : JsString} : balanceKey a c = balanceKey a d ↔ c = d :=
  List.append_right_inj _

theorem foldl_add (acc : BalanceAccumulator) (group : List LedgerEntry) :
    group.foldl (fun acc e => acc.add e.type e.money.scaled) acc =
      ⟨acc.accountId, acc.currency, acc.decimals,
        acc.totalDebits + sumOf .debit Money.scaled group,
        acc.totalCredits + sumOf .credit Money.scaled group⟩ := by
  induction group generalizing acc with
  | nil => simp
  | cons e es ih =>
    rw [List.foldl_cons, ih, sumOf_cons, sumOf_cons]
    cases h : e.type <;> simp [BalanceAccumulator.add, add_assoc]

/-- What the loop over valid entries builds. -/
def accumulators (entries : List LedgerEntry) : JsMap JsString BalanceAccumulator :=
  JsMap.collect keyOf .start (fun acc e => acc.add e.type e.money.scaled) entries

theorem buildAccumulators_eq_ok {entries : List LedgerEntry} (h : ∀ e ∈ entries, e.money.Valid) :
    buildAccumulators entries = .ok (accumulators entries) := by
  apply foldlM_eq_ok
  intro m e he
  rw [accumulate, (h e he).parses]
  rfl

/-- The accumulators are the sums of their groups. -/
theorem get?_accumulators (entries : List LedgerEntry) (k : JsString) :
    (accumulators entries).get? k =
      (entries.filter fun e => keyOf e = k).head?.map fun first =>
        accumulatorOf first (entries.filter fun e => keyOf e = k) := by
  rw [accumulators, JsMap.get?_collect, JsMap.total]
  congr 1
  funext first
  rw [foldl_add]
  simp [BalanceAccumulator.start, accumulatorOf]

/-- Within one account the key is the currency. -/
theorem filter_keyOf (accountId currency : JsString) (entries : List LedgerEntry) :
    (entries.filter fun e => e.accountId = accountId).filter
      (fun e => keyOf e = balanceKey accountId currency) = entriesOf accountId currency entries := by
  rw [List.filter_filter, entriesOf]
  apply List.filter_congr
  intro e _
  rw [← Bool.decide_and, decide_eq_decide, and_comm]
  apply and_congr_right
  rintro rfl
  exact balanceKey_inj_currency

theorem mem_entriesOf {accountId currency : JsString} {entries : List LedgerEntry}
    {e : LedgerEntry} : e ∈ entriesOf accountId currency entries ↔
      e ∈ entries ∧ e.accountId = accountId ∧ e.money.currency = currency := by
  rw [entriesOf, List.mem_filter, decide_eq_true_eq]

/-! ## Exactness -/

/-- The worth of an entry, without the way its amount is written. -/
structure Worth where
  accountId : JsString
  currency : JsString
  type : LedgerEntryType
  value : ℚ
  deriving DecidableEq

def worth (e : LedgerEntry) : Worth := ⟨e.accountId, e.money.currency, e.type, e.money.value⟩

/-- The exact sum of the entries of an account and a currency on one side. -/
def sideOf (type : LedgerEntryType) (accountId currency : JsString) (entries : List LedgerEntry) :
    ℚ :=
  sumOf type Money.value (entriesOf accountId currency entries)

/-- The exact balance in the direction of the account. -/
def signedSum (normal : NormalBalance) (accountId currency : JsString)
    (entries : List LedgerEntry) : ℚ :=
  match normal with
  | .debit => sideOf .debit accountId currency entries - sideOf .credit accountId currency entries
  | .credit => sideOf .credit accountId currency entries - sideOf .debit accountId currency entries

/-- The value of a printed amount of a balance. -/
def CurrencyBalance.valueOf (b : CurrencyBalance) (text : JsString) : ℚ :=
  Money.value ⟨text, b.currency, b.decimals⟩

structure BalancesExact (entries : List LedgerEntry) (b : AccountBalance) : Prop where
  nodup : (b.balances.map CurrencyBalance.currency).Nodup
  currencies : ∀ c, c ∈ b.balances.map CurrencyBalance.currency ↔
    entriesOf b.accountId c entries ≠ []
  balance : ∀ x ∈ b.balances, x.valueOf x.balance =
    signedSum (normalBalance b.accountType) b.accountId x.currency entries
  totalDebits : ∀ x ∈ b.balances, x.valueOf x.totalDebits =
    sideOf .debit b.accountId x.currency entries
  totalCredits : ∀ x ∈ b.balances, x.valueOf x.totalCredits =
    sideOf .credit b.accountId x.currency entries

/-- Entries of an account and a currency declare the same number of decimals. -/
def OneScale (entries : List LedgerEntry) : Prop :=
  ∀ e ∈ entries, ∀ f ∈ entries, e.accountId = f.accountId → e.money.currency = f.money.currency →
    e.money.decimals = f.money.decimals

theorem currencyBalance_exact {first : LedgerEntry} {group : List LedgerEntry} {d : ℕ}
    (hfirst : first.money.decimals = .ofNat d) (hgroup : ∀ e ∈ group, e.money.scale = d)
    (normal : NormalBalance) :
    let b := currencyBalance normal (accumulatorOf first group)
    b.currency = first.money.currency ∧
      b.valueOf b.totalDebits = sumOf .debit Money.value group ∧
      b.valueOf b.totalCredits = sumOf .credit Money.value group ∧
      b.valueOf b.balance = match normal with
        | .debit => sumOf .debit Money.value group - sumOf .credit Money.value group
        | .credit => sumOf .credit Money.value group - sumOf .debit Money.value group := by
  intro b
  refine ⟨rfl, ?_, ?_, ?_⟩
  · simp only [b, CurrencyBalance.valueOf, currencyBalance, accumulatorOf, hfirst,
      value_formatAmount, sumOf_value hgroup]
  · simp only [b, CurrencyBalance.valueOf, currencyBalance, accumulatorOf, hfirst,
      value_formatAmount, sumOf_value hgroup]
  · cases normal <;>
      simp only [b, CurrencyBalance.valueOf, currencyBalance, accumulatorOf, hfirst,
        value_formatAmount, sumOf_value hgroup, Int.cast_sub, sub_div]

/-- The accumulators of one account: one for each currency of its entries. -/
theorem accountAccumulators {entries : List LedgerEntry} (h : ∀ e ∈ entries, e.money.Valid)
    (accountId : JsString) :
    ∃ m, buildAccumulators (entries.filter fun e => e.accountId = accountId) = .ok m ∧
      (∀ c, m.get? (balanceKey accountId c) = (entriesOf accountId c entries).head?.map fun first =>
        accumulatorOf first (entriesOf accountId c entries)) ∧
      ∀ k acc, m.get? k = some acc → k = balanceKey accountId acc.currency := by
  refine ⟨_, buildAccumulators_eq_ok fun e he => h e (List.mem_of_mem_filter he), fun c => ?_,
    fun k acc hk => ?_⟩
  · rw [get?_accumulators, filter_keyOf]
  · rw [get?_accumulators] at hk
    obtain ⟨first, hhead, rfl⟩ := Option.map_eq_some_iff.mp hk
    obtain ⟨hown, hkey⟩ := List.mem_filter.mp (List.mem_of_head? hhead)
    obtain ⟨-, hid⟩ := List.mem_filter.mp hown
    rw [decide_eq_true_eq] at hkey hid
    rw [← hkey, keyOf, hid]
    rfl

/-- The values of the printed balance of an account. -/
theorem computeAccountBalance_exact {entries : List LedgerEntry} {accounts : AccountRegistry}
    {accountId : JsString} {account : LedgerAccount} (hvalid : ∀ e ∈ entries, e.money.Valid)
    (hscale : OneScale entries) (haccount : accounts.get? accountId = some account) :
    ∃ b, computeAccountBalance accountId entries accounts = .ok b ∧ b.accountId = accountId ∧
      b.accountType = account.ref.type ∧ BalancesExact entries b := by
  obtain ⟨m, hm, hget, hkey⟩ := accountAccumulators hvalid accountId
  let normal := normalBalance account.ref.type
  let b : AccountBalance :=
    ⟨accountId, account.ref.type, m.values.map (currencyBalance normal)⟩
  have hb : computeAccountBalance accountId entries accounts = .ok b :=
    bind_eq_ok.mpr ⟨account, AccountRegistry.assertExists_eq_ok.mpr haccount,
      bind_eq_ok.mpr ⟨m, hm, rfl⟩⟩
  -- a line comes from the accumulator of its currency, which has a first entry
  have hline : ∀ x ∈ b.balances, ∃ first ∈ entriesOf accountId x.currency entries,
      x = currencyBalance normal
        (accumulatorOf first (entriesOf accountId x.currency entries)) := by
    intro x hx
    obtain ⟨acc, hacc, rfl⟩ := List.mem_map.mp hx
    obtain ⟨k, hk⟩ := JsMap.mem_values.mp hacc
    have hk' := hget acc.currency
    rw [← hkey k acc hk, hk] at hk'
    obtain ⟨first, hhead, heq⟩ := Option.map_eq_some_iff.mp hk'.symm
    exact ⟨first, List.mem_of_head? hhead, congrArg (currencyBalance normal) heq.symm⟩
  have hexact : ∀ x ∈ b.balances,
      x.valueOf x.totalDebits = sideOf .debit accountId x.currency entries ∧
      x.valueOf x.totalCredits = sideOf .credit accountId x.currency entries ∧
      x.valueOf x.balance = signedSum normal accountId x.currency entries := by
    intro x hx
    obtain ⟨first, hfirst, heq⟩ := hline x hx
    have hmem := mem_entriesOf.mp hfirst
    have hgroup : ∀ e ∈ entriesOf accountId x.currency entries,
        e.money.scale = first.money.scale := by
      intro e he
      have he := mem_entriesOf.mp he
      rw [Money.scale, Money.scale, hscale e he.1 first hmem.1 (he.2.1.trans hmem.2.1.symm)
        (he.2.2.trans hmem.2.2.symm)]
    have hx := currencyBalance_exact (hvalid first hmem.1).decimals hgroup normal
    rw [← heq] at hx
    exact ⟨hx.2.1, hx.2.2.1, hx.2.2.2⟩
  refine ⟨b, hb, rfl, rfl, ?_, fun c => ?_, fun x hx => (hexact x hx).2.2,
    fun x hx => (hexact x hx).1, fun x hx => (hexact x hx).2.1⟩
  · have hcur : b.balances.map CurrencyBalance.currency =
        m.values.map BalanceAccumulator.currency := by
      rw [List.map_map]
      rfl
    rw [hcur]
    exact JsMap.nodup_map_values (g := balanceKey accountId) fun k acc hk => (hkey k acc hk).symm
  · constructor
    · intro hc
      obtain ⟨x, hx, rfl⟩ := List.mem_map.mp hc
      obtain ⟨first, hfirst, -⟩ := hline x hx
      exact List.ne_nil_of_mem hfirst
    · intro hne
      have hk := hget c
      rw [List.head?_eq_some_head hne, Option.map_some] at hk
      have hacc := List.mem_map_of_mem (f := currencyBalance normal) (JsMap.mem_values.mpr ⟨_, hk⟩)
      have hcur := (mem_entriesOf.mp (List.head_mem hne)).2.2
      exact List.mem_map.mpr ⟨_, hacc, hcur⟩

/-! ## Sums over batches -/

theorem sideOf_append (type : LedgerEntryType) (accountId currency : JsString)
    (as bs : List LedgerEntry) : sideOf type accountId currency (as ++ bs) =
      sideOf type accountId currency as + sideOf type accountId currency bs := by
  rw [sideOf, entriesOf, List.filter_append, sumOf_append]
  rfl

theorem sideOf_flatMap {α : Type} (type : LedgerEntryType) (accountId currency : JsString)
    (f : α → List LedgerEntry) (l : List α) : sideOf type accountId currency (l.flatMap f) =
      (l.map fun a => sideOf type accountId currency (f a)).sum := by
  induction l with
  | nil => rfl
  | cons a l ih => rw [List.flatMap_cons, sideOf_append, ih, List.map_cons, List.sum_cons]

/-- Where the entries of an account are in one currency, it has one line at most. -/
theorem BalancesExact.sum_balance {entries : List LedgerEntry} {b : AccountBalance}
    (h : BalancesExact entries b) {currency : JsString}
    (hone : ∀ e ∈ entries, e.accountId = b.accountId → e.money.currency = currency) :
    (b.balances.map fun x => x.valueOf x.balance).sum =
      signedSum (normalBalance b.accountType) b.accountId currency entries := by
  have hcurrency : ∀ x ∈ b.balances, x.currency = currency := by
    intro x hx
    obtain ⟨e, he⟩ := List.exists_mem_of_ne_nil _
      ((h.currencies x.currency).mp (List.mem_map_of_mem hx))
    obtain ⟨hmem, haccount, heq⟩ := mem_entriesOf.mp he
    rw [← heq, hone e hmem haccount]
  rcases hlines : b.balances with _ | ⟨x, rest⟩
  · -- without a line there is no entry
    have hnone : entriesOf b.accountId currency entries = [] := by
      by_contra hne
      have hmem := (h.currencies currency).mpr hne
      rw [hlines] at hmem
      cases hmem
    cases normalBalance b.accountType <;>
      simp only [signedSum, sideOf, hnone, sumOf_nil, sub_zero, List.map_nil, List.sum_nil]
  · have hrest : rest = [] := by
      rw [List.eq_nil_iff_forall_not_mem]
      intro y hy
      have hnodup := h.nodup
      rw [hlines, List.map_cons, List.nodup_cons] at hnodup
      apply hnodup.1
      rw [hcurrency x (hlines ▸ .head _), ← hcurrency y (hlines ▸ .tail _ hy)]
      exact List.mem_map_of_mem hy
    have hx : x ∈ b.balances := hlines ▸ .head _
    rw [hrest, List.map_singleton, List.sum_singleton, h.balance x hx, hcurrency x hx]

/-- The value of the balance of an account; nothing where there is no account. -/
def balanceOf (ledger : Ledger) (accountId : JsString) : ℚ :=
  match ledger.getBalance accountId with
  | .ok b => (b.balances.map fun x => x.valueOf x.balance).sum
  | .error _ => 0

theorem balanceOf_of_missing {ledger : Ledger} {accountId : JsString}
    (h : accountId ∉ ledger.accounts.keys) : ledger.balanceOf accountId = 0 := by
  have hget := JsMap.get?_eq_none.mpr h
  have herror : ∀ b, ledger.getBalance accountId ≠ .ok b := by
    intro b hb
    obtain ⟨account, haccount, -⟩ := bind_eq_ok.mp hb
    cases hget.symm.trans (AccountRegistry.assertExists_eq_ok.mp haccount)
  rw [balanceOf]
  rcases hbalance : ledger.getBalance accountId with e | b
  · rfl
  · exact absurd hbalance (herror b)

theorem balanceOf_eq {ledger : Ledger} (hvalid : ∀ e ∈ ledger.entries, e.money.Valid)
    (hscale : OneScale ledger.entries) {accountId currency : JsString} {account : LedgerAccount}
    (haccount : ledger.accounts.get? accountId = some account)
    (hone : ∀ e ∈ ledger.entries, e.accountId = accountId → e.money.currency = currency) :
    ledger.balanceOf accountId =
      signedSum (normalBalance account.ref.type) accountId currency ledger.entries := by
  obtain ⟨b, hb, hid, htype, hexact⟩ := computeAccountBalance_exact hvalid hscale haccount
  rw [balanceOf, getBalance, hb]
  dsimp only
  rw [hexact.sum_balance (hid ▸ hone), hid, htype]

/-! ## Independence of the order and of the decimals -/

theorem sideOf_eq_sum_worth (type : LedgerEntryType) (accountId currency : JsString)
    (entries : List LedgerEntry) :
    sideOf type accountId currency entries =
      (((entries.map worth).filter fun w => w.accountId = accountId ∧ w.currency = currency ∧
        w.type = type).map Worth.value).sum := by
  rw [sideOf, sumOf, entriesOf, List.filter_filter, List.filter_map, List.map_map]
  congr 2
  apply List.filter_congr
  intro e _
  rw [← Bool.decide_and, Function.comp_apply, decide_eq_decide]
  simp only [worth]
  tauto

theorem sideOf_eq_of_perm {as bs : List LedgerEntry} (h : (as.map worth).Perm (bs.map worth))
    (type : LedgerEntryType) (accountId currency : JsString) :
    sideOf type accountId currency as = sideOf type accountId currency bs := by
  rw [sideOf_eq_sum_worth, sideOf_eq_sum_worth]
  exact ((h.filter _).map _).sum_eq

theorem signedSum_eq_of_perm {as bs : List LedgerEntry} (h : (as.map worth).Perm (bs.map worth))
    (normal : NormalBalance) (accountId currency : JsString) :
    signedSum normal accountId currency as = signedSum normal accountId currency bs := by
  cases normal <;> simp only [signedSum, sideOf_eq_of_perm h]

theorem entriesOf_ne_nil_of_perm {as bs : List LedgerEntry} (h : (as.map worth).Perm (bs.map worth))
    {accountId currency : JsString} (hne : entriesOf accountId currency as ≠ []) :
    entriesOf accountId currency bs ≠ [] := by
  obtain ⟨e, he⟩ := List.exists_mem_of_ne_nil _ hne
  obtain ⟨hmem, rfl, rfl⟩ := mem_entriesOf.mp he
  obtain ⟨f, hf, heq⟩ := List.mem_map.mp (h.mem_iff.mp (List.mem_map_of_mem hmem))
  exact List.ne_nil_of_mem (mem_entriesOf.mpr
    ⟨hf, congrArg Worth.accountId heq, congrArg Worth.currency heq⟩)

/-! ## Runs -/

/-- The batch of an append declares, for every account and currency, the decimals that their
entries have so far. -/
def AppendsOneScale (ledger : Ledger) : LedgerCall → Prop
  | .append entries _ => OneScale (ledger.entries ++ entries)
  | .registerAccount _ _ => True

theorem entries_call (ledger : Ledger) (c : LedgerCall) :
    (ledger.call c).entries = ledger.entries ∨
      ∃ entries description, c = .append entries description ∧
        (ledger.call c).entries = ledger.entries ++ entries := by
  rcases call_cases ledger c with heq | ⟨_, _, _, _, -, heq⟩ |
    ⟨entries, description, _, _, rfl, -, heq⟩ <;> rw [heq]
  · exact .inl rfl
  · exact .inl rfl
  · exact .inr ⟨entries, description, rfl, rfl⟩

theorem oneScale_of_appendsOneScale {ledger : Ledger}
    (h : ledgerSystem.ReachableVia AppendsOneScale ledger) : OneScale ledger.entries := by
  refine h.invariant (I := fun l => OneScale l.entries) ?_ ?_
  · rintro _ rfl e he
    cases he
  · intro s c s' hs hok hnext
    rw [← Option.some.inj hnext]
    rcases entries_call s c with h | ⟨entries, description, rfl, h⟩ <;> rw [h]
    · exact hs
    · exact hok

theorem exists_getBalance {ledger : Ledger} (h : ledgerSystem.ReachableVia AppendsOneScale ledger)
    {accountId : JsString} {account : LedgerAccount}
    (haccount : ledger.accounts.get? accountId = some account) :
    ∃ b, ledger.getBalance accountId = .ok b ∧ b.accountId = accountId ∧
      b.accountType = account.ref.type ∧ BalancesExact ledger.entries b :=
  computeAccountBalance_exact (sound_of_reachableVia h).valid (oneScale_of_appendsOneScale h)
    haccount

theorem balancesExact_of_getBalance {ledger : Ledger}
    (h : ledgerSystem.ReachableVia AppendsOneScale ledger) {accountId : JsString}
    {b : AccountBalance} (hb : ledger.getBalance accountId = .ok b) :
    b.accountId = accountId ∧ BalancesExact ledger.entries b := by
  obtain ⟨account, haccount, -⟩ := bind_eq_ok.mp hb
  obtain ⟨b', hb', hid, -, hexact⟩ :=
    exists_getBalance h (AccountRegistry.assertExists_eq_ok.mp haccount)
  cases hb.symm.trans hb'
  exact ⟨hid, hexact⟩

/-- In every run whose appends declare one scale for each account and currency, the balances of
every account are the exact sums of its entries; another such ledger whose entries are worth
the same, in any order and with any decimals, has the same balances. -/
theorem getBalance_exact (ledger : Ledger)
    (h : ledgerSystem.ReachableVia AppendsOneScale ledger) :
    (∀ accountId account, ledger.accounts.get? accountId = some account →
      ∃ b, ledger.getBalance accountId = .ok b ∧ b.accountId = accountId ∧
        b.accountType = account.ref.type ∧ BalancesExact ledger.entries b) ∧
    ∀ ledger', ledgerSystem.ReachableVia AppendsOneScale ledger' →
      (ledger.entries.map worth).Perm (ledger'.entries.map worth) → ∀ accountId b b',
      ledger.getBalance accountId = .ok b → ledger'.getBalance accountId = .ok b' →
      b.accountType = b'.accountType → ∀ x ∈ b.balances, ∃ x' ∈ b'.balances,
        x'.currency = x.currency ∧ x'.valueOf x'.balance = x.valueOf x.balance := by
  refine ⟨fun accountId account haccount => exists_getBalance h haccount, ?_⟩
  intro ledger' h' hperm accountId b b' hb hb' htype x hx
  obtain ⟨hid, hexact⟩ := balancesExact_of_getBalance h hb
  obtain ⟨hid', hexact'⟩ := balancesExact_of_getBalance h' hb'
  have hne := (hexact.currencies x.currency).mp (List.mem_map_of_mem hx)
  rw [hid, ← hid'] at hne
  obtain ⟨x', hx', hcur⟩ := List.mem_map.mp
    ((hexact'.currencies x.currency).mpr (entriesOf_ne_nil_of_perm hperm hne))
  refine ⟨x', hx', hcur, ?_⟩
  rw [hexact'.balance x' hx', hexact.balance x hx, hcur, hid, hid', htype,
    signedSum_eq_of_perm hperm]

/-! ### A second scale -/

/-- Another dollar between the same accounts, written with four decimals. -/
def fineBatch (id id' correlationId : String) : List LedgerEntry := [
  entryOf id "cash" .debit "1.0000" "USD" 4 correlationId,
  entryOf id' "sales" .credit "1.0000" "USD" 4 correlationId]

def twoScales : Ledger :=
  (twoAccounts.call (.append evenBatch none)).call (.append (fineBatch "3" "4" "b") none)

theorem getBalance_twoScales : twoScales.getBalance (js "cash") =
    .ok ⟨js "cash", .asset, [⟨js "USD", .ofNat 2, js "101.00", js "101.00", js "0.00"⟩]⟩ := by
  decide +kernel

theorem not_balancesExact_twoScales :
    ¬ ∀ ledger, ledgerSystem.Reachable ledger → ∀ accountId account,
      ledger.accounts.get? accountId = some account → ∃ b, ledger.getBalance accountId = .ok b ∧
        b.accountId = accountId ∧ b.accountType = account.ref.type ∧
        BalancesExact ledger.entries b := by
  intro h
  have hreach : ledgerSystem.Reachable twoScales :=
    ((reachableVia_twoAccounts fun _ _ _ => trivial).step trivial rfl).step trivial rfl
  obtain ⟨b, hb, -, -, hexact⟩ :=
    h _ hreach (js "cash") ⟨⟨js "cash", .asset, js "Cash"⟩, js "t"⟩ rfl
  cases getBalance_twoScales.symm.trans hb
  have hbalance := hexact.balance _ (.head _)
  revert hbalance
  decide +kernel

theorem reachableVia_append_pair (e f : LedgerEntry) (h : e.money.decimals = f.money.decimals) :
    ledgerSystem.ReachableVia AppendsOneScale (twoAccounts.call (.append [e, f] none)) := by
  have hok : AppendsOneScale twoAccounts (.append [e, f] none) := by
    intro a ha b hb _ _
    rcases List.mem_pair.mp ha with rfl | rfl <;> rcases List.mem_pair.mp hb with rfl | rfl
    · rfl
    · exact h
    · exact h.symm
    · rfl
  exact (reachableVia_twoAccounts fun _ _ _ => trivial).step hok rfl

theorem getBalance_exact_fineBatch :
    let ledger := twoAccounts.call (.append evenBatch none)
    let ledger' := twoAccounts.call (.append (fineBatch "1" "2" "a") none)
    ∃ b b', ledger.getBalance (js "cash") = .ok b ∧ ledger'.getBalance (js "cash") = .ok b' ∧
      BalancesExact ledger.entries b ∧ ∀ x ∈ b.balances, ∃ x' ∈ b'.balances,
        x'.currency = x.currency ∧ x'.valueOf x'.balance = x.valueOf x.balance := by
  intro ledger ledger'
  have hreach : ledgerSystem.ReachableVia AppendsOneScale ledger :=
    reachableVia_append_pair _ _ rfl
  have hreach' : ledgerSystem.ReachableVia AppendsOneScale ledger' :=
    reachableVia_append_pair _ _ rfl
  obtain ⟨hexact, hagree⟩ := getBalance_exact ledger hreach
  obtain ⟨b, hb, -, htype, h⟩ :=
    hexact (js "cash") ⟨⟨js "cash", .asset, js "Cash"⟩, js "t"⟩ rfl
  obtain ⟨b', hb', -, htype', -⟩ :=
    (getBalance_exact ledger' hreach').1 (js "cash") ⟨⟨js "cash", .asset, js "Cash"⟩, js "t"⟩ rfl
  have hworth : ledger.entries.map worth = ledger'.entries.map worth := by decide +kernel
  exact ⟨b, b', hb, hb', h, hagree ledger' hreach' (hworth ▸ .refl _) _ b b' hb hb'
    (htype.trans htype'.symm)⟩

end Attestia.Ledger
