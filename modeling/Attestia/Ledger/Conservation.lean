import Attestia.Ledger.Totals

/-!
# Double-entry conservation

What an accepted append has passed, what every reachable ledger keeps, and when the debits
and the credits of its transactions agree in value: the balance check compares scaled
integers, so the decimals of the amounts of a currency have to agree within a batch.
-/

namespace Attestia.Ledger

open Lib JsonNumber

/-! ## Accepted batches -/

theorem assertUniqueIds_eq_ok {entryIds batchIds : List JsString} {entries : List LedgerEntry} :
    assertUniqueIds entryIds batchIds entries = .ok () ↔
      (∀ e ∈ entries, e.id ∉ entryIds ∧ e.id ∉ batchIds) ∧ (entries.map LedgerEntry.id).Nodup := by
  induction entries generalizing batchIds with
  | nil => simp [assertUniqueIds]
  | cons e es ih =>
    rw [assertUniqueIds]
    split
    · simp_all
    · split
      · simp_all
      · rename_i h1 h2
        rw [ih, List.map_cons, List.nodup_cons, List.forall_mem_cons]
        simp only [List.mem_append, List.mem_singleton, List.mem_map, not_exists, not_and, not_or]
        constructor
        · rintro ⟨h, hnodup⟩
          exact ⟨⟨⟨h1, h2⟩, fun a ha => ⟨(h a ha).1, (h a ha).2.1⟩⟩,
            fun a ha => (h a ha).2.2, hnodup⟩
        · rintro ⟨⟨-, h⟩, hne, hnodup⟩
          exact ⟨fun a ha => ⟨(h a ha).1, (h a ha).2, hne a ha⟩, hnodup⟩

/-- What a batch has passed when it is appended. -/
structure Accepted (ledger : Ledger) (correlationId : JsString) (entries : List LedgerEntry) :
    Prop where
  correlationId : ∀ e ∈ entries, e.correlationId = correlationId
  fresh : ∀ e ∈ entries, e.id ∉ ledger.entryIds
  nodup : (entries.map LedgerEntry.id).Nodup
  accounts : ∀ e ∈ entries, ∃ account, ledger.accounts.get? e.accountId = some account
  valid : ∀ e ∈ entries, e.money.Valid
  positive : ∀ e ∈ entries, 0 < e.money.scaled
  balanced : ScaledBalanced entries

theorem assertPositive_eq_ok {entry : LedgerEntry} (h : entry.money.Valid) :
    assertPositive entry = .ok () ↔ 0 < entry.money.scaled := by
  rw [assertPositive, h.parses]
  by_cases hpos : entry.money.scaled ≤ 0
  · simp only [bind, Except.bind, hpos, if_true]
    exact ⟨fun h => (nomatch h), fun h => by omega⟩
  · simp only [bind, Except.bind, hpos, if_false]
    exact ⟨fun _ => by omega, fun _ => rfl⟩

theorem assertCorrelationId_eq_ok {correlationId : JsString} {entry : LedgerEntry} :
    assertCorrelationId correlationId entry = .ok () ↔ entry.correlationId = correlationId := by
  unfold assertCorrelationId
  split
  · rename_i hne
    exact ⟨fun h => (nomatch h), fun h => absurd h hne⟩
  · rename_i heq
    exact ⟨fun _ => not_ne_iff.mp heq, fun _ => rfl⟩

/-- An append returns exactly when its batch passes every rule, and writes its entries behind
the others as one transaction. -/
theorem append_eq_ok_iff {ledger : Ledger} {entries : List LedgerEntry}
    {description : Option JsString} {r : Ledger × AppendResult} :
    ledger.append entries description = .ok r ↔
      ∃ first rest, entries = first :: rest ∧ Accepted ledger first.correlationId entries ∧
        r = (⟨ledger.accounts, ledger.entries ++ entries,
          ledger.entryIds ++ entries.map LedgerEntry.id,
          ledger.transactions ++ [⟨first.correlationId, entries, first.timestamp, description⟩]⟩,
          ⟨first.correlationId, entries.length, first.timestamp⟩) := by
  cases entries with
  | nil => exact ⟨fun h => (nomatch h), fun ⟨_, _, h, _⟩ => (nomatch h)⟩
  | cons first rest =>
    rw [append]
    simp only [bind_unit_eq_ok, forM_eq_ok, assertCorrelationId_eq_ok, assertUniqueIds_eq_ok,
      map_eq_ok, AccountRegistry.assertExists_eq_ok, validateMoney_eq_ok, and_true]
    constructor
    · rintro ⟨hcorr, ⟨hfresh, hnodup⟩, haccounts, hvalid, hpositive, hbalanced, hr⟩
      refine ⟨first, rest, rfl, ⟨hcorr, fun e he => (hfresh e he).1, hnodup, haccounts, hvalid,
        fun e he => (assertPositive_eq_ok (hvalid e he)).mp (hpositive e he),
        (assertBalanced_eq_ok hvalid).mp hbalanced⟩, (Except.ok.inj hr).symm⟩
    · rintro ⟨_, _, heq, h, rfl⟩
      cases heq
      exact ⟨h.correlationId, ⟨fun e he => ⟨h.fresh e he, List.not_mem_nil⟩, h.nodup⟩, h.accounts,
        h.valid, fun e he => (assertPositive_eq_ok (h.valid e he)).mpr (h.positive e he),
        (assertBalanced_eq_ok h.valid).mpr h.balanced, rfl⟩

theorem append_eq_ok {ledger ledger' : Ledger} {entries : List LedgerEntry}
    {description : Option JsString} {result : AppendResult}
    (h : ledger.append entries description = .ok (ledger', result)) :
    ∃ correlationId timestamp, Accepted ledger correlationId entries ∧
      ledger' = ⟨ledger.accounts, ledger.entries ++ entries,
        ledger.entryIds ++ entries.map LedgerEntry.id,
        ledger.transactions ++ [⟨correlationId, entries, timestamp, description⟩]⟩ ∧
      result = ⟨correlationId, entries.length, timestamp⟩ := by
  obtain ⟨first, rest, rfl, hacc, heq⟩ := append_eq_ok_iff.mp h
  exact ⟨_, _, hacc, congrArg Prod.fst heq, congrArg Prod.snd heq⟩

/-! ## Reachable ledgers -/

structure Sound (ledger : Ledger) : Prop where
  entries : ledger.entries = ledger.transactions.flatMap LedgerTransaction.entries
  accounts : ∀ e ∈ ledger.entries, ∃ account, ledger.accounts.get? e.accountId = some account
  valid : ∀ e ∈ ledger.entries, e.money.Valid
  positive : ∀ e ∈ ledger.entries, 0 < e.money.scaled
  balanced : ∀ t ∈ ledger.transactions, ScaledBalanced t.entries

theorem sound_new : Sound .new :=
  ⟨rfl, fun _ h => (nomatch h), fun _ h => (nomatch h), fun _ h => (nomatch h),
    fun _ h => (nomatch h)⟩

/-- What a call can do: nothing, register an account, or append an accepted batch. -/
theorem call_cases (ledger : Ledger) (c : LedgerCall) :
    ledger.call c = ledger ∨
    (∃ ref timestamp accounts account,
      ledger.accounts.register ref timestamp = .ok (accounts, account) ∧
      ledger.call c = ⟨accounts, ledger.entries, ledger.entryIds, ledger.transactions⟩) ∨
    ∃ entries description correlationId timestamp, c = .append entries description ∧
      Accepted ledger correlationId entries ∧
      ledger.call c = ⟨ledger.accounts, ledger.entries ++ entries,
        ledger.entryIds ++ entries.map LedgerEntry.id,
        ledger.transactions ++ [⟨correlationId, entries, timestamp, description⟩]⟩ := by
  cases c with
  | registerAccount ref timestamp =>
    rw [Ledger.call]
    split
    · rename_i hreg
      obtain ⟨⟨accounts, account⟩, hreg, heq⟩ := bind_eq_ok.mp hreg
      cases heq
      exact .inr (.inl ⟨ref, timestamp, accounts, _, hreg, rfl⟩)
    · exact .inl rfl
  | append entries description =>
    rw [Ledger.call]
    split
    · rename_i happend
      obtain ⟨correlationId, timestamp, hacc, heq, -⟩ := append_eq_ok happend
      exact .inr (.inr ⟨entries, description, correlationId, timestamp, rfl, hacc, heq⟩)
    · exact .inl rfl

theorem Sound.call {ledger : Ledger} (h : Sound ledger) (c : LedgerCall) : Sound (ledger.call c) := by
  rcases call_cases ledger c with heq | ⟨ref, timestamp, accounts, account, hreg, heq⟩ |
    ⟨entries, description, correlationId, timestamp, -, hacc, heq⟩
  · rwa [heq]
  · rw [heq]
    refine ⟨h.entries, fun e he => ?_, h.valid, h.positive, h.balanced⟩
    obtain ⟨other, hget⟩ := h.accounts e he
    exact ⟨other, AccountRegistry.get?_of_register hreg hget⟩
  · rw [heq]
    have hmem : ∀ {P : LedgerEntry → Prop}, (∀ e ∈ ledger.entries, P e) →
        (∀ e ∈ entries, P e) → ∀ e ∈ ledger.entries ++ entries, P e := by
      intro P h1 h2 e he
      exact (List.mem_append.mp he).elim (h1 e) (h2 e)
    refine ⟨?_, hmem h.accounts hacc.accounts, hmem h.valid hacc.valid,
      hmem h.positive hacc.positive, ?_⟩
    · simp [h.entries]
    · intro t ht
      rcases List.mem_append.mp ht with ht | ht
      · exact h.balanced t ht
      · rw [List.mem_singleton.mp ht]
        exact hacc.balanced

theorem sound_of_reachableVia {ok : Ledger → LedgerCall → Prop} {ledger : Ledger}
    (h : ledgerSystem.ReachableVia ok ledger) : Sound ledger :=
  h.invariant (fun _ hs => hs ▸ sound_new)
    fun _ c _ hs _ hnext => Option.some.inj hnext ▸ hs.call c

/-! ## Conservation -/

/-- Amounts of one currency declare the same number of decimals. -/
def UniformScale (entries : List LedgerEntry) : Prop :=
  ∀ e ∈ entries, ∀ f ∈ entries, e.money.currency = f.money.currency →
    e.money.decimals = f.money.decimals

/-- Debits and credits are worth the same in every currency. -/
def Conserved (entries : List LedgerEntry) : Prop :=
  ∀ c, sumOf .debit Money.value (inCurrency c entries) =
    sumOf .credit Money.value (inCurrency c entries)

/-- Within one scale the scaled balance is the balance of the values. -/
theorem conserved_of_scaledBalanced {entries : List LedgerEntry} (hu : UniformScale entries)
    (h : ScaledBalanced entries) : Conserved entries := by
  intro c
  by_cases hnil : inCurrency c entries = []
  · rw [hnil]
    rfl
  · obtain ⟨e, he⟩ := List.exists_mem_of_ne_nil _ hnil
    have hscale : ∀ f ∈ inCurrency c entries, f.money.scale = e.money.scale := by
      intro f hf
      rw [inCurrency, List.mem_filter, decide_eq_true_eq] at he hf
      rw [Money.scale, Money.scale, hu f hf.1 e he.1 (hf.2.trans he.2.symm)]
    rw [sumOf_value hscale, sumOf_value hscale, h c]

/-- The batch of an append is of one scale in each of its currencies. -/
def AppendsUniform (_ : Ledger) : LedgerCall → Prop
  | .append entries _ => UniformScale entries
  | .registerAccount _ _ => True

theorem mem_transactions_call {ledger : Ledger} {c : LedgerCall} {t : LedgerTransaction}
    (ht : t ∈ (ledger.call c).transactions) :
    t ∈ ledger.transactions ∨ ∃ description, c = .append t.entries description := by
  rcases call_cases ledger c with heq | ⟨_, _, _, _, -, heq⟩ |
    ⟨entries, description, correlationId, timestamp, rfl, -, heq⟩
  · exact .inl (heq ▸ ht)
  · rw [heq] at ht
    exact .inl ht
  · rw [heq] at ht
    rcases List.mem_append.mp ht with ht | ht
    · exact .inl ht
    · rw [List.mem_singleton.mp ht]
      exact .inr ⟨description, rfl⟩

theorem uniformScale_of_appendsUniform {ledger : Ledger}
    (h : ledgerSystem.ReachableVia AppendsUniform ledger) :
    ∀ t ∈ ledger.transactions, UniformScale t.entries := by
  refine h.invariant (I := fun l => ∀ t ∈ l.transactions, UniformScale t.entries) ?_ ?_
  · rintro _ rfl t ht
    cases ht
  · intro s c s' hs hok hnext t ht
    rw [← Option.some.inj hnext] at ht
    rcases mem_transactions_call ht with ht | ⟨description, rfl⟩
    · exact hs t ht
    · exact hok

/-- In every run whose appends are of one scale in each currency, every transaction conserves
value. -/
theorem conserved_of_appendsUniform (ledger : Ledger)
    (h : ledgerSystem.ReachableVia AppendsUniform ledger) :
    ∀ t ∈ ledger.transactions, Conserved t.entries := fun t ht =>
  conserved_of_scaledBalanced (uniformScale_of_appendsUniform h t ht)
    ((sound_of_reachableVia h).balanced t ht)

/-! ### A batch of two scales -/

def entryOf (id accountId : String) (type : LedgerEntryType) (amount currency : String)
    (decimals : ℕ) (correlationId : String) : LedgerEntry :=
  ⟨js id, js accountId, type, ⟨js amount, js currency, .ofNat decimals⟩, js "t", none, none,
    js correlationId⟩

/-- The ledger with the accounts `cash` and `sales`. -/
def twoAccounts : Ledger :=
  (Ledger.new.call (.registerAccount ⟨js "cash", .asset, js "Cash"⟩ (js "t"))).call
    (.registerAccount ⟨js "sales", .income, js "Sales"⟩ (js "t"))

theorem reachableVia_twoAccounts {ok : Ledger → LedgerCall → Prop}
    (hok : ∀ ledger ref timestamp, ok ledger (.registerAccount ref timestamp)) :
    ledgerSystem.ReachableVia ok twoAccounts :=
  .step (.step (.init rfl) (hok _ _ _) rfl) (hok _ _ _) rfl

/-- One dollar against one hundred: both amounts are the integer 100. -/
def mixedBatch : List LedgerEntry :=
  [entryOf "1" "cash" .debit "1.00" "USD" 2 "a", entryOf "2" "sales" .credit "100" "USD" 0 "a"]

theorem not_conserved_mixedBatch :
    ¬ ∀ ledger, ledgerSystem.Reachable ledger → ∀ t ∈ ledger.transactions, Conserved t.entries := by
  intro h
  have hreach : ledgerSystem.Reachable (twoAccounts.call (.append mixedBatch none)) :=
    (reachableVia_twoAccounts fun _ _ _ => trivial).step trivial rfl
  have hentries : (twoAccounts.call (.append mixedBatch none)).transactions.map
      LedgerTransaction.entries = [mixedBatch] := by
    decide +kernel
  obtain ⟨t, ht, heq⟩ := List.mem_map.mp (hentries ▸ List.mem_singleton_self mixedBatch)
  have hsum := h _ hreach t ht (js "USD")
  rw [heq] at hsum
  revert hsum
  decide +kernel

def evenBatch : List LedgerEntry :=
  [entryOf "1" "cash" .debit "1.00" "USD" 2 "a", entryOf "2" "sales" .credit "1.00" "USD" 2 "a"]

theorem conserved_evenBatch :
    (twoAccounts.call (.append evenBatch none)).transactions.length = 1 ∧
      ∀ t ∈ (twoAccounts.call (.append evenBatch none)).transactions, Conserved t.entries := by
  have huniform : AppendsUniform twoAccounts (.append evenBatch none) := by
    intro e he f hf _
    rcases List.mem_pair.mp he with rfl | rfl <;> rcases List.mem_pair.mp hf with rfl | rfl <;> rfl
  exact ⟨by decide +kernel, conserved_of_appendsUniform _
    ((reachableVia_twoAccounts fun _ _ _ => trivial).step huniform rfl)⟩

end Attestia.Ledger
