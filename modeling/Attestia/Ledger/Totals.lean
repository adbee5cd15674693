import Attestia.Ledger.Ledger
import Mathlib.Tactic.Ring

/-!
# Totals by currency

The three loops that add debits and credits for each currency (over the entries of an
append, over the accumulators and over the lines of a trial balance) are one fold; all of
its totals agree exactly when debits and credits agree in every currency.
-/

namespace Attestia.Ledger

open Lib JsonNumber

variable {ε : Type}

def totalsBy (currency : ε → JsString) (column : ε → CurrencyTotals) (l : List ε) :
    JsMap JsString CurrencyTotals :=
  l.foldl (fun totals e => addTotals totals (currency e) (column e)) .empty

/-- The sums of the two columns of a currency. -/
def debitsIn (currency : ε → JsString) (column : ε → CurrencyTotals) (l : List ε) (c : JsString) :
    ℤ :=
  ((l.filter fun e => currency e = c).map fun e => (column e).debits).sum

def creditsIn (currency : ε → JsString) (column : ε → CurrencyTotals) (l : List ε) (c : JsString) :
    ℤ :=
  ((l.filter fun e => currency e = c).map fun e => (column e).credits).sum

/-- The difference of the columns is a sum over the whole list. -/
theorem debitsIn_sub_creditsIn (currency : ε → JsString) (column : ε → CurrencyTotals)
    (l : List ε) (c : JsString) :
    debitsIn currency column l c - creditsIn currency column l c =
      (l.map fun e => if currency e = c then (column e).debits - (column e).credits else 0).sum := by
  induction l with
  | nil => rfl
  | cons e l ih =>
    rw [List.map_cons, List.sum_cons, ← ih]
    by_cases h : currency e = c
    · simp only [debitsIn, creditsIn, h, decide_true, List.filter_cons_of_pos, List.map_cons,
        List.sum_cons, if_true]
      ring
    · simp [debitsIn, creditsIn, h]

theorem foldl_columns (column : ε → CurrencyTotals) (l : List ε) (t : CurrencyTotals) :
    l.foldl (fun t e => ⟨t.debits + (column e).debits, t.credits + (column e).credits⟩) t =
      ⟨t.debits + (l.map fun e => (column e).debits).sum,
        t.credits + (l.map fun e => (column e).credits).sum⟩ := by
  induction l generalizing t with
  | nil => simp
  | cons e l ih => simp [ih, add_assoc]

theorem get?_totalsBy (currency : ε → JsString) (column : ε → CurrencyTotals) (l : List ε)
    (c : JsString) :
    (totalsBy currency column l).get? c = if ∃ e ∈ l, currency e = c then
      some ⟨debitsIn currency column l c, creditsIn currency column l c⟩ else none := by
  have hcollect : totalsBy currency column l = JsMap.collect currency (fun _ => ⟨0, 0⟩)
      (fun t e => ⟨t.debits + (column e).debits, t.credits + (column e).credits⟩) l := rfl
  rw [hcollect, JsMap.get?_collect, JsMap.total, foldl_columns]
  split
  · rename_i h
    obtain ⟨e, he, hc⟩ := h
    have hne : (l.filter fun e => decide (currency e = c)) ≠ [] :=
      List.ne_nil_of_mem (List.mem_filter.mpr ⟨he, by simpa using hc⟩)
    rw [List.head?_eq_some_head hne, Option.map_some, Int.zero_add, Int.zero_add]
    rfl
  · rename_i h
    have hnil : (l.filter fun e => decide (currency e = c)) = [] :=
      List.filter_eq_nil_iff.mpr fun e he hc => h ⟨e, he, by simpa using hc⟩
    rw [hnil]
    rfl

/-- The totals agree exactly when debits and credits agree in every currency. -/
theorem forall_totalsBy (currency : ε → JsString) (column : ε → CurrencyTotals) (l : List ε) :
    (∀ e ∈ (totalsBy currency column l).entries, e.2.debits = e.2.credits) ↔
      ∀ c, debitsIn currency column l c = creditsIn currency column l c := by
  constructor
  · intro h c
    by_cases hc : ∃ e ∈ l, currency e = c
    · have hget := get?_totalsBy currency column l c
      rw [if_pos hc] at hget
      exact h _ (JsMap.get?_eq_some.mp hget)
    · have hnil : (l.filter fun e => decide (currency e = c)) = [] :=
        List.filter_eq_nil_iff.mpr fun e he hce => hc ⟨e, he, by simpa using hce⟩
      rw [debitsIn, creditsIn, hnil]
      rfl
  · rintro h ⟨c, t⟩ ht
    have hget := get?_totalsBy currency column l c
    rw [JsMap.get?_eq_some.mpr ht] at hget
    split at hget
    · rw [Option.some.inj hget]
      exact h c
    · cases hget

theorem find?_unbalanced_eq_none {m : JsMap JsString CurrencyTotals} :
    (m.entries.find? fun t => t.2.debits ≠ t.2.credits) = none ↔
      ∀ e ∈ m.entries, e.2.debits = e.2.credits := by
  simp

/-! ## Sums over entries -/

section sums

variable {R : Type*} [AddCommMonoid R]

/-- The sum of the entries of one type. -/
def sumOf (type : LedgerEntryType) (f : Money → R) (entries : List LedgerEntry) : R :=
  ((entries.filter fun e => e.type = type).map fun e => f e.money).sum

def inCurrency (c : JsString) (entries : List LedgerEntry) : List LedgerEntry :=
  entries.filter fun e => e.money.currency = c

@[simp] theorem sumOf_nil (type : LedgerEntryType) (f : Money → R) : sumOf type f [] = 0 := rfl

theorem sumOf_cons (type : LedgerEntryType) (f : Money → R) (e : LedgerEntry)
    (es : List LedgerEntry) :
    sumOf type f (e :: es) = (if e.type = type then f e.money else 0) + sumOf type f es := by
  by_cases h : e.type = type <;> simp [sumOf, h]

theorem sumOf_append (type : LedgerEntryType) (f : Money → R) (as bs : List LedgerEntry) :
    sumOf type f (as ++ bs) = sumOf type f as + sumOf type f bs := by
  simp [sumOf]

@[simp] theorem inCurrency_append (c : JsString) (as bs : List LedgerEntry) :
    inCurrency c (as ++ bs) = inCurrency c as ++ inCurrency c bs := List.filter_append ..

end sums

/-- Entries of one scale are worth their scaled sum over the power of ten. -/
theorem sumOf_value {entries : List LedgerEntry} {d : ℕ} (h : ∀ e ∈ entries, e.money.scale = d)
    (type : LedgerEntryType) :
    sumOf type Money.value entries = sumOf type Money.scaled entries / 10 ^ d := by
  induction entries with
  | nil => simp
  | cons e es ih =>
    have he := h e (.head _)
    rw [sumOf_cons, sumOf_cons, ih fun a ha => h a (.tail _ ha)]
    split
    · rw [Money.value, he, Int.cast_add, add_div]
    · rw [Int.cast_add, add_div, Int.cast_zero, zero_div]

/-- The columns of an entry. -/
def entryColumns (entry : LedgerEntry) : CurrencyTotals :=
  match entry.type with
  | .debit => ⟨entry.money.scaled, 0⟩
  | .credit => ⟨0, entry.money.scaled⟩

theorem sum_entryColumns (entries : List LedgerEntry) :
    (entries.map fun e => (entryColumns e).debits).sum = sumOf .debit Money.scaled entries ∧
      (entries.map fun e => (entryColumns e).credits).sum = sumOf .credit Money.scaled entries := by
  induction entries with
  | nil => exact ⟨rfl, rfl⟩
  | cons e es ih =>
    rw [List.map_cons, List.map_cons, List.sum_cons, List.sum_cons, ih.1, ih.2, sumOf_cons,
      sumOf_cons]
    cases h : e.type <;> simp [entryColumns, h]

/-- The scaled amounts of the two sides agree in every currency. -/
def ScaledBalanced (entries : List LedgerEntry) : Prop :=
  ∀ c, sumOf .debit Money.scaled (inCurrency c entries) =
    sumOf .credit Money.scaled (inCurrency c entries)

theorem scaledBalanced_iff {entries : List LedgerEntry} : ScaledBalanced entries ↔
    ∀ c, debitsIn (fun e => e.money.currency) entryColumns entries c =
      creditsIn (fun e => e.money.currency) entryColumns entries c := by
  apply forall_congr'
  intro c
  obtain ⟨hd, hc⟩ := sum_entryColumns (inCurrency c entries)
  rw [debitsIn, creditsIn, ← hd, ← hc]
  rfl

theorem assertBalanced_eq_ok {entries : List LedgerEntry} (h : ∀ e ∈ entries, e.money.Valid) :
    assertBalanced entries = .ok () ↔ ScaledBalanced entries := by
  have hfold : entries.foldlM addEntry .empty =
      .ok (totalsBy (fun e => e.money.currency) entryColumns entries) := by
    apply foldlM_eq_ok
    intro m e he
    rw [addEntry, (h e he).parses]
    cases ht : e.type <;> simp [entryColumns, ht, bind, Except.bind, pure, Except.pure]
  rw [scaledBalanced_iff, ← forall_totalsBy, ← find?_unbalanced_eq_none, assertBalanced, hfold]
  simp only [bind, Except.bind]
  split
  · rename_i hnone
    exact ⟨fun _ => hnone, fun _ => rfl⟩
  · rename_i hsome
    exact ⟨fun h => (nomatch h), fun h => by rw [hsome] at h; cases h⟩

end Attestia.Ledger
