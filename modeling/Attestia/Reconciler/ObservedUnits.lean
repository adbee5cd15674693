import Attestia.ChainObserver.DeliveredValue
import Attestia.Reconciler.Exact

/-!
# Units of observed payments

An entry of the ledger is matched with the event that the observer of the XRP Ledger emits for a
payment. The amount of XRP is a number of drops with 6 decimals. The value of an issued token is
the text that denotes it, and the event says that it has 15 decimals all the same.
-/

namespace Attestia.Ledger

theorem Numeral.exists_scaled (n : Numeral) : ∃ (z : ℤ) (d : ℕ), n.value = z / 10 ^ d := by
  refine ⟨n.scaled n.fraction.length, n.fraction.length, ?_⟩
  have hpow : (10 : ℚ) ^ n.fraction.length ≠ 0 := by positivity
  rw [Numeral.scaled_eq le_rfl, mul_div_cancel_right₀ _ hpow]

end Attestia.Ledger

/-! ## What a payment delivers -/

namespace Attestia.ChainObserver

open Lib Ledger DecimalText

/-- The texts of exponents: digits behind a sign, which may be missing. -/
inductive Exponent : JsString → ℤ → Prop where
  | unsigned {ds : JsString} (digits : AllDigits ds) (ne_nil : ds ≠ []) : Exponent ds (digitsNat ds)
  | plus {ds : JsString} (digits : AllDigits ds) (ne_nil : ds ≠ []) :
    Exponent (js "+" ++ ds) (digitsNat ds)
  | minus {ds : JsString} (digits : AllDigits ds) (ne_nil : ds ≠ []) :
    Exponent (js "-" ++ ds) (-digitsNat ds)

/-- The texts of the values of issued tokens, in decimal or in scientific notation. -/
inductive TokenValue : JsString → ℚ → Prop where
  | decimal (n : Numeral) : TokenValue n.text n.value
  | scientific (n : Numeral) {letter exponent : JsString} {k : ℤ}
    (isLetter : letter = js "e" ∨ letter = js "E") (isExponent : Exponent exponent k) :
    TokenValue (n.text ++ letter ++ exponent) (n.value * 10 ^ k)

/-- What an amount is worth: a drop is a millionth of an XRP. -/
inductive XrplAmount.Worth : XrplAmount → ℚ → Prop where
  | drops {text : JsString} (digits : AllDigits text) (ne_nil : text ≠ []) :
    Worth (.drops text) (digitsNat text / 10 ^ 6)
  | issued {value : JsString} {v : ℚ} (isValue : TokenValue value v) (currency issuer : JsString) :
    Worth (.issued value currency issuer) v

/-- A successful payment that the filters let through delivers what its metadata states where it is
a partial payment, and what it asks for otherwise. -/
structure Delivers (query : TransferQuery) (entry : XrplEntry) (tx : XrplTx) (amount : XrplAmount) :
    Prop where
  success : entry.failed = false
  admits : Admits query entry tx
  delivered : (if tx.isPartialPayment then entry.metaDelivered else tx.requested) = some amount

/-- The value of a token is a decimal fraction. -/
theorem TokenValue.exists_scaled {text : JsString} {v : ℚ} (h : TokenValue text v) :
    ∃ (z : ℤ) (d : ℕ), v = z / 10 ^ d := by
  cases h with
  | decimal n => exact n.exists_scaled
  | @scientific n letter exponent k isLetter isExponent =>
    obtain ⟨z, d, hn⟩ := n.exists_scaled
    rcases Int.eq_nat_or_neg k with ⟨e, rfl | rfl⟩
    · refine ⟨z * 10 ^ e, d, ?_⟩
      rw [hn, zpow_natCast]
      push_cast
      ring
    · refine ⟨z, d + e, ?_⟩
      rw [hn, zpow_neg, zpow_natCast, pow_add]
      ring

theorem XrplAmount.Worth.exists_scaled {amount : XrplAmount} {v : ℚ} (h : amount.Worth v) :
    ∃ (z : ℤ) (d : ℕ), v = z / 10 ^ d := by
  cases h with
  | drops digits ne_nil => exact ⟨_, 6, rfl⟩
  | issued isValue currency issuer => exact isValue.exists_scaled

end Attestia.ChainObserver

/-! ## What the matcher reads -/

namespace Attestia.Reconciler

open Lib Lib.Effect JsonNumber Ledger DecimalText ChainObserver

/-- The record that the matchers take. -/
def reconcilable (event : TransferEvent) : ReconcilableChainEvent where
  chainId := event.chainId
  txHash := event.txHash
  fromAddress := event.sender
  toAddress := event.receiver
  amount := event.amount
  decimals := .finite event.decimals
  symbol := event.symbol
  timestamp := event.timestamp

/-- An entry is matched with an event. -/
def Matched (entry : ReconcilableLedgerEntry) (event : ReconcilableChainEvent) : Prop :=
  ∃ rows, LedgerChainMatcher.matchRecords [entry] [event] = .ok rows ∧
    ∃ row ∈ rows, row.status = .matched

theorem matched_iff_settles {entry : ReconcilableLedgerEntry} {event : ReconcilableChainEvent} :
    Matched entry event ↔ ∃ txHash event', truthy entry.txHash = some txHash ∧
      Settles [event] txHash entry.money event' := by
  constructor
  · rintro ⟨rows, hrows, row, hrow, hstatus⟩
    obtain ⟨results, hresults, hrest⟩ := bind_eq_ok.mp hrows
    cases hrest
    rcases List.mem_append.mp hrow with hrow | hrow
    · obtain ⟨entry', hentry', hmatch⟩ := (mem_filterMapChecked hresults).mp hrow
      rw [List.mem_singleton.mp hentry'] at hmatch
      obtain ⟨txHash, event', hhash, hsettles, -⟩ :=
        LedgerChainMatcher.settles_of_matchEntry hmatch hstatus
      exact ⟨txHash, event', hhash, hsettles⟩
    · -- an event that no entry names is missing in the ledger
      obtain ⟨_, -, rfl⟩ := List.mem_map.mp hrow
      cases hstatus
  · rintro ⟨txHash, event', hhash, hsettles⟩
    have hmatch := LedgerChainMatcher.matchEntry_of_settles hhash hsettles
    obtain ⟨results, hresults⟩ : ∃ results,
        filterMapChecked (LedgerChainMatcher.matchEntry (byTxHash [event])) [entry] =
          .ok results := by
      apply exists_filterMapChecked_iff.mpr
      intro entry' hentry'
      rw [List.mem_singleton.mp hentry']
      exact ⟨_, hmatch⟩
    refine ⟨_, bind_eq_ok.mpr ⟨results, hresults, rfl⟩, _, List.mem_append_left _
      ((mem_filterMapChecked hresults).mpr ⟨entry, List.mem_cons_self, hmatch⟩), rfl⟩

/-- An entry of the transaction of an event is matched with it exactly where the amount is the text
of an integer, and the money is worth as many units as the event counts. -/
theorem matched_iff {entry : ReconcilableLedgerEntry} {event : ReconcilableChainEvent} {d : ℕ}
    (hhash : entry.txHash = some event.txHash) (hcurrency : entry.money.currency = event.symbol)
    (hmoney : Readable entry.money) (hdecimals : event.decimals = .finite (.ofNat d)) :
    Matched entry event ↔ event.txHash ≠ [] ∧ isIntegerText event.amount = true ∧
      entry.money.value = integerOf event.amount / 10 ^ d := by
  have hscale : event.scale = d := by
    rw [ReconcilableChainEvent.scale, hdecimals]
    simp [Number.ofNat]
  have hfirst : firstEvent [event] event.txHash entry.money.currency = some event := by
    simp [firstEvent, hcurrency]
  have hread : isIntegerText event.amount = true → event.Readable := fun htext =>
    ⟨hscale.symm ▸ hdecimals, htext⟩
  have hvalue : event.value = integerOf event.amount / 10 ^ d := by
    rw [ReconcilableChainEvent.value, hscale]
  rw [matched_iff_settles]
  constructor
  · rintro ⟨txHash, event', htruthy, hsettles⟩
    obtain ⟨hsome, hne⟩ := truthy_eq_some.mp htruthy
    obtain rfl : event.txHash = txHash := Option.some.inj (hhash.symm.trans hsome)
    obtain rfl : event' = event := Option.some.inj (hsettles.first.symm.trans hfirst)
    have htext := isIntegerText_of_agrees hsettles.agrees
    refine ⟨hne, htext, ?_⟩
    rw [← hvalue]
    exact (agrees_iff_value_eq hmoney (hread htext)).mp hsettles.agrees
  · rintro ⟨hne, htext, hequal⟩
    refine ⟨event.txHash, event, truthy_eq_some.mpr ⟨hhash, hne⟩, hfirst, ?_⟩
    apply (agrees_iff_value_eq hmoney (hread htext)).mpr
    rw [hequal, hvalue]

/-! ## Integers as texts -/

theorem mem_unsigned {s : JsString} {u : UInt16} (hu : u ∈ s) (hne : u ≠ minus) :
    u ∈ unsigned s := by
  rw [unsigned]
  split
  · rename_i hhead
    obtain ⟨rest, rfl⟩ : ∃ rest, s = minus :: rest := List.head?_eq_some_iff.mp hhead
    exact (List.mem_cons.mp hu).resolve_left hne
  · exact hu

/-- The text of an integer holds digits and a sign, and nothing else. -/
theorem isDigit_of_isIntegerText {s : JsString} {u : UInt16} (h : isIntegerText s = true)
    (hu : u ∈ s) (hne : u ≠ minus) : isDigit u = true := by
  obtain ⟨-, hall⟩ := Bool.and_eq_true_iff.mp h
  exact List.all_eq_true.mp hall u (mem_unsigned hu hne)

theorem unsigned_of_allDigits {s : JsString} (h : AllDigits s) : unsigned s = s := by
  rw [unsigned, if_neg]
  intro hhead
  exact ne_minus_of_isDigit (h minus (List.mem_of_head? hhead)) rfl

theorem isIntegerText_of_allDigits {s : JsString} (h : AllDigits s) (hne : s ≠ []) :
    isIntegerText s = true := by
  rw [isIntegerText, unsigned_of_allDigits h, Bool.and_eq_true_iff]
  exact ⟨decide_eq_true hne, List.all_eq_true.mpr h⟩

theorem integerOf_of_allDigits {s : JsString} (h : AllDigits s) : integerOf s = digitsNat s := by
  rw [integerOf, unsigned_of_allDigits h]
  apply if_neg
  intro hhead
  exact ne_minus_of_isDigit (h minus (List.mem_of_head? hhead)) rfl

/-- A numeral that is the text of an integer has no point, and it is worth that integer. -/
theorem value_of_isIntegerText {n : Numeral} (h : isIntegerText n.text = true) :
    n.value = integerOf n.text := by
  have hfraction : n.fraction = [] := by
    by_contra hne
    have hdot : dot ∈ n.text := by
      rw [Numeral.text, numeral, if_neg hne]
      exact List.mem_append_right _ List.mem_cons_self
    exact absurd (isDigit_of_isIntegerText h hdot (by decide)) (by decide)
  have hunsigned : unsigned n.text = n.whole := by
    rw [Numeral.text, unsigned_numeral n.digits n.whole_ne_nil, numeral_false, if_pos hfraction,
      List.append_nil]
  have hhead : n.text.head? = some minus ↔ n.negative = true :=
    head?_numeral n.digits n.whole_ne_nil n.negative
  have hnone : digitsNat [] = 0 := rfl
  rw [integerOf, hunsigned, Numeral.value, hfraction, hnone]
  simp only [hhead, Nat.cast_zero, zero_div, add_zero]
  split
  · push_cast
    ring
  · push_cast
    ring

/-- The value of a token whose text is that of an integer is the integer; a text with an exponent is
none. -/
theorem eq_integerOf_of_tokenValue {text : JsString} {v : ℚ} (h : TokenValue text v)
    (htext : isIntegerText text = true) : v = integerOf text := by
  cases h with
  | decimal n => exact value_of_isIntegerText htext
  | @scientific n letter exponent k isLetter isExponent =>
    have hmem : ∀ u ∈ letter, u ∈ n.text ++ letter ++ exponent := fun u hu =>
      List.mem_append_left _ (List.mem_append_right _ hu)
    rcases isLetter with rfl | rfl
    · have hletter := hmem 101 (by decide)
      exact absurd (isDigit_of_isIntegerText htext hletter (by decide)) (by decide)
    · have hletter := hmem 69 (by decide)
      exact absurd (isDigit_of_isIntegerText htext hletter (by decide)) (by decide)

/-! ## The units of a payment -/

/-- The entries of the transaction of an event and in its currency are matched with it exactly where
their money is worth `v`. -/
def MatchesAt (event : ReconcilableChainEvent) (v : ℚ) : Prop :=
  ∀ entry : ReconcilableLedgerEntry, entry.txHash = some event.txHash →
    entry.money.currency = event.symbol → Readable entry.money →
      (Matched entry event ↔ entry.money.value = v)

/-- A money that is worth a decimal fraction. -/
theorem exists_readable (z : ℤ) (d : ℕ) (currency : JsString) :
    ∃ money, Readable money ∧ money.currency = currency ∧ money.value = z / 10 ^ d := by
  refine ⟨⟨formatAmount z (.ofNat d), currency, .ofNat d⟩, ⟨?_, ?_⟩, rfl,
    value_formatAmount z currency d⟩
  · rw [scale_ofNat]
  · rw [scaled_formatAmount]
    exact parseAmount_formatAmount z d

theorem matchesAt_iff {event : ReconcilableChainEvent} {d : ℕ} {v : ℚ}
    (hdecimals : event.decimals = .finite (.ofNat d)) (hv : ∃ (z : ℤ) (e : ℕ), v = z / 10 ^ e) :
    MatchesAt event v ↔ event.txHash ≠ [] ∧ isIntegerText event.amount = true ∧
      v = integerOf event.amount / 10 ^ d := by
  constructor
  · intro hmatches
    obtain ⟨z, e, rfl⟩ := hv
    obtain ⟨money, hmoney, hcurrency, hvalue⟩ := exists_readable z e event.symbol
    let entry : ReconcilableLedgerEntry :=
      ⟨[], [], .debit, money, [], none, some event.txHash, []⟩
    have hmatched : Matched entry event := (hmatches entry rfl hcurrency hmoney).mpr hvalue
    rw [← hvalue]
    exact (matched_iff rfl hcurrency hmoney hdecimals).mp hmatched
  · rintro ⟨hne, htext, rfl⟩ entry hhash hcurrency hmoney
    rw [matched_iff hhash hcurrency hmoney hdecimals, and_iff_right hne, and_iff_right htext]

/-- The amounts whose events tell their units: drops, and token values without a point or an
exponent that are nothing. -/
def TellsUnits : XrplAmount → Prop
  | .drops _ => True
  | .issued value _ _ => isIntegerText value = true ∧ integerOf value = 0
  | .other => False

section payments

variable {o : ObserverConfig} {server : XrplServer} {readings : XrplReadings}
  {query : TransferQuery} {events : List TransferEvent} {entry : XrplEntry} {tx : XrplTx}
  {amount : XrplAmount} {v : ℚ}

theorem matchesAt_amountEvent_iff {chainId : JsString} {event : TransferEvent}
    (hevent : amountEvent chainId readings query entry tx (some amount) = some event)
    (hworth : amount.Worth v) :
    MatchesAt (reconcilable event) v ↔ entry.hash.getD [] ≠ [] ∧ TellsUnits amount := by
  have hscaled := hworth.exists_scaled
  cases hworth with
  | @drops text digits ne_nil =>
    cases hevent
    rw [matchesAt_iff (d := 6) rfl hscaled]
    have hread : isIntegerText text = true ∧
        ((digitsNat text / 10 ^ 6 : ℚ) = integerOf text / 10 ^ 6) := by
      refine ⟨isIntegerText_of_allDigits digits ne_nil, ?_⟩
      rw [integerOf_of_allDigits digits, Int.cast_natCast]
    exact and_congr_right fun _ => iff_of_true hread trivial
  | @issued value v isValue currency issuer =>
    rw [amountEvent] at hevent
    split at hevent
    · cases hevent
    · cases hevent
      rw [matchesAt_iff (d := 15) rfl hscaled]
      show entry.hash.getD [] ≠ [] ∧ isIntegerText value = true ∧ v = integerOf value / 10 ^ 15 ↔ _
      refine and_congr_right fun _ => and_congr_right fun htext => ?_
      -- an integer is worth its 10^15th part only where it is zero
      rw [eq_integerOf_of_tokenValue isValue htext, ← Int.cast_eq_zero (α := ℚ)]
      constructor
      · intro hequal
        linarith
      · intro hzero
        rw [hzero, zero_div]

/-- The observer and the matcher agree on the units of a payment of XRP. On those of a payment of a
token they agree only where nothing is paid. -/
theorem unitsAgree_iff (hok : (outcome (xrplGetTransfers o server readings query) ()).1 = .ok events)
    (hentry : entry ∈ server.transactions) (hdelivers : Delivers query entry tx amount)
    (hworth : amount.Worth v) :
    (∃ event ∈ events, ChainObserver.transferOf o.chainId readings query entry = .ok (some event) ∧
      MatchesAt (reconcilable event) v) ↔ entry.hash.getD [] ≠ [] ∧ TellsUnits amount := by
  obtain ⟨event, hmem, htransfer, hevent⟩ :=
    exists_transfer (xrplGetTransfers_eq_ok hok) hentry hdelivers.admits hdelivers.delivered
  rw [← matchesAt_amountEvent_iff hevent hworth]
  constructor
  · rintro ⟨event', -, htransfer', hmatches⟩
    obtain rfl : event = event' := by
      rw [htransfer] at htransfer'
      exact Option.some.inj (Except.ok.inj htransfer')
    exact hmatches
  · intro hmatches
    exact ⟨event, hmem, htransfer, hmatches⟩

end payments

/-! ## Two payments -/

/-- A payment to the watched account. -/
def paymentOf (amount : XrplAmount) : XrplTx :=
  ⟨js "Payment", some (js "rSender"), some (js "rWatched"), none, some amount, none, none⟩

/-- Its entry, which states that the payment has succeeded. -/
def succeeded (amount : XrplAmount) : XrplEntry :=
  ⟨some (paymentOf amount), some ⟨js "tesSUCCESS", some amount, none⟩, some (js "A1"),
    some 90000000⟩

def serverOf (amount : XrplAmount) : XrplServer := ⟨[succeeded amount], fun _ => none⟩

theorem delivers_succeeded {amount : XrplAmount}
    (h : amount.passes (transfersOf "rWatched") = true) :
    Delivers (transfersOf "rWatched") (succeeded amount) (paymentOf amount) amount := by
  have hflag : (paymentOf amount).isPartialPayment = false := by
    simp [paymentOf, XrplTx.isPartialPayment]
  have hwhole : (if (paymentOf amount).isPartialPayment then (succeeded amount).metaDelivered
      else (paymentOf amount).requested) = some amount := by
    rw [hflag]
    rfl
  exact ⟨rfl, ⟨rfl, rfl, rfl, amount, hwhole, h⟩, hwhole⟩

theorem unitsAgree_iff_drops :
    ∃ payments, observedPayments (serverOf (.drops (js "25000000"))) = .ok payments ∧
      ∃ event ∈ payments, ChainObserver.transferOf xrplMainnet.chainId xrplClock
          (transfersOf "rWatched") (succeeded (.drops (js "25000000"))) = .ok (some event) ∧
        MatchesAt (reconcilable event) 25 := by
  obtain ⟨payments, hpayments⟩ : ∃ payments,
      observedPayments (serverOf (.drops (js "25000000"))) = .ok payments :=
    exists_eq_ok_of_isOk (by decide +kernel)
  have hworth : (XrplAmount.drops (js "25000000")).Worth 25 := by
    have hdigits : AllDigits (js "25000000") := List.all_eq_true.mp rfl
    have hdrops := XrplAmount.Worth.drops hdigits (by decide)
    have hvalue : (digitsNat (js "25000000") / 10 ^ 6 : ℚ) = 25 := by decide +kernel
    rwa [hvalue] at hdrops
  exact ⟨payments, hpayments, (unitsAgree_iff hpayments List.mem_cons_self
    (delivers_succeeded rfl) hworth).mpr ⟨by decide, trivial⟩⟩

/-- A hundred dollars, as the ledger of the chain and as a book of accounts write them. -/
def hundredDollars : XrplAmount := .issued (js "100") (js "USD") (js "rIssuer")

def hundredEntry : ReconcilableLedgerEntry :=
  { debitOf (js "i1") (js "A1") with money := dollars (js "100.00") }

/-- The payment of a hundred dollars is no match for an entry of a hundred dollars. -/
theorem token_mismatched :
    Delivers (transfersOf "rWatched") (succeeded hundredDollars) (paymentOf hundredDollars)
      hundredDollars ∧ hundredDollars.Worth 100 ∧
    ∃ payments, observedPayments (serverOf hundredDollars) = .ok payments ∧
      ∃ event ∈ payments, ChainObserver.transferOf xrplMainnet.chainId xrplClock
          (transfersOf "rWatched") (succeeded hundredDollars) = .ok (some event) ∧
        hundredEntry.txHash = some event.txHash ∧ hundredEntry.money.currency = event.symbol ∧
        Readable hundredEntry.money ∧ hundredEntry.money.value = 100 ∧
        ¬ Matched hundredEntry (reconcilable event) := by
  have hdelivers := @delivers_succeeded hundredDollars rfl
  obtain ⟨payments, hpayments⟩ : ∃ payments,
      observedPayments (serverOf hundredDollars) = .ok payments :=
    exists_eq_ok_of_isOk (by decide +kernel)
  obtain ⟨event, hmem, htransfer, hevent⟩ := exists_transfer (xrplGetTransfers_eq_ok hpayments)
    List.mem_cons_self hdelivers.admits hdelivers.delivered
  have hmoney : Readable hundredEntry.money := readable_of_parse (n := 10000) (by decide +kernel)
  have hvalue : hundredEntry.money.value = 100 := by decide +kernel
  let hundred : Numeral := ⟨false, js "100", [], List.all_eq_true.mp rfl,
    fun u hu => absurd hu List.not_mem_nil, by decide⟩
  have hworth : TokenValue (js "100") 100 := by
    have hnumeral := TokenValue.decimal hundred
    have hnumeralValue : hundred.value = 100 := by decide +kernel
    rwa [hnumeralValue] at hnumeral
  refine ⟨hdelivers, .issued hworth _ _, payments, hpayments, event, hmem, htransfer, ?_⟩
  cases hevent
  refine ⟨rfl, rfl, hmoney, hvalue, ?_⟩
  rw [matched_iff (d := 15) rfl rfl hmoney rfl, hvalue]
  rintro ⟨-, -, hequal⟩
  have hread : integerOf (js "100") = 100 := by decide
  change (100 : ℚ) = integerOf (js "100") / 10 ^ 15 at hequal
  rw [hread] at hequal
  norm_num at hequal

end Attestia.Reconciler
