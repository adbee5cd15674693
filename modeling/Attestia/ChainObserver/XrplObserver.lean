import Attestia.ChainObserver.Rpc

/-!
# Transfers of the XRP Ledger

`XrplObserver.getTransfers`: the payments of an account. The amount of a partial payment is read
from the metadata, that of any other payment from what it asks for, and no payment is left out for
its result.
-/

namespace Attestia.ChainObserver

open Lib Lib.Effect JsonNumber

/-! ## Responses -/

/-- The amounts of the ledger: a text of drops, an object with a value, or something else. -/
inductive XrplAmount where
  | drops (text : JsString)
  | issued (value currency issuer : JsString)
  | other
  deriving DecidableEq

structure XrplTx where
  transactionType : JsString
  account : Option JsString
  destination : Option JsString
  flags : Option ℕ
  deliverMax : Option XrplAmount
  amount : Option XrplAmount
  date : Option ℕ

/-- Metadata in its object form. -/
structure XrplMeta where
  transactionResult : JsString
  deliveredAmount : Option XrplAmount
  deprecatedDeliveredAmount : Option XrplAmount

/-- An entry of `account_tx`. Metadata in binary form counts as missing. -/
structure XrplEntry where
  txJson : Option XrplTx
  metadata : Option XrplMeta
  hash : Option JsString
  ledgerIndex : Option ℕ

def TF_PARTIAL_PAYMENT : ℕ := 0x00020000

/-- A flags field that is no number counts as 0. -/
def XrplTx.isPartialPayment (tx : XrplTx) : Bool := tx.flags.getD 0 &&& TF_PARTIAL_PAYMENT ≠ 0

/-- What a payment asks for. -/
def XrplTx.requested (tx : XrplTx) : Option XrplAmount := tx.deliverMax.or tx.amount

/-- `meta?.delivered_amount ?? meta?.DeliveredAmount`. -/
def XrplEntry.metaDelivered (entry : XrplEntry) : Option XrplAmount :=
  entry.metadata.bind fun m => m.deliveredAmount.or m.deprecatedDeliveredAmount

/-! ## The observer -/

/-- The time of the call, and the text of a time in milliseconds. -/
structure XrplReadings where
  now : JsString
  isoText : ℕ → JsString

def unavailable : XrplAmount := .drops (js "unavailable")

def partialPaymentError (chainId : JsString) (entry : XrplEntry) (detail hint : JsString) :
    ObserverError :=
  ⟨.malformedResponse, js "XrplObserver.getTransfers: partial payment " ++
    entry.hash.getD (js "<unknown>") ++ detail, hint, some chainId⟩

/-- The amount that is reported for a payment. -/
def deliveredAmount (chainId : JsString) (entry : XrplEntry) (tx : XrplTx) :
    Except ObserverError (Option XrplAmount) :=
  if tx.isPartialPayment then
    if entry.metaDelivered = some unavailable then
      .error (partialPaymentError chainId entry (js " reports delivered_amount \"unavailable\"; " ++
        js "the actual delivered amount cannot be determined and must not be inferred from " ++
        js "DeliverMax/Amount.") (js "This transaction predates reliable delivered_amount " ++
        js "reporting. Resolve the delivered amount from a full ledger/metadata source, or " ++
        js "exclude it."))
    else if entry.metaDelivered = none then
      .error (partialPaymentError chainId entry
        (js " is missing delivered_amount in transaction metadata.")
        (js "Ensure account_tx returns metadata (non-binary) so delivered_amount is available."))
    else .ok entry.metaDelivered
  else .ok tx.requested

def passesDirection (query : TransferQuery) (sender receiver : JsString) : Bool :=
  !(query.direction = some .incoming && receiver ≠ query.address) &&
    !(query.direction = some .outgoing && sender ≠ query.address)

def paymentEvent (chainId : JsString) (readings : XrplReadings) (entry : XrplEntry) (tx : XrplTx)
    (amount symbol : JsString) (decimals : ℕ) (token : Option JsString) : TransferEvent where
  chainId := chainId
  txHash := entry.hash.getD []
  blockNumber := .ofNat (entry.ledgerIndex.getD 0)
  sender := tx.account.getD []
  receiver := tx.destination.getD []
  amount := amount
  decimals := .ofNat decimals
  symbol := symbol
  token := token
  timestamp := match tx.date.filter fun date => date ≠ 0 with
    | some date => readings.isoText ((date + 946684800) * 1000)
    | none => readings.now
  observedAt := readings.now
  metaResolved := none

/-- The event of an amount, which the currency filter can still drop. -/
def amountEvent (chainId : JsString) (readings : XrplReadings) (query : TransferQuery)
    (entry : XrplEntry) (tx : XrplTx) : Option XrplAmount → Option TransferEvent
  | some (.drops text) => some (paymentEvent chainId readings entry tx text (js "XRP") 6 none)
  | some (.issued value currency issuer) =>
    if query.tokenFilter.any fun token => currency ≠ token then none
    else some (paymentEvent chainId readings entry tx value currency 15
      (some (currency ++ js ":" ++ issuer)))
  | _ => none

/-- The body of the loop. -/
def transferOf (chainId : JsString) (readings : XrplReadings) (query : TransferQuery)
    (entry : XrplEntry) : Except ObserverError (Option TransferEvent) :=
  match entry.txJson with
  | none => .ok none
  | some tx =>
    if tx.transactionType ≠ js "Payment" then .ok none
    else if passesDirection query (tx.account.getD []) (tx.destination.getD []) = false then
      .ok none
    else (deliveredAmount chainId entry tx).map (amountEvent chainId readings query entry tx)

/-- The response, or what the request of each attempt throws. -/
structure XrplServer where
  transactions : List XrplEntry
  failure : ℕ → Option RpcThrown

def xrplGetTransfers (o : ObserverConfig) (server : XrplServer) (readings : XrplReadings)
    (query : TransferQuery) : Effect Unit ObserverError (List TransferEvent) := do
  check o.requireClient
  let transactions ← o.runRpc (js "getTransfers") fun attempt =>
    answer (server.failure attempt) server.transactions
  check (filterMapChecked (transferOf o.chainId readings query) transactions)

theorem xrplGetTransfers_eq_ok {o : ObserverConfig} {server : XrplServer} {readings : XrplReadings}
    {query : TransferQuery} {events : List TransferEvent}
    (h : (outcome (xrplGetTransfers o server readings query) ()).1 = .ok events) :
    filterMapChecked (transferOf o.chainId readings query) server.transactions = .ok events := by
  obtain ⟨_, _, -, h⟩ := outcome_bind_eq_ok h
  obtain ⟨transactions, _, hresponse, h⟩ := outcome_bind_eq_ok h
  obtain ⟨rfl, -⟩ := runRpc_answer hresponse
  exact h

/-! ## What was delivered -/

/-- The ledger has marked the transaction as failed. -/
def XrplEntry.failed (entry : XrplEntry) : Bool :=
  entry.metadata.any fun m => m.transactionResult ≠ js "tesSUCCESS"

/-- The amount and the currency that an amount states. -/
def XrplAmount.terms : XrplAmount → Option (JsString × JsString)
  | drops text => some (text, js "XRP")
  | issued value currency _ => some (value, currency)
  | other => none

/-- What the metadata says was delivered. -/
def XrplEntry.stated (entry : XrplEntry) : Option (JsString × JsString) :=
  if entry.metaDelivered = some unavailable then none else entry.metaDelivered.bind XrplAmount.terms

/-- The event of an entry is what was delivered. -/
def TellsDelivered (entry : XrplEntry) (event : TransferEvent) : Prop :=
  entry.failed = false ∧ ∀ terms, entry.stated = some terms → (event.amount, event.symbol) = terms

/-- An amount that the currency filter lets through. -/
def XrplAmount.passes (query : TransferQuery) : XrplAmount → Bool
  | drops _ => true
  | issued _ currency _ => query.tokenFilter.all fun token => currency = token
  | other => false

/-- A payment that the filters let through. -/
structure Admits (query : TransferQuery) (entry : XrplEntry) (tx : XrplTx) : Prop where
  txJson : entry.txJson = some tx
  payment : tx.transactionType = js "Payment"
  direction : passesDirection query (tx.account.getD []) (tx.destination.getD []) = true
  amount : ∃ amount, (if tx.isPartialPayment then entry.metaDelivered else tx.requested) =
    some amount ∧ amount.passes query = true

section delivered

variable {chainId : JsString} {readings : XrplReadings} {query : TransferQuery} {entry : XrplEntry}
  {tx : XrplTx} {event : TransferEvent} {amount : XrplAmount}

theorem amountEvent_of_passes (h : amount.passes query = true) :
    ∃ event, amountEvent chainId readings query entry tx (some amount) = some event ∧
      amount.terms = some (event.amount, event.symbol) := by
  cases amount with
  | drops text => exact ⟨_, rfl, rfl⟩
  | issued value currency issuer =>
    have hany : query.tokenFilter.any (fun token => currency ≠ token) = false := by
      rw [XrplAmount.passes] at h
      cases htoken : query.tokenFilter with
      | none => rfl
      | some token =>
        rw [htoken] at h
        simpa using h
    refine ⟨paymentEvent chainId readings entry tx value currency 15
      (some (currency ++ js ":" ++ issuer)), ?_, rfl⟩
    rw [amountEvent, hany]
    exact if_neg Bool.false_ne_true
  | other => cases h

theorem passes_of_amountEvent {read : Option XrplAmount}
    (h : amountEvent chainId readings query entry tx read = some event) :
    ∃ amount, read = some amount ∧ amount.passes query = true ∧
      amount.terms = some (event.amount, event.symbol) := by
  cases read with
  | none => cases h
  | some amount =>
    refine ⟨amount, rfl, ?_⟩
    cases amount with
    | drops text =>
      cases h
      exact ⟨rfl, rfl⟩
    | issued value currency issuer =>
      rw [amountEvent] at h
      split at h
      · cases h
      · rename_i hany
        cases h
        refine ⟨?_, rfl⟩
        rw [XrplAmount.passes]
        cases htoken : query.tokenFilter with
        | none => rfl
        | some token =>
          rw [htoken] at hany
          simpa using hany
    | other => cases h

theorem transferOf_eq_ok : transferOf chainId readings query entry = .ok (some event) ↔
    ∃ tx, entry.txJson = some tx ∧ tx.transactionType = js "Payment" ∧
      passesDirection query (tx.account.getD []) (tx.destination.getD []) = true ∧
      ∃ read, deliveredAmount chainId entry tx = .ok read ∧
        amountEvent chainId readings query entry tx read = some event := by
  rw [transferOf]
  cases entry.txJson with
  | none => simp
  | some tx =>
    by_cases htype : tx.transactionType = js "Payment"
    · cases hdirection : passesDirection query (tx.account.getD []) (tx.destination.getD []) <;>
        simp [htype, hdirection, map_eq_ok]
    · simp [htype]

/-- The amount is read from the metadata exactly for a partial payment. -/
theorem deliveredAmount_eq_ok {read : Option XrplAmount}
    (h : deliveredAmount chainId entry tx = .ok read) :
    read = if tx.isPartialPayment then entry.metaDelivered else tx.requested := by
  rw [deliveredAmount] at h
  split at h
  · rename_i hflagged
    rw [if_pos hflagged]
    split at h
    · cases h
    · split at h
      · cases h
      · exact (Except.ok.inj h).symm
  · rename_i hflagged
    rw [if_neg hflagged]
    exact (Except.ok.inj h).symm

theorem metaDelivered_ne_unavailable {read : Option XrplAmount}
    (hflagged : tx.isPartialPayment = true)
    (h : deliveredAmount chainId entry tx = .ok read) : entry.metaDelivered ≠ some unavailable := by
  intro hunavailable
  rw [deliveredAmount, if_pos hflagged, if_pos hunavailable] at h
  cases h

/-- The event of a payment that the filters let through. -/
theorem exists_transfer {entries : List XrplEntry} {events : List TransferEvent}
    (hevents : filterMapChecked (transferOf chainId readings query) entries = .ok events)
    (hentry : entry ∈ entries) (hadmits : Admits query entry tx)
    (hamount : (if tx.isPartialPayment then entry.metaDelivered else tx.requested) = some amount) :
    ∃ event ∈ events, transferOf chainId readings query entry = .ok (some event) ∧
      amountEvent chainId readings query entry tx (some amount) = some event := by
  obtain ⟨result, hresult⟩ := exists_filterMapChecked_iff.mp ⟨events, hevents⟩ entry hentry
  -- the entry is read without a throw, so its amount is the one that the filters let through
  obtain ⟨read, hread⟩ : ∃ read, deliveredAmount chainId entry tx = .ok read := by
    rw [transferOf, hadmits.txJson] at hresult
    simp only [hadmits.payment, hadmits.direction, ne_eq, not_true_eq_false, if_false,
      Bool.true_eq_false] at hresult
    obtain ⟨read, hread, -⟩ := map_eq_ok.mp hresult
    exact ⟨read, hread⟩
  obtain rfl := (deliveredAmount_eq_ok hread).trans hamount
  obtain ⟨amount', hamount', hpasses⟩ := hadmits.amount
  obtain rfl : amount' = amount := Option.some.inj (hamount'.symm.trans hamount)
  obtain ⟨event, hevent, -⟩ := @amountEvent_of_passes chainId readings query entry tx amount' hpasses
  have htransfer := transferOf_eq_ok.mpr
    ⟨tx, hadmits.txJson, hadmits.payment, hadmits.direction, some amount', hread, hevent⟩
  exact ⟨event, (mem_filterMapChecked hevents).mpr ⟨entry, hentry, htransfer⟩, htransfer, hevent⟩

end delivered

/-- A payment that is let through has not failed, and asks for what its metadata states unless it
is a partial payment. -/
def DeliversRequested (query : TransferQuery) (entry : XrplEntry) : Prop :=
  ∀ tx, Admits query entry tx → entry.failed = false ∧
    (tx.isPartialPayment = false → ∀ terms, entry.stated = some terms →
      tx.requested.bind XrplAmount.terms = some terms)

theorem tellsDelivered_iff {o : ObserverConfig} {server : XrplServer} {readings : XrplReadings}
    {query : TransferQuery} {events : List TransferEvent}
    (h : (outcome (xrplGetTransfers o server readings query) ()).1 = .ok events) :
    (∀ event ∈ events, ∀ entry ∈ server.transactions,
      transferOf o.chainId readings query entry = .ok (some event) → TellsDelivered entry event) ↔
    ∀ entry ∈ server.transactions, DeliversRequested query entry := by
  have hevents := xrplGetTransfers_eq_ok h
  constructor
  · intro htells entry hentry tx hadmits
    obtain ⟨amount, hamount, hpasses⟩ := hadmits.amount
    obtain ⟨result, hresult⟩ := exists_filterMapChecked_iff.mp ⟨events, hevents⟩ entry hentry
    obtain ⟨event, hmem, htransfer, hevent⟩ := exists_transfer hevents hentry hadmits hamount
    obtain ⟨event', hevent', hterms⟩ := @amountEvent_of_passes o.chainId readings query entry tx
      amount hpasses
    obtain rfl : event' = event := Option.some.inj (hevent'.symm.trans hevent)
    obtain ⟨hfailed, hstated⟩ :=
      htells event' hmem entry hentry htransfer
    refine ⟨hfailed, fun hwhole terms hsome => ?_⟩
    rw [if_neg (by rw [hwhole]; decide)] at hamount
    rw [hamount, Option.bind_some, hterms, hstated terms hsome]
  · intro hdelivers event _ entry hentry htransfer
    obtain ⟨tx, htx, hpayment, hdirection, read, hread, hevent⟩ := transferOf_eq_ok.mp htransfer
    obtain ⟨amount, rfl, hpasses, hterms⟩ := passes_of_amountEvent hevent
    have hamount := deliveredAmount_eq_ok hread
    obtain ⟨hfailed, hrequested⟩ :=
      hdelivers entry hentry tx ⟨htx, hpayment, hdirection, amount, hamount.symm, hpasses⟩
    refine ⟨hfailed, fun terms hstated => ?_⟩
    by_cases hflagged : tx.isPartialPayment = true
    · rw [if_pos hflagged] at hamount
      rw [XrplEntry.stated, if_neg (metaDelivered_ne_unavailable hflagged hread), ← hamount,
        Option.bind_some, hterms] at hstated
      exact Option.some.inj hstated
    · rw [if_neg hflagged] at hamount
      have hsame := hrequested (Bool.eq_false_of_not_eq_true hflagged) terms hstated
      rw [← hamount, Option.bind_some, hterms] at hsame
      exact Option.some.inj hsame

end Attestia.ChainObserver
