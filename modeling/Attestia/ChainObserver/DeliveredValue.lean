import Attestia.ChainObserver.SolanaObserver
import Attestia.ChainObserver.XrplObserver

/-!
# What has been delivered

Both observers report transfers of transactions that have failed. What is reported is what was
delivered exactly where the responses hold no failed transfer, and no payment that asks for
something else than what its metadata states.
-/

namespace Attestia.ChainObserver

open Lib Lib.Effect JsonNumber

theorem delivered_iff {xrpl solana : ObserverConfig} {server : XrplServer} {node : SolanaNode}
    {xrplReadings : XrplReadings} {solanaReadings : SolanaReadings} {query query' : TransferQuery}
    {payments transfers : List TransferEvent}
    (hxrpl : (outcome (xrplGetTransfers xrpl server xrplReadings query) ()).1 = .ok payments)
    (hsolana : (outcome (solanaGetTransfers solana node solanaReadings query') ()).1 =
      .ok transfers) :
    ((∀ event ∈ payments, ∀ entry ∈ server.transactions,
      transferOf xrpl.chainId xrplReadings query entry = .ok (some event) →
        TellsDelivered entry event) ↔
      ∀ entry ∈ server.transactions, DeliversRequested query entry) ∧
    ((∀ event ∈ transfers, ∀ tx, node.transaction event.txHash = some tx → tx.failed = false) ↔
      ∀ source ∈ firstTransfers node query', source.2.failed = false) :=
  ⟨tellsDelivered_iff hxrpl, noneFailed_iff hsolana⟩

/-! ## One payment on each chain -/

def xrplMainnet : ObserverConfig := ⟨js "XrplObserver", js "xrpl:main", true, 3⟩

def solanaMainnet : ObserverConfig := ⟨js "SolanaObserver", js "solana:mainnet", true, 3⟩

/-- All transfers of an address. -/
def transfersOf (address : String) : TransferQuery := ⟨js address, none, none, none, none, none⟩

/-- A server that answers with one payment of 25 XRP, of the given result. -/
def xrplPayment (result : String) (delivered : Option XrplAmount) : XrplServer where
  transactions := [{
    txJson := some ⟨js "Payment", some (js "rSender"), some (js "rWatched"), none,
      some (.drops (js "25000000")), none, none⟩
    metadata := some ⟨js result, delivered, none⟩
    hash := some (js "A1")
    ledgerIndex := some 90000000 }]
  failure _ := none

def xrplClock : XrplReadings :=
  ⟨js "2026-01-01T00:00:00.000Z", fun _ => js "2026-01-01T00:00:00.000Z"⟩

/-- A node that answers with one transfer of a SOL, of the given error. -/
def solanaPayment (err : Option JsonValue) : SolanaNode where
  signatures := [js "sig1"]
  transaction _ := some ⟨.ofNat 250000000, none,
    [some ⟨some (js "system"), some (js "transfer"),
      some ⟨js "Sender", js "Watched", none, none, some 1000000000, none, none⟩⟩], err⟩
  isPublicKey _ := true
  signaturesFailure _ := none
  transactionsFailure _ := none

def solanaClock : SolanaReadings :=
  ⟨js "2026-01-01T00:00:00.000Z", fun _ => js "2026-01-01T00:00:00.000Z"⟩

def observedPayments (server : XrplServer) : Except ObserverError (List TransferEvent) :=
  (outcome (xrplGetTransfers xrplMainnet server xrplClock (transfersOf "rWatched")) ()).1

def observedTransfers (node : SolanaNode) : Except SolanaThrown (List TransferEvent) :=
  (outcome (solanaGetTransfers solanaMainnet node solanaClock (transfersOf "Watched")) ()).1

/-- The payments that are reported for `rWatched` tell what was delivered. -/
def PaymentsDelivered (server : XrplServer) (payments : List TransferEvent) : Prop :=
  ∀ event ∈ payments, ∀ entry ∈ server.transactions,
    transferOf xrplMainnet.chainId xrplClock (transfersOf "rWatched") entry = .ok (some event) →
      TellsDelivered entry event

/-- No transfer that is reported is of a failed transaction. -/
def TransfersDelivered (node : SolanaNode) (transfers : List TransferEvent) : Prop :=
  ∀ event ∈ transfers, ∀ tx, node.transaction event.txHash = some tx → tx.failed = false

theorem delivered_iff_success :
    ∃ payments transfers,
      observedPayments (xrplPayment "tesSUCCESS" (some (.drops (js "25000000")))) = .ok payments ∧
      observedTransfers (solanaPayment none) = .ok transfers ∧
      PaymentsDelivered (xrplPayment "tesSUCCESS" (some (.drops (js "25000000")))) payments ∧
      TransfersDelivered (solanaPayment none) transfers := by
  obtain ⟨payments, hpayments⟩ : ∃ payments, observedPayments
      (xrplPayment "tesSUCCESS" (some (.drops (js "25000000")))) = .ok payments :=
    exists_eq_ok_of_isOk (by decide +kernel)
  obtain ⟨transfers, htransfers⟩ : ∃ transfers,
      observedTransfers (solanaPayment none) = .ok transfers :=
    exists_eq_ok_of_isOk (by decide +kernel)
  obtain ⟨hxrpl, hsolana⟩ := delivered_iff hpayments htransfers
  refine ⟨payments, transfers, hpayments, htransfers, hxrpl.mpr ?_, hsolana.mpr ?_⟩
  · intro entry hentry tx hadmits
    obtain rfl := List.mem_singleton.mp hentry
    obtain rfl := Option.some.inj hadmits.txJson
    refine ⟨by decide +kernel, fun _ terms hterms => ?_⟩
    rw [← hterms]
    decide +kernel
  · intro source hsource
    have htx := transaction_of_mem_sources (List.mem_mergeSort.mp (mem_of_mem_applyLimit hsource))
    rw [← Option.some.inj htx]
    rfl

/-- A payment that found no path and a transfer that had no funds are both reported. -/
theorem failures_reported :
    ∃ payments transfers,
      observedPayments (xrplPayment "tecPATH_DRY" none) = .ok payments ∧
      observedTransfers (solanaPayment (some (.str (js "InsufficientFundsForFee")))) =
        .ok transfers ∧
      ¬ PaymentsDelivered (xrplPayment "tecPATH_DRY" none) payments ∧
      ¬ TransfersDelivered (solanaPayment (some (.str (js "InsufficientFundsForFee"))))
        transfers := by
  obtain ⟨payments, hpayments⟩ : ∃ payments,
      observedPayments (xrplPayment "tecPATH_DRY" none) = .ok payments :=
    exists_eq_ok_of_isOk (by decide +kernel)
  obtain ⟨transfers, htransfers⟩ : ∃ transfers, observedTransfers
      (solanaPayment (some (.str (js "InsufficientFundsForFee")))) = .ok transfers :=
    exists_eq_ok_of_isOk (by decide +kernel)
  refine ⟨payments, transfers, hpayments, htransfers, ?_, ?_⟩
  · intro hdelivered
    have hcondition := (tellsDelivered_iff hpayments).mp hdelivered
    have hpayment := (hcondition _ List.mem_cons_self _ ⟨rfl, rfl, rfl, _, rfl, rfl⟩).1
    exact absurd hpayment (by decide +kernel)
  · intro hdelivered
    have hcondition := (noneFailed_iff htransfers).mp hdelivered
    obtain ⟨source, hsource⟩ : ∃ source, source ∈ firstTransfers
        (solanaPayment (some (.str (js "InsufficientFundsForFee")))) (transfersOf "Watched") := by
      apply List.exists_mem_of_length_pos
      show 0 < (List.mergeSort _ _).length
      rw [List.length_mergeSort]
      decide +kernel
    have htx := transaction_of_mem_sources (List.mem_mergeSort.mp (mem_of_mem_applyLimit hsource))
    have hfailed := hcondition source hsource
    rw [← Option.some.inj htx] at hfailed
    cases hfailed

end Attestia.ChainObserver
