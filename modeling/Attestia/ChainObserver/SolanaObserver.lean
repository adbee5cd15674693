import Attestia.ChainObserver.Rpc

/-!
# Transfers of Solana

`SolanaObserver.getTransfers`: the transfer instructions of the transactions of an address, sorted
by slot. A transaction that has failed is still on the chain, and its instructions are read like
those of any other.
-/

namespace Attestia.ChainObserver

open Lib Lib.Effect JsonNumber

/-! ## Responses -/

structure TokenAmount where
  amount : Option JsString
  decimals : Option Number

/-- The fields that transfers have. -/
structure SolanaInfo where
  source : JsString
  destination : JsString
  authority : Option JsString
  mint : Option JsString
  lamports : Option ℕ
  amount : Option JsString
  tokenAmount : Option TokenAmount

/-- An instruction that the endpoint has parsed. -/
structure ParsedInstruction where
  program : Option JsString
  type : Option JsString
  info : Option SolanaInfo

/-- A transaction with the error of its metadata; an instruction that is not parsed is `none`. -/
structure SolanaTx where
  slot : Number
  blockTime : Option Number
  instructions : List (Option ParsedInstruction)
  err : Option JsonValue

/-- The signatures that the node answers for an address, the transactions that they stand for, and
what the calls of each attempt throw. -/
structure SolanaNode where
  signatures : List JsString
  transaction : JsString → Option SolanaTx
  isPublicKey : JsString → Bool
  signaturesFailure : ℕ → Option RpcThrown
  transactionsFailure : ℕ → Option RpcThrown

/-! ## The observer -/

/-- The time of the call, and the text of a time in milliseconds. -/
structure SolanaReadings where
  now : JsString
  isoText : ℚ → JsString

/-- What `getTransfers` throws: an error of the observer, or that of the key. -/
inductive SolanaThrown where
  | observer (error : ObserverError)
  | invalidPublicKey (address : JsString)

/-- The largest safe integer. -/
def MAX_SAFE_INTEGER : ℚ := 2 ^ 53 - 1

def toSafeNumber (value : Number) (chainId : JsString) : Except ObserverError Number :=
  if value.val.den = 1 ∧ |value.val| ≤ MAX_SAFE_INTEGER then .ok value
  else .error ⟨.rpcError, js "Solana RPC returned " ++ JsonValue.numberString value ++
      js ", which is outside the safe integer range (2^53 - 1).",
    js "The endpoint returned a value this observer cannot represent exactly. " ++
      js "Check the RPC endpoint and the request.", some chainId⟩

def matchesDirection (sender receiver address : JsString) : Option Direction → Bool
  | none | some .both => true
  | some .incoming => receiver = address
  | some .outgoing => sender = address

def isNativeTransfer (ix : ParsedInstruction) : Bool :=
  ix.program = some (js "system") && ix.type = some (js "transfer")

def isChecked (ix : ParsedInstruction) : Bool := ix.type = some (js "transferChecked")

def isTokenTransfer (ix : ParsedInstruction) : Bool :=
  (ix.program = some (js "spl-token") || ix.program = some (js "spl-token-2022")) &&
    (ix.type = some (js "transfer") || isChecked ix)

/-- The sender of a token transfer. -/
def tokenSender (info : SolanaInfo) : JsString := info.authority.getD info.source

def tokenAmountText (ix : ParsedInstruction) (info : SolanaInfo) : JsString :=
  if isChecked ix then (info.tokenAmount.bind TokenAmount.amount).getD (js "0")
  else info.amount.getD (js "0")

def tokenDecimals (chainId : JsString) (ix : ParsedInstruction) (info : SolanaInfo) :
    Except ObserverError Number :=
  if isChecked ix then
    toSafeNumber ((info.tokenAmount.bind TokenAmount.decimals).getD (.ofNat 0)) chainId
  else .ok (.ofNat 0)

/-- What the events of one transaction share. -/
structure TxContext where
  chainId : JsString
  signature : JsString
  slot : Number
  timestamp : JsString
  observedAt : JsString

def nativeEvent (c : TxContext) (info : SolanaInfo) : TransferEvent where
  chainId := c.chainId
  txHash := c.signature
  blockNumber := c.slot
  sender := info.source
  receiver := info.destination
  amount := js (toString (info.lamports.getD 0))
  decimals := .ofNat 9
  symbol := js "SOL"
  token := none
  timestamp := c.timestamp
  observedAt := c.observedAt
  metaResolved := none

def tokenEvent (c : TxContext) (ix : ParsedInstruction) (info : SolanaInfo) (decimals : Number) :
    TransferEvent where
  chainId := c.chainId
  txHash := c.signature
  blockNumber := c.slot
  sender := tokenSender info
  receiver := info.destination
  amount := tokenAmountText ix info
  decimals := decimals
  symbol := info.mint.elim (js "SPL") fun mint => js "SPL:" ++ mint
  token := info.mint
  timestamp := c.timestamp
  observedAt := c.observedAt
  metaResolved := none

/-- The body of the loop over the instructions. -/
def instructionEvent (c : TxContext) (query : TransferQuery) :
    Option ParsedInstruction → Except ObserverError (Option TransferEvent)
  | none => .ok none
  | some ix =>
    match ix.info with
    | none => .ok none
    | some info =>
      if isNativeTransfer ix then
        if matchesDirection info.source info.destination query.address query.direction = false then
          .ok none
        else if query.tokenFilter.isSome then .ok none
        else .ok (some (nativeEvent c info))
      else if isTokenTransfer ix then do
        let decimals ← tokenDecimals c.chainId ix info
        if matchesDirection (tokenSender info) info.destination query.address
            query.direction = false then return none
        else if query.tokenFilter.any fun token => info.mint ≠ some token then return none
        else return some (tokenEvent c ix info decimals)
      else .ok none

def extractTransfers (chainId : JsString) (readings : SolanaReadings) (query : TransferQuery)
    (tx : SolanaTx) (signature : JsString) : Except ObserverError (List TransferEvent) := do
  let slot ← toSafeNumber tx.slot chainId
  let timestamp := match tx.blockTime.filter fun time => time.val ≠ 0 with
    | some time => readings.isoText (time.val * 1000)
    | none => readings.now
  filterMapChecked (instructionEvent ⟨chainId, signature, slot, timestamp, readings.now⟩ query)
    tx.instructions

/-- A transaction that the node does not have is passed over. -/
def extractAt (chainId : JsString) (readings : SolanaReadings) (query : TransferQuery)
    (transaction : JsString → Option SolanaTx) (signature : JsString) :
    Except ObserverError (List TransferEvent) :=
  match transaction signature with
  | none => .ok []
  | some tx => extractTransfers chainId readings query tx signature

/-- The events of all transactions in the order of their signatures. -/
def extractAll (chainId : JsString) (readings : SolanaReadings) (query : TransferQuery)
    (transaction : JsString → Option SolanaTx) :
    List JsString → Except ObserverError (List TransferEvent)
  | [] => .ok []
  | signature :: signatures => do
    let events ← extractAt chainId readings query transaction signature
    let rest ← extractAll chainId readings query transaction signatures
    return events ++ rest

/-- A call of the observer in a computation that throws more. -/
def ofObserver {σ α : Type} (x : Effect σ ObserverError α) : Effect σ SolanaThrown α := fun s =>
  ((outcome x s).1.mapError .observer, (outcome x s).2)

def solanaGetTransfers (o : ObserverConfig) (node : SolanaNode) (readings : SolanaReadings)
    (query : TransferQuery) : Effect Unit SolanaThrown (List TransferEvent) := do
  ofObserver (check o.requireClient)
  check (throwIf (node.isPublicKey query.address = false) (.invalidPublicKey query.address))
  let signatures ← ofObserver (o.runRpc (js "getTransfers") fun attempt =>
    answer (node.signaturesFailure attempt) node.signatures)
  if signatures.length = 0 then return []
  else do
    let transactions ← ofObserver (o.runRpc (js "getTransfers") fun attempt =>
      answer (node.transactionsFailure attempt) node.transaction)
    let events ← ofObserver (check (extractAll o.chainId readings query transactions signatures))
    return applyLimit query.limit (events.mergeSort byBlock)

/-! ## Where the events come from -/

def SolanaTx.failed (tx : SolanaTx) : Bool := tx.err.isSome

/-- A parsed transfer that the filters let through. -/
def isTransfer (query : TransferQuery) : Option ParsedInstruction → Bool
  | none => false
  | some ix => ix.info.any fun info =>
    if isNativeTransfer ix then
      matchesDirection info.source info.destination query.address query.direction &&
        query.tokenFilter.isNone
    else isTokenTransfer ix &&
      matchesDirection (tokenSender info) info.destination query.address query.direction &&
      query.tokenFilter.all fun token => info.mint = some token

/-- A signature with its transaction, once for each transfer in it. -/
def sources (transaction : JsString → Option SolanaTx) (query : TransferQuery)
    (signatures : List JsString) : List (JsString × SolanaTx) :=
  signatures.flatMap fun signature => (transaction signature).elim [] fun tx =>
    (tx.instructions.filter (isTransfer query)).map fun _ => (signature, tx)

def bySlot (a b : JsString × SolanaTx) : Bool := a.2.slot.val ≤ b.2.slot.val

/-- The transaction and the block that an event states. -/
def TransferEvent.place (event : TransferEvent) : JsString × Number :=
  (event.txHash, event.blockNumber)

def place (source : JsString × SolanaTx) : JsString × Number := (source.1, source.2.slot)

section extract

variable {chainId : JsString} {readings : SolanaReadings} {query : TransferQuery} {c : TxContext}
  {transaction : JsString → Option SolanaTx}

theorem toSafeNumber_eq_ok {value n : Number} (h : toSafeNumber value chainId = .ok n) :
    n = value := by
  rw [toSafeNumber] at h
  split at h
  · exact (Except.ok.inj h).symm
  · cases h

/-- An instruction gives an event exactly where it is a transfer that is let through. -/
theorem instructionEvent_place {ix : Option ParsedInstruction} {event : Option TransferEvent}
    (h : instructionEvent c query ix = .ok event) :
    event.toList.map TransferEvent.place =
      if isTransfer query ix = true then [(c.signature, c.slot)] else [] := by
  cases ix with
  | none =>
    cases h
    rfl
  | some ix =>
    rw [isTransfer]
    cases hinfo : ix.info with
    | none =>
      rw [instructionEvent, hinfo] at h
      cases h
      rfl
    | some info =>
      rw [instructionEvent, hinfo] at h
      dsimp only at h
      rw [Option.any_some]
      by_cases hnative : isNativeTransfer ix = true
      · rw [if_pos hnative] at h ⊢
        cases hdirection : matchesDirection info.source info.destination query.address
          query.direction <;> cases htoken : query.tokenFilter <;> rw [hdirection, htoken] at h <;>
            cases h <;> rfl
      · rw [if_neg hnative] at h ⊢
        by_cases htransfer : isTokenTransfer ix = true
        · rw [if_pos htransfer] at h
          obtain ⟨decimals, -, h⟩ := bind_eq_ok.mp h
          rw [htransfer, Bool.true_and]
          cases hdirection : matchesDirection (tokenSender info) info.destination query.address
            query.direction with
          | false =>
            rw [hdirection] at h
            cases h
            rfl
          | true =>
            rw [hdirection] at h
            cases htoken : query.tokenFilter with
            | none =>
              rw [htoken] at h
              cases h
              rfl
            | some token =>
              rw [htoken] at h
              rw [Option.any_some, decide_not] at h
              rw [Option.all_some]
              cases hmint : decide (info.mint = some token) <;> rw [hmint] at h <;> cases h <;> rfl
        · rw [if_neg htransfer] at h
          rw [Bool.eq_false_of_not_eq_true htransfer]
          cases h
          rfl

theorem filterMapChecked_place {instructions : List (Option ParsedInstruction)}
    {events : List TransferEvent}
    (h : filterMapChecked (instructionEvent c query) instructions = .ok events) :
    events.map TransferEvent.place =
      (instructions.filter (isTransfer query)).map fun _ => (c.signature, c.slot) := by
  induction instructions generalizing events with
  | nil =>
    cases h
    rfl
  | cons ix instructions ih =>
    obtain ⟨event, hevent, h⟩ := bind_eq_ok.mp h
    obtain ⟨rest, hrest, h⟩ := bind_eq_ok.mp h
    cases h
    rw [List.map_append, instructionEvent_place hevent, ih hrest, List.filter_cons]
    split <;> rfl

theorem extractTransfers_place {tx : SolanaTx} {signature : JsString} {events : List TransferEvent}
    (h : extractTransfers chainId readings query tx signature = .ok events) :
    events.map TransferEvent.place =
      (tx.instructions.filter (isTransfer query)).map fun _ => (signature, tx.slot) := by
  obtain ⟨slot, hslot, h⟩ := bind_eq_ok.mp h
  obtain rfl := toSafeNumber_eq_ok hslot
  exact filterMapChecked_place h

theorem extractAll_place {signatures : List JsString} {events : List TransferEvent}
    (h : extractAll chainId readings query transaction signatures = .ok events) :
    events.map TransferEvent.place = (sources transaction query signatures).map place := by
  induction signatures generalizing events with
  | nil =>
    cases h
    rfl
  | cons signature signatures ih =>
    obtain ⟨own, hown, h⟩ := bind_eq_ok.mp h
    obtain ⟨rest, hrest, h⟩ := bind_eq_ok.mp h
    cases h
    have hsources : sources transaction query (signature :: signatures) =
        (transaction signature).elim [] (fun tx =>
          (tx.instructions.filter (isTransfer query)).map fun _ => (signature, tx)) ++
        sources transaction query signatures := List.flatMap_cons
    rw [List.map_append, ih hrest, hsources, List.map_append]
    congr 1
    rw [extractAt] at hown
    cases htx : transaction signature with
    | none =>
      rw [htx] at hown
      cases hown
      rfl
    | some tx =>
      rw [htx] at hown
      rw [extractTransfers_place hown, Option.elim_some, List.map_map]
      rfl

theorem map_applyLimit {α β : Type} (f : α → β) (limit : Option ℕ) (l : List α) :
    (applyLimit limit l).map f = applyLimit limit (l.map f) := by
  cases limit with
  | none => rfl
  | some n =>
    rw [applyLimit, applyLimit, List.length_map]
    split
    · rw [List.map_take]
    · rfl

/-- Sorted by block and cut, the events still stand where their transactions do. -/
theorem place_sorted {signatures : List JsString} {events : List TransferEvent} (limit : Option ℕ)
    (h : extractAll chainId readings query transaction signatures = .ok events) :
    (applyLimit limit (events.mergeSort byBlock)).map TransferEvent.place =
      (applyLimit limit ((sources transaction query signatures).mergeSort bySlot)).map place := by
  let byNumber : JsString × Number → JsString × Number → Bool := fun a b => a.2.val ≤ b.2.val
  have hevents : (events.mergeSort byBlock).map TransferEvent.place =
      (events.map TransferEvent.place).mergeSort byNumber :=
    List.map_mergeSort fun _ _ _ _ => rfl
  have hsources : ((sources transaction query signatures).mergeSort bySlot).map place =
      ((sources transaction query signatures).map place).mergeSort byNumber :=
    List.map_mergeSort fun _ _ _ _ => rfl
  rw [map_applyLimit, map_applyLimit, hevents, hsources, extractAll_place h]

end extract

section result

variable {o : ObserverConfig} {node : SolanaNode} {readings : SolanaReadings}
  {query : TransferQuery} {events : List TransferEvent}

theorem ofObserver_eq_ok {σ α : Type} {x : Effect σ ObserverError α} {s t : σ} {a : α}
    (h : outcome (ofObserver x) s = (.ok a, t)) : outcome x s = (.ok a, t) := by
  obtain ⟨hresult, hstate⟩ := Prod.mk.inj h
  exact Prod.ext (mapError_eq_ok.mp hresult) hstate

theorem solanaGetTransfers_eq_ok
    (h : (outcome (solanaGetTransfers o node readings query) ()).1 = .ok events) :
    ∃ all, extractAll o.chainId readings query node.transaction node.signatures = .ok all ∧
      events = applyLimit query.limit (all.mergeSort byBlock) := by
  obtain ⟨_, _, -, h⟩ := outcome_bind_eq_ok h
  obtain ⟨_, _, -, h⟩ := outcome_bind_eq_ok h
  obtain ⟨signatures, _, hsignatures, h⟩ := outcome_bind_eq_ok h
  obtain ⟨rfl, -⟩ := runRpc_answer (ofObserver_eq_ok hsignatures)
  by_cases hempty : node.signatures.length = 0
  · rw [if_pos hempty] at h
    cases h
    refine ⟨[], ?_, ?_⟩
    · rw [List.length_eq_zero_iff.mp hempty]
      rfl
    · rw [List.mergeSort_nil]
      cases query.limit <;> rfl
  · rw [if_neg hempty] at h
    obtain ⟨transactions, _, htransactions, h⟩ := outcome_bind_eq_ok h
    obtain ⟨rfl, -⟩ := runRpc_answer (ofObserver_eq_ok htransactions)
    obtain ⟨all, _, hall, h⟩ := outcome_bind_eq_ok h
    exact ⟨all, (Prod.mk.inj (ofObserver_eq_ok hall)).1, (Except.ok.inj h).symm⟩

theorem transaction_of_mem_sources {transaction : JsString → Option SolanaTx}
    {signatures : List JsString} {source : JsString × SolanaTx}
    (h : source ∈ sources transaction query signatures) : transaction source.1 = some source.2 := by
  obtain ⟨signature, -, h⟩ := List.mem_flatMap.mp h
  cases htx : transaction signature with
  | none =>
    rw [htx] at h
    cases h
  | some tx =>
    rw [htx] at h
    obtain ⟨_, -, rfl⟩ := List.mem_map.mp h
    exact htx

theorem mem_of_mem_applyLimit {α : Type} {limit : Option ℕ} {l : List α} {a : α}
    (h : a ∈ applyLimit limit l) : a ∈ l := by
  unfold applyLimit at h
  split at h
  · split at h
    · exact List.mem_of_mem_take h
    · exact h
  · exact h

/-- Among the transfers that are let through, in the order of their slots, the first ones that the
limit admits. -/
def firstTransfers (node : SolanaNode) (query : TransferQuery) : List (JsString × SolanaTx) :=
  applyLimit query.limit ((sources node.transaction query node.signatures).mergeSort bySlot)

theorem noneFailed_iff
    (h : (outcome (solanaGetTransfers o node readings query) ()).1 = .ok events) :
    (∀ event ∈ events, ∀ tx, node.transaction event.txHash = some tx → tx.failed = false) ↔
      ∀ source ∈ firstTransfers node query, source.2.failed = false := by
  obtain ⟨all, hall, rfl⟩ := solanaGetTransfers_eq_ok h
  have hplaces := place_sorted query.limit hall
  rw [← firstTransfers] at hplaces
  have hsource : ∀ source ∈ firstTransfers node query,
      node.transaction source.1 = some source.2 := fun source hmem =>
    transaction_of_mem_sources (List.mem_mergeSort.mp (mem_of_mem_applyLimit hmem))
  constructor
  · intro hevents source hmem
    have hplace : place source ∈ (firstTransfers node query).map place := List.mem_map_of_mem hmem
    rw [← hplaces] at hplace
    obtain ⟨event, hevent, heq⟩ := List.mem_map.mp hplace
    have hhash : event.txHash = source.1 := congrArg Prod.fst heq
    exact hevents event hevent source.2 (hhash ▸ hsource source hmem)
  · intro hsources event hevent tx htx
    have hplace := List.mem_map_of_mem (f := TransferEvent.place) hevent
    rw [hplaces] at hplace
    obtain ⟨source, hmem, heq⟩ := List.mem_map.mp hplace
    have hhash : source.1 = event.txHash := congrArg Prod.fst heq
    obtain rfl := Option.some.inj ((hhash ▸ hsource source hmem).symm.trans htx)
    exact hsources source hmem

end result

end Attestia.ChainObserver
