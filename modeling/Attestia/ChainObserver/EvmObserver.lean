import Attestia.ChainObserver.Rpc
import Mathlib.Data.List.Forall2

/-!
# Transfers of an EVM chain

`EvmObserver.getTransfers`: the logs to the address and the logs from it are collected by two calls
under one retry, in a list that every attempt adds to. The outgoing logs are added where they are
not in the list yet, the incoming ones always.
-/

namespace Attestia.ChainObserver

open Lib Lib.Effect JsonNumber

/-! ## The chain -/

/-- A `Transfer` log, with the arguments of its event. -/
structure Log where
  transactionHash : JsString
  logIndex : ℕ
  blockNumber : ℕ
  address : JsString
  sender : JsString
  receiver : JsString
  value : ℕ
  deriving DecidableEq

def Log.key (log : Log) : JsString × ℕ := (log.transactionHash, log.logIndex)

structure LogFilter where
  address : Option JsString
  sender : Option JsString
  receiver : Option JsString
  fromBlock : ℤ
  toBlock : ℤ

/-- The `Transfer` logs of a chain, and which texts its node takes for the same address. -/
structure EvmNode where
  logs : List Log
  nodup : (logs.map Log.key).Nodup
  sameAddress : JsString → JsString → Bool
  currentBlock : ℤ

namespace EvmNode

variable (node : EvmNode)

def inFilter (filter : LogFilter) (log : Log) : Bool :=
  filter.fromBlock ≤ log.blockNumber && log.blockNumber ≤ filter.toBlock &&
    filter.address.all (node.sameAddress log.address) &&
    filter.sender.all (node.sameAddress log.sender) &&
    filter.receiver.all (node.sameAddress log.receiver)

def getLogs (filter : LogFilter) : List Log := node.logs.filter (node.inFilter filter)

end EvmNode

/-- What the calls of each attempt throw. -/
structure Outages where
  getBlockNumber : ℕ → Option RpcThrown
  incoming : ℕ → Option RpcThrown
  outgoing : ℕ → Option RpcThrown

/-! ## The observer -/

def logSeen (seen : List Log) (log : Log) : Bool :=
  seen.any fun e => e.transactionHash = log.transactionHash && e.logIndex = log.logIndex

def pushUnseen (log : Log) (allLogs : List Log) : List Log :=
  if logSeen allLogs log then allLogs else allLogs ++ [log]

def TransferQuery.wantsIncoming (query : TransferQuery) : Bool :=
  query.direction ≠ some .outgoing

def TransferQuery.wantsOutgoing (query : TransferQuery) : Bool :=
  query.direction ≠ some .incoming

/-- The filter of both branches, with and without a token. -/
def incomingFilter (query : TransferQuery) (fromBlock toBlock : ℤ) : LogFilter :=
  ⟨query.tokenFilter, none, some query.address, fromBlock, toBlock⟩

def outgoingFilter (query : TransferQuery) (fromBlock toBlock : ℤ) : LogFilter :=
  ⟨query.tokenFilter, some query.address, none, fromBlock, toBlock⟩

section scan

variable (node : EvmNode) (outages : Outages) (query : TransferQuery) (fromBlock toBlock : ℤ)

def incomingLogs : List Log := node.getLogs (incomingFilter query fromBlock toBlock)

def outgoingLogs : List Log := node.getLogs (outgoingFilter query fromBlock toBlock)

def collectIncoming (attempt : ℕ) : Effect (List Log) RpcThrown Unit :=
  if query.wantsIncoming then do
    let logs ← answer (outages.incoming attempt) (incomingLogs node query fromBlock toBlock)
    modify fun allLogs => allLogs ++ logs
  else pure ()

def collectOutgoing (attempt : ℕ) : Effect (List Log) RpcThrown Unit :=
  if query.wantsOutgoing then do
    let logs ← answer (outages.outgoing attempt) (outgoingLogs node query fromBlock toBlock)
    forM logs fun log => modify (pushUnseen log)
  else pure ()

/-- The closure that is retried. -/
def collectLogs (attempt : ℕ) : Effect (List Log) RpcThrown Unit := do
  collectIncoming node outages query fromBlock toBlock attempt
  collectOutgoing node outages query fromBlock toBlock attempt

end scan

def MAX_FILTERLESS_BLOCK_SPAN : ℤ := 200000

def MAX_BLOCK_SPAN : ℤ := 1000000

def assertBlockSpan (chainId : JsString) (fromBlock toBlock : ℤ) (filterless : Bool) :
    Except ObserverError Unit :=
  let span := toBlock - fromBlock
  let limit := if filterless then MAX_FILTERLESS_BLOCK_SPAN else MAX_BLOCK_SPAN
  let kind := if filterless then js "all-tokens (filterless)" else js "token-filtered"
  throwIf (limit < span)
    ⟨.blockRangeTooLarge, js "EvmObserver.getTransfers: block range " ++ js (toString span) ++
        js " exceeds the maximum " ++ kind ++ js " span of " ++ js (toString limit) ++
        js " (fromBlock=" ++ js (toString fromBlock) ++ js ", toBlock=" ++ js (toString toBlock) ++
        js ").",
      if filterless then js "Provide a 'token' to scan a single contract, or narrow the range " ++
        js "to <= " ++ js (toString limit) ++ js " blocks (chunk larger scans)."
      else js "Narrow the range to <= " ++ js (toString limit) ++
        js " blocks, or chunk the scan into smaller windows.",
      some chainId⟩

structure TokenMeta where
  symbol : JsString
  decimals : Number
  resolved : Bool

/-- What is read while the events are made: the time of the call, the times of the events, and what
is resolved for the token of a log. -/
structure Readings where
  now : JsString
  clock : ℕ → JsString
  tokenMeta : JsString → TokenMeta

def logToTransferEvent (chainId : JsString) (log : Log) (timestamp observedAt : JsString)
    (tokenMeta : TokenMeta) : TransferEvent where
  chainId := chainId
  txHash := log.transactionHash
  blockNumber := .ofNat log.blockNumber
  sender := log.sender
  receiver := log.receiver
  amount := js (toString log.value)
  decimals := tokenMeta.decimals
  symbol := tokenMeta.symbol
  token := some log.address
  timestamp := timestamp
  observedAt := observedAt
  metaResolved := some tokenMeta.resolved

def logsToEvents (chainId : JsString) (readings : Readings) (logs : List Log) :
    List TransferEvent :=
  logs.mapIdx fun i log => logToTransferEvent chainId log (readings.clock i) readings.now
    (readings.tokenMeta log.address)

/-- The logs collected so far are the state. -/
def evmGetTransfers (o : ObserverConfig) (node : EvmNode) (outages : Outages) (readings : Readings)
    (query : TransferQuery) : Effect (List Log) ObserverError (List TransferEvent) := do
  check o.requireClient
  let currentBlock ← o.runRpc (js "getTransfers") fun attempt =>
    answer (outages.getBlockNumber attempt) node.currentBlock
  let fromBlock := query.fromBlock.getD (currentBlock - 1000)
  let toBlock := query.toBlock.getD currentBlock
  check (assertBlockSpan o.chainId fromBlock toBlock (query.token = none))
  o.runRpc (js "getTransfers") (collectLogs node outages query fromBlock toBlock)
  let allLogs ← get
  let events := (logsToEvents o.chainId readings allLogs).mergeSort byBlock
  return applyLimit query.limit events

/-! ## One attempt -/

/-- What the chain reports for a query: every log in its range that its filters match. -/
def EvmNode.transfers (node : EvmNode) (query : TransferQuery) (fromBlock toBlock : ℤ) : List Log :=
  node.logs.filter fun log =>
    query.wantsIncoming && node.inFilter (incomingFilter query fromBlock toBlock) log ||
      query.wantsOutgoing && node.inFilter (outgoingFilter query fromBlock toBlock) log

/-- An attempt that one of its calls ends. -/
def Outages.Fails (outages : Outages) (query : TransferQuery) (attempt : ℕ) : Prop :=
  (query.wantsIncoming = true ∧ outages.incoming attempt ≠ none) ∨
    (query.wantsOutgoing = true ∧ outages.outgoing attempt ≠ none)

theorem logSeen_iff {seen : List Log} {log : Log} :
    logSeen seen log = true ↔ log.key ∈ seen.map Log.key := by
  rw [logSeen, List.any_eq_true, List.mem_map]
  apply exists_congr
  intro e
  rw [Bool.and_eq_true, decide_eq_true_iff, decide_eq_true_iff, Log.key, Log.key, Prod.mk.injEq]

/-- Logs that are distinct are pushed where the list did not have them before. -/
theorem foldl_pushUnseen {logs : List Log} (hnodup : (logs.map Log.key).Nodup) (seen : List Log) :
    logs.foldl (fun allLogs log => pushUnseen log allLogs) seen =
      seen ++ logs.filter fun log => !logSeen seen log := by
  induction logs generalizing seen with
  | nil => rw [List.foldl_nil, List.filter_nil, List.append_nil]
  | cons log logs ih =>
    rw [List.map_cons, List.nodup_cons] at hnodup
    rw [List.foldl_cons, ih hnodup.2, pushUnseen]
    by_cases hseen : logSeen seen log = true
    · rw [if_pos hseen, List.filter_cons_of_neg (by rw [hseen]; decide)]
    · have hrest : logs.filter (fun e => !logSeen (seen ++ [log]) e) =
          logs.filter fun e => !logSeen seen e := by
        apply List.filter_congr
        intro e he
        have hne : e.key ≠ log.key := fun h => hnodup.1 (h ▸ List.mem_map_of_mem he)
        have hsame : logSeen (seen ++ [log]) e = logSeen seen e := by
          rw [Bool.eq_iff_iff, logSeen_iff, logSeen_iff, List.map_append, List.mem_append]
          simp [hne]
        rw [hsame]
      rw [if_neg hseen, hrest, List.filter_cons_of_pos (by simpa using hseen), List.append_assoc,
        List.singleton_append]

section attempt

variable {node : EvmNode} {outages : Outages} {query : TransferQuery} {fromBlock toBlock : ℤ}
  {attempt : ℕ} {allLogs rest : List Log}

theorem outcome_answer_bind {σ α β : Type} (failure : Option RpcThrown) (a : α)
    (f : α → Effect σ RpcThrown β) (s : σ) :
    outcome (answer failure a >>= f) s = match failure with
      | none => outcome (f a) s
      | some e => (.error e, s) := by
  rw [answer, outcome_check_bind]
  cases failure <;> rfl

theorem outcome_collectIncoming (allLogs : List Log) :
    outcome (collectIncoming node outages query fromBlock toBlock attempt) allLogs =
      if query.wantsIncoming = true then
        match outages.incoming attempt with
        | none => (.ok (), allLogs ++ incomingLogs node query fromBlock toBlock)
        | some e => (.error e, allLogs)
      else (.ok (), allLogs) := by
  rw [collectIncoming]
  by_cases hwants : query.wantsIncoming = true
  · rw [if_pos hwants, if_pos hwants, outcome_answer_bind]
    cases outages.incoming attempt <;> rfl
  · rw [if_neg hwants, if_neg hwants]
    rfl

theorem outcome_collectOutgoing (allLogs : List Log) :
    outcome (collectOutgoing node outages query fromBlock toBlock attempt) allLogs =
      if query.wantsOutgoing = true then
        match outages.outgoing attempt with
        | none => (.ok (), allLogs ++ (outgoingLogs node query fromBlock toBlock).filter
            fun log => !logSeen allLogs log)
        | some e => (.error e, allLogs)
      else (.ok (), allLogs) := by
  have hnodup : ((outgoingLogs node query fromBlock toBlock).map Log.key).Nodup :=
    node.nodup.sublist (List.filter_sublist.map Log.key)
  rw [collectOutgoing]
  by_cases hwants : query.wantsOutgoing = true
  · rw [if_pos hwants, if_pos hwants, outcome_answer_bind]
    cases outages.outgoing attempt with
    | none =>
      dsimp only
      rw [outcome_forM_modify, foldl_pushUnseen hnodup]
    | some e => rfl
  · rw [if_neg hwants, if_neg hwants]
    rfl

variable (node outages query fromBlock toBlock)

def wantedIncoming : List Log :=
  if query.wantsIncoming then incomingLogs node query fromBlock toBlock else []

def wantedOutgoing : List Log :=
  if query.wantsOutgoing then outgoingLogs node query fromBlock toBlock else []

/-- What a failed attempt leaves in the list. -/
def leftBy (attempt : ℕ) : List Log :=
  if outages.incoming attempt = none then wantedIncoming node query fromBlock toBlock else []

variable {node outages query fromBlock toBlock}

/-- An attempt of two calls: it ends where one of them does, and keeps what the first has added. -/
theorem outcome_collectLogs (allLogs : List Log) :
    (outages.Fails query attempt → ∃ e,
      outcome (collectLogs node outages query fromBlock toBlock attempt) allLogs =
        (.error e, allLogs ++ leftBy node outages query fromBlock toBlock attempt)) ∧
    (¬ outages.Fails query attempt →
      outcome (collectLogs node outages query fromBlock toBlock attempt) allLogs =
        (.ok (), allLogs ++ wantedIncoming node query fromBlock toBlock ++
          (wantedOutgoing node query fromBlock toBlock).filter fun log =>
            !logSeen (allLogs ++ wantedIncoming node query fromBlock toBlock) log)) := by
  rw [collectLogs, outcome_bind, outcome_collectIncoming]
  have hout : ∀ seen, outcome (collectOutgoing node outages query fromBlock toBlock attempt) seen =
      if query.wantsOutgoing = true then
        match outages.outgoing attempt with
        | none => (.ok (), seen ++ (outgoingLogs node query fromBlock toBlock).filter
            fun log => !logSeen seen log)
        | some e => (.error e, seen)
      else (.ok (), seen) := outcome_collectOutgoing
  by_cases hin : query.wantsIncoming = true
  · cases hi : outages.incoming attempt with
    | some e => simp [hin, hi, Outages.Fails, leftBy]
    | none =>
      by_cases hwo : query.wantsOutgoing = true
      · cases ho : outages.outgoing attempt <;>
          simp [hin, hi, hwo, ho, hout, Outages.Fails, leftBy, wantedIncoming, wantedOutgoing]
      · simp [hin, hi, hwo, hout, Outages.Fails, leftBy, wantedIncoming, wantedOutgoing]
  · by_cases hwo : query.wantsOutgoing = true
    · cases ho : outages.outgoing attempt <;>
        simp [hin, hwo, ho, hout, Outages.Fails, leftBy, wantedIncoming, wantedOutgoing]
    · simp [hin, hwo, hout, Outages.Fails, leftBy, wantedIncoming, wantedOutgoing]

variable (node fromBlock toBlock) in
theorem collectLogs_fails (h : outages.Fails query attempt) (allLogs : List Log) :
    ∃ e, outcome (collectLogs node outages query fromBlock toBlock attempt) allLogs =
      (.error e, allLogs ++ leftBy node outages query fromBlock toBlock attempt) :=
  (outcome_collectLogs allLogs).1 h

theorem collectLogs_returns (h : ¬ outages.Fails query attempt) (allLogs : List Log) :
    outcome (collectLogs node outages query fromBlock toBlock attempt) allLogs =
      (.ok (), allLogs ++ wantedIncoming node query fromBlock toBlock ++
        (wantedOutgoing node query fromBlock toBlock).filter fun log =>
          !logSeen (allLogs ++ wantedIncoming node query fromBlock toBlock) log) :=
  (outcome_collectLogs allLogs).2 h

end attempt

/-! ## All attempts -/

section attempts

variable {node : EvmNode} {outages : Outages} {query : TransferQuery} {fromBlock toBlock : ℤ}

variable (node outages query fromBlock toBlock) in
/-- What the attempts before one have left. -/
def carried (attempt : ℕ) : List Log :=
  (List.range attempt).flatMap (leftBy node outages query fromBlock toBlock)

theorem wantedIncoming_eq :
    wantedIncoming node query fromBlock toBlock = node.logs.filter fun log =>
    query.wantsIncoming && node.inFilter (incomingFilter query fromBlock toBlock) log := by
  rw [wantedIncoming]
  cases query.wantsIncoming <;> simp [incomingLogs, EvmNode.getLogs]

theorem wantedOutgoing_eq :
    wantedOutgoing node query fromBlock toBlock = node.logs.filter fun log =>
    query.wantsOutgoing && node.inFilter (outgoingFilter query fromBlock toBlock) log := by
  rw [wantedOutgoing]
  cases query.wantsOutgoing <;> simp [outgoingLogs, EvmNode.getLogs]

theorem mem_carried {attempt : ℕ} {log : Log}
    (h : log ∈ carried node outages query fromBlock toBlock attempt) :
    log ∈ wantedIncoming node query fromBlock toBlock := by
  obtain ⟨i, -, hi⟩ := List.mem_flatMap.mp h
  rw [leftBy] at hi
  split at hi
  · exact hi
  · cases hi

/-- The logs of a chain are told apart by their keys. -/
theorem logSeen_filter {log : Log} (hlog : log ∈ node.logs) (p : Log → Bool) :
    logSeen (node.logs.filter p) log = p log := by
  rw [Bool.eq_iff_iff, logSeen_iff, List.mem_map]
  constructor
  · rintro ⟨e, he, hkey⟩
    obtain ⟨he, hp⟩ := List.mem_filter.mp he
    rwa [← List.inj_on_of_nodup_map node.nodup he hlog hkey]
  · intro hp
    exact ⟨log, List.mem_filter.mpr ⟨hlog, hp⟩, rfl⟩

/-- The logs of one successful attempt are those that the query asks for. -/
theorem perm_transfers (seen : List Log)
    (hseen : ∀ log ∈ seen, log ∈ wantedIncoming node query fromBlock toBlock) :
    (wantedIncoming node query fromBlock toBlock ++
      (wantedOutgoing node query fromBlock toBlock).filter fun log =>
        !logSeen (seen ++ wantedIncoming node query fromBlock toBlock) log).Perm
      (node.transfers query fromBlock toBlock) := by
  let incoming : Log → Bool := fun log =>
    query.wantsIncoming && node.inFilter (incomingFilter query fromBlock toBlock) log
  let outgoing : Log → Bool := fun log =>
    query.wantsOutgoing && node.inFilter (outgoingFilter query fromBlock toBlock) log
  have hunseen : (wantedOutgoing node query fromBlock toBlock).filter (fun log =>
      !logSeen (seen ++ wantedIncoming node query fromBlock toBlock) log) =
        node.logs.filter fun log => !incoming log && outgoing log := by
    rw [wantedOutgoing_eq, List.filter_filter]
    apply List.filter_congr
    intro log hlog
    have hsame : logSeen (seen ++ wantedIncoming node query fromBlock toBlock) log =
        logSeen (wantedIncoming node query fromBlock toBlock) log := by
      rw [Bool.eq_iff_iff, logSeen_iff, logSeen_iff, List.map_append, List.mem_append]
      refine or_iff_right_of_imp fun h => ?_
      obtain ⟨e, he, hkey⟩ := List.mem_map.mp h
      exact hkey ▸ List.mem_map_of_mem (hseen e he)
    rw [hsame, wantedIncoming_eq, logSeen_filter hlog]
  have htransfers : node.transfers query fromBlock toBlock =
      node.logs.filter fun log => incoming log || outgoing log := rfl
  have hparts := List.filter_append_perm incoming (node.transfers query fromBlock toBlock)
  have hincoming : (node.transfers query fromBlock toBlock).filter incoming =
      node.logs.filter incoming := by
    rw [htransfers, List.filter_filter]
    apply List.filter_congr
    intro log _
    cases incoming log <;> rfl
  have houtgoing : (node.transfers query fromBlock toBlock).filter (fun log => !incoming log) =
      node.logs.filter fun log => !incoming log && outgoing log := by
    rw [htransfers, List.filter_filter]
    apply List.filter_congr
    intro log _
    cases incoming log <;> rfl
  rw [hincoming, houtgoing] at hparts
  rw [hunseen, wantedIncoming_eq]
  exact hparts

theorem collected {n : ℕ} {allLogs : List Log}
    (h : outcome (withRetry (collectLogs node outages query fromBlock toBlock) n) [] =
      (.ok (), allLogs)) :
    ∃ last, (∀ j < last, outages.Fails query j) ∧ ¬ outages.Fails query last ∧
      ∃ once, once.Perm (node.transfers query fromBlock toBlock) ∧
        allLogs = carried node outages query fromBlock toBlock last ++ once := by
  have hrule := retrying_ok (P := fun i s =>
    s = carried node outages query fromBlock toBlock i ∧ ∀ j < i, outages.Fails query j) ?_
    ⟨rfl, fun j hj => absurd hj (Nat.not_lt_zero j)⟩ h
  · obtain ⟨last, seen, ⟨rfl, hfails⟩, hlast⟩ := hrule
    by_cases hfail : outages.Fails query last
    · obtain ⟨e, he⟩ := collectLogs_fails node fromBlock toBlock hfail
        (carried node outages query fromBlock toBlock last)
      rw [he] at hlast
      cases hlast
    · rw [collectLogs_returns hfail, Prod.mk.injEq, List.append_assoc] at hlast
      exact ⟨last, hfails, hfail, _,
        perm_transfers (carried node outages query fromBlock toBlock last)
        (fun log hlog => mem_carried hlog), hlast.2.symm⟩
  · rintro i s e t ⟨rfl, hfails⟩ hi
    have hfail : outages.Fails query i := by
      by_contra hfail
      rw [collectLogs_returns hfail] at hi
      cases hi
    obtain ⟨e', he'⟩ := collectLogs_fails node fromBlock toBlock hfail
      (carried node outages query fromBlock toBlock i)
    rw [he'] at hi
    cases hi
    refine ⟨?_, fun j hj => ?_⟩
    · rw [carried, carried, List.range_succ, List.flatMap_append, List.flatMap_singleton]
    · rcases Nat.lt_succ_iff_lt_or_eq.mp hj with hj | rfl
      · exact hfails j hj
      · exact hfail

/-- An attempt is repeated that had its incoming logs. -/
def Outages.Repeats (outages : Outages) (query : TransferQuery) : Prop :=
  query.wantsIncoming = true ∧ query.wantsOutgoing = true ∧
    ∃ attempt, (∀ j < attempt, outages.Fails query j) ∧ outages.incoming attempt = none ∧
      outages.outgoing attempt ≠ none

theorem carried_ne_nil_iff {last : ℕ} (hfails : ∀ j < last, outages.Fails query j)
    (hlast : ¬ outages.Fails query last) :
    carried node outages query fromBlock toBlock last ≠ [] ↔
      outages.Repeats query ∧ incomingLogs node query fromBlock toBlock ≠ [] := by
  rw [carried, ne_eq, List.flatMap_eq_nil_iff, not_forall]
  constructor
  · rintro ⟨i, hi⟩
    obtain ⟨hi, hleft⟩ := Classical.not_imp.mp hi
    have hi := List.mem_range.mp hi
    rw [leftBy] at hleft
    split at hleft
    · rename_i hincoming
      rw [wantedIncoming] at hleft
      split at hleft
      · rename_i hwants
        have houtgoing := (hfails i hi).resolve_left fun h => h.2 hincoming
        exact ⟨⟨hwants, houtgoing.1, i, fun j hj => hfails j (hj.trans hi), hincoming,
          houtgoing.2⟩, hleft⟩
      · exact absurd rfl hleft
    · exact absurd rfl hleft
  · rintro ⟨⟨hin, hout, i, hbefore, hincoming, houtgoing⟩, hlogs⟩
    have hi : i < last := by
      by_contra hle
      rcases Nat.lt_or_eq_of_le (Nat.le_of_not_lt hle) with hlt | rfl
      · exact hlast (hbefore last hlt)
      · exact hlast (.inr ⟨hout, houtgoing⟩)
    refine ⟨i, Classical.not_imp.mpr ⟨List.mem_range.mpr hi, ?_⟩⟩
    rw [leftBy, if_pos hincoming, wantedIncoming, if_pos hin]
    exact hlogs

end attempts

/-! ## The events -/

def EvmNode.fromBlock (node : EvmNode) (query : TransferQuery) : ℤ :=
  query.fromBlock.getD (node.currentBlock - 1000)

def EvmNode.toBlock (node : EvmNode) (query : TransferQuery) : ℤ :=
  query.toBlock.getD node.currentBlock

/-- An event of a log. -/
def Reports (chainId : JsString) (readings : Readings) (e : TransferEvent) (log : Log) : Prop :=
  ∃ timestamp, e = logToTransferEvent chainId log timestamp readings.now
    (readings.tokenMeta log.address)

/-- There is one event for each of the logs, and no other. -/
def ReportsOnce (chainId : JsString) (readings : Readings) (events : List TransferEvent)
    (logs : List Log) : Prop :=
  ∃ order, events.Perm order ∧ List.Forall₂ (Reports chainId readings) order logs

theorem forall₂_logsToEvents (chainId : JsString) (readings : Readings) (logs : List Log) :
    List.Forall₂ (Reports chainId readings) (logsToEvents chainId readings logs) logs := by
  rw [List.forall₂_iff_get]
  refine ⟨List.length_mapIdx, ?_⟩
  intro i hi hi'
  exact ⟨readings.clock i, by simp [logsToEvents]⟩

section

variable {o : ObserverConfig} {node : EvmNode} {outages : Outages} {readings : Readings}
  {query : TransferQuery} {events : List TransferEvent}

/-- Where the call returns, the logs have been collected in the range of the query. -/
theorem evmGetTransfers_eq_ok (hlimit : query.limit = none)
    (h : (outcome (evmGetTransfers o node outages readings query) []).1 = .ok events) :
    ∃ allLogs, outcome (withRetry (collectLogs node outages query (node.fromBlock query)
        (node.toBlock query)) o.maxRetries) [] = (.ok (), allLogs) ∧
      events = (logsToEvents o.chainId readings allLogs).mergeSort byBlock := by
  obtain ⟨_, _, hconnected, h⟩ := outcome_bind_eq_ok h
  obtain ⟨_, rfl⟩ := Prod.mk.inj hconnected
  obtain ⟨currentBlock, _, hblock, h⟩ := outcome_bind_eq_ok h
  obtain ⟨rfl, rfl⟩ := runRpc_answer hblock
  obtain ⟨_, _, hspan, h⟩ := outcome_bind_eq_ok h
  obtain ⟨_, rfl⟩ := Prod.mk.inj hspan
  obtain ⟨_, allLogs, hcollect, h⟩ := outcome_bind_eq_ok h
  refine ⟨allLogs, runRpc_eq_ok hcollect, ?_⟩
  rw [outcome_get_bind, hlimit] at h
  exact (Except.ok.inj h).symm

/-- Logs that an attempt has left are reported once more. -/
theorem not_reportsOnce_of_repeats (hlimit : query.limit = none)
    (h : (outcome (evmGetTransfers o node outages readings query) []).1 = .ok events)
    (hrepeats : outages.Repeats query)
    (hlogs : incomingLogs node query (node.fromBlock query) (node.toBlock query) ≠ []) :
    ¬ ReportsOnce o.chainId readings events
      (node.transfers query (node.fromBlock query) (node.toBlock query)) := by
  obtain ⟨allLogs, hcollected, rfl⟩ := evmGetTransfers_eq_ok hlimit h
  obtain ⟨last, hfails, hlast, once, honce, rfl⟩ := collected hcollected
  have hcarried := (carried_ne_nil_iff hfails hlast).mpr ⟨hrepeats, hlogs⟩
  rintro ⟨order, hperm, hreports⟩
  have hcount := hreports.length_eq
  rw [← hperm.length_eq, (List.mergeSort_perm _ byBlock).length_eq, logsToEvents,
    List.length_mapIdx, List.length_append, honce.length_eq] at hcount
  exact hcarried (List.length_eq_zero_iff.mp (Nat.add_eq_right.mp hcount))

theorem reportsOnce_of_not_repeats (hlimit : query.limit = none)
    (h : (outcome (evmGetTransfers o node outages readings query) []).1 = .ok events)
    (hrepeats : ¬ (outages.Repeats query ∧
      incomingLogs node query (node.fromBlock query) (node.toBlock query) ≠ [])) :
    ReportsOnce o.chainId readings events
      (node.transfers query (node.fromBlock query) (node.toBlock query)) := by
  obtain ⟨allLogs, hcollected, rfl⟩ := evmGetTransfers_eq_ok hlimit h
  obtain ⟨last, hfails, hlast, once, honce, rfl⟩ := collected hcollected
  rw [← carried_ne_nil_iff hfails hlast, not_not] at hrepeats
  rw [hrepeats, List.nil_append]
  have hsorted := List.mergeSort_perm (logsToEvents o.chainId readings once) byBlock
  have hcomp : Relation.Comp (List.Forall₂ (Reports o.chainId readings)) List.Perm
      (logsToEvents o.chainId readings once)
      (node.transfers query (node.fromBlock query) (node.toBlock query)) :=
    ⟨once, forall₂_logsToEvents o.chainId readings once, honce⟩
  rw [List.forall₂_comp_perm_eq_perm_comp_forall₂] at hcomp
  obtain ⟨order, hperm, hreports⟩ := hcomp
  exact ⟨order, hsorted.trans hperm, hreports⟩

/-- The events are one for each log exactly where no attempt is repeated that had incoming logs. -/
theorem evmGetTransfers_once_iff (hlimit : query.limit = none)
    (h : (outcome (evmGetTransfers o node outages readings query) []).1 = .ok events) :
    ReportsOnce o.chainId readings events
        (node.transfers query (node.fromBlock query) (node.toBlock query)) ↔
      ¬ (outages.Repeats query ∧
        incomingLogs node query (node.fromBlock query) (node.toBlock query) ≠ []) :=
  ⟨fun honce hrepeats => not_reportsOnce_of_repeats hlimit h hrepeats.1 hrepeats.2 honce,
    reportsOnce_of_not_repeats hlimit h⟩

end

/-! ## One payment and one timeout -/

def mainnet : ObserverConfig := ⟨js "EvmObserver", js "eip155:1", true, 3⟩

/-- A chain with one payment, to `0xbb`. -/
def onePayment : EvmNode where
  logs := [⟨js "0x01", 0, 100, js "0xcc", js "0xaa", js "0xbb", 1000000⟩]
  nodup := by decide
  sameAddress a b := Witness.toLowerCase a = Witness.toLowerCase b
  currentBlock := 200

/-- Both directions, in the last thousand blocks. -/
def watched : TransferQuery := ⟨js "0xbb", none, none, none, none, none⟩

def timeout : RpcThrown := .error (js "TimeoutError") (js "The request took too long to respond.")

/-- The call fails in the first attempt. -/
def firstTimesOut (attempt : ℕ) : Option RpcThrown := if attempt = 0 then some timeout else none

def usdc : Readings where
  now := js "2026-01-01T00:00:00.000Z"
  clock _ := js "2026-01-01T00:00:00.000Z"
  tokenMeta _ := ⟨js "USDC", .ofNat 6, true⟩

/-- The events of the payment where the calls of an attempt fail as given. -/
def observed (incoming outgoing : ℕ → Option RpcThrown) :
    Except ObserverError (List TransferEvent) :=
  (outcome (evmGetTransfers mainnet onePayment ⟨fun _ => none, incoming, outgoing⟩ usdc watched)
    []).1

/-- The incoming call fails first, and nothing is left behind. -/
theorem evmGetTransfers_once_iff_incoming :
    ∃ events, observed firstTimesOut (fun _ => none) = .ok events ∧
      ReportsOnce mainnet.chainId usdc events
        (onePayment.transfers watched (onePayment.fromBlock watched)
          (onePayment.toBlock watched)) := by
  obtain ⟨events, h⟩ : ∃ events, observed firstTimesOut (fun _ => none) = .ok events :=
    exists_eq_ok_of_isOk (by decide +kernel)
  refine ⟨events, h, (evmGetTransfers_once_iff rfl h).mpr ?_⟩
  rintro ⟨⟨-, -, i, -, -, houtgoing⟩, -⟩
  exact houtgoing rfl

/-- The outgoing call fails behind the incoming logs, and the payment is reported twice. -/
theorem payment_reported_twice :
    ∃ events, observed (fun _ => none) firstTimesOut = .ok events ∧
      ¬ ReportsOnce mainnet.chainId usdc events
        (onePayment.transfers watched (onePayment.fromBlock watched)
          (onePayment.toBlock watched)) := by
  obtain ⟨events, h⟩ : ∃ events, observed (fun _ => none) firstTimesOut = .ok events :=
    exists_eq_ok_of_isOk (by decide +kernel)
  refine ⟨events, h, not_reportsOnce_of_repeats rfl h ⟨rfl, rfl, 0, ?_, rfl, ?_⟩ ?_⟩
  · exact fun j hj => absurd hj (Nat.not_lt_zero j)
  · exact nofun
  · decide +kernel

end Attestia.ChainObserver
