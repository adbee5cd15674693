import Attestia.Lib.HashChain
import Attestia.Lib.Sorting
import Attestia.Verify.GlobalStateHash

/-!
# Multi-chain replay

`multi-chain-replay.ts`: the events of each chain are chained by their hashes in the order of
their sequence indices, and the ends of the chains are hashed together in the order of the chain
ids. The canonicalization and the comparison of texts enter as parameters.
-/

namespace Attestia.Verify

open Lib JsonNumber

structure ChainEvent where
  chainId : JsString
  eventHash : JsString
  sequenceIndex : Number
  timestamp : JsString
  data : JsonObject

structure ChainReplayResult where
  chainId : JsString
  hashChain : JsString
  eventCount : ℕ
  firstEventHash : JsString
  lastEventHash : JsString

structure MultiChainAuditResult where
  verdict : VerificationVerdict
  combinedHash : JsString
  chains : List ChainReplayResult
  auditedAt : JsString
  discrepancies : List JsString
  chainCount : ℕ
  eventCount : ℕ

structure MultiChainAuditOptions where
  expectedCombinedHash : Option JsString
  expectedChainIds : Option (List JsString)
  requireContiguousSequence : Option Bool

/-- A bare text is the expected hash. -/
inductive OptionsOrExpectedHash where
  | expectedHash (hash : JsString)
  | options (options : MultiChainAuditOptions)
  | none

def OptionsOrExpectedHash.normalized : OptionsOrExpectedHash → MultiChainAuditOptions
  | expectedHash hash => ⟨some hash, .none, .none⟩
  | options given => given
  | none => ⟨.none, .none, .none⟩

/-- The bytes of a text that are hashed. -/
def textBytes (data : JsString) : Bytes := Utf8.encode (JsString.toWellFormed data)

def sha256Text (data : JsString) : JsString := js (hexEncode (sha256 (textBytes data)))

section

variable (canonicalize : JsonValue → String) (localeCompare : JsString → JsString → ℤ)

/-! ## Chains -/

/-- What is hashed of an event. -/
def eventJson (event : ChainEvent) : JsonValue :=
  .object [(js "chainId", some (.str event.chainId)), (js "eventHash", some (.str event.eventHash)),
    (js "sequenceIndex", some (.num event.sequenceIndex)), (js "data", some event.data.toJsonValue)]

def genesis (chainId : JsString) : JsString := sha256Text (js "genesis:" ++ chainId)

/-- The hash behind an event. -/
def chainStep (currentHash : JsString) (event : ChainEvent) : JsString :=
  sha256Text (currentHash ++ js (canonicalize (eventJson event)))

/-- The variables of the loop. -/
structure ChainState where
  currentHash : JsString
  firstHash : JsString
  lastHash : JsString

def ChainState.add (s : ChainState) (event : ChainEvent) : ChainState :=
  let currentHash := chainStep canonicalize s.currentHash event
  ⟨currentHash, if s.firstHash = [] then currentHash else s.firstHash, currentHash⟩

/-- `a || b` of texts. -/
def orElse (a b : JsString) : JsString := if a = [] then b else a

def computeChainHashChain (chainId : JsString) (events : List ChainEvent) : ChainReplayResult :=
  let s := events.foldl (ChainState.add canonicalize) ⟨genesis chainId, [], []⟩
  ⟨chainId, s.currentHash, events.length, orElse s.firstHash s.currentHash,
    orElse s.lastHash s.currentHash⟩

/-! ## The combined hash -/

def resultJson (r : ChainReplayResult) : JsonValue :=
  .object [(js "chainId", some (.str r.chainId)), (js "hashChain", some (.str r.hashChain)),
    (js "eventCount", some (.num (.ofNat r.eventCount)))]

def sortedResults (chainResults : List ChainReplayResult) : List ChainReplayResult :=
  chainResults.insertionSort fun a b => localeCompare a.chainId b.chainId ≤ 0

def combinedJson (sorted : List ChainReplayResult) : JsonValue :=
  .object [(js "chains", some (.array (sorted.map resultJson)))]

def computeCombinedHash (chainResults : List ChainReplayResult) : JsString :=
  sha256Text (js (canonicalize (combinedJson (sortedResults localeCompare chainResults))))

/-! ## The audit -/

def sortBySequence (events : List ChainEvent) : List ChainEvent :=
  events.insertionSort fun a b => a.sequenceIndex.val - b.sequenceIndex.val ≤ 0

/-- The events of each chain, in the order of their indices. -/
def chainsOf (events : List ChainEvent) : List (JsString × List ChainEvent) :=
  (JsMap.groupBy ChainEvent.chainId events).entries.map fun e => (e.1, sortBySequence e.2)

def gapText (chainId : JsString) (previous current : ChainEvent) : JsString :=
  js "[MULTICHAIN_SEQUENCE_GAP] " ++ chainId ++ js ": possible missing event(s) between sequence " ++
    JsonValue.numberString previous.sequenceIndex ++ js " and " ++
    JsonValue.numberString current.sequenceIndex ++ js " (" ++
    JsString.units (numberText (current.sequenceIndex.val - previous.sequenceIndex.val - 1)) ++
    js (" index(es) absent) — a gap is the signature of a dropped or withheld event; " ++
      "ingest the missing event(s) or audit the chain observer's coverage")

/-- The gaps between neighbours. -/
def gaps (chainId : JsString) : List ChainEvent → List JsString
  | previous :: current :: rest =>
    (if current.sequenceIndex.val - previous.sequenceIndex.val > 1 then
      [gapText chainId previous current] else []) ++ gaps chainId (current :: rest)
  | _ => []

def sequenceGaps (options : MultiChainAuditOptions) (chains : List (JsString × List ChainEvent)) :
    List JsString :=
  if options.requireContiguousSequence = some true then chains.flatMap fun c => gaps c.1 c.2
  else []

def absentText (chainId : JsString) : JsString :=
  js "[MULTICHAIN_CHAIN_ABSENT] expected chain " ++ chainId ++
    js (" produced zero events — the observer may be dark or the chain was never ingested; " ++
      "a multi-chain audit must not PASS over a chain it never saw")

def absentChains (options : MultiChainAuditOptions) (chains : List (JsString × List ChainEvent)) :
    List JsString :=
  ((options.expectedChainIds.getD []).filter fun id => id ∉ chains.map Prod.fst).insertionSort
    (fun a b => localeCompare a b ≤ 0) |>.map absentText

def hashMismatches (options : MultiChainAuditOptions) (combinedHash : JsString) : List JsString :=
  match options.expectedCombinedHash with
  | none => []
  | some expected =>
    if expected ≠ [] ∧ combinedHash ≠ expected then
      [js "[MULTICHAIN_HASH_MISMATCH] Combined hash mismatch: expected " ++ expected ++
        js ", got " ++ combinedHash]
    else []

/-- `auditedAt` is the text of the clock. -/
def auditMultiChainReplay (events : List ChainEvent) (optionsOrExpectedHash : OptionsOrExpectedHash)
    (auditedAt : JsString) : MultiChainAuditResult :=
  let options := optionsOrExpectedHash.normalized
  let chains := chainsOf events
  let chainResults := chains.map fun c => computeChainHashChain canonicalize c.1 c.2
  let combinedHash := computeCombinedHash canonicalize localeCompare chainResults
  let discrepancies := sequenceGaps options chains ++ absentChains localeCompare options chains ++
    hashMismatches options combinedHash
  ⟨if discrepancies = [] then .PASS else .FAIL, combinedHash, chainResults, auditedAt,
    discrepancies, chainResults.length, events.length⟩

end

/-- The order of the code units, which is that of plain texts. -/
def compareTexts (a b : JsString) : ℤ := if Json.keyLe a b then (if a = b then 0 else -1) else 1

end Attestia.Verify
