import Attestia.EventStore.InMemoryStore
import Attestia.Lib.Lines

/-!
# The JSONL event store

`JsonlEventStore`: loading the file, and `append` with its write to the file. The file is a
list of bytes or does not exist; what the file system does in one append (whether the lock
is taken, which write fails after how many bytes) is given from outside. Telemetry is left
out, it changes nothing that is modelled.
-/

namespace Attestia.EventStore

open Lib JsonNumber

abbrev File := Option Bytes

/-! ## Loading -/

inductive LoadSkipReason where
  | parseError
  | missingField
  deriving DecidableEq

structure LoadSkip where
  lineIndex : ℕ
  reason : LoadSkipReason
  deriving DecidableEq

structure LoadDiagnostics where
  eventsLoaded : ℕ
  skippedLines : ℕ
  skips : List LoadSkip
  deriving DecidableEq

/-- What one line of the file is: nothing, a skipped line, or an event with the `hash` of its
record, which is kept apart from the chain fields of the event. -/
inductive LoadedLine where
  | blank
  | skipped (reason : LoadSkipReason)
  | event (stored : StoredEvent) (recordHash : Option JsonValue)

/-- A property of `record.event`, which may be any value but `null`. -/
def eventBodyOf (event : JsonValue) : EventBody :=
  ⟨.ofOption (event.get? (js "type")), .ofOption (event.get? (js "metadata")),
    .ofOption (event.get? (js "payload"))⟩

def stringField (record : JsonValue) (key : String) : Option JsString :=
  match record.get? (js key) with
  | some ⟨.str s, _⟩ => some s
  | _ => none

def numberField (record : JsonValue) (key : String) : Option Number :=
  match record.get? (js key) with
  | some ⟨.num q, h⟩ => some ⟨q, h.1⟩
  | _ => none

/-- The stored event of a record: the chain fields are kept where both are there. -/
def storedOf (content : EventContent) (hash previousHash : Option JsonValue) : StoredEvent :=
  match hash, previousHash with
  | some h, some p => ⟨content, some h, some p⟩
  | _, _ => ⟨content, none, none⟩

/-- Reading a property of `null` throws. -/
def readRecord [Rounding] (record : JsonValue) : Except JsError LoadedLine :=
  if JsonValue.isNull record.val then .error .typeError
  else
    match stringField record "streamId", numberField record "version",
      (numberField record "globalPosition").map Rounding.round, stringField record "appendedAt",
      record.get? (js "event") with
    | some streamId, some version, some globalPosition, some appendedAt, some event =>
      if JsonValue.isNull event.val then .error .typeError
      else
        let content : EventContent :=
          ⟨eventBodyOf event, streamId, version, globalPosition, appendedAt⟩
        .ok (.event
          (storedOf content (record.get? (js "hash")) (record.get? (js "previousHash")))
          (record.get? (js "hash")))
    | _, _, _, _, _ => .ok (.skipped .missingField)

def readLine [Rounding] (line : List Char) : Except JsError LoadedLine :=
  let trimmed := Lines.trim line
  if trimmed = [] then .ok .blank
  else
    match JsonValue.parse trimmed with
    | none => .ok (.skipped .parseError)
    | some record => readRecord record

def readLines [Rounding] : List (List Char) → Except JsError (List LoadedLine)
  | [] => .ok []
  | line :: lines => do
    let l ← readLine line
    let ls ← readLines lines
    return l :: ls

namespace EventIndex

/-- Adds an event read from the file, whose record has `hash` or not. -/
def load [Rounding] (s : EventIndex) (stored : StoredEvent) (recordHash : Option JsonValue) : EventIndex :=
  let s₁ := { s with lastHash := recordHash.getD s.lastHash }.push stored
  if s.nextGlobalPosition.val ≤ stored.globalPosition.val then
    { s₁ with nextGlobalPosition := stored.globalPosition.next }
  else s₁

def loadLine [Rounding] (s : EventIndex) : LoadedLine → EventIndex
  | .event stored recordHash => s.load stored recordHash
  | _ => s

/-- The index that is built from the lines of a file. -/
def ofLines [Rounding] (lines : List LoadedLine) : EventIndex := lines.foldl loadLine empty

end EventIndex

def skipOf : LoadedLine × ℕ → Option LoadSkip
  | (.skipped reason, i) => some ⟨i, reason⟩
  | _ => none

def isEvent : LoadedLine → Bool
  | .event _ _ => true
  | _ => false

def diagnosticsOf (lines : List LoadedLine) : LoadDiagnostics :=
  let skips := (lines.zipIdx 1).filterMap skipOf
  ⟨lines.countP isEvent, skips.length, skips⟩

/-- What loading leaves in the fields of the store. -/
structure Loaded where
  index : EventIndex
  knownFileSize : Option ℕ
  needsTrailingNewline : Bool
  diagnostics : LoadDiagnostics

def byteLength (text : List Char) : ℕ := (Utf8.encode text).length

/-- The base name in messages. -/
def basename (filePath : JsString) : JsString :=
  let slash : UInt16 := 0x2F
  ((filePath.reverse.dropWhile (· = slash)).takeWhile (· ≠ slash)).reverse

def tooLarge (filePath : JsString) (size : ℕ) (limit : ℚ) : JsError :=
  .eventStoreError .logTooLarge
    (js "Event log \"" ++ basename filePath ++ js "\" is " ++ natString size ++
      js " bytes, which exceeds the configured maxLoadBytes limit of " ++
      JsString.units (numberText limit) ++
      js ". The JSONL store loads the entire log into memory; refusing to load to avoid an out-of-memory crash. Raise maxLoadBytes if this size is expected, or migrate to a snapshot-based recovery path.")
    none

def loadFromFile [Rounding] (filePath : JsString) (maxLoadBytes : Option ℚ) : File → Except JsError Loaded
  | none => .ok ⟨.empty, none, false, ⟨0, 0, []⟩⟩
  | some bytes =>
    match maxLoadBytes.filter fun limit => limit < (bytes.length : ℚ) with
    | some limit => .error (tooLarge filePath bytes.length limit)
    | none => do
      let content := Utf8.decode bytes
      let lines ← readLines (Lines.split content)
      return ⟨.ofLines lines, some (byteLength content), !decide (Lines.Closed content),
        diagnosticsOf lines⟩

structure JsonlEventStore where
  filePath : JsString
  index : EventIndex
  subscribers : Subscribers
  knownFileSize : Option ℕ
  needsTrailingNewline : Bool
  loadDiagnostics : LoadDiagnostics

def integrityViolation [Rounding] (filePath : JsString) (errors : List IntegrityError) : JsError :=
  let detail := match errors with
    | [] => []
    | first :: _ => js " First violation at position " ++ Rounding.text first.position ++
      js ": " ++ first.reason ++ js "."
  .eventStoreError .integrityViolation
    (js "Hash chain verification failed while loading \"" ++ basename filePath ++ js "\" (" ++
      natString errors.length ++ js " error(s))." ++ detail ++
      js " Refusing to open a tampered log. Pass verifyOnLoad: false to override for recovery.") none

namespace JsonlEventStore

variable [Rounding] (cz : Canonicalizer)

/-- The verification on load. -/
def verifyLoaded (filePath : JsString) (verifyOnLoad : Bool) (globalLog : List StoredEvent) :
    Except JsError Unit :=
  if verifyOnLoad then do
    let result ← verifyHashChain cz globalLog
    if result.valid then pure () else throw (integrityViolation filePath result.errors)
  else pure ()

/-- The constructor. -/
def new (filePath : JsString) (verifyOnLoad : Bool) (maxLoadBytes : Option ℚ) (file : File) :
    Except JsError JsonlEventStore := do
  let loaded ← loadFromFile filePath maxLoadBytes file
  verifyLoaded cz filePath verifyOnLoad loaded.index.globalLog
  return ⟨filePath, loaded.index, .empty, loaded.knownFileSize, loaded.needsTrailingNewline,
    loaded.diagnostics⟩

/-! ## Appending -/

/-- The events of one append, their lines, and the cursors behind them. -/
structure Batch where
  stored : List StoredEvent
  lines : List (List Char)
  nextGlobalPosition : Number
  lastHash : JsonValue

/-- The loop of `append`, on local cursors only. -/
def buildBatch (streamId appendedAt : JsString) :
    List DomainEvent → ℕ → Number → JsonValue → Except JsError Batch
  | [], _, nextGlobalPosition, lastHash => .ok ⟨[], [], nextGlobalPosition, lastHash⟩
  | event :: events, version, nextGlobalPosition, lastHash => do
    let base := baseEvent streamId appendedAt event version nextGlobalPosition
    let hash ← computeEventHash cz base lastHash
    let hashed := withHash base hash lastHash
    let json ← hashed.image
    let rest ← buildBatch streamId appendedAt events (version + 1) nextGlobalPosition.next
      (.str hash)
    return { rest with stored := hashed :: rest.stored, lines := json.text :: rest.lines }

/-- The bytes of the payload: every line with its newline. -/
def Batch.payload (b : Batch) : Bytes := Utf8.encode (Lines.join b.lines)

def disappeared (filePath : JsString) : JsError :=
  .eventStoreError .concurrencyConflict
    (js "Event log \"" ++ basename filePath ++
      js "\" disappeared since this store was opened — another process may have removed or replaced it. Re-open the store to continue.")
    none

def advanced (filePath : JsString) (baseline currentSize : ℕ) : JsError :=
  .eventStoreError .concurrencyConflict
    (js "Event log \"" ++ basename filePath ++
      js "\" was modified by another writer since this store was opened (file grew from " ++
      natString baseline ++ js " to " ++ natString currentSize ++
      js " bytes). Refusing to append from a stale chain cursor, which would fork the hash chain. Re-open the store to continue.")
    none

def detectExternalAdvanceUnderLock (s : JsonlEventStore) : File → Except JsError Unit
  | none => if s.knownFileSize = none then .ok () else .error (disappeared s.filePath)
  | some bytes =>
    let baseline := s.knownFileSize.getD 0
    if baseline < bytes.length then .error (advanced s.filePath baseline bytes.length) else .ok ()

/-- What happens under the lock before anything is written. -/
def prepare (s : JsonlEventStore) (file : File) (appendedAt streamId : JsString)
    (events : List DomainEvent) : Except JsError Batch := do
  s.detectExternalAdvanceUnderLock file
  buildBatch cz streamId appendedAt events (s.index.streamVersion streamId + 1)
    s.index.nextGlobalPosition s.index.lastHash

/-- The bytes written to repair a missing newline at the end. -/
def repairBytes (s : JsonlEventStore) : Bytes := if s.needsTrailingNewline then [0x0A] else []

def repaired (s : JsonlEventStore) : JsonlEventStore :=
  { s with
    knownFileSize := s.knownFileSize.map (· + s.repairBytes.length)
    needsTrailingNewline := false }

/-- The in-memory commit after the write. -/
def commit (s : JsonlEventStore) (b : Batch) : JsonlEventStore :=
  { s with
    index := b.stored.foldl EventIndex.push
      { s.index with nextGlobalPosition := b.nextGlobalPosition, lastHash := b.lastHash }
    knownFileSize := some (s.knownFileSize.getD 0 + b.payload.length) }

/-- How a write to the file ends; a failing one may have written any part. -/
inductive WriteOutcome where
  | written
  | notOpened (error : JsError)
  | failedAfter (n : ℕ) (error : JsError)

/-- `_writeAndSync`: the file afterwards, and the exception if there is one. -/
def writeAndSync (file : File) (data : Bytes) : WriteOutcome → File × Except JsError Unit
  | .written => (some (file.getD [] ++ data), .ok ())
  | .notOpened error => (file, .error error)
  | .failedAfter n error => (some (file.getD [] ++ data.take n), .error error)

/-- What the world outside does during one append. -/
structure Environment where
  appendedAt : JsString
  lock : Except JsError Unit
  stat : Except JsError Unit
  repairWrite : WriteOutcome
  payloadWrite : WriteOutcome

/-- Nothing fails. -/
def Environment.sound (appendedAt : JsString) : Environment :=
  ⟨appendedAt, .ok (), .ok (), .written, .written⟩

structure Outcome extends AppendOutcome JsonlEventStore where
  file : File

/-- The repair of a missing newline, where it is needed. -/
def repair (s : JsonlEventStore) (file : File) (outcome : WriteOutcome) :
    File × JsonlEventStore × Except JsError Unit :=
  if s.needsTrailingNewline then
    match writeAndSync file s.repairBytes outcome with
    | (file', .ok _) => (file', s.repaired, .ok ())
    | (file', .error err) => (file', s, .error err)
  else (file, s, .ok ())

/-- The store after the stream has been created. -/
def started (s : JsonlEventStore) (streamId : JsString) : JsonlEventStore :=
  { s with index := s.index.createStream streamId }

/-- From taking the lock up to the first write. -/
def beforeWrite (s : JsonlEventStore) (env : Environment) (file : File) (streamId : JsString)
    (events : List DomainEvent) : Except JsError Batch := do
  env.lock
  env.stat
  s.prepare cz file env.appendedAt streamId events

def append (s : JsonlEventStore) (env : Environment) (file : File) (streamId : JsString)
    (events : List DomainEvent) (expectedVersion : Option ExpectedVersion) : Outcome :=
  let currentVersion := s.index.streamVersion streamId
  match checkAppend streamId events currentVersion expectedVersion with
  | .error err => ⟨⟨s, .error err, []⟩, file⟩
  | .ok _ =>
    let s₁ := s.started streamId
    match s₁.beforeWrite cz env file streamId events with
    | .error err => ⟨⟨s₁, .error err, []⟩, file⟩
    | .ok batch =>
      match s₁.repair file env.repairWrite with
      | (file₁, s₂, .error err) => ⟨⟨s₂, .error err, []⟩, file₁⟩
      | (file₁, s₂, .ok _) =>
        match writeAndSync file₁ batch.payload env.payloadWrite with
        | (file₂, .error err) => ⟨⟨s₂, .error err, []⟩, file₂⟩
        | (file₂, .ok _) => ⟨⟨s₂.commit batch,
            .ok (appendResult streamId currentVersion events.length),
            s.subscribers.dispatch streamId batch.stored⟩, file₂⟩

def read (s : JsonlEventStore) := s.index.read

def readAll (s : JsonlEventStore) := s.index.readAll

def verifyIntegrity (s : JsonlEventStore) := verifyHashChain cz s.index.globalLog

end JsonlEventStore

end Attestia.EventStore
