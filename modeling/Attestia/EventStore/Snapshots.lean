import Attestia.EventStore.HashChain
import Attestia.Lib.DecimalText
import Attestia.Lib.JsMap
import Attestia.Lib.JsValue
import Mathlib.Data.List.Sort

/-!
# Snapshot stores

`snapshot-store.ts`: the store that keeps the snapshots of a stream in a sorted array, and the store
that keeps each of them in a file of the stream's directory, named by its version. A file holds what
`JSON.parse` gives back of its text. The canonicalization is a library; it prints every JSON value.
-/

namespace Attestia.EventStore

open Lib JsonNumber DecimalText

structure StoredSnapshot where
  streamId : JsString
  version : ℕ
  state : JsonValue
  createdAt : JsString
  stateHash : JsString
  hashAlgorithm : JsString

structure PruneResult where
  deleted : ℕ
  kept : ℕ
  deriving DecidableEq

variable (canonicalize : JsonValue → String)

def computeSnapshotHash (state : JsonValue) : JsString := sha256Hex (js (canonicalize state))

def verifySnapshotIntegrity (stateHash : JsString) (state : JsonValue) : Bool :=
  decide (stateHash ≠ [] ∧ stateHash = computeSnapshotHash canonicalize state)

/-- The snapshot that both stores save. -/
def takeSnapshot (streamId : JsString) (version : ℕ) (state : JsonValue) (createdAt : JsString) :
    StoredSnapshot :=
  ⟨streamId, version, state, createdAt, computeSnapshotHash canonicalize state, js "sha256"⟩

def keepText : JsNumber → JsString
  | .finite q => JsString.units (numberText q)
  | .infinity negative => if negative then js "-Infinity" else js "Infinity"
  | .nan => js "NaN"

/-- The number of snapshots to keep, or the message of the `TypeError`. -/
def checkKeep (keep : JsNumber) : Except JsString ℕ :=
  let invalid := js "prune keep must be an integer >= 1, got " ++ keepText keep
  match keep with
  | .finite q => if q.den = 1 ∧ 1 ≤ q then .ok q.num.toNat else .error invalid
  | _ => .error invalid

/-! ## In memory -/

structure InMemorySnapshotStore where
  snapshots : JsMap JsString (List StoredSnapshot)
  verifyOnLoad : Bool

namespace InMemorySnapshotStore

def new (verifyOnLoad : Bool) : InMemorySnapshotStore := ⟨.empty, verifyOnLoad⟩

variable (store : InMemorySnapshotStore)

def snapshotsOf (streamId : JsString) : List StoredSnapshot :=
  (store.snapshots.get? streamId).getD []

/-- Inserted before the first snapshot of a greater version. -/
def insertSorted (snapshot : StoredSnapshot) (snapshots : List StoredSnapshot) :
    List StoredSnapshot :=
  match snapshots.findIdx? fun s => snapshot.version < s.version with
  | some insertIndex => snapshots.insertIdx insertIndex snapshot
  | none => snapshots ++ [snapshot]

/-- The array of a stream after a save: a snapshot of the same version makes way. -/
def place (snapshot : StoredSnapshot) (snapshots : List StoredSnapshot) : List StoredSnapshot :=
  insertSorted snapshot (snapshots.eraseP fun s => s.version = snapshot.version)

def save (streamId : JsString) (version : ℕ) (state : JsonValue) (createdAt : JsString) :
    InMemorySnapshotStore :=
  let snapshot := takeSnapshot canonicalize streamId version state createdAt
  ⟨store.snapshots.set streamId (place snapshot (store.snapshotsOf streamId)), store.verifyOnLoad⟩

def verified (snapshot : Option StoredSnapshot) : Option StoredSnapshot :=
  snapshot.filter fun s =>
    !store.verifyOnLoad || verifySnapshotIntegrity canonicalize s.stateHash s.state

def load (streamId : JsString) : Option StoredSnapshot :=
  store.verified canonicalize (store.snapshotsOf streamId).getLast?

def loadAtVersion (streamId : JsString) (version : ℕ) : Option StoredSnapshot :=
  store.verified canonicalize ((store.snapshotsOf streamId).find? fun s => s.version = version)

def deleteAll (streamId : JsString) : InMemorySnapshotStore :=
  { store with snapshots := store.snapshots.erase streamId }

def prune (streamId : JsString) (keep : ℕ) : InMemorySnapshotStore × PruneResult :=
  let snapshots := store.snapshotsOf streamId
  if snapshots.length ≤ keep then (store, ⟨0, snapshots.length⟩)
  else
    let deleteCount := snapshots.length - keep
    let rest := snapshots.drop deleteCount
    ({ store with snapshots := store.snapshots.set streamId rest }, ⟨deleteCount, rest.length⟩)

def hasSnapshot (streamId : JsString) : Bool := store.snapshotsOf streamId ≠ []

end InMemorySnapshotStore

/-! ## In files -/

namespace StoredSnapshot

/-- What is read back of the text of a snapshot. -/
def file (s : StoredSnapshot) : JsonValue :=
  .object [(js "streamId", some (.str s.streamId)), (js "version", some (.num (.ofNat s.version))),
    (js "state", some s.state), (js "createdAt", some (.str s.createdAt)),
    (js "stateHash", some (.str s.stateHash)), (js "hashAlgorithm", some (.str s.hashAlgorithm))]

end StoredSnapshot

/-- A directory by the names of its files. -/
abbrev Directory := JsMap JsString JsonValue

/-- The directories of the streams, under the base directory. -/
structure FileSnapshotStore where
  dirs : JsMap JsString Directory
  verifyOnLoad : Bool
  maxSnapshotsPerStream : Option ℕ

/-- The string that a value is, if it is one. -/
def stringOf (v : JsonValue) : Option JsString :=
  match v.val with
  | .str s => some s
  | _ => none

def isNumber (v : JsonValue) : Bool :=
  match v.val with
  | .num _ => true
  | _ => false

namespace FileSnapshotStore

def new (verifyOnLoad : Bool) (maxSnapshotsPerStream : Option ℕ) : FileSnapshotStore :=
  ⟨.empty, verifyOnLoad, maxSnapshotsPerStream⟩

def streamDir (streamId : JsString) : JsString := (sha256Hex streamId).take 32

def snapshotName (version : ℕ) : JsString := JsonValue.numberString (.ofNat version) ++ js ".json"

/-- `/^(\d+)\.json$/`, and the number that its group is. -/
def versionOfName (name : JsString) : Option ℕ :=
  let digits := name.takeWhile isDigit
  if digits ≠ [] ∧ name.drop digits.length = js ".json" then some (digitsNat digits) else none

/-- The versions of a directory, whatever the order in which it is read. -/
def versionsIn (dir : Directory) : List ℕ :=
  (dir.keys.filterMap versionOfName).insertionSort (· ≤ ·)

/-- Removes the files of versions, and counts those that were there. -/
def unlinkVersions : Directory → List ℕ → Directory × ℕ
  | dir, [] => (dir, 0)
  | dir, version :: versions =>
    if dir.has (snapshotName version) then
      let rest := unlinkVersions (dir.erase (snapshotName version)) versions
      (rest.1, rest.2 + 1)
    else unlinkVersions dir versions

variable (store : FileSnapshotStore)

/-- The files of a stream; none where there is no directory. -/
def dirOf (streamId : JsString) : Directory := (store.dirs.get? (streamDir streamId)).getD .empty

def setDir (streamId : JsString) (dir : Directory) : FileSnapshotStore :=
  { store with dirs := store.dirs.set (streamDir streamId) dir }

def listVersions (streamId : JsString) : List ℕ := versionsIn (store.dirOf streamId)

def prune (streamId : JsString) (keep : ℕ) : FileSnapshotStore × PruneResult :=
  let versions := store.listVersions streamId
  if versions.length ≤ keep then (store, ⟨0, versions.length⟩)
  else
    let pruned := unlinkVersions (store.dirOf streamId) (versions.take (versions.length - keep))
    (store.setDir streamId pruned.1, ⟨pruned.2, versions.length - pruned.2⟩)

/-- The file is written under another name and renamed. -/
def save (streamId : JsString) (version : ℕ) (state : JsonValue) (createdAt : JsString) :
    FileSnapshotStore :=
  let snapshot := takeSnapshot canonicalize streamId version state createdAt
  let saved := store.setDir streamId ((store.dirOf streamId).set (snapshotName version) snapshot.file)
  match store.maxSnapshotsPerStream with
  | none => saved
  | some keep => (saved.prune streamId keep).1

/-- A file that lacks a required field is discarded, as one is that fails the check. -/
def readSnapshot (streamId : JsString) (version : ℕ) : Option JsonValue := do
  let parsed ← (store.dirOf streamId).get? (snapshotName version)
  let _ ← (parsed.get? (js "streamId")).bind stringOf
  let storedVersion ← parsed.get? (js "version")
  let stateHash ← (parsed.get? (js "stateHash")).bind stringOf
  let state ← parsed.get? (js "state")
  if isNumber storedVersion &&
      (!store.verifyOnLoad || verifySnapshotIntegrity canonicalize stateHash state) then some parsed
  else none

def load (streamId : JsString) : Option JsonValue :=
  (store.listVersions streamId).getLast?.bind fun latestVersion =>
    store.readSnapshot canonicalize streamId latestVersion

def loadAtVersion (streamId : JsString) (version : ℕ) : Option JsonValue :=
  store.readSnapshot canonicalize streamId version

/-- The files go, the directory stays. -/
def deleteAll (streamId : JsString) : FileSnapshotStore :=
  if store.dirs.has (streamDir streamId) then store.setDir streamId .empty else store

def hasSnapshot (streamId : JsString) : Bool := store.listVersions streamId ≠ []

end FileSnapshotStore

/-! ## Calls -/

inductive SnapshotCall where
  | save (streamId : JsString) (version : ℕ) (state : JsonValue)
  | load (streamId : JsString)
  | loadAtVersion (streamId : JsString) (version : ℕ)
  | prune (streamId : JsString) (keep : JsNumber)
  | deleteAll (streamId : JsString)
  | hasSnapshot (streamId : JsString)

/-- What a call returns, or the message of what it throws. -/
inductive SnapshotReply (σ : Type) where
  | done
  | found (snapshot : Option σ)
  | pruned (result : PruneResult)
  | has (answer : Bool)
  | typeError (message : JsString)

def InMemorySnapshotStore.call (store : InMemorySnapshotStore) (now : JsString) :
    SnapshotCall → InMemorySnapshotStore × SnapshotReply StoredSnapshot
  | .save streamId version state => (store.save canonicalize streamId version state now, .done)
  | .load streamId => (store, .found (store.load canonicalize streamId))
  | .loadAtVersion streamId version =>
    (store, .found (store.loadAtVersion canonicalize streamId version))
  | .prune streamId keep =>
    match checkKeep keep with
    | .error message => (store, .typeError message)
    | .ok keep => ((store.prune streamId keep).1, .pruned (store.prune streamId keep).2)
  | .deleteAll streamId => (store.deleteAll streamId, .done)
  | .hasSnapshot streamId => (store, .has (store.hasSnapshot streamId))

def FileSnapshotStore.call (store : FileSnapshotStore) (now : JsString) :
    SnapshotCall → FileSnapshotStore × SnapshotReply JsonValue
  | .save streamId version state => (store.save canonicalize streamId version state now, .done)
  | .load streamId => (store, .found (store.load canonicalize streamId))
  | .loadAtVersion streamId version =>
    (store, .found (store.loadAtVersion canonicalize streamId version))
  | .prune streamId keep =>
    match checkKeep keep with
    | .error message => (store, .typeError message)
    | .ok keep => ((store.prune streamId keep).1, .pruned (store.prune streamId keep).2)
  | .deleteAll streamId => (store.deleteAll streamId, .done)
  | .hasSnapshot streamId => (store, .has (store.hasSnapshot streamId))

/-- The replies to a list of calls, each with the time that the store reads. -/
def runCalls {σ α : Type} (call : σ → JsString → SnapshotCall → σ × SnapshotReply α) :
    σ → List (SnapshotCall × JsString) → List (SnapshotReply α)
  | _, [] => []
  | store, (c, now) :: calls =>
    let result := call store now c
    result.2 :: runCalls call result.1 calls

end Attestia.EventStore
