import Attestia.Registrum.Snapshot

/-!
# Rehydration

`persistence/rehydrator.ts` and `fromSnapshot` of the registrar. An entry keeps what the
records of the snapshot read as; only entries that were own properties make a version.
-/

namespace Attestia.Registrum

open Lib JsonNumber

structure RehydrationOptions where
  mode : RegistrarMode
  invariants : Option (List Invariant)
  compiledRegistry : Option CompiledInvariantRegistry

inductive RehydrationError where
  | snapshotValidation (error : SnapshotValidationError)
  | modeMismatch (snapshotMode rehydrateMode : JsString)
  | registryMismatch (expectedHash actualHash : JsString)
  | rehydration (message : JsString)
  deriving DecidableEq

structure RehydratedStateEntry where
  id : StateID
  parentId : Reading (Option StateID)
  orderIndex : Reading ℤ
  deriving DecidableEq

structure RehydratedState where
  registry : JsMap StateID RehydratedStateEntry
  currentOrderIndex : ℤ

def computeExpectedHash (options : RehydrationOptions) : Except RehydrationError JsString :=
  match options.mode with
  | .legacy =>
    match options.invariants with
    | none => .error (.rehydration (js "Legacy mode requires invariants option"))
    | some invariants => .ok (computeLegacyRegistryHash (invariants.map Invariant.id))
  | .registry => registryHash "Registry"
  | .dual => registryHash "Dual"
where
  registryHash (name : String) : Except RehydrationError JsString :=
    match options.compiledRegistry with
    | none => .error (.rehydration (js name ++ js " mode requires compiledRegistry option"))
    | some registry => .ok (computeRegistryHash registry)

/-- The loop over the state ids; an id that stands twice is written twice. -/
def reconstructEntries (snapshot : RegistrarSnapshotV1) :
    JsMap StateID RehydratedStateEntry → List StateID →
      Except RehydrationError (JsMap StateID RehydratedStateEntry)
  | registry, [] => .ok registry
  | registry, id :: ids =>
    match snapshot.lineage.read id with
    | none => .error (.rehydration (js "State '" ++ id ++ js "' missing from lineage"))
    | some parentId =>
      match snapshot.assigned.read id with
      | none => .error (.rehydration (js "State '" ++ id ++ js "' missing from ordering"))
      | some orderIndex =>
        reconstructEntries snapshot (registry.set id ⟨id, parentId, orderIndex⟩) ids

def reconstructState (snapshot : RegistrarSnapshotV1) :
    Except RehydrationError RehydratedState := do
  let registry ← reconstructEntries snapshot .empty snapshot.stateIds
  return ⟨registry, roundDouble (snapshot.maxIndex + 1)⟩

def rehydrate (raw : RawSnapshot) (options : RehydrationOptions) :
    Except RehydrationError RehydratedState := do
  let snapshot ← (validateSnapshot raw).mapError .snapshotValidation
  let snapshot ← (migrateToLatest snapshot).mapError .snapshotValidation
  if snapshot.mode ≠ options.mode then
    throw (.modeMismatch snapshot.mode.text options.mode.text)
  let expectedHash ← computeExpectedHash options
  if snapshot.registryHash ≠ expectedHash then
    throw (.registryMismatch snapshot.registryHash expectedHash)
  reconstructState snapshot

/-! ## The restored registrar -/

/-- The constructor, with its defaults. -/
def RehydrationOptions.engine? (options : RehydrationOptions) : Option Engine :=
  match options.mode, options.compiledRegistry with
  | .legacy, _ => some (.legacy (options.invariants.getD initialInvariants))
  | .registry, some registry => some (.registry registry)
  | .dual, some registry => some (.dual registry (options.invariants.getD initialInvariants))
  | _, none => none

/-- The version of an entry that was an own property of both records. -/
def RehydratedStateEntry.restored (entry : RehydratedStateEntry) : Option RegisteredState :=
  match entry.parentId, entry.orderIndex with
  | .own parentId, .own orderIndex =>
    some ⟨entry.id, parentId, orderIndex, makeVersionKey entry.id orderIndex, none⟩
  | _, _ => none

namespace Registrar

/-- The loop of `injectRehydratedState`. -/
def injectEntries : Registrar → List (StateID × RehydratedStateEntry) → Option Registrar
  | r, [] => some r
  | r, e :: es =>
    match e.2.restored with
    | none => none
    | some restored =>
      injectEntries
        { r with
          versionsByKey := r.versionsByKey.set restored.versionKey restored,
          latestById := r.latestById.set e.1 restored } es

def injectRehydratedState (r : Registrar) (state : RehydratedState) : Option Registrar :=
  (injectEntries { r with versionsByKey := .empty, latestById := .empty }
      state.registry.entries).map
    fun r => { r with currentOrderIndex := state.currentOrderIndex }

/-- A restored registrar; none stands for one with entries that are no own properties. -/
def fromSnapshot (raw : RawSnapshot) (options : RehydrationOptions) :
    Except RehydrationError (Option Registrar) := do
  let state ← rehydrate raw options
  return options.engine?.bind fun engine => (new engine).injectRehydratedState state

end Registrar

end Attestia.Registrum
