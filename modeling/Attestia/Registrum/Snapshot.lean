import Attestia.Lib.Sha256
import Attestia.Registrum.StructuralRegistrar

/-!
# Snapshots

`persistence/snapshot.ts` and `snapshot()` of the registrar. A snapshot is checked as the
value of any shape that it may be. A record reads more than its own properties: what its
prototype adds is neither null nor undefined, and only its text as a key is ever used.
-/

namespace Attestia.Registrum

open Lib JsonNumber

/-! ## Records -/

/-- What a record inherits. -/
inductive Prototype where
  | object
  | array (length : ℕ)
  | nothing

/-- An object that is read by computed keys: its own entries and its prototype. -/
structure Record (α : Type) where
  entries : List (JsString × α)
  prototype : Prototype

/-- The value of a property, or the text that an inherited one converts to as a key. -/
inductive Reading (α : Type) where
  | own (value : α)
  | inherited (text : JsString)
  deriving DecidableEq

def functionText (name : JsString) : JsString := js "function " ++ name ++ js "() { [native code] }"

/-- The methods that an array inherits and other objects do not. -/
def arrayMembers : List JsString :=
  ["at", "concat", "copyWithin", "fill", "find", "findIndex", "findLast", "findLastIndex",
    "lastIndexOf", "pop", "push", "reverse", "shift", "unshift", "slice", "sort", "splice",
    "includes", "indexOf", "join", "keys", "entries", "values", "forEach", "filter", "flat",
    "flatMap", "map", "every", "some", "reduce", "reduceRight", "toReversed", "toSorted",
    "toSpliced", "with"].map js

/-- The properties that are inherited, each with its text as a key. -/
def Prototype.members : Prototype → List (JsString × JsString)
  | .nothing => []
  | .object =>
    (js "__proto__", js "[object Object]") :: (js "constructor", functionText (js "Object")) ::
      JsValue.objectMembers.map fun name => (name, functionText name)
  | .array length =>
    (js "length", JsString.units (natText length)) :: (js "__proto__", []) ::
      (js "constructor", functionText (js "Array")) ::
      (arrayMembers ++ JsValue.objectMembers).map fun name => (name, functionText name)

namespace Record

variable {α : Type} (r : Record α)

def get? (key : JsString) : Option α := (r.entries.find? fun e => e.1 = key).map Prod.snd

/-- `record[key]`; it is none for undefined. -/
def read (key : JsString) : Option (Reading α) :=
  match r.get? key with
  | some value => some (.own value)
  | none => (r.prototype.members.find? fun e => e.1 = key).map fun e => .inherited e.2

def keys : List JsString := r.entries.map Prod.fst

def values : List α := r.entries.map Prod.snd

end Record

/-- `Object.entries`. -/
def ownEntries : Json → List (JsString × Json)
  | .obj ms => ms
  | .arr es => es.zipIdx.map fun e => (JsString.units (natText e.2), e.1)
  | _ => []

def prototypeOf : Json → Prototype
  | .arr es => .array es.length
  | _ => .object

/-! ## The schema -/

inductive RegistrarMode where
  | legacy
  | registry
  | dual
  deriving DecidableEq

def RegistrarMode.text : RegistrarMode → JsString
  | legacy => js "legacy"
  | registry => js "registry"
  | dual => js "dual"

def SNAPSHOT_VERSION : JsString := js "1.0"

def SUPPORTED_SNAPSHOT_VERSIONS : List JsString := [SNAPSHOT_VERSION]

/-- A snapshot in memory: its value, and whether its lineage has lost its prototype. -/
structure RawSnapshot where
  value : JsonValue
  lineageBare : Bool

/-- A snapshot that is checked, as the code reads it. -/
structure RegistrarSnapshotV1 where
  version : JsString
  registryHash : JsString
  mode : RegistrarMode
  stateIds : List StateID
  lineage : Record (Option StateID)
  maxIndex : ℤ
  assigned : Record ℤ

/-- What a validation throws: an error of its own, or the one of a value without a text. -/
inductive SnapshotValidationError where
  | invalid (message : JsString) (field : Option JsString)
  | typeError
  deriving DecidableEq

/-- The text of a property in a template literal. -/
def templateText : Option Json → Option JsString
  | none => some (js "undefined")
  | some v => JsonValue.toJsString v

/-- An error whose message quotes a property. -/
def quotingError (value : Option Json) (field : String) (before after : JsString) :
    SnapshotValidationError :=
  match templateText value with
  | some text => .invalid (before ++ text ++ after) (some (js field))
  | none => .typeError

/-- The name of a property in the field of an error. -/
def memberField (record : String) (id : JsString) : JsString :=
  js record ++ js "['" ++ id ++ js "']"

def indexField (n : ℕ) : JsString := js "state_ids[" ++ JsString.units (natText n) ++ js "]"

def knownFields : List JsString :=
  ["version", "registry_hash", "mode", "state_ids", "lineage", "ordering"].map js

/-- `Number.isInteger`, with the integer. -/
def isInteger : Json → Option ℤ
  | .num q => if q.den = 1 then some q.num else none
  | _ => none

/-- A string or null. -/
def isStringOrNull : Json → Option (Option StateID)
  | .null => some none
  | .str s => some (some s)
  | _ => none

/-- The loop that checks the values of a record. -/
def checkEntries {α : Type} (check : Json → Option α) (name expected : String) :
    List (JsString × Json) → Except SnapshotValidationError (List (JsString × α))
  | [] => .ok []
  | e :: es =>
    match check e.2 with
    | none => .error (.invalid (memberField name e.1 ++ js " " ++ js expected)
        (some (memberField name e.1)))
    | some a => do
      let rest ← checkEntries check name expected es
      return (e.1, a) :: rest

/-- The loop that checks the elements of `state_ids`. -/
def checkStateIds : ℕ → List Json → Except SnapshotValidationError (List StateID)
  | _, [] => .ok []
  | i, .str id :: es => do
    let rest ← checkStateIds (i + 1) es
    return id :: rest
  | i, _ :: _ =>
    .error (.invalid (indexField i ++ js " must be a string") (some (indexField i)))

/-! ## Consistency -/

/-- A node on the way to a root: a state id, or a value that a record has inherited. -/
inductive Cursor where
  | id (s : StateID)
  | inherited (text : JsString)
  deriving DecidableEq

def Cursor.text : Cursor → JsString
  | id s => s
  | inherited text => text

/-- The walk from a state to a root; the error without a field is the one of a walk that is cut. -/
def walkToRoot (lineage : Record (Option StateID)) (start : StateID) :
    ℕ → List Cursor → Cursor → Except SnapshotValidationError Unit
  | 0, _, _ => .error (.invalid [] none)
  | fuel + 1, seen, cursor =>
    if cursor ∈ seen then
      .error (.invalid (js "Lineage cycle detected: state '" ++ start ++
        js "' does not reach a root (revisited '" ++ cursor.text ++ js "')")
        (some (memberField "lineage" start)))
    else
      match lineage.read cursor.text with
      | none =>
        .error (.invalid (js "Lineage chain for state '" ++ start ++
          js "' references unknown node '" ++ cursor.text ++ js "' and does not reach a root")
          (some (memberField "lineage" start)))
      | some (.own none) => .ok ()
      | some (.own (some parentId)) =>
        walkToRoot lineage start fuel (cursor :: seen) (.id parentId)
      | some (.inherited text) =>
        walkToRoot lineage start fuel (cursor :: seen) (.inherited text)

/-- Every state id is visited at most once, and so is every inherited value. -/
def reachesRoot (stateIds : List StateID) (lineage : Record (Option StateID)) (start : StateID) :
    Except SnapshotValidationError Unit :=
  walkToRoot lineage start (stateIds.length + lineage.prototype.members.length + 1) []
    (.id start)

def maxAssigned (indices : List ℤ) : Option ℤ := indices.max?

/-- The text of the highest index, which is below every number where there is none. -/
def maxAssignedText (indices : List ℤ) : JsString :=
  match maxAssigned indices with
  | none => js "-Infinity"
  | some n => indexString n

def require (condition : Bool) (message : JsString) (field : JsString) :
    Except SnapshotValidationError Unit :=
  if condition then .ok () else .error (.invalid message (some field))

def validateSnapshotConsistency (stateIds : List StateID) (lineage : Record (Option StateID))
    (maxIndex : ℤ) (assigned : Record ℤ) : Except SnapshotValidationError Unit := do
  stateIds.forM fun id =>
    require (lineage.read id).isSome
      (js "State '" ++ id ++ js "' in state_ids has no lineage entry") (memberField "lineage" id)
  lineage.keys.forM fun id =>
    require (id ∈ stateIds) (js "Lineage entry '" ++ id ++ js "' has no corresponding state_id")
      (memberField "lineage" id)
  lineage.entries.forM fun e =>
    require (e.2.all fun parentId => parentId ∈ stateIds)
      (js "Lineage parent '" ++ idString e.2 ++ js "' for state '" ++ e.1 ++ js "' does not exist")
      (memberField "lineage" e.1)
  stateIds.forM (reachesRoot stateIds lineage)
  stateIds.forM fun id =>
    require (assigned.read id).isSome
      (js "State '" ++ id ++ js "' in state_ids has no ordering entry")
      (memberField "ordering.assigned" id)
  assigned.keys.forM fun id =>
    require (id ∈ stateIds) (js "Ordering entry '" ++ id ++ js "' has no corresponding state_id")
      (memberField "ordering.assigned" id)
  if stateIds = [] then
    require (maxIndex = -1)
      (js "max_index should be -1 for empty registrar, got " ++ indexString maxIndex)
      (js "ordering.max_index")
  else do
    require (maxAssigned assigned.values = some maxIndex)
      (js "max_index (" ++ indexString maxIndex ++ js ") should equal highest assigned index (" ++
        maxAssignedText assigned.values ++ js ")")
      (js "ordering.max_index")
    require assigned.values.Nodup (js "Order indices must be unique") (js "ordering.assigned")
    assigned.values.forM fun n =>
      require (0 ≤ n) (js "Order index " ++ indexString n ++ js " is negative")
        (js "ordering.assigned")

def validateVersion (version : Option Json) : Except SnapshotValidationError JsString :=
  match version with
  | some (.str s) =>
    if s ∈ SUPPORTED_SNAPSHOT_VERSIONS then .ok s else .error (unsupported version)
  | _ => .error (unsupported version)
where
  unsupported (version : Option Json) : SnapshotValidationError :=
    quotingError version "version" (js "Unsupported snapshot version '")
      (js "' (this build reads: " ++ joinWith ", " SUPPORTED_SNAPSHOT_VERSIONS ++
        js "). Hint: a newer version means this snapshot was written by a newer registrum — " ++
        js "upgrade this build; an older, unlisted version predates the supported schema — " ++
        js "run the migration tool for that version, or replay the transition log under the " ++
        js "current constitution.")

def validateRegistryHash (registryHash : Option Json) : Except SnapshotValidationError JsString :=
  let failure : SnapshotValidationError :=
    .invalid (js "registry_hash must be a non-empty string") (some (js "registry_hash"))
  match registryHash with
  | some (.str s) => if s = [] then .error failure else .ok s
  | _ => .error failure

def validateMode (mode : Option Json) : Except SnapshotValidationError RegistrarMode :=
  match mode with
  | some (.str s) =>
    match [RegistrarMode.legacy, .registry, .dual].find? fun m => m.text = s with
    | some m => .ok m
    | none => .error (unknown mode)
  | _ => .error (unknown mode)
where
  unknown (mode : Option Json) : SnapshotValidationError :=
    quotingError mode "mode" (js "mode must be 'legacy', 'registry', or 'dual', got '") (js "'")

def validateStateIds (stateIds : Option Json) : Except SnapshotValidationError (List StateID) :=
  match stateIds with
  | some (.arr es) => checkStateIds 0 es
  | _ => .error (.invalid (js "state_ids must be an array") (some (js "state_ids")))

def validateMaxIndex (maxIndex : Option Json) : Except SnapshotValidationError ℤ :=
  match maxIndex.bind isInteger with
  | some n => .ok n
  | none =>
    .error (.invalid (js "ordering.max_index must be an integer") (some (js "ordering.max_index")))

/-- A property that has to be an object. -/
def objectField (value : Option Json) (field : String) : Except SnapshotValidationError Json :=
  match value with
  | some v =>
    if isObject v then .ok v
    else .error (.invalid (js field ++ js " must be an object") (some (js field)))
  | none => .error (.invalid (js field ++ js " must be an object") (some (js field)))

/-- `validateSnapshot`, with what it has read. -/
def validateSnapshot (raw : RawSnapshot) :
    Except SnapshotValidationError RegistrarSnapshotV1 := do
  let snapshot := raw.value.val
  if !isObject snapshot then
    throw (.invalid (js "Snapshot must be an object") none)
  (ownEntries snapshot).forM fun e =>
    require (e.1 ∈ knownFields)
      (js "Unknown field '" ++ e.1 ++ js "' - schema rejects extra fields") e.1
  let version ← validateVersion (snapshot.get? (js "version"))
  let registryHash ← validateRegistryHash (snapshot.get? (js "registry_hash"))
  let mode ← validateMode (snapshot.get? (js "mode"))
  let stateIds ← validateStateIds (snapshot.get? (js "state_ids"))
  let lineage ← objectField (snapshot.get? (js "lineage")) "lineage"
  let parents ← checkEntries isStringOrNull "lineage" "must be a string or null"
    (ownEntries lineage)
  let ordering ← objectField (snapshot.get? (js "ordering")) "ordering"
  let maxIndex ← validateMaxIndex (ordering.get? (js "max_index"))
  let assigned ← objectField (ordering.get? (js "assigned")) "ordering.assigned"
  let indices ← checkEntries isInteger "ordering.assigned" "must be an integer"
    (ownEntries assigned)
  let lineage : Record (Option StateID) :=
    ⟨parents, if raw.lineageBare then .nothing else prototypeOf lineage⟩
  let assigned : Record ℤ := ⟨indices, prototypeOf assigned⟩
  validateSnapshotConsistency stateIds lineage maxIndex assigned
  return ⟨version, registryHash, mode, stateIds, lineage, maxIndex, assigned⟩

/-- The identity of the one version. -/
def migrateToLatest (snapshot : RegistrarSnapshotV1) :
    Except SnapshotValidationError RegistrarSnapshotV1 :=
  if snapshot.version = SNAPSHOT_VERSION then .ok snapshot
  else
    .error (.invalid (js "No migration path from snapshot version '" ++ snapshot.version ++
      js "' to '" ++ SNAPSHOT_VERSION ++ js "'. Hint: this version is listed as supported but " ++
      js "has no migration step — a migration case must be added to migrateToLatest().")
      (some (js "version")))

/-! ## Hashes -/

/-- `legacy:` and the sorted ids. -/
def computeLegacyRegistryHash (invariantIds : List JsString) : JsString :=
  js "legacy:" ++ joinWith "," (Json.sortStrings invariantIds)

def BinaryOperator.text : BinaryOperator → JsString
  | eq => js "=="
  | neq => js "!="
  | gt => js ">"
  | lt => js "<"
  | gte => js ">="
  | lte => js "<="
  | and => js "&&"
  | or => js "||"

/-- An object literal of given entries. -/
def literalJson (entries : List (String × JsonValue)) : JsonValue :=
  .object (entries.map fun e => (js e.1, some e.2))

/-- A number that has no decimal text is printed as null. -/
def numberJson : JsNumber → JsonValue
  | .finite q => if h : q.den ∣ 10 ^ Nat.log2 q.den then .num ⟨q, h⟩ else .null
  | _ => .null

def literalValueJson : LiteralValue → JsonValue
  | .boolean b => ⟨.bool b, trivial, trivial⟩
  | .number x => numberJson x
  | .string s => .str s
  | .null => .null

mutual

def astJson : ASTNode → JsonValue
  | .literal value =>
    literalJson [("kind", .str (js "Literal")), ("value", literalValueJson value)]
  | .identifier path =>
    literalJson [("kind", .str (js "Identifier")), ("path", .array (path.map .str))]
  | .binary op left right =>
    literalJson [("kind", .str (js "Binary")), ("op", .str op.text), ("left", astJson left),
      ("right", astJson right)]
  | .unary .not operand =>
    literalJson [("kind", .str (js "Unary")), ("op", .str (js "!")), ("operand", astJson operand)]
  | .call fn args =>
    literalJson [("kind", .str (js "Call")), ("fn", .str fn), ("args", .array (argumentsJson args))]

def argumentsJson : List ASTNode → List JsonValue
  | [] => []
  | arg :: args => astJson arg :: argumentsJson args

end

/-- What decides the behaviour of a registry. -/
def normativeJson (registry : CompiledInvariantRegistry) : JsonValue :=
  literalJson [("registry_id", .str registry.registryId), ("version", .str registry.version),
    ("invariants", .array (registry.invariants.map fun inv =>
      literalJson [("id", .str inv.id), ("scope", .str inv.scope.text),
        ("failure_mode", .str inv.failureMode.text), ("ast", astJson inv.ast)]))]

def computeRegistryHash (registry : CompiledInvariantRegistry) : JsString :=
  js (hexEncode (sha256 (Utf8.encode (normativeJson registry).canonicalText.toList)))

/-! ## The snapshot of a registrar -/

namespace Registrar

def mode (r : Registrar) : RegistrarMode :=
  match r.engine with
  | .legacy _ => .legacy
  | .registry _ => .registry
  | .dual _ _ => .dual

def registryHash (r : Registrar) : JsString :=
  match r.engine with
  | .legacy invariants => computeLegacyRegistryHash (invariants.map Invariant.id)
  | .registry registry => computeRegistryHash registry
  | .dual registry _ => computeRegistryHash registry

/-- The latest versions by order index. -/
def frontier (r : Registrar) : List RegisteredState :=
  r.latestById.values.insertionSort fun a b => a.orderIndex ≤ b.orderIndex

/-- The object that assignments build: the one to `__proto__` makes no property. -/
def assignedObject (entries : List (StateID × JsonValue)) : JsonValue :=
  .object ((entries.filter fun e => e.1 ≠ js "__proto__").map fun e => (e.1, some e.2))

def parentJson : Option StateID → JsonValue
  | none => .null
  | some id => .str id

def lineageJson (r : Registrar) : JsonValue :=
  assignedObject (r.frontier.map fun e => (e.id, parentJson (r.resolveSnapshotParentId e)))

def assignedJson (r : Registrar) : JsonValue :=
  assignedObject (r.frontier.map fun e => (e.id, .num (.ofInt e.orderIndex)))

def orderingJson (r : Registrar) : JsonValue :=
  literalJson [("max_index", .num (.ofInt (roundDouble (r.currentOrderIndex - 1)))),
    ("assigned", r.assignedJson)]

def snapshotValue (r : Registrar) : JsonValue :=
  literalJson [("version", .str SNAPSHOT_VERSION), ("registry_hash", .str r.registryHash),
    ("mode", .str r.mode.text), ("state_ids", .array (r.frontier.map fun e => .str e.id)),
    ("lineage", r.lineageJson), ("ordering", r.orderingJson)]

/-- The assignment of null to `__proto__` takes the prototype of the lineage away. -/
def snapshot (r : Registrar) : RawSnapshot :=
  ⟨r.snapshotValue,
    r.frontier.any fun e => e.id = js "__proto__" && (r.resolveSnapshotParentId e).isNone⟩

end Registrar

end Attestia.Registrum
