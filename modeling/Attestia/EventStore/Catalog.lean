import Attestia.EventStore.Types
import Attestia.Lib.JsMap

/-!
# Event catalog

`catalog.ts`: the schemas of the event types and their migrations. A stored event is brought to the
version of its schema by the migrations between the two, which work on a copy of its payload;
nothing but the migrations touches the version that `createVersionedEvent` puts into a payload.
-/

namespace Attestia.EventStore

open Lib JsonNumber

/-- The own properties of a `Record<string, unknown>`. -/
abbrev Payload := JsMap JsString JsValue

/-- The parts of a domain event that the catalog reads. -/
@[ext] structure TypedEvent where
  type : JsString
  metadata : JsValue
  payload : Payload

inductive EventSource where
  | vault
  | treasury
  | registrum
  | observer
  | external
  deriving DecidableEq

structure EventSchema where
  type : JsString
  version : ℕ
  description : JsString
  source : EventSource
  validate : JsValue → Bool

/-- A migration to the next version; what it throws is given by its reason. -/
abbrev EventMigration := Payload → Except JsString Payload

/-- A registered type, with its migrations by the version they start from. -/
structure CatalogEntry where
  schema : EventSchema
  migrations : JsMap ℕ EventMigration

inductive CatalogErrorCode where
  | unknownEventType
  | missingMigration
  | migrationFailed
  deriving DecidableEq

inductive CatalogFault where
  | catalogError (code : CatalogErrorCode) (message : JsString)
  | dataClone
  deriving DecidableEq

def Payload.IsJson (p : Payload) : Prop := ∀ v ∈ p.values, v.IsJson

/-- `structuredClone`, which copies JSON and throws on functions and the like. -/
structure StructuredClone where
  clone : Payload → Option Payload
  json (p : Payload) (h : p.IsJson) : clone p = some p

structure EventCatalog where
  entries : JsMap JsString CatalogEntry

namespace EventCatalog

def new : EventCatalog := ⟨.empty⟩

variable (catalog : EventCatalog)

/-! ## Registration -/

/-- A new version of a type keeps the migrations of the type. -/
def register (schema : EventSchema) : EventCatalog :=
  match catalog.entries.get? schema.type with
  | some existing =>
    if existing.schema.version = schema.version then catalog
    else ⟨catalog.entries.set schema.type ⟨schema, existing.migrations⟩⟩
  | none => ⟨catalog.entries.set schema.type ⟨schema, .empty⟩⟩

def registerMigration (eventType : JsString) (fromVersion : ℕ) (migration : EventMigration) :
    Except CatalogFault EventCatalog :=
  match catalog.entries.get? eventType with
  | none => .error (.catalogError .unknownEventType
      (js "Cannot register migration for unknown event type \"" ++ eventType ++ js "\""))
  | some entry =>
    .ok ⟨catalog.entries.set eventType ⟨entry.schema, entry.migrations.set fromVersion migration⟩⟩

def validate (eventType : JsString) (payload : JsValue) : Bool :=
  match catalog.entries.get? eventType with
  | none => false
  | some entry => entry.schema.validate payload

/-! ## Migration -/

def versionText (v : ℕ) : JsString := JsonValue.numberString (.ofNat v)

def missingMigration (eventType : JsString) (fromVersion targetVersion v : ℕ) : CatalogFault :=
  .catalogError .missingMigration
    (js "Missing migration for \"" ++ eventType ++ js "\" from version " ++ versionText v ++
      js " to " ++ versionText (v + 1) ++ js " (migrating " ++ versionText fromVersion ++
      js " → target version " ++ versionText targetVersion ++
      js "). Hint: register it with catalog.registerMigration(\"" ++ eventType ++ js "\", " ++
      versionText v ++ js ", fn) before reading events stored at version " ++
      versionText fromVersion ++ js ".")

def migrationFailed (eventType : JsString) (v : ℕ) (reason : JsString) : CatalogFault :=
  .catalogError .migrationFailed
    (js "Migration for \"" ++ eventType ++ js "\" from version " ++ versionText v ++ js " to " ++
      versionText (v + 1) ++ js " threw: " ++ reason)

/-- The loop from `v` over the given number of versions. -/
def applyMigrations (eventType : JsString) (fromVersion targetVersion : ℕ)
    (migrations : JsMap ℕ EventMigration) : ℕ → ℕ → Payload → Except CatalogFault Payload
  | 0, _, current => .ok current
  | n + 1, v, current =>
    match migrations.get? v with
    | none => .error (missingMigration eventType fromVersion targetVersion v)
    | some migration => do
      let next ← (migration current).mapError (migrationFailed eventType v)
      applyMigrations eventType fromVersion targetVersion migrations n (v + 1) next

/-- The payload of a type that is not registered, or of a version that is newer, is returned. -/
def migrate (structured : StructuredClone) (eventType : JsString) (payload : Payload)
    (fromVersion : ℕ) : Except CatalogFault Payload :=
  match catalog.entries.get? eventType with
  | none => .ok payload
  | some entry =>
    let targetVersion := entry.schema.version
    if targetVersion ≤ fromVersion then .ok payload
    else
      match structured.clone payload with
      | none => .error .dataClone
      | some current => applyMigrations eventType fromVersion targetVersion entry.migrations
          (targetVersion - fromVersion) fromVersion current

/-- The given event is returned where `migrate` returns its payload, which is the same event. -/
def upcast (structured : StructuredClone) (event : TypedEvent) (storedVersion : ℕ) :
    Except CatalogFault TypedEvent := do
  let migratedPayload ← catalog.migrate structured event.type event.payload storedVersion
  return { event with payload := migratedPayload }

end EventCatalog

/-! ## Versioned events -/

def schemaVersionKey : JsString := js "_schemaVersion"

def createVersionedEvent (type : JsString) (metadata : JsValue) (payload : Payload)
    (schemaVersion : ℕ) : TypedEvent :=
  ⟨type, metadata, payload.set schemaVersionKey (.json (.num (.ofNat schemaVersion)))⟩

/-- A version that is a positive integer, and 1 where there is none. -/
def Payload.schemaVersion (payload : Payload) : ℕ :=
  match payload.get? schemaVersionKey with
  | some (.json ⟨.num version, _⟩) =>
    if version.den = 1 ∧ 0 < version then version.num.toNat else 1
  | _ => 1

def getSchemaVersion (event : TypedEvent) : ℕ := event.payload.schemaVersion

theorem getSchemaVersion_createVersionedEvent {type : JsString} {metadata : JsValue}
    {payload : Payload} {schemaVersion : ℕ} (h : 0 < schemaVersion) :
    getSchemaVersion (createVersionedEvent type metadata payload schemaVersion) = schemaVersion := by
  rw [getSchemaVersion, createVersionedEvent, Payload.schemaVersion, JsMap.get?_set_self]
  show (if (schemaVersion : ℚ).den = 1 ∧ 0 < (schemaVersion : ℚ) then _ else _) = _
  rw [if_pos ⟨Rat.den_natCast _, by exact_mod_cast h⟩]
  rfl

/-! ## Paths -/

/-- The migrations from a version to the target, each applied once. -/
inductive Migrates (migrations : JsMap ℕ EventMigration) (targetVersion : ℕ) :
    ℕ → Payload → Payload → Prop
  | done {p : Payload} : Migrates migrations targetVersion targetVersion p p
  | step {v : ℕ} {migration : EventMigration} {p q r : Payload}
      (hmigration : migrations.get? v = some migration) (hnext : migration p = .ok q)
      (hrest : Migrates migrations targetVersion (v + 1) q r) :
      Migrates migrations targetVersion v p r

variable {migrations : JsMap ℕ EventMigration} {targetVersion v : ℕ} {p q : Payload}

theorem Migrates.le (h : Migrates migrations targetVersion v p q) : v ≤ targetVersion := by
  induction h with
  | done => exact le_rfl
  | step _ _ _ ih => omega

theorem migrates_self : Migrates migrations v v p q ↔ q = p := by
  constructor
  · intro h
    generalize htarget : v = t at h
    cases h with
    | done => rfl
    | step _ _ hrest => exact absurd hrest.le (by omega)
  · rintro rfl
    exact .done

/-- What every migration of a path keeps from version to version. -/
theorem Migrates.invariant {I : ℕ → Payload → Prop} (h : Migrates migrations targetVersion v p q)
    (hstep : ∀ u migration a b, migrations.get? u = some migration → migration a = .ok b →
      I u a → I (u + 1) b) (hp : I v p) : I targetVersion q := by
  induction h with
  | done => exact hp
  | step hmigration hnext _ ih => exact ih (hstep _ _ _ _ hmigration hnext hp)

namespace EventCatalog

theorem applyMigrations_eq_ok {eventType : JsString} {fromVersion : ℕ} {n : ℕ} :
    applyMigrations eventType fromVersion targetVersion migrations n v p = .ok q ↔
      Migrates migrations (v + n) v p q := by
  induction n generalizing v p with
  | zero =>
    rw [applyMigrations, Nat.add_zero, migrates_self]
    exact ⟨fun h => (Except.ok.inj h).symm, fun h => congrArg Except.ok h.symm⟩
  | succ n ih =>
    have hsum : v + (n + 1) = v + 1 + n := by omega
    rw [applyMigrations, hsum]
    constructor
    · intro h
      split at h
      · cases h
      · rename_i migration hmigration
        obtain ⟨next, hnext, h⟩ := bind_eq_ok.mp h
        exact .step hmigration (mapError_eq_ok.mp hnext) (ih.mp h)
    · intro h
      generalize htarget : v + 1 + n = t at h
      cases h with
      | done => omega
      | step hmigration hnext hrest =>
        rw [hmigration]
        subst htarget
        exact bind_eq_ok.mpr ⟨_, mapError_eq_ok.mpr hnext, ih.mpr hrest⟩

variable {catalog : EventCatalog} {structured : StructuredClone} {event event' : TypedEvent}
  {entry : CatalogEntry} {storedVersion : ℕ}

/-- An event of a registered type and of a version that is not newer takes the path to the current
version, from its payload. -/
theorem upcast_eq_ok (hentry : catalog.entries.get? event.type = some entry)
    (hjson : event.payload.IsJson) (hle : storedVersion ≤ entry.schema.version) :
    catalog.upcast structured event storedVersion = .ok event' ↔
      ∃ p, Migrates entry.migrations entry.schema.version storedVersion event.payload p ∧
        event' = { event with payload := p } := by
  rw [upcast, bind_eq_ok]
  apply exists_congr
  intro p
  refine and_congr ?_ ⟨fun h => (Except.ok.inj h).symm, fun h => congrArg Except.ok h.symm⟩
  rw [migrate, hentry]
  dsimp only
  split
  · have hsame : storedVersion = entry.schema.version := by omega
    rw [hsame, migrates_self]
    exact ⟨fun h => (Except.ok.inj h).symm, fun h => congrArg Except.ok h.symm⟩
  · rw [structured.json _ hjson]
    have hsum : storedVersion + (entry.schema.version - storedVersion) = entry.schema.version := by
      omega
    dsimp only
    rw [applyMigrations_eq_ok, hsum]

theorem upcast_current {version : ℕ} (hentry : catalog.entries.get? event.type = some entry)
    (hle : entry.schema.version ≤ version) : catalog.upcast structured event version = .ok event := by
  rw [upcast, migrate, hentry]
  dsimp only
  rw [if_pos hle]
  rfl

/-- Migrations that leave the version in a payload as it is. -/
def KeepsSchemaVersion (migrations : JsMap ℕ EventMigration) : Prop :=
  ∀ u migration a b, migrations.get? u = some migration → migration a = .ok b →
    b.schemaVersion = a.schemaVersion

/-- Migrations that put the version they lead to into the payload. -/
def WritesSchemaVersion (migrations : JsMap ℕ EventMigration) : Prop :=
  ∀ u migration a b, migrations.get? u = some migration → migration a = .ok b →
    b.schemaVersion = u + 1

/-- An upcast applies each migration between the two versions once, and does nothing to an event of
the current version. The version in the payload is left to the migrations. -/
theorem upcast_migrates_once (structured : StructuredClone) (catalog : EventCatalog)
    (event : TypedEvent) (storedVersion : ℕ) (entry : CatalogEntry)
    (hentry : catalog.entries.get? event.type = some entry) (hjson : event.payload.IsJson)
    (hle : storedVersion ≤ entry.schema.version) (event' : TypedEvent) :
    (catalog.upcast structured event storedVersion = .ok event' ↔
      ∃ p, Migrates entry.migrations entry.schema.version storedVersion event.payload p ∧
        event' = { event with payload := p }) ∧
      (catalog.upcast structured event storedVersion = .ok event' →
        catalog.upcast structured event' entry.schema.version = .ok event' ∧
        (KeepsSchemaVersion entry.migrations →
          getSchemaVersion event' = getSchemaVersion event) ∧
        (WritesSchemaVersion entry.migrations → getSchemaVersion event = storedVersion →
          getSchemaVersion event' = entry.schema.version ∧
            catalog.upcast structured event' (getSchemaVersion event') = .ok event')) := by
  have hiff : catalog.upcast structured event storedVersion = .ok event' ↔
      ∃ p, Migrates entry.migrations entry.schema.version storedVersion event.payload p ∧
        event' = { event with payload := p } := upcast_eq_ok hentry hjson hle
  refine ⟨hiff, fun h => ?_⟩
  obtain ⟨p, hpath, rfl⟩ := hiff.mp h
  refine ⟨upcast_current hentry le_rfl, fun hkeeps => ?_, fun hwrites hstored => ?_⟩
  · apply hpath.invariant (I := fun _ q => q.schemaVersion = event.payload.schemaVersion) _ rfl
    intro u migration a b hmigration hnext ha
    exact (hkeeps u migration a b hmigration hnext).trans ha
  · have hversion : p.schemaVersion = entry.schema.version := by
      apply hpath.invariant (I := fun u q => q.schemaVersion = u) _ hstored
      intro u migration a b hmigration hnext _
      exact hwrites u migration a b hmigration hnext
    exact ⟨hversion, upcast_current hentry hversion.ge⟩

/-- A copy that keeps everything. -/
def copied : StructuredClone := ⟨some, fun _ _ => rfl⟩

/-- A migration that adds a field. -/
def added (key value : JsString) : EventMigration := fun p => .ok (p.set key (.json (.str value)))

def thirdSchema : EventSchema := ⟨js "test.event", 3, js "Test schema", .vault, fun _ => true⟩

/-- A type of version 3 with its two migrations. -/
def thirdVersion : CatalogEntry :=
  ⟨thirdSchema, (JsMap.empty.set 1 (added (js "fieldV2") (js "from-v1"))).set 2
    (added (js "fieldV3") (js "from-v2"))⟩

def thirdCatalog : EventCatalog := ⟨JsMap.empty.set (js "test.event") thirdVersion⟩

def stored : TypedEvent :=
  ⟨js "test.event", .json .null, JsMap.empty.set (js "id") (.json (.str (js "123")))⟩

example : (do
    let catalog ← (new.register thirdSchema).registerMigration (js "test.event") 1
      (added (js "fieldV2") (js "from-v1"))
    catalog.registerMigration (js "test.event") 2 (added (js "fieldV3") (js "from-v2"))) =
      .ok thirdCatalog := rfl

theorem isJson_stored : stored.payload.IsJson := by
  intro v hv
  rw [List.mem_singleton.mp hv]
  trivial

def upcasted : TypedEvent :=
  ⟨stored.type, stored.metadata, (stored.payload.set (js "fieldV2") (.json (.str (js "from-v1")))).set
    (js "fieldV3") (.json (.str (js "from-v2")))⟩

theorem upcast_stored : thirdCatalog.upcast copied stored 1 = .ok upcasted := rfl

theorem upcast_migrates_once_third : thirdCatalog.upcast copied upcasted 3 = .ok upcasted :=
  ((upcast_migrates_once copied thirdCatalog stored 1 thirdVersion rfl isJson_stored (by decide)
    upcasted).2 upcast_stored).1

/-- The event that the migrations have brought to version 3 says that it is of version 1. -/
theorem upcast_version_unwritten : ¬ ∀ (structured : StructuredClone) (catalog : EventCatalog)
    (event : TypedEvent) (storedVersion : ℕ) (entry : CatalogEntry) (p : Payload),
    catalog.entries.get? event.type = some entry → event.payload.IsJson →
      Migrates entry.migrations entry.schema.version storedVersion event.payload p →
        ∃ event', catalog.upcast structured event storedVersion = .ok event' ∧
          getSchemaVersion event' = entry.schema.version ∧
          catalog.upcast structured event' (getSchemaVersion event') = .ok event' ∧
          event'.payload = p := by
  intro h
  have hpath : Migrates thirdVersion.migrations thirdVersion.schema.version 1 stored.payload
      upcasted.payload := .step rfl rfl (.step rfl rfl .done)
  obtain ⟨event', hupcast, hversion, -, -⟩ := h copied thirdCatalog stored 1 thirdVersion
    upcasted.payload rfl isJson_stored hpath
  rw [upcast_stored] at hupcast
  rw [← Except.ok.inj hupcast] at hversion
  have hone : getSchemaVersion upcasted = 1 := by decide +kernel
  rw [hone] at hversion
  exact absurd hversion (by decide)

end EventCatalog

end Attestia.EventStore
