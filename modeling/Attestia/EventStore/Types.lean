import Attestia.Lib.Except
import Attestia.Lib.Rounding

/-!
# Events, options and errors of the event store

A value that the caller hands over is a JSON value, `undefined`, or another value of the
language, of which only two things are known: that it is not one of these, and what
`JSON.stringify` makes of it. Global positions are read, counted on and written with a rounding
hook, and exact where nothing else is said; the other numbers of an event are only written, hashed
and read back, as the decimals that they are.
-/

namespace Attestia.EventStore

open Lib JsonNumber

inductive EventStoreErrorCode where
  | concurrencyConflict
  | invalidStreamId
  | emptyAppend
  | invalidVersion
  | storeClosed
  | lockTimeout
  | integrityViolation
  | logTooLarge
  deriving DecidableEq

/-- What a call throws. -/
inductive JsError where
  | eventStoreError (code : EventStoreErrorCode) (message : JsString) (streamId : Option JsString)
  | typeError
  | systemError (code : JsString)
  deriving DecidableEq

/-! ## Values -/

inductive JsValue where
  | json (v : JsonValue)
  | undefined
  | other (tag : ℕ) (image : Except JsError (Option JsonValue))

namespace JsValue

/-- `JSON.stringify`: nothing for `undefined` and what is treated like it. -/
def image : JsValue → Except JsError (Option JsonValue)
  | json v => .ok (some v)
  | undefined => .ok none
  | other _ i => i

def ofOption : Option JsonValue → JsValue
  | some v => json v
  | none => undefined

/-- A value that JSON gives back as it is. -/
def IsJson : JsValue → Prop
  | other _ _ => False
  | _ => True

/-- The value that is read back after `JSON.stringify`. -/
def reload (v : JsValue) : JsValue :=
  match v.image with
  | .ok i => ofOption i
  | .error _ => undefined

theorem IsJson.reload {v : JsValue} (h : v.IsJson) : v.reload = v := by
  cases v with
  | other => cases h
  | _ => rfl

theorem IsJson.image {v : JsValue} (h : v.IsJson) : ∃ i, v.image = .ok i := by
  cases v with
  | json v => exact ⟨some v, rfl⟩
  | undefined => exact ⟨none, rfl⟩
  | other => cases h

theorem isJson_ofOption (o : Option JsonValue) : (ofOption o).IsJson := by
  cases o <;> trivial

@[simp] theorem image_ofOption (o : Option JsonValue) : (ofOption o).image = .ok o := by
  cases o <;> rfl

theorem isJson_reload (v : JsValue) : v.reload.IsJson := by
  rw [JsValue.reload]
  split
  · exact isJson_ofOption _
  · trivial

theorem image_reload {v : JsValue} {i : Option JsonValue} (h : v.image = .ok i) :
    v.reload = .ofOption i := by
  rw [JsValue.reload, h]

end JsValue

/-! ## Events -/

/-- The body of a stored event, and the parts of a domain event that the store reads. -/
@[ext] structure EventBody where
  type : JsValue
  metadata : JsValue
  payload : JsValue

abbrev DomainEvent := EventBody

/-- A stored event without its chain fields: what is hashed. -/
@[ext] structure EventContent where
  event : EventBody
  streamId : JsString
  version : Number
  globalPosition : Number
  appendedAt : JsString

/-- A stored event. The chain fields are missing from events of old files. -/
@[ext] structure StoredEvent extends EventContent where
  hash : Option JsonValue
  previousHash : Option JsonValue

namespace EventBody

def image (b : EventBody) : Except JsError JsonValue := do
  let type ← b.type.image
  let metadata ← b.metadata.image
  let payload ← b.payload.image
  return .object [(js "type", type), (js "metadata", metadata), (js "payload", payload)]

def IsJson (b : EventBody) : Prop := b.type.IsJson ∧ b.metadata.IsJson ∧ b.payload.IsJson

def reload (b : EventBody) : EventBody := ⟨b.type.reload, b.metadata.reload, b.payload.reload⟩

theorem IsJson.reload {b : EventBody} (h : b.IsJson) : b.reload = b :=
  EventBody.ext h.1.reload h.2.1.reload h.2.2.reload

theorem IsJson.image {b : EventBody} (h : b.IsJson) : ∃ v, b.image = .ok v := by
  obtain ⟨t, ht⟩ := h.1.image
  obtain ⟨m, hm⟩ := h.2.1.image
  obtain ⟨p, hp⟩ := h.2.2.image
  exact ⟨_, bind_eq_ok.mpr ⟨t, ht, bind_eq_ok.mpr ⟨m, hm, bind_eq_ok.mpr ⟨p, hp, rfl⟩⟩⟩⟩

theorem isJson_reload (b : EventBody) : b.reload.IsJson :=
  ⟨JsValue.isJson_reload _, JsValue.isJson_reload _, JsValue.isJson_reload _⟩

theorem image_eq_ok {b : EventBody} {v : JsonValue} :
    b.image = .ok v ↔ ∃ t m p, b.type.image = .ok t ∧ b.metadata.image = .ok m ∧
      b.payload.image = .ok p ∧
      v = .object [(js "type", t), (js "metadata", m), (js "payload", p)] := by
  constructor
  · intro h
    obtain ⟨t, ht, h⟩ := bind_eq_ok.mp h
    obtain ⟨m, hm, h⟩ := bind_eq_ok.mp h
    obtain ⟨p, hp, h⟩ := bind_eq_ok.mp h
    cases h
    exact ⟨t, m, p, ht, hm, hp, rfl⟩
  · rintro ⟨t, m, p, ht, hm, hp, rfl⟩
    exact bind_eq_ok.mpr ⟨t, ht, bind_eq_ok.mpr ⟨m, hm, bind_eq_ok.mpr ⟨p, hp, rfl⟩⟩⟩

/-- The image of what is read back is the image of what was written. -/
theorem image_reload {b : EventBody} {v : JsonValue} (h : b.image = .ok v) :
    b.reload.image = .ok v := by
  obtain ⟨t, m, p, ht, hm, hp, rfl⟩ := image_eq_ok.mp h
  refine image_eq_ok.mpr ⟨t, m, p, ?_, ?_, ?_, rfl⟩ <;>
    simp only [EventBody.reload, JsValue.image_reload ht, JsValue.image_reload hm,
      JsValue.image_reload hp, JsValue.image_ofOption]

end EventBody

def openedEvent : DomainEvent :=
  ⟨.json (.str (js "account.opened")), .json (.object []), .json (.object [])⟩

theorem isJson_openedEvent : openedEvent.IsJson := ⟨trivial, trivial, trivial⟩

namespace EventContent

/-- The entries of the object literal in source order. -/
def entries [Rounding] (c : EventContent) (event : JsonValue) :
    List (JsString × Option JsonValue) := [
  (js "event", some event), (js "streamId", some (.str c.streamId)),
  (js "version", some (.num c.version)),
  (js "globalPosition", some (.ofNumber c.globalPosition)),
  (js "appendedAt", some (.str c.appendedAt))]

def image [Rounding] (c : EventContent) : Except JsError JsonValue :=
  c.event.image.map fun e => .object (c.entries e)

def reload (c : EventContent) : EventContent := { c with event := c.event.reload }

end EventContent

namespace StoredEvent

/-- The chain fields, where neither of them is missing. -/
def links (e : StoredEvent) : Option (JsonValue × JsonValue) :=
  match e.hash, e.previousHash with
  | some hash, some previousHash => some (hash, previousHash)
  | _, _ => none

/-- What `JSON.stringify` makes of a stored event: one line of the file. -/
def image [Rounding] (e : StoredEvent) : Except JsError JsonValue :=
  e.event.image.map fun b =>
    .object (e.entries b ++ [(js "hash", e.hash), (js "previousHash", e.previousHash)])

def reload (e : StoredEvent) : StoredEvent := { e with event := e.event.reload }

theorem reload_eq_self {e : StoredEvent} (h : e.event.IsJson) : e.reload = e := by
  rw [reload, h.reload]

end StoredEvent

/-! ## Options and results -/

inductive ExpectedVersion where
  | any
  | noStream
  | number (n : ℚ)

structure AppendResult where
  streamId : JsString
  fromVersion : ℕ
  toVersion : ℕ
  count : ℕ
  deriving DecidableEq

inductive ReadDirection where
  | forward
  | backward
  deriving DecidableEq

/-- The options of `read` and `readAll`; `start` is `fromVersion` or `fromPosition`. -/
structure ReadOptions where
  start : Option ℚ
  maxCount : Option ℚ
  direction : Option ReadDirection

structure IntegrityError where
  position : Number
  reason : JsString

structure EventStoreIntegrityResult where
  valid : Bool
  lastVerifiedPosition : Number
  errors : List IntegrityError

/-! ## Checks that both stores make -/

def validateStreamId (streamId : JsString) : Except JsError Unit :=
  if streamId.length = 0 then
    throw (.eventStoreError .invalidStreamId (js "Stream ID must be a non-empty string") none)
  else pure ()

def natString (n : ℕ) : JsString := JsonValue.numberString (.ofNat n)

/-- The checks of `append` before anything is stored, on a stream of `currentVersion` events. -/
def checkAppend (streamId : JsString) (events : List DomainEvent) (currentVersion : ℕ)
    (expectedVersion : Option ExpectedVersion) : Except JsError Unit := do
  validateStreamId streamId
  if events.length = 0 then
    throw (.eventStoreError .emptyAppend (js "Cannot append zero events") (some streamId))
  match expectedVersion with
  | none | some .any => pure ()
  | some .noStream =>
    if currentVersion ≠ 0 then
      throw (.eventStoreError .concurrencyConflict
        (js "Stream \"" ++ streamId ++ js "\" already exists (version " ++ natString currentVersion ++
          js "), expected no_stream") (some streamId))
  | some (.number n) =>
    if (currentVersion : ℚ) ≠ n then
      throw (.eventStoreError .concurrencyConflict
        (js "Stream \"" ++ streamId ++ js "\" is at version " ++ natString currentVersion ++
          js ", expected " ++ JsString.units (numberText n)) (some streamId))

theorem events_ne_nil_of_checkAppend {streamId : JsString} {events : List DomainEvent} {n : ℕ}
    {ev : Option ExpectedVersion} (h : checkAppend streamId events n ev = .ok ()) :
    events ≠ [] := by
  rintro rfl
  obtain ⟨_, -, h⟩ := bind_eq_ok.mp h
  cases h

/-- The slice that `maxCount` takes: a negative limit is ignored. -/
def limit {α : Type} (maxCount : Option ℚ) (events : List α) : List α :=
  match maxCount with
  | some m => if 0 ≤ m then events.take m.floor.toNat else events
  | none => events

/-- The events from a starting point on, in the direction of the options. -/
def select {α : Type} (key : α → Number) (options : ReadOptions) (events : List α) : List α :=
  let start := options.start.getD 1
  limit options.maxCount
    (match options.direction.getD .forward with
    | .forward => events.filter fun e => start ≤ (key e).val
    | .backward => (events.filter fun e => (key e).val ≤ start).reverse)

/-- `read`, on the stream found for the id. -/
def readStream {α : Type} (version : α → Number) (streamId : JsString) (stream : Option (List α))
    (options : ReadOptions) : Except JsError (List α) := do
  validateStreamId streamId
  match stream with
  | none => return []
  | some events =>
    let fromVersion := options.start.getD 1
    if fromVersion < 1 then
      throw (.eventStoreError .invalidVersion
        (js "fromVersion must be >= 1, got " ++ JsString.units (numberText fromVersion))
        (some streamId))
    return select version options events

section

variable {α β : Type} (f : α → β) (key : β → Number) (options : ReadOptions)

theorem limit_map (maxCount : Option ℚ) (events : List α) :
    limit maxCount (events.map f) = (limit maxCount events).map f := by
  unfold limit
  split
  · split
    · exact List.map_take.symm
    · rfl
  · rfl

/-- What is read depends on the events only through their keys. -/
theorem select_map (events : List α) :
    select key options (events.map f) = (select (fun e => key (f e)) options events).map f := by
  unfold select
  simp only [← limit_map]
  congr 1
  split
  · rw [List.filter_map]
    rfl
  · rw [List.filter_map, List.map_reverse]
    rfl

theorem readStream_map (streamId : JsString) (stream : Option (List α)) :
    readStream key streamId (stream.map (List.map f)) options =
      (readStream (fun e => key (f e)) streamId stream options).map (List.map f) := by
  unfold readStream
  cases validateStreamId streamId with
  | error err => rfl
  | ok _ =>
    cases stream with
    | none => rfl
    | some events =>
      by_cases h : options.start.getD 1 < 1
      · simp [h, bind, Except.bind, throw, throwThe, MonadExceptOf.throw, Except.map]
      · simp [h, select_map, bind, Except.bind, pure, Except.pure, Except.map]

end

end Attestia.EventStore
