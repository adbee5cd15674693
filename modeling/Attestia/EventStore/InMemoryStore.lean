import Attestia.EventStore.HashChain

/-!
# The in-memory event store

The index that both stores keep, and `InMemoryEventStore`. A handler is known by its
identity only; `append` lists the calls that the dispatch makes, as long as no handler
changes the store while it runs.
-/

namespace Attestia.EventStore

open Lib JsonNumber

/-! ## The index -/

/-- The events by stream and in global order, and where the next one goes. -/
structure EventIndex where
  streams : JsString → Option (List StoredEvent)
  globalLog : List StoredEvent
  nextGlobalPosition : Number
  lastHash : JsonValue

namespace EventIndex

def empty : EventIndex := ⟨fun _ => none, [], .ofNat 1, .str GENESIS_HASH⟩

/-- The events of a stream; one that was never created has none. -/
def stream (s : EventIndex) (streamId : JsString) : List StoredEvent :=
  (s.streams streamId).getD []

def streamVersion (s : EventIndex) (streamId : JsString) : ℕ := (s.stream streamId).length

/-- `globalPosition()`. -/
def globalPosition (s : EventIndex) : ℚ := s.nextGlobalPosition.val - 1

def setStream (s : EventIndex) (streamId : JsString) (events : List StoredEvent) : EventIndex :=
  { s with streams := fun id => if id = streamId then some events else s.streams id }

/-- Creates the stream if it does not exist. -/
def createStream (s : EventIndex) (streamId : JsString) : EventIndex :=
  s.setStream streamId (s.stream streamId)

/-- Pushes an event to its stream and to the global log. -/
def push (s : EventIndex) (e : StoredEvent) : EventIndex :=
  { s.setStream e.streamId (s.stream e.streamId ++ [e]) with globalLog := s.globalLog ++ [e] }

def read (s : EventIndex) (streamId : JsString) (options : ReadOptions) :
    Except JsError (List StoredEvent) :=
  readStream (fun e => e.version) streamId (s.streams streamId) options

def readAll (s : EventIndex) (options : ReadOptions) : List StoredEvent :=
  select (fun e => e.globalPosition) options s.globalLog

@[simp] theorem stream_setStream_self (s : EventIndex) (id : JsString) (es : List StoredEvent) :
    (s.setStream id es).stream id = es := by simp [setStream, stream]

theorem stream_setStream_ne (s : EventIndex) {id id' : JsString} (h : id' ≠ id)
    (es : List StoredEvent) : (s.setStream id es).stream id' = s.stream id' := by
  simp [setStream, stream, h]

@[simp] theorem stream_createStream (s : EventIndex) (id id' : JsString) :
    (s.createStream id).stream id' = s.stream id' := by
  by_cases h : id' = id
  · subst h
    exact stream_setStream_self _ _ _
  · exact stream_setStream_ne _ h _

theorem stream_push (s : EventIndex) (e : StoredEvent) (id : JsString) :
    (s.push e).stream id = s.stream id ++ if e.streamId = id then [e] else [] := by
  by_cases h : e.streamId = id
  · subst h
    simp [push, setStream, stream]
  · have h' : ¬ id = e.streamId := fun x => h x.symm
    simp [push, setStream, stream, h, h']

end EventIndex

/-! ## Handlers -/

abbrev Handler := ℕ

structure Subscribers where
  streamSubscribers : JsString → Option (List Handler)
  globalSubscribers : List Handler

namespace Subscribers

def empty : Subscribers := ⟨fun _ => none, []⟩

/-- The calls of `_dispatch`, stream subscribers first, each with all events in turn. -/
def dispatch (s : Subscribers) (streamId : JsString) (events : List StoredEvent) :
    List (Handler × StoredEvent) :=
  (((s.streamSubscribers streamId).getD []) ++ s.globalSubscribers).flatMap fun handler =>
    events.map fun event => (handler, event)

end Subscribers

/-! ## Appending -/

/-- The event that an append makes of the element it has reached. -/
def baseEvent (streamId appendedAt : JsString) (event : DomainEvent) (version : ℕ)
    (globalPosition : Number) : EventContent :=
  ⟨event, streamId, .ofNat version, globalPosition, appendedAt⟩

def withHash (base : EventContent) (hash : JsString) (previousHash : JsonValue) : StoredEvent :=
  ⟨base, some (.str hash), some previousHash⟩

def appendResult (streamId : JsString) (currentVersion count : ℕ) : AppendResult :=
  ⟨streamId, currentVersion + 1, currentVersion + count, count⟩

structure InMemoryEventStore where
  index : EventIndex
  subscribers : Subscribers

/-- What a call of `append` leaves behind. -/
structure AppendOutcome (σ : Type) where
  store : σ
  result : Except JsError AppendResult
  notified : List (Handler × StoredEvent)

namespace InMemoryEventStore

def new : InMemoryEventStore := ⟨.empty, .empty⟩

variable [Rounding] (cz : Canonicalizer)

/-- The loop of `append`: the position is taken before the event is hashed, and each event is
stored in its own round. -/
def appendLoop (streamId appendedAt : JsString) :
    EventIndex → List DomainEvent → ℕ → EventIndex × Except JsError (List StoredEvent)
  | s, [], _ => (s, .ok [])
  | s, event :: events, version =>
    let base := baseEvent streamId appendedAt event version s.nextGlobalPosition
    let s₁ := { s with nextGlobalPosition := s.nextGlobalPosition.next }
    match computeEventHash cz base s.lastHash with
    | .error err => (s₁, .error err)
    | .ok hash =>
      let stored := withHash base hash s.lastHash
      let s₂ := ({ s₁ with lastHash := .str hash }).push stored
      let r := appendLoop streamId appendedAt s₂ events (version + 1)
      (r.1, r.2.map fun rest => stored :: rest)

def append (s : InMemoryEventStore) (appendedAt streamId : JsString) (events : List DomainEvent)
    (expectedVersion : Option ExpectedVersion) : AppendOutcome InMemoryEventStore :=
  let currentVersion := s.index.streamVersion streamId
  match checkAppend streamId events currentVersion expectedVersion with
  | .error err => ⟨s, .error err, []⟩
  | .ok _ =>
    let r := appendLoop cz streamId appendedAt (s.index.createStream streamId) events
      (currentVersion + 1)
    match r.2 with
    | .error err => ⟨{ s with index := r.1 }, .error err, []⟩
    | .ok stored => ⟨{ s with index := r.1 },
        .ok (appendResult streamId currentVersion events.length),
        s.subscribers.dispatch streamId stored⟩

/-- How an append ends. -/
theorem append_cases (s : InMemoryEventStore) (appendedAt streamId : JsString)
    (events : List DomainEvent) (ev : Option ExpectedVersion) :
    (∃ err, checkAppend streamId events (s.index.streamVersion streamId) ev = .error err ∧
      s.append cz appendedAt streamId events ev = ⟨s, .error err, []⟩) ∨
    checkAppend streamId events (s.index.streamVersion streamId) ev = .ok () ∧
      ∃ index r, appendLoop cz streamId appendedAt (s.index.createStream streamId) events
          (s.index.streamVersion streamId + 1) = (index, r) ∧
        ((∃ err, r = .error err ∧ s.append cz appendedAt streamId events ev =
            ⟨{ s with index }, .error err, []⟩) ∨
          ∃ stored, r = .ok stored ∧ s.append cz appendedAt streamId events ev =
            ⟨{ s with index },
              .ok (appendResult streamId (s.index.streamVersion streamId) events.length),
              s.subscribers.dispatch streamId stored⟩) := by
  cases hcheck : checkAppend streamId events (s.index.streamVersion streamId) ev with
  | error err => exact .inl ⟨err, rfl, by simp only [append, hcheck]⟩
  | ok _ =>
    refine .inr ⟨rfl, _, _, rfl, ?_⟩
    cases hloop : (appendLoop cz streamId appendedAt (s.index.createStream streamId) events
        (s.index.streamVersion streamId + 1)).2 with
    | error err => exact .inl ⟨err, rfl, by simp only [append, hcheck, hloop]⟩
    | ok stored => exact .inr ⟨stored, rfl, by simp only [append, hcheck, hloop]⟩

def read (s : InMemoryEventStore) := s.index.read

def readAll (s : InMemoryEventStore) := s.index.readAll

def verifyIntegrity (s : InMemoryEventStore) := verifyHashChain cz s.index.globalLog

end InMemoryEventStore

end Attestia.EventStore
