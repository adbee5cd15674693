import Attestia.EventStore.InMemoryStore

/-!
# Logs of events

A log is valid if every event is what an append makes behind the events before it. The
index of a log is what a store keeps in memory for it.
-/

namespace Attestia.EventStore

open Lib JsonNumber

/-- The hash that the next event continues. -/
def lastHash (log : List StoredEvent) : JsonValue :=
  (log.getLast?.bind fun e => e.hash).getD (.str GENESIS_HASH)

def ofStream (streamId : JsString) (log : List StoredEvent) : List StoredEvent :=
  log.filter fun e => e.streamId = streamId

@[simp] theorem lastHash_append_singleton (log : List StoredEvent) (e : StoredEvent) :
    lastHash (log ++ [e]) = e.hash.getD (.str GENESIS_HASH) := by
  rw [lastHash, List.getLast?_concat]
  rfl

@[simp] theorem ofStream_append (streamId : JsString) (as bs : List StoredEvent) :
    ofStream streamId (as ++ bs) = ofStream streamId as ++ ofStream streamId bs :=
  List.filter_append ..

theorem ofStream_singleton (streamId : JsString) (e : StoredEvent) :
    ofStream streamId [e] = if e.streamId = streamId then [e] else [] := by
  by_cases h : e.streamId = streamId <;> simp [ofStream, h]

theorem ofStream_reload (streamId : JsString) (log : List StoredEvent) :
    ofStream streamId (log.map StoredEvent.reload) =
      (ofStream streamId log).map StoredEvent.reload := by
  rw [ofStream, List.filter_map]
  rfl

theorem lastHash_reload (log : List StoredEvent) :
    lastHash (log.map StoredEvent.reload) = lastHash log := by
  rw [lastHash, lastHash, List.getLast?_map]
  cases log.getLast? <;> rfl

/-! ## Valid logs -/

variable (cz : Canonicalizer)

/-- The event that comes next in the log. -/
structure IsNext (log : List StoredEvent) (e : StoredEvent) : Prop where
  version : e.version = .ofNat ((ofStream e.streamId log).length + 1)
  globalPosition : e.globalPosition = .ofNat (log.length + 1)
  chained : ∃ h, computeEventHash cz e.toEventContent (lastHash log) = .ok h ∧
    e.hash = some (.str h) ∧ e.previousHash = some (lastHash log)

inductive ValidLog : List StoredEvent → Prop where
  | empty : ValidLog []
  | append {log : List StoredEvent} {e : StoredEvent} :
    ValidLog log → IsNext cz log e → ValidLog (log ++ [e])

variable {cz}

theorem ValidLog.of_isPrefix {as log : List StoredEvent} (h : ValidLog cz log) (ha : as <+: log) :
    ValidLog cz as := by
  induction h with
  | empty => exact List.prefix_nil.mp ha ▸ .empty
  | append hlog he ih =>
    obtain rfl | ha := List.prefix_concat_iff.mp ha
    · exact hlog.append he
    · exact ih ha

/-- Hashing succeeds only where the event has an image, and it hashes that. -/
theorem computeEventHash_reload [Rounding] {cz : Canonicalizer} {c : EventContent} {p : JsonValue}
    {h : JsString} (hc : computeEventHash cz c p = .ok h) :
    computeEventHash cz c.reload p = .ok h := by
  obtain ⟨s, hs, hc⟩ := bind_eq_ok.mp hc
  obtain ⟨j, hj, rfl⟩ := cz.eq_text_of_canonicalize c s hs
  rw [EventContent.image] at hj
  cases hb : c.event.image with
  | error err =>
    rw [hb] at hj
    cases hj
  | ok b =>
    rw [hb] at hj
    have himage : c.reload.image = .ok j := by
      rw [EventContent.image, EventContent.reload, EventBody.image_reload hb, ← hj]
      rfl
    exact bind_eq_ok.mpr
      ⟨_, cz.canonicalize_of_isJson c.reload j (EventBody.isJson_reload _) himage, hc⟩

theorem IsNext.reload {log : List StoredEvent} {e : StoredEvent} (h : IsNext cz log e) :
    IsNext cz (log.map StoredEvent.reload) e.reload := by
  obtain ⟨x, hx, hhash, hprev⟩ := h.chained
  refine ⟨?_, ?_, x, ?_, hhash, ?_⟩
  · rw [ofStream_reload, List.length_map]
    exact h.version
  · rw [List.length_map]
    exact h.globalPosition
  · rw [lastHash_reload]
    exact computeEventHash_reload hx
  · rw [lastHash_reload]
    exact hprev

theorem ValidLog.reload {log : List StoredEvent} (h : ValidLog cz log) :
    ValidLog cz (log.map StoredEvent.reload) := by
  induction h with
  | empty => exact .empty
  | append _ he ih =>
    rw [List.map_append]
    exact ih.append he.reload

/-- Where a valid log ends, the verification expects the next event. -/
theorem ValidLog.chainEnd {log : List StoredEvent} (h : ValidLog cz log) :
    (∀ p, (chainEnd .start log).position = some p → p = .ofNat (log.length + 1)) ∧
      JsonValue.str ((EventStore.chainEnd .start log).hash.getD GENESIS_HASH) = lastHash log := by
  cases h with
  | empty => exact ⟨fun p hp => (nomatch hp), rfl⟩
  | @append log e _ he =>
    obtain ⟨x, -, hhash, hprev⟩ := he.chained
    have hlinks : e.links = some (.str x, lastHash log) := by
      rw [StoredEvent.links, hhash, hprev]
    have hend : EventStore.chainEnd .start (log ++ [e]) =
        ⟨some x, some e.globalPosition.next⟩ := by
      rw [EventStore.chainEnd, List.foldl_append, List.foldl_cons, List.foldl_nil,
        ChainEnd.next, hlinks]
      rfl
    rw [hend, lastHash_append_singleton, hhash, he.globalPosition]
    refine ⟨fun p hp => ?_, rfl⟩
    rw [← Option.some.inj hp, Number.next_exact, Number.succ_ofNat, List.length_append]
    rfl

theorem ValidLog.verifies {log : List StoredEvent} (h : ValidLog cz log) : Verifies cz log := by
  rw [verifies_iff]
  induction h with
  | empty => trivial
  | @append log e hlog he ih =>
    obtain ⟨hpos, hhash⟩ := hlog.chainEnd
    obtain ⟨x, hx, hxe, hprev⟩ := he.chained
    have hlinks : e.links = some (.str x, lastHash log) := by
      rw [StoredEvent.links, hxe, hprev]
    refine (chainFrom_append cz _ _ _).mpr ⟨ih, ⟨fun p hp => ?_, ?_⟩, trivial⟩
    · rw [hpos p hp, he.globalPosition]
    · rw [hlinks]
      exact ⟨hhash.symm, x, hx, rfl⟩

/-- Global positions are `1..N`. -/
theorem ValidLog.globalPosition {log : List StoredEvent} (h : ValidLog cz log) :
    log.map (fun e => e.globalPosition) = (List.range log.length).map fun i => .ofNat (i + 1) := by
  induction h with
  | empty => rfl
  | append _ he ih =>
    rw [List.map_append, ih, List.length_append, List.length_singleton, List.range_succ,
      List.map_append, List.map_singleton, List.map_singleton, he.globalPosition]

/-- The versions of a stream are `1..n`. -/
theorem ValidLog.version {log : List StoredEvent} (h : ValidLog cz log) (streamId : JsString) :
    (ofStream streamId log).map (fun e => e.version) =
      (List.range (ofStream streamId log).length).map fun i => .ofNat (i + 1) := by
  induction h with
  | empty => rfl
  | append _ he ih =>
    rw [ofStream_append, List.map_append, ih, ofStream_singleton]
    split
    · rename_i hid
      rw [List.length_append, List.length_singleton, List.range_succ, List.map_append,
        List.map_singleton, List.map_singleton, he.version, hid]
    · rw [List.map_nil, List.append_nil, List.append_nil]

/-! ## The index of a log -/

structure IndexOf (s : EventIndex) (log : List StoredEvent) : Prop where
  globalLog : s.globalLog = log
  stream : ∀ id, s.stream id = ofStream id log
  nextGlobalPosition : s.nextGlobalPosition = .ofNat (log.length + 1)
  lastHash : s.lastHash = lastHash log

theorem indexOf_empty : IndexOf .empty [] := ⟨rfl, fun _ => rfl, rfl, rfl⟩

theorem IndexOf.createStream {s : EventIndex} {log : List StoredEvent} (h : IndexOf s log)
    (id : JsString) : IndexOf (s.createStream id) log :=
  ⟨h.globalLog, fun id' => (EventIndex.stream_createStream s id id').trans (h.stream id'),
    h.nextGlobalPosition, h.lastHash⟩

/-- The index with one more event. -/
def EventIndex.add [Rounding] (s : EventIndex) (e : StoredEvent) : EventIndex :=
  { s.push e with
    nextGlobalPosition := e.globalPosition.next
    lastHash := e.hash.getD s.lastHash }

theorem IndexOf.add {s : EventIndex} {log : List StoredEvent} (h : IndexOf s log)
    {e : StoredEvent} (he : IsNext cz log e) : IndexOf (s.add e) (log ++ [e]) := by
  obtain ⟨x, -, hhash, -⟩ := he.chained
  refine ⟨?_, fun id => ?_, ?_, ?_⟩
  · rw [← h.globalLog]
    rfl
  · rw [ofStream_append, ofStream_singleton, ← h.stream id]
    exact EventIndex.stream_push s e id
  · rw [EventIndex.add, he.globalPosition, Number.next_exact, Number.succ_ofNat, List.length_append]
    rfl
  · rw [EventIndex.add, lastHash_append_singleton, hhash]
    rfl

/-! ## Batches -/

/-- The stored events that an append makes, by the version, the position and the previous hash
that the first of them gets. -/
inductive Chained [Rounding] (cz : Canonicalizer) (streamId appendedAt : JsString) :
    ℕ → Number → JsonValue → List DomainEvent → List StoredEvent → Prop where
  | nil {v : ℕ} {p : Number} {prev : JsonValue} : Chained cz streamId appendedAt v p prev [] []
  | cons {v : ℕ} {p : Number} {prev : JsonValue} {event : DomainEvent} {hash : JsString}
    {events : List DomainEvent} {stored : List StoredEvent} :
    computeEventHash cz (baseEvent streamId appendedAt event v p) prev = .ok hash →
    Chained cz streamId appendedAt (v + 1) p.next (.str hash) events stored →
    Chained cz streamId appendedAt v p prev (event :: events)
      (withHash (baseEvent streamId appendedAt event v p) hash prev :: stored)

section

variable [Rounding] {cz : Canonicalizer} {streamId appendedAt : JsString} {v : ℕ} {p : Number}
  {prev : JsonValue} {events : List DomainEvent} {stored : List StoredEvent}

theorem Chained.map_event (h : Chained cz streamId appendedAt v p prev events stored) :
    stored.map (fun e => e.event) = events := by
  induction h with
  | nil => rfl
  | cons _ _ ih => rw [List.map_cons, ih]; rfl

theorem Chained.length (h : Chained cz streamId appendedAt v p prev events stored) :
    stored.length = events.length := by
  rw [← h.map_event, List.length_map]

theorem Chained.streamId_eq (h : Chained cz streamId appendedAt v p prev events stored) :
    ∀ e ∈ stored, e.streamId = streamId := by
  induction h with
  | nil => exact fun e he => absurd he List.not_mem_nil
  | cons _ _ ih => exact List.forall_mem_cons.mpr ⟨rfl, ih⟩

theorem Chained.links_ne_none (h : Chained cz streamId appendedAt v p prev events stored) :
    ∀ e ∈ stored, e.hash ≠ none ∧ e.previousHash ≠ none := by
  induction h with
  | nil => exact fun e he => absurd he List.not_mem_nil
  | cons _ _ ih =>
    exact List.forall_mem_cons.mpr ⟨⟨Option.some_ne_none _, Option.some_ne_none _⟩, ih⟩

/-- The positions of a batch are written if the first one is. -/
theorem Chained.isWritten_iff (h : Chained cz streamId appendedAt v p prev events stored)
    (hp : p.IsKept) :
    ∀ e ∈ stored, e.globalPosition.IsKept ∧ (e.globalPosition.IsWritten ↔ p.IsWritten) := by
  induction h with
  | nil => exact fun e he => absurd he List.not_mem_nil
  | @cons v p prev event hash events stored _ _ ih =>
    refine List.forall_mem_cons.mpr ⟨⟨hp, Iff.rfl⟩, fun e he => ?_⟩
    obtain ⟨hkept, hwritten⟩ := ih p.isKept_next e he
    exact ⟨hkept, hwritten.trans (Number.isWritten_next hp)⟩

end

section

variable {streamId appendedAt : JsString} {v : ℕ} {p : Number} {prev : JsonValue}
  {events : List DomainEvent} {stored : List StoredEvent}

theorem isNext_of_hash {log : List StoredEvent} {event : DomainEvent} {hash : JsString}
    (h : computeEventHash cz (baseEvent streamId appendedAt event
      ((ofStream streamId log).length + 1) (.ofNat (log.length + 1))) (lastHash log) = .ok hash) :
    IsNext cz log (withHash (baseEvent streamId appendedAt event
      ((ofStream streamId log).length + 1) (.ofNat (log.length + 1))) hash (lastHash log)) :=
  ⟨rfl, rfl, hash, h, rfl, rfl⟩

/-- A batch behind a valid log gives a valid log, and its events extend the index. -/
theorem Chained.append (h : Chained cz streamId appendedAt v p prev events stored)
    {log : List StoredEvent} (hlog : ValidLog cz log) {s : EventIndex} (hs : IndexOf s log)
    (hv : v = (ofStream streamId log).length + 1) (hp : p = .ofNat (log.length + 1))
    (hprev : prev = lastHash log) :
    ValidLog cz (log ++ stored) ∧ IndexOf (stored.foldl EventIndex.add s) (log ++ stored) := by
  induction h generalizing log s with
  | nil => exact ⟨by rwa [List.append_nil], by rwa [List.append_nil]⟩
  | @cons v p prev event hash events stored hhash _ ih =>
    subst hv hp hprev
    have hnext := isNext_of_hash hhash
    rw [← List.singleton_append, ← List.append_assoc, List.singleton_append, List.foldl_cons]
    refine ih (hlog.append hnext) (hs.add hnext) ?_ ?_ ?_
    · rw [ofStream_append, ofStream_singleton]
      simp [withHash, baseEvent]
    · rw [Number.next_exact, Number.succ_ofNat, List.length_append, List.length_singleton]
    · rw [lastHash_append_singleton]
      rfl

end

/-- The loop of the in-memory store makes a batch and adds each of its events. -/
theorem InMemoryEventStore.appendLoop_eq_ok [Rounding] {cz : Canonicalizer}
    {streamId appendedAt : JsString} {events : List DomainEvent} {s s' : EventIndex} {v : ℕ} {stored : List StoredEvent}
    (h : appendLoop cz streamId appendedAt s events v = (s', .ok stored)) :
    Chained cz streamId appendedAt v s.nextGlobalPosition s.lastHash events stored ∧
      s' = stored.foldl EventIndex.add s := by
  induction events generalizing s v stored with
  | nil =>
    cases h
    exact ⟨.nil, rfl⟩
  | cons event events ih =>
    rw [appendLoop] at h
    cases hhash : computeEventHash cz (baseEvent streamId appendedAt event v s.nextGlobalPosition)
        s.lastHash with
    | error err =>
      simp only [hhash] at h
      cases h
    | ok hash =>
      simp only [hhash] at h
      obtain ⟨hfst, hsnd⟩ := Prod.mk.inj h
      cases hrest : (appendLoop cz streamId appendedAt _ events (v + 1)).2 with
      | error err =>
        rw [hrest] at hsnd
        cases hsnd
      | ok rest =>
        rw [hrest] at hsnd
        cases hsnd
        obtain ⟨hch, hs'⟩ := ih (Prod.ext hfst hrest)
        exact ⟨.cons hhash hch, hs'⟩

end Attestia.EventStore
