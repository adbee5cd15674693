import Attestia.EventStore.EventLog
import Attestia.Lib.JsSet
import Attestia.Lib.System

/-!
# Dispatching to subscribers

`_dispatch` calls the handlers of a stream and those of all streams, each with all events of an
append. A handler that runs can append, subscribe and unsubscribe itself; an append of its own is
dispatched in full before the dispatch that has called it goes on.
-/

namespace Attestia.EventStore

open Lib JsonNumber

variable (cz : Canonicalizer)

/-! ## Appending -/

/-- `append` of the in-memory store up to its dispatch. -/
def storeEvents (index : EventIndex) (appendedAt streamId : JsString) (events : List DomainEvent)
    (expectedVersion : Option ExpectedVersion) : EventIndex × Except JsError (List StoredEvent) :=
  let currentVersion := index.streamVersion streamId
  match checkAppend streamId events currentVersion expectedVersion with
  | .error err => (index, .error err)
  | .ok _ =>
    InMemoryEventStore.appendLoop cz streamId appendedAt (index.createStream streamId) events
      (currentVersion + 1)

/-! ## Subscribers -/

/-- A handler as a subscriber of a stream, or of all streams. -/
structure Subscriber where
  streamId : Option JsString
  handler : Handler
  deriving DecidableEq

/-- A set of handlers, with the stream that it was made for. -/
structure HandlerSet where
  streamId : Option JsString
  handlers : JsSet Handler

/-- What a subscribe returns: it keeps the set that it has added its handler to. -/
structure Subscription where
  set : ℕ
  subscriber : Subscriber
  deriving DecidableEq

abbrev HandlerCall := Subscriber × StoredEvent

/-- A dispatch under way: the calls that its current handler still gets, and the sets that are
iterated behind it, each at a slot. -/
structure Dispatch where
  events : List StoredEvent
  due : List HandlerCall
  cursors : List (ℕ × ℕ)
  /-- A handler has been called and has not returned. -/
  running : Bool

structure DispatchState where
  index : EventIndex
  /-- The sets by their identities; the first is that of the global subscribers. -/
  sets : ℕ → HandlerSet
  nextSet : ℕ
  streamSubscribers : JsString → Option ℕ
  subscriptions : List Subscription
  /-- The dispatches under way, the innermost first. -/
  dispatches : List Dispatch
  /-- The calls of handlers, in the order in which they have been made. -/
  calls : List HandlerCall

namespace DispatchState

def new : DispatchState where
  index := .empty
  sets _ := ⟨none, .empty⟩
  nextSet := 1
  streamSubscribers _ := none
  subscriptions := []
  dispatches := []
  calls := []

variable (s : DispatchState)

def setHandlers (set : ℕ) (handlers : JsSet Handler) : DispatchState :=
  { s with sets := Function.update s.sets set ⟨(s.sets set).streamId, handlers⟩ }

/-- The calls with all events, of the subscribers that a set still brings. -/
def callsFrom (events : List StoredEvent) (cursor : ℕ × ℕ) : List HandlerCall :=
  ((s.sets cursor.1).handlers.membersFrom cursor.2).flatMap fun handler =>
    events.map fun event => (⟨(s.sets cursor.1).streamId, handler⟩, event)

/-- The calls that a dispatch makes if nothing changes. -/
def owes (d : Dispatch) : List HandlerCall := d.due ++ d.cursors.flatMap (s.callsFrom d.events)

/-- The calls that the dispatches under way make if nothing changes, in their order. -/
def owed : List HandlerCall := s.dispatches.flatMap s.owes

/-- `_dispatch` of the events of an append, before its first call. -/
def startDispatch (streamId : JsString) (events : List StoredEvent) : Dispatch where
  events := events
  due := []
  cursors := (s.streamSubscribers streamId).toList.map (fun set => (set, 0)) ++ [(0, 0)]
  running := false

def append (appendedAt streamId : JsString) (events : List DomainEvent)
    (expectedVersion : Option ExpectedVersion) : DispatchState :=
  let r := storeEvents cz s.index appendedAt streamId events expectedVersion
  match r.2 with
  | .error _ => { s with index := r.1 }
  | .ok stored =>
    { s with index := r.1, dispatches := s.startDispatch streamId stored :: s.dispatches }

/-- Adds a handler to a set, and returns its subscription. -/
def addTo (set : ℕ) (handler : Handler) : DispatchState :=
  let added := s.setHandlers set ((s.sets set).handlers.add handler)
  { added with
    subscriptions := s.subscriptions ++ [⟨set, ⟨(s.sets set).streamId, handler⟩⟩] }

/-- A new set for a stream that has none. -/
def createSet (streamId : JsString) : DispatchState :=
  { s with
    sets := Function.update s.sets s.nextSet ⟨some streamId, .empty⟩
    nextSet := s.nextSet + 1
    streamSubscribers := Function.update s.streamSubscribers streamId (some s.nextSet) }

/-- A subscription to the empty stream id throws. -/
def subscribe (streamId : JsString) (handler : Handler) : DispatchState :=
  match validateStreamId streamId with
  | .error _ => s
  | .ok _ =>
    match s.streamSubscribers streamId with
    | none => (s.createSet streamId).addTo s.nextSet handler
    | some set => s.addTo set handler

def subscribeAll (handler : Handler) : DispatchState := s.addTo 0 handler

/-- The set of a stream is dropped where it becomes empty, also by a subscription to an older set of
the stream. -/
def unsubscribe (subscription : Subscription) : DispatchState :=
  let handlers := (s.sets subscription.set).handlers.delete subscription.subscriber.handler
  let deleted := s.setHandlers subscription.set handlers
  match subscription.subscriber.streamId with
  | none => deleted
  | some streamId =>
    if handlers.members = [] then
      { deleted with streamSubscribers := Function.update s.streamSubscribers streamId none }
    else deleted

/-- One step of the innermost dispatch, whose handler has returned or thrown. -/
def proceed : DispatchState :=
  match s.dispatches with
  | [] => s
  | d :: ds =>
    match d.due, d.cursors with
    | call :: due, _ =>
      { s with
        calls := s.calls ++ [call]
        dispatches := { d with due := due, running := true } :: ds }
    | [], [] => { s with dispatches := ds }
    | [], (set, slot) :: cursors =>
      match (s.sets set).handlers.slots[slot]? with
      | none => { s with dispatches := { d with cursors := cursors, running := false } :: ds }
      | some o =>
        { s with
          dispatches :=
            { d with
              due := o.toList.flatMap fun handler =>
                d.events.map fun event => (⟨(s.sets set).streamId, handler⟩, event)
              cursors := (set, slot + 1) :: cursors
              running := false } :: ds }

/-- Calls are made where no dispatch is under way, or by the handler that is running. -/
def Open : Prop := ∀ d ∈ s.dispatches.head?, d.running = true

instance : Decidable s.Open := by
  unfold Open
  infer_instance

end DispatchState

inductive DispatchLabel where
  | append (appendedAt streamId : JsString) (events : List DomainEvent)
      (expectedVersion : Option ExpectedVersion)
  | subscribe (streamId : JsString) (handler : Handler)
  | subscribeAll (handler : Handler)
  | unsubscribe (subscription : Subscription)
  | proceed

def dispatchSystem : System DispatchState DispatchLabel where
  init s := s = .new
  next s
    | .append appendedAt streamId events expectedVersion =>
      if s.Open then some (s.append cz appendedAt streamId events expectedVersion) else none
    | .subscribe streamId handler => if s.Open then some (s.subscribe streamId handler) else none
    | .subscribeAll handler => if s.Open then some (s.subscribeAll handler) else none
    | .unsubscribe subscription =>
      if s.Open ∧ subscription ∈ s.subscriptions then some (s.unsubscribe subscription) else none
    | .proceed => if s.dispatches = [] then none else some s.proceed

namespace DispatchState

variable (s : DispatchState)

/-- The subscribers that an append to a stream calls. -/
def callees (streamId : JsString) : List Subscriber :=
  ((s.streamSubscribers streamId).toList ++ [0]).flatMap fun set =>
    (s.sets set).handlers.members.map fun handler => ⟨(s.sets set).streamId, handler⟩

/-- The dispatches under way that still come to what is added to a set. -/
def reaching (set : ℕ) : List Dispatch :=
  s.dispatches.filter fun d => set ∈ d.cursors.map Prod.fst

variable {s s' : DispatchState}

/-! ## Going on -/

theorem owes_of_due {d : Dispatch} {call : HandlerCall} {due : List HandlerCall} (running : Bool)
    (hdue : d.due = call :: due) :
    s.owes d = call :: s.owes { d with due := due, running := running } := by
  rw [owes, owes, hdue]
  rfl

theorem owes_of_end {d : Dispatch} {set slot : ℕ} {cursors : List (ℕ × ℕ)} (hdue : d.due = [])
    (hcursors : d.cursors = (set, slot) :: cursors)
    (h : (s.sets set).handlers.slots[slot]? = none) :
    s.owes d = s.owes { d with due := [], cursors := cursors, running := false } := by
  rw [owes, owes, hdue, hcursors, List.flatMap_cons, callsFrom, JsSet.membersFrom_of_end h]
  rfl

theorem owes_of_slot {d : Dispatch} {set slot : ℕ} {cursors : List (ℕ × ℕ)} {o : Option Handler}
    (hdue : d.due = []) (hcursors : d.cursors = (set, slot) :: cursors)
    (h : (s.sets set).handlers.slots[slot]? = some o) :
    s.owes d = s.owes { d with
      due := o.toList.flatMap fun handler =>
        d.events.map fun event => (⟨(s.sets set).streamId, handler⟩, event)
      cursors := (set, slot + 1) :: cursors
      running := false } := by
  rw [owes, owes, hdue, hcursors, List.nil_append, List.flatMap_cons, List.flatMap_cons, callsFrom,
    callsFrom, JsSet.membersFrom_of_slot h, List.flatMap_append, List.append_assoc]

/-- A step of a dispatch moves at most one call from those owed to those made. -/
theorem calls_owed_proceed : s.proceed.calls ++ s.proceed.owed = s.calls ++ s.owed := by
  rw [proceed]
  cases hds : s.dispatches with
  | nil => rfl
  | cons d ds =>
    have howed : s.owed = s.owes d ++ ds.flatMap s.owes := by rw [owed, hds, List.flatMap_cons]
    dsimp only
    cases hdue : d.due with
    | cons call due =>
      dsimp only
      rw [howed, owes_of_due true hdue, List.append_assoc]
      rfl
    | nil =>
      cases hcursors : d.cursors with
      | nil =>
        dsimp only
        rw [howed, owes, hdue, hcursors]
        rfl
      | cons cursor cursors =>
        obtain ⟨set, slot⟩ := cursor
        dsimp only
        cases hslot : (s.sets set).handlers.slots[slot]? with
        | none =>
          rw [howed, owes_of_end hdue hcursors hslot]
          rfl
        | some o =>
          rw [howed, owes_of_slot hdue hcursors hslot]
          rfl

theorem proceed_frame : s.proceed.index = s.index ∧ s.proceed.sets = s.sets ∧
    s.proceed.nextSet = s.nextSet ∧ s.proceed.streamSubscribers = s.streamSubscribers ∧
    s.proceed.subscriptions = s.subscriptions := by
  rw [proceed]
  split
  · exact ⟨rfl, rfl, rfl, rfl, rfl⟩
  · split
    · exact ⟨rfl, rfl, rfl, rfl, rfl⟩
    · exact ⟨rfl, rfl, rfl, rfl, rfl⟩
    · split <;> exact ⟨rfl, rfl, rfl, rfl, rfl⟩

/-! ## Coming to an end -/

/-- The steps that a cursor still has at most, with the calls that come of them. -/
def cursorSteps (s : DispatchState) (events : List StoredEvent) (cursor : ℕ × ℕ) : ℕ :=
  1 + ((s.sets cursor.1).handlers.slots.length - cursor.2) * (1 + events.length)

def steps (s : DispatchState) (d : Dispatch) : ℕ :=
  1 + d.due.length + (d.cursors.map (s.cursorSteps d.events)).sum

theorem length_due_le {d : Dispatch} (o : Option Handler) (streamId : Option JsString) :
    (o.toList.flatMap fun handler =>
      d.events.map fun event => ((⟨streamId, handler⟩, event) : HandlerCall)).length ≤
        d.events.length := by
  cases o <;> simp

theorem steps_proceed_lt (hne : s.dispatches ≠ []) :
    (s.proceed.dispatches.map s.proceed.steps).sum < (s.dispatches.map s.steps).sum := by
  have hcursorSteps : s.proceed.cursorSteps = s.cursorSteps := by
    funext events cursor
    rw [cursorSteps, cursorSteps, proceed_frame.2.1]
  have hsteps : s.proceed.steps = s.steps := by
    funext d
    rw [steps, steps, hcursorSteps]
  rw [hsteps, proceed]
  cases hds : s.dispatches with
  | nil => exact absurd hds hne
  | cons d ds =>
    dsimp only
    rw [List.map_cons, List.sum_cons]
    cases hdue : d.due with
    | cons call due =>
      dsimp only
      rw [List.map_cons, List.sum_cons, steps, steps, hdue, List.length_cons]
      dsimp only
      omega
    | nil =>
      cases hcursors : d.cursors with
      | nil =>
        dsimp only
        rw [steps]
        omega
      | cons cursor cursors =>
        obtain ⟨set, slot⟩ := cursor
        dsimp only
        cases hslot : (s.sets set).handlers.slots[slot]? with
        | none =>
          dsimp only
          rw [List.map_cons, List.sum_cons, steps, steps, hdue, hcursors, List.map_cons,
            List.sum_cons, cursorSteps]
          dsimp only
          omega
        | some o =>
          have hlt := (List.getElem?_eq_some_iff.mp hslot).1
          have hle := length_due_le (d := d) o (s.sets set).streamId
          dsimp only
          rw [List.map_cons, List.sum_cons, steps, steps, hdue, hcursors, List.map_cons,
            List.map_cons, List.sum_cons, List.sum_cons, cursorSteps, cursorSteps]
          dsimp only
          -- A slot pays for its own step and for the calls of its handler.
          obtain ⟨rest, hrest⟩ : ∃ rest, (s.sets set).handlers.slots.length - slot = rest + 1 :=
            ⟨(s.sets set).handlers.slots.length - slot - 1, by omega⟩
          have hrest' : (s.sets set).handlers.slots.length - (slot + 1) = rest := by omega
          rw [hrest, hrest', Nat.succ_mul]
          omega

/-- The dispatches under way end where their handlers make no calls, and make what they owe. -/
theorem exists_drained (s : DispatchState) : ∃ n,
    proceed^[n] s = { s with calls := s.calls ++ s.owed, dispatches := [] } := by
  induction hsteps : (s.dispatches.map s.steps).sum using Nat.strong_induction_on
    generalizing s with
  | _ k ih =>
    by_cases hne : s.dispatches = []
    · refine ⟨0, ?_⟩
      have howed : s.owed = [] := by rw [owed, hne, List.flatMap_nil]
      rw [howed, List.append_nil]
      cases s
      subst hne
      rfl
    · obtain ⟨n, hn⟩ := ih _ (hsteps ▸ steps_proceed_lt hne) s.proceed rfl
      obtain ⟨hindex, hsets, hnext, hstreams, hsubscriptions⟩ := s.proceed_frame
      refine ⟨n + 1, ?_⟩
      rw [Function.iterate_succ_apply, hn, calls_owed_proceed, hindex, hsets, hnext, hstreams,
        hsubscriptions]

/-! ## Starting -/

/-- A dispatch calls the callees, each with all events. -/
theorem owes_startDispatch (streamId : JsString) (events : List StoredEvent) :
    s.owes (s.startDispatch streamId events) =
      (s.callees streamId).flatMap fun subscriber =>
        events.map fun event => (subscriber, event) := by
  have hset : ∀ set, s.callsFrom events (set, 0) =
      ((s.sets set).handlers.members.map fun handler =>
        (⟨(s.sets set).streamId, handler⟩ : Subscriber)).flatMap fun subscriber =>
          events.map fun event => (subscriber, event) := by
    intro set
    rw [callsFrom, JsSet.membersFrom_zero, List.flatMap_map]
  rw [owes, startDispatch, callees, List.flatMap_assoc, List.nil_append, List.flatMap_append,
    List.flatMap_append, List.flatMap_map]
  congr 1
  · exact List.flatMap_congr fun set _ => hset set
  · simp only [List.flatMap_cons, List.flatMap_nil, List.append_nil, hset]

theorem append_of_stored {cz : Canonicalizer} {appendedAt streamId : JsString}
    {events : List DomainEvent} {expectedVersion : Option ExpectedVersion} {index : EventIndex}
    {stored : List StoredEvent} (h : storeEvents cz s.index appendedAt streamId events
      expectedVersion = (index, .ok stored)) :
    s.append cz appendedAt streamId events expectedVersion = { s with
      index := index, dispatches := s.startDispatch streamId stored :: s.dispatches } := by
  rw [append]
  simp only [h]

/-! ## Joining and leaving -/

theorem sets_setHandlers (set : ℕ) (handlers : JsSet Handler) : (s.setHandlers set handlers).sets =
    Function.update s.sets set ⟨(s.sets set).streamId, handlers⟩ := rfl

@[simp] theorem streamId_setHandlers (set : ℕ) (handlers : JsSet Handler) (other : ℕ) :
    ((s.setHandlers set handlers).sets other).streamId = (s.sets other).streamId := by
  rw [sets_setHandlers, Function.update_apply]
  split
  · rename_i heq
    rw [heq]
  · rfl

@[simp] theorem handlers_setHandlers_self (set : ℕ) (handlers : JsSet Handler) :
    ((s.setHandlers set handlers).sets set).handlers = handlers := by
  rw [sets_setHandlers, Function.update_self]

theorem sets_setHandlers_of_ne {set other : ℕ} (h : other ≠ set) (handlers : JsSet Handler) :
    (s.setHandlers set handlers).sets other = s.sets other := by
  rw [sets_setHandlers, Function.update_of_ne h]

/-- A dispatch owes the same where the sets that it comes to are the same. -/
theorem owes_congr {d : Dispatch}
    (h : ∀ cursor ∈ d.cursors, s'.sets cursor.1 = s.sets cursor.1) : s'.owes d = s.owes d := by
  rw [owes, owes]
  congr 1
  apply List.flatMap_congr
  intro cursor hcursor
  rw [callsFrom, callsFrom, h cursor hcursor]

theorem owes_setHandlers_of_notMem {d : Dispatch} {set : ℕ} (handlers : JsSet Handler)
    (h : set ∉ d.cursors.map Prod.fst) : (s.setHandlers set handlers).owes d = s.owes d := by
  apply owes_congr
  intro cursor hcursor
  apply sets_setHandlers_of_ne
  rintro rfl
  exact h (List.mem_map_of_mem hcursor)

/-- The calls to a handler that a cursor comes to stand behind the others. -/
theorem callsFrom_add {set : ℕ} {handler : Handler} (slot : ℕ) (events : List StoredEvent)
    (h : handler ∉ (s.sets set).handlers.members) :
    InsertedIn (events.map fun event => (⟨(s.sets set).streamId, handler⟩, event))
      (s.callsFrom events (set, slot))
      ((s.setHandlers set ((s.sets set).handlers.add handler)).callsFrom events (set, slot)) := by
  refine ⟨s.callsFrom events (set, slot), [], (List.append_nil _).symm, ?_⟩
  rw [List.append_nil, callsFrom, callsFrom, handlers_setHandlers_self, streamId_setHandlers]
  refine ((JsSet.membersFrom_add h slot).flatMap _).trans ?_
  rw [List.flatMap_append, List.flatMap_singleton]

theorem owes_add {d : Dispatch} {set : ℕ} {handler : Handler}
    (hnodup : (d.cursors.map Prod.fst).Nodup)
    (hset : set ∈ d.cursors.map Prod.fst) (h : handler ∉ (s.sets set).handlers.members) :
    InsertedIn (d.events.map fun event => (⟨(s.sets set).streamId, handler⟩, event)) (s.owes d)
      ((s.setHandlers set ((s.sets set).handlers.add handler)).owes d) := by
  obtain ⟨⟨first, slot⟩, hcursor, heq⟩ := List.mem_map.mp hset
  obtain rfl : set = first := heq.symm
  obtain ⟨front, back, hcursors⟩ := List.append_of_mem hcursor
  rw [hcursors, List.map_append, List.map_cons, List.nodup_middle, ← List.map_append] at hnodup
  have hother : ∀ cursor ∈ front ++ back,
      (s.setHandlers set ((s.sets set).handlers.add handler)).callsFrom d.events cursor =
        s.callsFrom d.events cursor := by
    intro cursor hmem
    rw [callsFrom, callsFrom, sets_setHandlers_of_ne]
    intro heq
    have hmem := List.mem_map_of_mem (f := Prod.fst) hmem
    rw [heq] at hmem
    exact hnodup.notMem hmem
  have hinserted := (callsFrom_add slot d.events h).flatMap hother
  rw [owes, owes, hcursors]
  simpa using hinserted.append d.due []

/-- What the dispatches owe where a handler joins a set that one of them comes to. -/
theorem owed_add {d : Dispatch} {set : ℕ} {handler : Handler}
    (hnodup : (d.cursors.map Prod.fst).Nodup)
    (hreaching : s.reaching set = [d]) (h : handler ∉ (s.sets set).handlers.members) :
    InsertedIn (d.events.map fun event => (⟨(s.sets set).streamId, handler⟩, event)) s.owed
      (s.setHandlers set ((s.sets set).handlers.add handler)).owed := by
  obtain ⟨front, back, hdispatches, hfront, hset, hback⟩ := List.filter_eq_cons_iff.mp hreaching
  have hset := of_decide_eq_true hset
  have howed : ∀ t : DispatchState, t.dispatches = s.dispatches →
      t.owed = (front ++ d :: back).flatMap t.owes := by
    intro t ht
    rw [owed, ht, hdispatches]
  rw [howed s rfl, howed (s.setHandlers _ _) rfl]
  apply (owes_add hnodup hset h).flatMap
  intro other hother
  apply owes_setHandlers_of_notMem
  rcases List.mem_append.mp hother with hother | hother
  · exact of_decide_eq_false (by simpa using hfront other hother)
  · have hnil := List.filter_eq_nil_iff.mp hback other hother
    simpa using hnil

theorem owed_setHandlers_of_unreached {set : ℕ} (handlers : JsSet Handler)
    (h : s.reaching set = []) : (s.setHandlers set handlers).owed = s.owed := by
  apply List.flatMap_congr
  intro d hd
  apply owes_setHandlers_of_notMem
  have hnil := List.filter_eq_nil_iff.mp h d hd
  simpa using hnil

end DispatchState

end Attestia.EventStore
