import Attestia.EventStore.Dispatch
import Attestia.EventStore.StoreRefinement

/-!
# The order of deliveries

Each subscriber sees events of increasing positions, as long as an append that a handler makes calls
no subscriber that still awaits an event, and a handler that joins a set is not called with events
that it has gone past.
-/

namespace Attestia.EventStore

open Lib JsonNumber

variable (cz : Canonicalizer)

/-! ## Order -/

namespace DispatchState

variable (s : DispatchState)

/-- The events that a subscriber has been called with. -/
def seen (subscriber : Subscriber) : List StoredEvent :=
  (s.calls.filter fun call => call.1 = subscriber).map Prod.snd

/-- Every subscriber has been called with events of increasing positions. -/
def Ordered : Prop :=
  ∀ subscriber, (s.seen subscriber).Pairwise fun e e' =>
    e.globalPosition.val < e'.globalPosition.val

/-- A dispatch under way still makes a call to the subscriber. -/
def Awaits (subscriber : Subscriber) : Prop := ∃ event, (subscriber, event) ∈ s.owed

/-- A handler joins a set that it is in already, or one that no dispatch under way comes to, or one
that a single dispatch comes to, with events behind all that it has seen, while it awaits none. -/
def JoinsInTime (set : ℕ) (handler : Handler) : Prop :=
  handler ∈ (s.sets set).handlers.members ∨
    ∀ d ∈ s.reaching set, s.reaching set = [d] ∧ ¬ s.Awaits ⟨(s.sets set).streamId, handler⟩ ∧
      ∀ e ∈ d.events, ∀ e' ∈ s.seen ⟨(s.sets set).streamId, handler⟩,
        e'.globalPosition.val < e.globalPosition.val

/-- An append calls no subscriber that awaits an event, and a handler joins in time. -/
def InTime : DispatchLabel → Prop
  | .append _ streamId _ _ => ∀ subscriber ∈ s.callees streamId, ¬ s.Awaits subscriber
  | .subscribe streamId handler => ∀ set, s.streamSubscribers streamId = some set →
      s.JoinsInTime set handler
  | .subscribeAll handler => s.JoinsInTime 0 handler
  | _ => True

end DispatchState

/-- The calls of each subscriber have increasing positions. -/
def InOrder (calls : List HandlerCall) : Prop :=
  calls.Pairwise fun x y => x.1 = y.1 → x.2.globalPosition.val < y.2.globalPosition.val

theorem ordered_of_inOrder {s : DispatchState} (h : InOrder s.calls) : s.Ordered := by
  intro subscriber
  rw [DispatchState.seen, List.pairwise_map]
  refine (h.filter _).imp_of_mem ?_
  intro x y hx hy hxy
  exact hxy ((of_decide_eq_true (List.mem_filter.mp hx).2).trans
    (of_decide_eq_true (List.mem_filter.mp hy).2).symm)

theorem InOrder.sublist {calls calls' : List HandlerCall} (h : InOrder calls)
    (hsub : calls'.Sublist calls) : InOrder calls' := List.Pairwise.sublist hsub h

/-- Calls of one kind between others: all of its subscribers are late before and early behind. -/
theorem InOrder.insert {before new behind : List HandlerCall} (h : InOrder (before ++ behind))
    (hnew : InOrder new)
    (hbefore : ∀ x ∈ before, ∀ y ∈ new, x.1 = y.1 → x.2.globalPosition.val < y.2.globalPosition.val)
    (hbehind : ∀ x ∈ new, ∀ y ∈ behind, x.1 ≠ y.1) : InOrder (before ++ new ++ behind) := by
  obtain ⟨hfront, hback, hcross⟩ := List.pairwise_append.mp h
  rw [InOrder, List.append_assoc, List.pairwise_append]
  refine ⟨hfront, List.pairwise_append.mpr ⟨hnew, hback, ?_⟩, ?_⟩
  · exact fun x hx y hy heq => absurd heq (hbehind x hx y hy)
  · intro x hx y hy
    rcases List.mem_append.mp hy with hy | hy
    · exact hbefore x hx y hy
    · exact hcross x hx y hy

theorem inOrder_map {events : List StoredEvent} (subscriber : Subscriber)
    (h : events.Pairwise fun e e' => e.globalPosition.val < e'.globalPosition.val) :
    InOrder (events.map fun event => (subscriber, event)) := by
  rw [InOrder, List.pairwise_map]
  refine h.imp ?_
  intro e e' hlt _
  exact hlt

/-- All events for each of distinct subscribers. -/
theorem inOrder_flatMap {events : List StoredEvent} {subscribers : List Subscriber}
    (hnodup : subscribers.Nodup)
    (h : events.Pairwise fun e e' => e.globalPosition.val < e'.globalPosition.val) :
    InOrder (subscribers.flatMap fun subscriber =>
      events.map fun event => (subscriber, event)) := by
  rw [InOrder, List.pairwise_flatMap]
  refine ⟨fun subscriber _ => inOrder_map subscriber h, hnodup.imp ?_⟩
  intro a b hne x hx y hy heq
  obtain ⟨_, -, rfl⟩ := List.mem_map.mp hx
  obtain ⟨_, -, rfl⟩ := List.mem_map.mp hy
  exact absurd heq hne

/-- What one subscriber sees of all events for each of distinct subscribers. -/
theorem seen_flatMap {subscribers : List Subscriber} (hnodup : subscribers.Nodup)
    (events : List StoredEvent) (subscriber : Subscriber) :
    ((subscribers.flatMap fun other =>
      events.map fun event => ((other, event) : HandlerCall)).filter
        fun call => call.1 = subscriber).map Prod.snd =
        if subscriber ∈ subscribers then events else [] := by
  induction subscribers with
  | nil => rfl
  | cons other others ih =>
    obtain ⟨hother, hnodup⟩ := List.nodup_cons.mp hnodup
    rw [List.flatMap_cons, List.filter_append, List.map_append, ih hnodup, List.filter_map,
      List.map_map]
    by_cases heq : other = subscriber
    · subst heq
      rw [if_neg hother, if_pos List.mem_cons_self, List.append_nil]
      simp [Function.comp_def]
    · have hmem : subscriber ∈ other :: others ↔ subscriber ∈ others := by
        rw [List.mem_cons, or_iff_right (Ne.symm heq)]
      simp only [hmem]
      simp [Function.comp_def, heq]

/-! ## Positions -/

theorem positions_appendLoop {appendedAt streamId : JsString} {events : List DomainEvent}
    {s s' : EventIndex} {version : ℕ} {r : Except JsError (List StoredEvent)}
    (h : InMemoryEventStore.appendLoop cz streamId appendedAt s events version = (s', r)) :
    s.nextGlobalPosition.val ≤ s'.nextGlobalPosition.val ∧ ∀ stored, r = .ok stored →
      (stored.Pairwise fun e e' => e.globalPosition.val < e'.globalPosition.val) ∧
      ∀ e ∈ stored, s.nextGlobalPosition.val ≤ e.globalPosition.val ∧
        e.globalPosition.val < s'.nextGlobalPosition.val := by
  induction events generalizing s version r with
  | nil =>
    cases h
    refine ⟨le_rfl, ?_⟩
    rintro _ ⟨⟩
    exact ⟨.nil, List.forall_mem_nil _⟩
  | cons event events ih =>
    rw [InMemoryEventStore.appendLoop] at h
    have hsucc : s.nextGlobalPosition.val < s.nextGlobalPosition.succ.val := lt_add_one _
    cases hhash : computeEventHash cz
        (baseEvent streamId appendedAt event version s.nextGlobalPosition) s.lastHash with
    | error err =>
      simp only [hhash] at h
      cases h
      refine ⟨hsucc.le, ?_⟩
      rintro _ ⟨⟩
    | ok hash =>
      simp only [hhash] at h
      obtain ⟨hindex, hr⟩ := Prod.mk.inj h
      obtain ⟨hle, hstored⟩ := ih (Prod.ext hindex rfl)
      refine ⟨hsucc.le.trans hle, ?_⟩
      intro stored hok
      rw [hok] at hr
      obtain ⟨rest, hrest, rfl⟩ := map_eq_ok.mp hr
      obtain ⟨hpairwise, hbounds⟩ := hstored rest hrest
      refine ⟨List.pairwise_cons.mpr ⟨?_, hpairwise⟩, List.forall_mem_cons.mpr ⟨?_, ?_⟩⟩
      · exact fun e he => hsucc.trans_le (hbounds e he).1
      · exact ⟨le_rfl, hsucc.trans_le hle⟩
      · exact fun e he => ⟨hsucc.le.trans (hbounds e he).1, (hbounds e he).2⟩

theorem positions_storeEvents {appendedAt streamId : JsString} {events : List DomainEvent}
    {index index' : EventIndex} {expectedVersion : Option ExpectedVersion}
    {r : Except JsError (List StoredEvent)}
    (h : storeEvents cz index appendedAt streamId events expectedVersion = (index', r)) :
    index.nextGlobalPosition.val ≤ index'.nextGlobalPosition.val ∧ ∀ stored, r = .ok stored →
      (stored.Pairwise fun e e' => e.globalPosition.val < e'.globalPosition.val) ∧
      ∀ e ∈ stored, index.nextGlobalPosition.val ≤ e.globalPosition.val ∧
        e.globalPosition.val < index'.nextGlobalPosition.val := by
  rw [storeEvents] at h
  cases hcheck : checkAppend streamId events (index.streamVersion streamId) expectedVersion with
  | error err =>
    simp only [hcheck] at h
    cases h
    refine ⟨le_rfl, ?_⟩
    rintro _ ⟨⟩
  | ok _ =>
    simp only [hcheck] at h
    -- A stream that is created leaves the next position as it is.
    have hloop := positions_appendLoop cz h
    exact hloop

/-! ## The invariant -/

/-- What holds of a dispatch under way. -/
structure Dispatch.Sound (d : Dispatch) (s : DispatchState) : Prop where
  events : d.events.Pairwise fun e e' => e.globalPosition.val < e'.globalPosition.val
  cursors : (d.cursors.map Prod.fst).Nodup
  sets : ∀ cursor ∈ d.cursors, cursor.1 < s.nextSet
  below : ∀ e ∈ d.events, e.globalPosition.val < s.index.nextGlobalPosition.val

theorem Dispatch.Sound.mono {d : Dispatch} {s s' : DispatchState} (h : d.Sound s)
    (hnext : s.nextSet ≤ s'.nextSet)
    (hindex : s.index.nextGlobalPosition.val ≤ s'.index.nextGlobalPosition.val) : d.Sound s' where
  events := h.events
  cursors := h.cursors
  sets cursor hcursor := (h.sets cursor hcursor).trans_le hnext
  below e he := (h.below e he).trans_le hindex

namespace DispatchState

/-- The sets of a stream are told apart from that of the global subscribers by their identities. -/
structure Named (s : DispatchState) : Prop where
  nextSet : 0 < s.nextSet
  global : (s.sets 0).streamId = none
  named : ∀ streamId set, s.streamSubscribers streamId = some set →
    0 < set ∧ set < s.nextSet ∧ (s.sets set).streamId = some streamId

theorem named_new : new.Named where
  nextSet := Nat.one_pos
  global := rfl
  named := by rintro _ _ ⟨⟩

variable {s s' : DispatchState}

/-- A step that makes no set. -/
theorem Named.of_sets (h : s.Named) (hsets : ∀ set, (s'.sets set).streamId = (s.sets set).streamId)
    (hnext : s'.nextSet = s.nextSet)
    (hstreams : ∀ streamId set, s'.streamSubscribers streamId = some set →
      s.streamSubscribers streamId = some set) : s'.Named where
  nextSet := by rw [hnext]; exact h.nextSet
  global := by rw [hsets]; exact h.global
  named streamId set hset := by
    rw [hsets, hnext]
    exact h.named streamId set (hstreams streamId set hset)

theorem Named.nodup_callees (h : s.Named) (streamId : JsString) : (s.callees streamId).Nodup := by
  have hset : ∀ set, ((s.sets set).handlers.members.map fun handler =>
      (⟨(s.sets set).streamId, handler⟩ : Subscriber)).Nodup := by
    intro set
    refine (s.sets set).handlers.nodup.map ?_
    intro a b hab
    exact (Subscriber.mk.inj hab).2
  rw [callees]
  cases hstream : s.streamSubscribers streamId with
  | none => simpa using hset 0
  | some set =>
    have hnamed := (h.named streamId set hstream).2.2
    rw [Option.toList_some, List.singleton_append, List.flatMap_cons, List.flatMap_cons,
      List.flatMap_nil, List.append_nil]
    refine List.nodup_append.mpr ⟨hset set, hset 0, ?_⟩
    -- The global subscribers are of no stream.
    intro a ha b hb hab
    obtain ⟨_, -, rfl⟩ := List.mem_map.mp ha
    obtain ⟨_, -, rfl⟩ := List.mem_map.mp hb
    have hstreamId := (Subscriber.mk.inj hab).1
    rw [hnamed, h.global] at hstreamId
    cases hstreamId

theorem Named.append (h : s.Named) (cz : Canonicalizer) (appendedAt streamId : JsString)
    (events : List DomainEvent) (expectedVersion : Option ExpectedVersion) :
    (s.append cz appendedAt streamId events expectedVersion).Named := by
  rw [DispatchState.append]
  split
  all_goals exact h.of_sets (fun _ => rfl) rfl fun _ _ => id

theorem Named.proceed (h : s.Named) : s.proceed.Named := by
  rw [DispatchState.proceed]
  split
  · exact h
  · split
    · exact h.of_sets (fun _ => rfl) rfl fun _ _ => id
    · exact h.of_sets (fun _ => rfl) rfl fun _ _ => id
    · split
      all_goals exact h.of_sets (fun _ => rfl) rfl fun _ _ => id

theorem Named.addTo (h : s.Named) (set : ℕ) (handler : Handler) : (s.addTo set handler).Named :=
  h.of_sets (streamId_setHandlers set _) rfl fun _ _ => id

theorem sets_createSet (streamId : JsString) : (s.createSet streamId).sets =
    Function.update s.sets s.nextSet ⟨some streamId, .empty⟩ := rfl

theorem sets_createSet_of_lt (streamId : JsString) {set : ℕ} (hlt : set < s.nextSet) :
    (s.createSet streamId).sets set = s.sets set := by
  rw [sets_createSet, Function.update_of_ne hlt.ne]

theorem Named.createSet (h : s.Named) (streamId : JsString) : (s.createSet streamId).Named where
  nextSet := Nat.succ_pos _
  global := by
    rw [sets_createSet_of_lt streamId h.nextSet]
    exact h.global
  named other set hset := by
    change Function.update s.streamSubscribers streamId (some s.nextSet) other = some set at hset
    by_cases heq : other = streamId
    · rw [heq, Function.update_self] at hset
      cases hset
      refine ⟨h.nextSet, Nat.lt_succ_self _, ?_⟩
      rw [sets_createSet, Function.update_self, heq]
    · rw [Function.update_of_ne heq] at hset
      obtain ⟨hpos, hlt, hnamed⟩ := h.named other set hset
      exact ⟨hpos, hlt.trans (Nat.lt_succ_self _), by rw [sets_createSet_of_lt streamId hlt, hnamed]⟩

theorem Named.subscribe (h : s.Named) (streamId : JsString) (handler : Handler) :
    (s.subscribe streamId handler).Named := by
  rw [DispatchState.subscribe]
  split
  · exact h
  · split
    · exact (h.createSet streamId).addTo _ handler
    · exact h.addTo _ handler

theorem Named.unsubscribe (h : s.Named) (subscription : Subscription) :
    (s.unsubscribe subscription).Named := by
  have hdeleted : (s.setHandlers subscription.set
      ((s.sets subscription.set).handlers.delete subscription.subscriber.handler)).Named :=
    h.of_sets (streamId_setHandlers subscription.set _) rfl fun _ _ => id
  rw [DispatchState.unsubscribe]
  cases subscription.subscriber.streamId with
  | none => exact hdeleted
  | some streamId =>
    dsimp only
    split
    · refine hdeleted.of_sets (fun _ => rfl) rfl fun other set hset => ?_
      change Function.update s.streamSubscribers streamId none other = some set at hset
      by_cases heq : other = streamId
      · rw [heq, Function.update_self] at hset
        cases hset
      · rw [Function.update_of_ne heq] at hset
        exact hset
    · exact hdeleted

/-- The calls made and owed are in order. -/
structure Inv (s : DispatchState) : Prop extends s.Named where
  inOrder : InOrder (s.calls ++ s.owed)
  below : ∀ call ∈ s.calls ++ s.owed,
    call.2.globalPosition.val < s.index.nextGlobalPosition.val
  dispatches : ∀ d ∈ s.dispatches, d.Sound s

theorem inv_new : new.Inv where
  toNamed := named_new
  inOrder := .nil
  below := by rintro _ ⟨⟩
  dispatches := by rintro _ ⟨⟩

/-- A step that stores no event and makes no set. -/
theorem Inv.of_owed (h : s.Inv) (hindex : s'.index = s.index)
    (hsets : ∀ set, (s'.sets set).streamId = (s.sets set).streamId)
    (hnext : s'.nextSet = s.nextSet)
    (hstreams : ∀ streamId set, s'.streamSubscribers streamId = some set →
      s.streamSubscribers streamId = some set)
    (hinOrder : InOrder (s'.calls ++ s'.owed))
    (hbelow : ∀ call ∈ s'.calls ++ s'.owed,
      call.2.globalPosition.val < s.index.nextGlobalPosition.val)
    (hdispatches : ∀ d ∈ s'.dispatches, d.Sound s) : s'.Inv where
  toNamed := h.toNamed.of_sets hsets hnext hstreams
  inOrder := hinOrder
  below := by rw [hindex]; exact hbelow
  dispatches d hd := (hdispatches d hd).mono hnext.ge (by rw [hindex])

/-! ## Steps -/

theorem Inv.proceed (h : s.Inv) : s.proceed.Inv := by
  have hinOrder := h.inOrder
  have hbelow := h.below
  rw [← calls_owed_proceed] at hinOrder hbelow
  revert hinOrder hbelow
  have hall := h.dispatches
  rw [DispatchState.proceed]
  cases hds : s.dispatches with
  | nil => exact fun _ _ => h
  | cons d ds =>
    rw [hds] at hall
    obtain ⟨hd, hrest⟩ := List.forall_mem_cons.mp hall
    dsimp only
    cases hdue : d.due with
    | cons call due =>
      intro hinOrder hbelow
      refine h.of_owed rfl (fun _ => rfl) rfl (fun _ _ => id) hinOrder hbelow ?_
      exact List.forall_mem_cons.mpr ⟨⟨hd.events, hd.cursors, hd.sets, hd.below⟩, hrest⟩
    | nil =>
      cases hcursors : d.cursors with
      | nil =>
        intro hinOrder hbelow
        exact h.of_owed rfl (fun _ => rfl) rfl (fun _ _ => id) hinOrder hbelow hrest
      | cons cursor cursors =>
        obtain ⟨set, slot⟩ := cursor
        have hnodup := hd.cursors
        have hsets := hd.sets
        rw [hcursors] at hnodup hsets
        dsimp only
        cases hslot : (s.sets set).handlers.slots[slot]? with
        | none =>
          intro hinOrder hbelow
          refine h.of_owed rfl (fun _ => rfl) rfl (fun _ _ => id) hinOrder hbelow ?_
          refine List.forall_mem_cons.mpr ⟨⟨hd.events, ?_, ?_, hd.below⟩, hrest⟩
          · exact (List.nodup_cons.mp hnodup).2
          · exact (List.forall_mem_cons.mp hsets).2
        | some o =>
          intro hinOrder hbelow
          refine h.of_owed rfl (fun _ => rfl) rfl (fun _ _ => id) hinOrder hbelow ?_
          -- The cursor moves within its set.
          refine List.forall_mem_cons.mpr ⟨⟨hd.events, hnodup, ?_, hd.below⟩, hrest⟩
          exact List.forall_mem_cons.mpr (List.forall_mem_cons.mp hsets)

/-- A dispatch iterates a set at most once. -/
theorem Inv.startDispatch_cursors (h : s.Inv) (streamId : JsString) (events : List StoredEvent) :
    ((s.startDispatch streamId events).cursors.map Prod.fst).Nodup ∧
      ∀ cursor ∈ (s.startDispatch streamId events).cursors, cursor.1 < s.nextSet := by
  rw [startDispatch]
  constructor
  · cases hstream : s.streamSubscribers streamId with
    | none => exact List.nodup_singleton 0
    | some set => simpa using (h.named streamId set hstream).1.ne'
  · intro cursor hcursor
    rcases List.mem_append.mp hcursor with hcursor | hcursor
    · obtain ⟨set, hset, rfl⟩ := List.mem_map.mp hcursor
      exact (h.named streamId set (Option.mem_toList.mp hset)).2.1
    · rw [List.mem_singleton.mp hcursor]
      exact h.nextSet

theorem Inv.append (h : s.Inv) {appendedAt streamId : JsString} {events : List DomainEvent}
    {expectedVersion : Option ExpectedVersion}
    (hawaits : ∀ subscriber ∈ s.callees streamId, ¬ s.Awaits subscriber) :
    (s.append cz appendedAt streamId events expectedVersion).Inv := by
  have hnamed := h.toNamed.append cz appendedAt streamId events expectedVersion
  revert hnamed
  rw [DispatchState.append]
  rcases hstore : storeEvents cz s.index appendedAt streamId events expectedVersion with ⟨index, r⟩
  obtain ⟨hle, hstored⟩ := positions_storeEvents cz hstore
  dsimp only
  intro hnamed
  cases r with
  | error err =>
    exact ⟨hnamed, h.inOrder, fun call hcall => (h.below call hcall).trans_le hle,
      fun d hd => (h.dispatches d hd).mono le_rfl hle⟩
  | ok stored =>
    obtain ⟨hpairwise, hbounds⟩ := hstored stored rfl
    have hcalled : ∀ call ∈ s.owes (s.startDispatch streamId stored),
        call.1 ∈ s.callees streamId ∧ call.2 ∈ stored := by
      intro call hcall
      rw [owes_startDispatch] at hcall
      obtain ⟨subscriber, hsubscriber, hcall⟩ := List.mem_flatMap.mp hcall
      obtain ⟨event, hevent, rfl⟩ := List.mem_map.mp hcall
      exact ⟨hsubscriber, hevent⟩
    -- The calls of the new dispatch stand between those made and those of the dispatches around it.
    have hinOrder : InOrder (s.calls ++ s.owes (s.startDispatch streamId stored) ++ s.owed) := by
      apply h.inOrder.insert
      · rw [owes_startDispatch]
        exact inOrder_flatMap (h.nodup_callees streamId) hpairwise
      · intro x hx y hy _
        exact (h.below x (List.mem_append_left _ hx)).trans_le (hbounds y.2 (hcalled y hy).2).1
      · intro x hx y hy heq
        exact hawaits x.1 (hcalled x hx).1 ⟨y.2, heq ▸ hy⟩
    rw [List.append_assoc] at hinOrder
    refine ⟨hnamed, hinOrder, ?_, ?_⟩
    · intro call hcall
      rcases List.mem_append.mp hcall with hcall | hcall
      · exact (h.below call (List.mem_append_left _ hcall)).trans_le hle
      · rcases List.mem_append.mp hcall with hcall | hcall
        · exact (hbounds call.2 (hcalled call hcall).2).2
        · exact (h.below call (List.mem_append_right _ hcall)).trans_le hle
    · refine List.forall_mem_cons.mpr ⟨?_, fun d hd => (h.dispatches d hd).mono le_rfl hle⟩
      obtain ⟨hnodup, hsets⟩ := h.startDispatch_cursors streamId stored
      exact ⟨hpairwise, hnodup, hsets, fun e he => (hbounds e he).2⟩

/-- A set whose handlers change keeps its stream. -/
theorem Inv.setHandlers (h : s.Inv) {set : ℕ} {handlers : JsSet Handler}
    (hinOrder : InOrder (s.calls ++ (s.setHandlers set handlers).owed))
    (hbelow : ∀ call ∈ (s.setHandlers set handlers).owed,
      call.2.globalPosition.val < s.index.nextGlobalPosition.val) :
    (s.setHandlers set handlers).Inv := by
  refine h.of_owed rfl (streamId_setHandlers set handlers) rfl (fun _ _ => id) hinOrder ?_
    h.dispatches
  intro call hcall
  rcases List.mem_append.mp hcall with hcall | hcall
  · exact h.below call (List.mem_append_left _ hcall)
  · exact hbelow call hcall

theorem mem_seen {subscriber : Subscriber} {event : StoredEvent} :
    event ∈ s.seen subscriber ↔ (subscriber, event) ∈ s.calls := by
  rw [seen, List.mem_map]
  constructor
  · rintro ⟨⟨called, e⟩, hcall, heq⟩
    obtain ⟨hmade, hcalled⟩ := List.mem_filter.mp hcall
    obtain rfl : called = subscriber := of_decide_eq_true hcalled
    obtain rfl : e = event := heq
    exact hmade
  · intro hcall
    exact ⟨_, List.mem_filter.mpr ⟨hcall, decide_eq_true rfl⟩, rfl⟩

theorem Inv.add_reached (h : s.Inv) {d : Dispatch} {set : ℕ} {handler : Handler}
    (hreaching : s.reaching set = [d]) (hnew : handler ∉ (s.sets set).handlers.members)
    (hawaits : ¬ s.Awaits ⟨(s.sets set).streamId, handler⟩)
    (hseen : ∀ e ∈ d.events, ∀ e' ∈ s.seen ⟨(s.sets set).streamId, handler⟩,
      e'.globalPosition.val < e.globalPosition.val) :
    (s.setHandlers set ((s.sets set).handlers.add handler)).Inv := by
  have hd : d ∈ s.dispatches := (List.mem_filter.mp (hreaching ▸ List.mem_singleton_self d)).1
  have hsound := h.dispatches d hd
  obtain ⟨before, behind, howed, hsub⟩ := owed_add hsound.cursors hreaching hnew
  have hcalled : ∀ x ∈ d.events.map fun event => (⟨(s.sets set).streamId, handler⟩, event),
      x.1 = (⟨(s.sets set).streamId, handler⟩ : Subscriber) ∧ x.2 ∈ d.events := by
    intro x hx
    obtain ⟨event, hevent, rfl⟩ := List.mem_map.mp hx
    exact ⟨rfl, hevent⟩
  have hinOrder := h.inOrder
  rw [howed, ← List.append_assoc] at hinOrder
  apply h.setHandlers
  · have hinserted : InOrder (s.calls ++ before ++
        (d.events.map fun event => (⟨(s.sets set).streamId, handler⟩, event)) ++ behind) := by
      apply hinOrder.insert (inOrder_map _ hsound.events)
      · intro x hx y hy heq
        obtain ⟨hy1, hy2⟩ := hcalled y hy
        rcases List.mem_append.mp hx with hx | hx
        · refine hseen y.2 hy2 x.2 (mem_seen.mpr ?_)
          rw [← hy1, ← heq]
          exact hx
        · refine absurd ⟨x.2, ?_⟩ hawaits
          rw [← hy1, ← heq, howed]
          exact List.mem_append_left _ hx
      · intro x hx y hy heq
        refine hawaits ⟨y.2, ?_⟩
        rw [← (hcalled x hx).1, heq, howed]
        exact List.mem_append_right _ hy
    refine hinserted.sublist ?_
    simpa [List.append_assoc] using (List.Sublist.refl s.calls).append hsub
  · intro call hcall
    have hmem := hsub.subset hcall
    rw [List.append_assoc, List.mem_append, List.mem_append] at hmem
    rcases hmem with hmem | hmem | hmem
    · exact h.below call (List.mem_append_right _ (howed ▸ List.mem_append_left _ hmem))
    · exact hsound.below call.2 (hcalled call hmem).2
    · exact h.below call (List.mem_append_right _ (howed ▸ List.mem_append_right _ hmem))

theorem Inv.addTo (h : s.Inv) {set : ℕ} {handler : Handler} (hjoins : s.JoinsInTime set handler) :
    (s.addTo set handler).Inv := by
  have hadded : (s.setHandlers set ((s.sets set).handlers.add handler)).Inv := by
    by_cases hmem : handler ∈ (s.sets set).handlers.members
    · rw [JsSet.add_of_mem hmem]
      have hsame : s.setHandlers set (s.sets set).handlers = s := by
        rw [DispatchState.setHandlers, Function.update_eq_self]
      rwa [hsame]
    · have hjoins := hjoins.resolve_left hmem
      cases hreaching : s.reaching set with
      | nil =>
        have howed := owed_setHandlers_of_unreached ((s.sets set).handlers.add handler) hreaching
        apply h.setHandlers
        · rw [howed]
          exact h.inOrder
        · rw [howed]
          exact fun call hcall => h.below call (List.mem_append_right _ hcall)
      | cons d ds =>
        obtain ⟨hreaching, hawaits, hseen⟩ := hjoins d (hreaching ▸ List.mem_cons_self)
        exact h.add_reached hreaching hmem hawaits hseen
  exact ⟨h.toNamed.addTo set handler, hadded.inOrder, hadded.below,
    fun d hd => (hadded.dispatches d hd).mono le_rfl le_rfl⟩

/-- A new set is one that no dispatch comes to. -/
theorem Inv.createSet (h : s.Inv) (streamId : JsString) : (s.createSet streamId).Inv := by
  have howed : (s.createSet streamId).owed = s.owed := by
    apply List.flatMap_congr
    intro d hd
    apply owes_congr
    exact fun cursor hcursor =>
      sets_createSet_of_lt streamId ((h.dispatches d hd).sets cursor hcursor)
  refine ⟨h.toNamed.createSet streamId, ?_, ?_, ?_⟩
  · rw [howed]
    exact h.inOrder
  · rw [howed]
    exact h.below
  · exact fun d hd => (h.dispatches d hd).mono (Nat.le_succ _) le_rfl

theorem Inv.reaching_createSet (h : s.Inv) (streamId : JsString) :
    (s.createSet streamId).reaching s.nextSet = [] := by
  apply List.filter_eq_nil_iff.mpr
  intro d hd hreached
  obtain ⟨cursor, hcursor, heq⟩ := List.mem_map.mp (of_decide_eq_true hreached)
  exact absurd heq ((h.dispatches d hd).sets cursor hcursor).ne

theorem Inv.subscribe (h : s.Inv) {streamId : JsString} {handler : Handler}
    (hjoins : ∀ set, s.streamSubscribers streamId = some set → s.JoinsInTime set handler) :
    (s.subscribe streamId handler).Inv := by
  rw [DispatchState.subscribe]
  cases validateStreamId streamId with
  | error _ => exact h
  | ok _ =>
    dsimp only
    cases hset : s.streamSubscribers streamId with
    | some set => exact h.addTo (hjoins set hset)
    | none =>
      apply (h.createSet streamId).addTo
      refine .inr ?_
      rw [h.reaching_createSet]
      exact List.forall_mem_nil _

/-- A handler that leaves is owed fewer calls. -/
theorem owed_delete (set : ℕ) (handler : Handler) :
    (s.setHandlers set ((s.sets set).handlers.delete handler)).owed.Sublist s.owed := by
  refine List.Sublist.flatMap_right _ fun d _ => ?_
  refine (List.Sublist.refl _).append (List.Sublist.flatMap_right _ fun cursor _ => ?_)
  rw [callsFrom, callsFrom, streamId_setHandlers]
  refine List.Sublist.flatMap ?_ _
  by_cases hset : cursor.1 = set
  · rw [hset, handlers_setHandlers_self, JsSet.membersFrom_delete]
    exact List.filter_sublist
  · rw [sets_setHandlers_of_ne hset]

theorem Inv.unsubscribe (h : s.Inv) (subscription : Subscription) :
    (s.unsubscribe subscription).Inv := by
  have hsub := owed_delete (s := s) subscription.set subscription.subscriber.handler
  have hdeleted := h.setHandlers
    (h.inOrder.sublist ((List.Sublist.refl s.calls).append hsub))
    (fun call hcall => h.below call (List.mem_append_right _ (hsub.subset hcall)))
  have hnamed := h.toNamed.unsubscribe subscription
  revert hnamed
  rw [DispatchState.unsubscribe]
  cases subscription.subscriber.streamId with
  | none => exact fun _ => hdeleted
  | some streamId =>
    dsimp only
    split
    · exact fun hnamed => ⟨hnamed, hdeleted.inOrder, hdeleted.below,
        fun d hd => (hdeleted.dispatches d hd).mono le_rfl le_rfl⟩
    · exact fun _ => hdeleted

end DispatchState

/-! ## Runs -/

theorem DispatchState.Named.next {s s' : DispatchState} {e : DispatchLabel} (h : s.Named)
    (hnext : (dispatchSystem cz).next s e = some s') : s'.Named := by
  rw [dispatchSystem] at hnext
  cases e with
  | append appendedAt streamId events expectedVersion =>
    obtain ⟨-, hnext⟩ := Option.ite_none_right_eq_some.mp hnext
    cases hnext
    exact h.append cz _ _ _ _
  | subscribe streamId handler =>
    obtain ⟨-, hnext⟩ := Option.ite_none_right_eq_some.mp hnext
    cases hnext
    exact h.subscribe streamId handler
  | subscribeAll handler =>
    obtain ⟨-, hnext⟩ := Option.ite_none_right_eq_some.mp hnext
    cases hnext
    exact h.addTo 0 handler
  | unsubscribe subscription =>
    obtain ⟨-, hnext⟩ := Option.ite_none_right_eq_some.mp hnext
    cases hnext
    exact h.unsubscribe subscription
  | proceed =>
    obtain ⟨-, hnext⟩ := Option.ite_none_left_eq_some.mp hnext
    cases hnext
    exact h.proceed

theorem DispatchState.Inv.next {s s' : DispatchState} {e : DispatchLabel} (h : s.Inv)
    (hintime : s.InTime e) (hnext : (dispatchSystem cz).next s e = some s') : s'.Inv := by
  rw [dispatchSystem] at hnext
  cases e with
  | append appendedAt streamId events expectedVersion =>
    obtain ⟨-, hnext⟩ := Option.ite_none_right_eq_some.mp hnext
    cases hnext
    exact h.append cz hintime
  | subscribe streamId handler =>
    obtain ⟨-, hnext⟩ := Option.ite_none_right_eq_some.mp hnext
    cases hnext
    exact h.subscribe hintime
  | subscribeAll handler =>
    obtain ⟨-, hnext⟩ := Option.ite_none_right_eq_some.mp hnext
    cases hnext
    exact h.addTo hintime
  | unsubscribe subscription =>
    obtain ⟨-, hnext⟩ := Option.ite_none_right_eq_some.mp hnext
    cases hnext
    exact h.unsubscribe subscription
  | proceed =>
    obtain ⟨-, hnext⟩ := Option.ite_none_left_eq_some.mp hnext
    cases hnext
    exact h.proceed

theorem DispatchState.Inv.ordered {s : DispatchState} (h : s.Inv) : s.Ordered :=
  ordered_of_inOrder (h.inOrder.sublist (List.sublist_append_left _ _))

/-- Events are delivered in order, also where handlers append, subscribe and unsubscribe. -/
theorem ordered_of_inTime {s : DispatchState}
    (h : (dispatchSystem cz).ReachableVia DispatchState.InTime s) : s.Ordered := by
  refine (h.invariant (I := DispatchState.Inv) ?_ ?_).ordered
  · rintro _ rfl
    exact DispatchState.inv_new
  · exact fun s e s' hs hok hnext => hs.next cz hok hnext

/-- An append is delivered where the handlers make no calls: its dispatch ends, and each subscriber
of the stream and of all streams has got each event once, in order. -/
theorem append_delivers {s : DispatchState} (h : (dispatchSystem cz).Reachable s)
    (hidle : s.dispatches = [])
    {appendedAt streamId : JsString} {events : List DomainEvent}
    {expectedVersion : Option ExpectedVersion} {index : EventIndex} {stored : List StoredEvent}
    (hstored : storeEvents cz s.index appendedAt streamId events expectedVersion =
      (index, .ok stored)) :
    ∃ n s', DispatchState.proceed^[n]
        (s.append cz appendedAt streamId events expectedVersion) = s' ∧
      s'.dispatches = [] ∧ s'.index = index ∧ ∀ subscriber, s'.seen subscriber =
        s.seen subscriber ++ if subscriber ∈ s.callees streamId then stored else [] := by
  have hnamed : s.Named := by
    refine h.invariant (I := DispatchState.Named) ?_ fun s e s' hs hnext => hs.next cz hnext
    rintro _ rfl
    exact DispatchState.named_new
  obtain ⟨n, hn⟩ := (s.append cz appendedAt streamId events expectedVersion).exists_drained
  rw [DispatchState.append_of_stored hstored] at hn ⊢
  refine ⟨n, _, hn, rfl, rfl, ?_⟩
  intro subscriber
  have howed : ({ s with index := index
                         dispatches := s.startDispatch streamId stored :: s.dispatches } :
      DispatchState).owed = s.owes (s.startDispatch streamId stored) := by
    rw [DispatchState.owed, hidle, List.flatMap_singleton]
    rfl
  rw [howed, DispatchState.owes_startDispatch, DispatchState.seen, DispatchState.seen,
    List.filter_append, List.map_append]
  congr 1
  exact seen_flatMap (hnamed.nodup_callees streamId) stored subscriber

variable {cz} in
theorem reachable_proceed {s : DispatchState}
    (h : (dispatchSystem cz).ReachableVia DispatchState.InTime s) (hne : s.dispatches ≠ []) :
    (dispatchSystem cz).ReachableVia DispatchState.InTime s.proceed := by
  refine h.step (e := .proceed) ?_ (if_neg hne)
  trivial

/-- An append of one event that JSON represents. -/
theorem exists_storeEvents_opened (index : EventIndex) {prev : JsString}
    (hprev : index.lastHash = .str prev) :
    ∃ e hash index', storeEvents jcs index (js "t") (js "a") [openedEvent] none =
      (index', .ok [e]) ∧ index'.lastHash = .str hash := by
  obtain ⟨hash, hhash⟩ := computeEventHash_of_isJson jcs
    (c := baseEvent (js "a") (js "t") openedEvent (index.streamVersion (js "a") + 1)
      index.nextGlobalPosition) isJson_openedEvent prev
  have hcreated : (index.createStream (js "a")).lastHash = .str prev := hprev
  have hposition : (index.createStream (js "a")).nextGlobalPosition = index.nextGlobalPosition :=
    rfl
  have hcheck : checkAppend (js "a") [openedEvent] (index.streamVersion (js "a")) none = .ok () :=
    rfl
  rw [storeEvents, hcheck]
  dsimp only
  rw [InMemoryEventStore.appendLoop, hcreated, hposition, hhash]
  exact ⟨_, hash, _, rfl, rfl⟩

/-- One handler of all streams, and what is under way and made behind some appends. -/
def listening (index : EventIndex) (dispatches : List Dispatch) (calls : List HandlerCall) :
    DispatchState :=
  { DispatchState.new.subscribeAll 0 with
    index := index, dispatches := dispatches, calls := calls }

theorem next_append_listening {index index' : EventIndex} {e : StoredEvent}
    {dispatches : List Dispatch} {calls : List HandlerCall}
    (hopen : (listening index dispatches calls).Open)
    (hstore : storeEvents jcs index (js "t") (js "a") [openedEvent] none = (index', .ok [e])) :
    (dispatchSystem jcs).next (listening index dispatches calls)
        (.append (js "t") (js "a") [openedEvent] none) =
      some (listening index' (⟨[e], [], [(0, 0)], false⟩ :: dispatches) calls) := by
  have happend := DispatchState.append_of_stored (s := listening index dispatches calls) hstore
  change (if _ then some ((listening index dispatches calls).append jcs _ _ _ _) else none) = _
  rw [if_pos hopen, happend]
  rfl

theorem inTime_listening {index : EventIndex} {dispatches : List Dispatch}
    {calls : List HandlerCall} (howed : (listening index dispatches calls).owed = []) :
    (listening index dispatches calls).InTime (.append (js "t") (js "a") [openedEvent] none) := by
  rintro subscriber - ⟨event, hmem⟩
  rw [howed] at hmem
  cases hmem

theorem reachable_listening :
    (dispatchSystem jcs).ReachableVia DispatchState.InTime (listening .empty [] []) :=
  System.ReachableVia.step (.init rfl) (e := .subscribeAll 0) (Or.inr (List.forall_mem_nil _)) rfl

theorem append_delivers_listening : ∃ (index : EventIndex) (e : StoredEvent) (n : ℕ)
    (s' : DispatchState), DispatchState.proceed^[n] ((listening .empty [] []).append jcs (js "t")
      (js "a") [openedEvent] none) = s' ∧ s'.dispatches = [] ∧ s'.index = index ∧
      ∀ subscriber, s'.seen subscriber = (listening .empty [] []).seen subscriber ++
        if subscriber ∈ (listening .empty [] []).callees (js "a") then [e] else [] := by
  obtain ⟨e, -, index, hstore, -⟩ := exists_storeEvents_opened .empty rfl
  exact ⟨index, e, append_delivers jcs reachable_listening.reachable rfl hstore⟩

/-- A handler of all streams that appends an event of its own. -/
theorem ordered_of_inTime_nested : ∃ s : DispatchState, s.calls.length = 2 ∧ s.Ordered := by
  obtain ⟨e, hash, index, hstore, hlast⟩ := exists_storeEvents_opened .empty rfl
  obtain ⟨e', -, index', hstore', -⟩ := exists_storeEvents_opened index hlast
  have h2 := reachable_listening.step (inTime_listening rfl)
    (next_append_listening (by rintro _ ⟨⟩) hstore)
  have h3 : (dispatchSystem jcs).ReachableVia DispatchState.InTime
      (listening index [⟨[e], [], [(0, 1)], true⟩] [(⟨none, 0⟩, e)]) :=
    reachable_proceed (reachable_proceed h2 (List.cons_ne_nil _ _)) (List.cons_ne_nil _ _)
  have hrunning : (listening index [⟨[e], [], [(0, 1)], true⟩] [(⟨none, 0⟩, e)]).Open := by
    intro d hd
    cases hd
    rfl
  have h4 := h3.step (inTime_listening rfl) (next_append_listening hrunning hstore')
  have h5 : (dispatchSystem jcs).ReachableVia DispatchState.InTime
      (listening index' [⟨[e'], [], [(0, 1)], true⟩, ⟨[e], [], [(0, 1)], true⟩]
        [(⟨none, 0⟩, e), (⟨none, 0⟩, e')]) :=
    reachable_proceed (reachable_proceed h4 (List.cons_ne_nil _ _)) (List.cons_ne_nil _ _)
  exact ⟨_, rfl, ordered_of_inTime jcs h5⟩

end Attestia.EventStore
