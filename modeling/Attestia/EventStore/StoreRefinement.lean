import Attestia.EventStore.FileLog

/-!
# Both stores refine one event log

The abstract log is a list of events with their streams; versions and positions are counted.
On events that JSON represents the in-memory store and the JSONL store, closed and reopened at
any points, accept what the abstract log accepts and read what it reads.
-/

namespace Attestia.EventStore

open Lib JsonNumber

/-! ## The abstract log -/

/-- What both stores agree on about a stored event. -/
structure Recorded where
  event : DomainEvent
  streamId : JsString
  version : Number
  globalPosition : Number

abbrev History := List (JsString × DomainEvent)

namespace History

def streamVersion (h : History) (streamId : JsString) : ℕ :=
  h.countP fun x => x.1 = streamId

/-- The record of the next event. -/
def record (h : History) (x : JsString × DomainEvent) : Recorded :=
  ⟨x.2, x.1, .ofNat (h.streamVersion x.1 + 1), .ofNat (h.length + 1)⟩

def recordsFrom (h : History) : History → List Recorded
  | [] => []
  | x :: xs => h.record x :: recordsFrom (h ++ [x]) xs

def records (h : History) : List Recorded := recordsFrom [] h

def append (h : History) (streamId : JsString) (events : List DomainEvent)
    (expectedVersion : Option ExpectedVersion) : History × Except JsError AppendResult :=
  match checkAppend streamId events (h.streamVersion streamId) expectedVersion with
  | .error err => (h, .error err)
  | .ok _ => (h ++ events.map fun event => (streamId, event),
      .ok (appendResult streamId (h.streamVersion streamId) events.length))

/-- The records of a stream, if it has any. -/
def stream (h : History) (streamId : JsString) : Option (List Recorded) :=
  if h.streamVersion streamId = 0 then none
  else some (h.records.filter fun r => r.streamId = streamId)

def read (h : History) (streamId : JsString) (options : ReadOptions) :
    Except JsError (List Recorded) :=
  readStream Recorded.version streamId (h.stream streamId) options

def readAll (h : History) (options : ReadOptions) : List Recorded :=
  select Recorded.globalPosition options h.records

theorem recordsFrom_append (h xs ys : History) :
    recordsFrom h (xs ++ ys) = recordsFrom h xs ++ recordsFrom (h ++ xs) ys := by
  induction xs generalizing h with
  | nil => rw [List.append_nil]; rfl
  | cons x xs ih =>
    rw [List.cons_append, recordsFrom, ih, List.append_assoc]
    rfl

theorem records_append_singleton (h : History) (x : JsString × DomainEvent) :
    records (h ++ [x]) = records h ++ [h.record x] := by
  rw [records, recordsFrom_append]
  rfl

end History

/-! ## The history of a log -/

namespace StoredEvent

def recorded (e : StoredEvent) : Recorded := ⟨e.event, e.streamId, e.version, e.globalPosition⟩

end StoredEvent

def historyOf (log : List StoredEvent) : History := log.map fun e => (e.streamId, e.event)

variable {cz : Canonicalizer}

theorem streamVersion_historyOf (log : List StoredEvent) (streamId : JsString) :
    (historyOf log).streamVersion streamId = (ofStream streamId log).length := by
  rw [History.streamVersion, historyOf, List.countP_map, ofStream, ← List.countP_eq_length_filter]
  rfl

/-- A valid log holds the records of its history. -/
theorem ValidLog.recorded {log : List StoredEvent} (h : ValidLog cz log) :
    log.map StoredEvent.recorded = (historyOf log).records := by
  induction h with
  | empty => rfl
  | @append log e _ he ih =>
    have hrecord : e.recorded = (historyOf log).record (e.streamId, e.event) := by
      rw [StoredEvent.recorded, History.record, streamVersion_historyOf, he.version,
        he.globalPosition]
      simp [historyOf]
    rw [historyOf, List.map_append, List.map_append, ih, List.map_singleton, List.map_singleton,
      hrecord, History.records_append_singleton]
    rfl

theorem ofStream_recorded (streamId : JsString) (log : List StoredEvent) :
    (ofStream streamId log).map StoredEvent.recorded =
      (log.map StoredEvent.recorded).filter fun r => r.streamId = streamId := by
  rw [ofStream, List.filter_map]
  rfl

/-! ## Reading -/

/-- No stream has been created without events. -/
def EventIndex.Tight (s : EventIndex) : Prop := ∀ id, s.streams id ≠ some []

theorem EventIndex.tight_empty : EventIndex.empty.Tight := fun _ h => nomatch h

theorem EventIndex.Tight.push {s : EventIndex} (h : s.Tight) (e : StoredEvent) :
    (s.push e).Tight := by
  intro id hid
  by_cases heq : id = e.streamId
  · subst heq
    simp [EventIndex.push, EventIndex.setStream] at hid
  · exact h id (by simpa [EventIndex.push, EventIndex.setStream, heq] using hid)

theorem EventIndex.Tight.add {s : EventIndex} (h : s.Tight) (e : StoredEvent) :
    (s.add e).Tight := h.push e

theorem EventIndex.tight_ofEntries (es : List Entry) : (EventIndex.ofEntries es).Tight := by
  induction es using List.reverseRecOn with
  | nil => exact EventIndex.tight_empty
  | append_singleton es x ih =>
    rw [EventIndex.ofEntries, List.foldl_append, ← EventIndex.ofEntries]
    intro id hid
    refine ih.push x.1 id ?_
    rw [← hid, List.foldl_cons, List.foldl_nil, EventIndex.load]
    split <;> rfl

variable (cz) in
/-- An index that is that of a log with this history, without empty streams. -/
structure Reads (s : EventIndex) (h : History) : Prop where
  index : IndexOf s s.globalLog
  valid : ValidLog cz s.globalLog
  history : historyOf s.globalLog = h
  tight : s.Tight

theorem reads_empty : Reads cz .empty [] := ⟨indexOf_empty, .empty, rfl, EventIndex.tight_empty⟩

section

variable {s : EventIndex} {h : History}

theorem Reads.streamVersion (hs : Reads cz s h) (streamId : JsString) :
    s.streamVersion streamId = h.streamVersion streamId := by
  rw [EventIndex.streamVersion, hs.index.stream, ← hs.history, streamVersion_historyOf]

theorem Reads.stream (hs : Reads cz s h) (streamId : JsString) :
    (s.streams streamId).map (List.map StoredEvent.recorded) = h.stream streamId := by
  have hversion := hs.streamVersion streamId
  have hstream := hs.index.stream streamId
  rw [History.stream, ← hversion, EventIndex.streamVersion]
  rw [EventIndex.stream] at hstream ⊢
  cases hget : s.streams streamId with
  | none => rfl
  | some es =>
    have hne : es ≠ [] := fun he => hs.tight streamId (he ▸ hget)
    rw [hget, Option.getD_some] at hstream
    rw [Option.getD_some, if_neg (by simpa using hne), Option.map_some, hstream, ofStream_recorded,
      hs.valid.recorded, hs.history]

theorem Reads.read (hs : Reads cz s h) (streamId : JsString) (options : ReadOptions) :
    (s.read streamId options).map (List.map StoredEvent.recorded) = h.read streamId options := by
  rw [History.read, ← hs.stream, readStream_map]
  rfl

theorem Reads.readAll (hs : Reads cz s h) (options : ReadOptions) :
    (s.readAll options).map StoredEvent.recorded = h.readAll options := by
  rw [History.readAll, ← hs.history, ← hs.valid.recorded, select_map]
  rfl

/-! ## Appending -/

/-- Creating the stream first makes no difference to a batch that is not empty. -/
theorem EventIndex.push_createStream (s : EventIndex) (e : StoredEvent) :
    (s.createStream e.streamId).push e = s.push e := by
  rw [EventIndex.push, EventIndex.push, EventIndex.stream_createStream, EventIndex.createStream,
    EventIndex.setStream, EventIndex.setStream, EventIndex.setStream]
  congr 1
  funext id
  by_cases hid : id = e.streamId <;> simp [hid]

theorem EventIndex.foldl_add_createStream (s : EventIndex) {streamId : JsString}
    {stored : List StoredEvent} (hne : stored ≠ []) (hid : ∀ e ∈ stored, e.streamId = streamId) :
    stored.foldl EventIndex.add (s.createStream streamId) = stored.foldl EventIndex.add s := by
  cases stored with
  | nil => exact absurd rfl hne
  | cons e es =>
    obtain rfl := hid e (.head _)
    have hadd : (s.createStream e.streamId).add e = s.add e := by
      rw [EventIndex.add, EventIndex.push_createStream]
      rfl
    rw [List.foldl_cons, List.foldl_cons, hadd]

theorem EventIndex.Tight.foldl_add {s : EventIndex} (h : s.Tight) (stored : List StoredEvent) :
    (stored.foldl EventIndex.add s).Tight := by
  induction stored generalizing s with
  | nil => exact h
  | cons e es ih => exact ih (h.add e)

/-- Adding a batch adds its events to the history. -/
theorem Reads.append (hs : Reads cz s h) {streamId appendedAt : JsString}
    {events : List DomainEvent} {stored : List StoredEvent}
    (hch : Chained cz streamId appendedAt (s.streamVersion streamId + 1) s.nextGlobalPosition
      s.lastHash events stored) (hne : events ≠ []) :
    Reads cz (stored.foldl EventIndex.add (s.createStream streamId))
      (h ++ events.map fun event => (streamId, event)) := by
  have hversion : s.streamVersion streamId + 1 = (ofStream streamId s.globalLog).length + 1 := by
    rw [EventIndex.streamVersion, hs.index.stream]
  obtain ⟨hvalid, hindex⟩ := hch.append hs.valid hs.index hversion hs.index.nextGlobalPosition
    hs.index.lastHash
  have hne' : stored ≠ [] := fun he => hne (by rw [← hch.map_event, he]; rfl)
  rw [EventIndex.foldl_add_createStream s hne' hch.streamId_eq]
  refine ⟨?_, ?_, ?_, hs.tight.foldl_add stored⟩
  · rwa [hindex.globalLog]
  · rwa [hindex.globalLog]
  · rw [hindex.globalLog, historyOf, List.map_append, ← historyOf, hs.history, ← hch.map_event,
      List.map_map]
    refine congrArg (h ++ ·) (List.map_congr_left fun e he => ?_)
    rw [hch.streamId_eq e he]
    rfl

end

/-! ## Hashing what JSON represents -/

theorem computeEventHash_of_isJson [Rounding] (cz : Canonicalizer) {c : EventContent} (hc : c.event.IsJson) (prev : JsString) :
    ∃ hash, computeEventHash cz c (.str prev) = .ok hash := by
  obtain ⟨b, hb⟩ := hc.image
  have himage : c.image = .ok (.object (c.entries b)) := by
    rw [EventContent.image, hb]
    rfl
  exact ⟨_, bind_eq_ok.mpr ⟨_, cz.canonicalize_of_isJson c _ hc himage, rfl⟩⟩

theorem ValidLog.lastHash_eq_str {log : List StoredEvent} (h : ValidLog cz log) :
    ∃ prev, EventStore.lastHash log = .str prev := by
  cases h with
  | empty => exact ⟨GENESIS_HASH, rfl⟩
  | append _ he =>
    obtain ⟨x, -, hx, -⟩ := he.chained
    exact ⟨x, by rw [lastHash_append_singleton, hx]; rfl⟩

variable (cz) in
theorem InMemoryEventStore.appendLoop_of_isJson (streamId appendedAt : JsString)
    {events : List DomainEvent} (hjson : ∀ b ∈ events, b.IsJson) {s : EventIndex} {prev : JsString}
    (hs : s.lastHash = .str prev) (v : ℕ) :
    ∃ stored, (appendLoop cz streamId appendedAt s events v).2 = .ok stored := by
  induction events generalizing s prev v with
  | nil => exact ⟨[], rfl⟩
  | cons event events ih =>
    obtain ⟨hevent, hrest⟩ := List.forall_mem_cons.mp hjson
    obtain ⟨hash, hhash⟩ := computeEventHash_of_isJson cz
      (c := baseEvent streamId appendedAt event v s.nextGlobalPosition) hevent prev
    have hnext : (s.add (withHash (baseEvent streamId appendedAt event v s.nextGlobalPosition) hash
        (.str prev))).lastHash = .str hash := rfl
    obtain ⟨rest, hr⟩ := ih hrest hnext (v + 1)
    rw [appendLoop, hs, hhash]
    exact ⟨_, congrArg (Except.map _) hr⟩

theorem JsonlEventStore.buildBatch_of_isJson [Rounding] (cz : Canonicalizer)
    (streamId appendedAt : JsString)
    {events : List DomainEvent} (hjson : ∀ b ∈ events, b.IsJson) (v : ℕ) (p : Number)
    (prev : JsString) :
    ∃ b, buildBatch cz streamId appendedAt events v p (.str prev) = .ok b := by
  induction events generalizing v p prev with
  | nil => exact ⟨_, rfl⟩
  | cons event events ih =>
    obtain ⟨hevent, hrest⟩ := List.forall_mem_cons.mp hjson
    obtain ⟨hash, hhash⟩ := computeEventHash_of_isJson cz
      (c := baseEvent streamId appendedAt event v p) hevent prev
    obtain ⟨b, hb⟩ := ih hrest (v + 1) p.next hash
    obtain ⟨j, hj⟩ : ∃ j, (withHash (baseEvent streamId appendedAt event v p) hash
        (.str prev)).image = .ok j := by
      obtain ⟨body, hbody⟩ := hevent.image
      exact ⟨_, by rw [StoredEvent.image, withHash, baseEvent, hbody]; rfl⟩
    exact ⟨_, bind_eq_ok.mpr ⟨hash, hhash, bind_eq_ok.mpr ⟨j, hj, bind_eq_ok.mpr ⟨b, hb, rfl⟩⟩⟩⟩

/-! ## One append on each side -/

namespace InMemoryEventStore

/-- The in-memory store does what the abstract log does. -/
theorem append_refines {s : InMemoryEventStore} {h : History} (hs : Reads cz s.index h)
    (appendedAt streamId : JsString) {events : List DomainEvent} (hjson : ∀ b ∈ events, b.IsJson)
    (ev : Option ExpectedVersion) :
    (s.append cz appendedAt streamId events ev).result = (h.append streamId events ev).2 ∧
      Reads cz (s.append cz appendedAt streamId events ev).store.index
        (h.append streamId events ev).1 := by
  obtain ⟨err, hcheck, happend⟩ | ⟨hcheck, index, r, hloop, h'⟩ :=
    s.append_cases cz appendedAt streamId events ev
  · rw [happend, History.append, ← hs.streamVersion, hcheck]
    exact ⟨rfl, hs⟩
  · obtain ⟨prev, hprev⟩ := hs.valid.lastHash_eq_str
    rw [← hs.index.lastHash] at hprev
    obtain ⟨stored, hstored⟩ := appendLoop_of_isJson cz streamId appendedAt hjson
      (s := s.index.createStream streamId) hprev (s.index.streamVersion streamId + 1)
    rw [hloop] at hstored
    obtain ⟨err, rfl, -⟩ | ⟨_, rfl, happend⟩ := h'
    · cases hstored
    · obtain ⟨hch, hindex⟩ := appendLoop_eq_ok hloop
      rw [happend, History.append, ← hs.streamVersion, hcheck, hindex]
      exact ⟨rfl, hs.append hch (events_ne_nil_of_checkAppend hcheck)⟩

end InMemoryEventStore

variable (cz) in
/-- The JSONL store, its file and the history that both hold. -/
structure Refines (s : JsonlEventStore) (file : File) (h : History) : Prop where
  inSync : InSync cz s file
  reads : Reads cz s.index h
  whole : Whole file
  knownFileSize : s.knownFileSize = file.map List.length
  isJson : ∀ x ∈ h, x.2.IsJson

/-- A store that knows the file to its end prepares every batch that JSON represents. -/
theorem JsonlEventStore.prepare_of_isJson [Rounding] (cz : Canonicalizer) {s : JsonlEventStore} {file : File}
    (hknown : s.knownFileSize = file.map List.length) {prev : JsString}
    (hprev : s.index.lastHash = .str prev) (appendedAt streamId : JsString)
    {events : List DomainEvent} (hjson : ∀ b ∈ events, b.IsJson) :
    ∃ b, (s.started streamId).prepare cz file appendedAt streamId events = .ok b := by
  have hknown' : (s.started streamId).knownFileSize = file.map List.length := hknown
  have hprev' : (s.started streamId).index.lastHash = .str prev := hprev
  have hdetect : (s.started streamId).detectExternalAdvanceUnderLock file = .ok () := by
    refine JsonlEventStore.detectExternalAdvanceUnderLock_eq_ok.mpr ?_
    rw [hknown']
    cases file with
    | none => exact ⟨fun _ => rfl, le_refl 0⟩
    | some bytes => exact ⟨fun h => (nomatch h), le_refl _⟩
  obtain ⟨b, hb⟩ := JsonlEventStore.buildBatch_of_isJson cz streamId appendedAt hjson
    ((s.started streamId).index.streamVersion streamId + 1)
    (s.started streamId).index.nextGlobalPosition prev
  rw [← hprev'] at hb
  exact ⟨b, bind_eq_ok.mpr ⟨(), hdetect, hb⟩⟩

theorem Refines.commit {s : JsonlEventStore} {file : File} {h : History}
    (hs : Refines cz s file h) {appendedAt streamId : JsString} {events : List DomainEvent}
    (hjson : ∀ b ∈ events, b.IsJson) (hne : events ≠ []) {b : JsonlEventStore.Batch}
    (hb : Prepared cz (s.started streamId) appendedAt streamId events b) :
    Refines cz ((s.started streamId).repaired.commit b)
      (some (file.getD [] ++ (s.repairBytes ++ b.payload)))
      (h ++ events.map fun event => (streamId, event)) := by
  obtain ⟨hneed, hrepair⟩ := hs.inSync.repairBytes hs.whole
  have hsync := (hs.inSync.started streamId).commit hb
  have hindex : ((s.started streamId).repaired.commit b).index =
      b.stored.foldl EventIndex.add (s.index.createStream streamId) := hb.commit
  have hch := hb.chained
  refine ⟨hsync, ?_, ?_, ?_, ?_⟩
  · rw [hindex]
    rw [EventIndex.streamVersion, JsonlEventStore.started, EventIndex.stream_createStream] at hch
    exact hs.reads.append hch hne
  · rw [hrepair, List.nil_append]
    exact hs.whole.append b
  · have hknown : (s.started streamId).knownFileSize = file.map List.length := hs.knownFileSize
    have hneed' : (s.started streamId).needsTrailingNewline = false := hneed
    rw [JsonlEventStore.knownFileSize_commit, JsonlEventStore.repaired_eq_self hneed', hrepair,
      List.nil_append, Option.map_some, List.length_append, hknown]
    cases file <;> rfl
  · intro x hx
    obtain hx | hx := List.mem_append.mp hx
    · exact hs.isJson x hx
    · obtain ⟨event, hevent, rfl⟩ := List.mem_map.mp hx
      exact hjson event hevent

namespace JsonlEventStore

/-- So does the JSONL store. -/
theorem append_refines {s : JsonlEventStore} {file : File} {h : History}
    (hs : Refines cz s file h) (appendedAt streamId : JsString) {events : List DomainEvent}
    (hjson : ∀ b ∈ events, b.IsJson) (ev : Option ExpectedVersion) :
    (s.append cz (.sound appendedAt) file streamId events ev).result =
        (h.append streamId events ev).2 ∧
      Refines cz (s.append cz (.sound appendedAt) file streamId events ev).store
        (s.append cz (.sound appendedAt) file streamId events ev).file
        (h.append streamId events ev).1 := by
  obtain ⟨err, hcheck, happend⟩ | ⟨hcheck, h'⟩ :=
    s.append_sound_cases cz appendedAt file streamId events ev
  · rw [happend, History.append, ← hs.reads.streamVersion, hcheck]
    exact ⟨rfl, hs⟩
  · obtain ⟨prev, hprev⟩ := hs.reads.valid.lastHash_eq_str
    rw [← hs.reads.index.lastHash] at hprev
    obtain ⟨b, hprep⟩ := prepare_of_isJson cz hs.knownFileSize hprev appendedAt streamId hjson
    have hb := prepared_of_prepare hprep
    obtain ⟨err, herr, -⟩ | ⟨b', hb', happend⟩ := h'
    · cases hprep.symm.trans herr
    · cases hprep.symm.trans hb'
      rw [happend, History.append, ← hs.reads.streamVersion, hcheck]
      exact ⟨rfl, hs.commit hjson (events_ne_nil_of_checkAppend hcheck) hb⟩

end JsonlEventStore

/-! ## Runs -/

/-- Both stores, and the file behind the second. -/
structure Stores where
  memory : InMemoryEventStore
  jsonl : JsonlEventStore
  file : File

inductive Command where
  /-- the same append to both, each at its own time -/
  | append (streamId : JsString) (events : List DomainEvent)
    (expectedVersion : Option ExpectedVersion) (memoryTime jsonlTime : JsString)
  /-- the JSONL store is opened again -/
  | reopen (verifyOnLoad : Bool)

def Command.IsJson : Command → Prop
  | append _ events _ _ _ => ∀ b ∈ events, b.IsJson
  | reopen _ => True

variable (cz) (filePath : JsString)

def Stores.step (w : Stores) : Command → Except JsError Stores
  | .append streamId events ev memoryTime jsonlTime =>
    let m := w.memory.append cz memoryTime streamId events ev
    let j := w.jsonl.append cz (.sound jsonlTime) w.file streamId events ev
    .ok ⟨m.store, j.store, j.file⟩
  | .reopen verifyOnLoad => do
    let jsonl ← JsonlEventStore.new cz filePath verifyOnLoad none w.file
    return { w with jsonl }

def Stores.run : Stores → List Command → Except JsError Stores
  | w, [] => .ok w
  | w, c :: cs => do
    let w' ← w.step cz filePath c
    w'.run cs

/-- A new in-memory store, and the JSONL store opened on no file. -/
def Stores.open : Except JsError Stores := do
  let jsonl ← JsonlEventStore.new cz filePath true none none
  return ⟨.new, jsonl, none⟩

/-- The abstract log after a command. -/
def History.step (h : History) : Command → History
  | .append streamId events ev _ _ => (h.append streamId events ev).1
  | .reopen _ => h

structure Stores.Refine (w : Stores) (h : History) : Prop where
  memory : Reads cz w.memory.index h
  jsonl : Refines cz w.jsonl w.file h

variable {cz}

/-- Reopening a file of JSON events gives the same store back. -/
theorem Refines.reopen {s : JsonlEventStore} {file : File} {h : History}
    (hs : Refines cz s file h) (verifyOnLoad : Bool) :
    ∃ s', JsonlEventStore.new cz filePath verifyOnLoad none file = .ok s' ∧
      Refines cz s' file h := by
  obtain ⟨s', hnew, hlog, hsync⟩ := hs.inSync.holds.opens filePath verifyOnLoad
  obtain ⟨es, -, -, hopened⟩ := JsonlEventStore.opened_of_new hnew
  have hjson : ∀ e ∈ s.index.globalLog, e.event.IsJson := by
    intro e he
    refine hs.isJson (e.streamId, e.event) ?_
    rw [← hs.reads.history]
    exact List.mem_map_of_mem he
  have hreload : s.index.globalLog.map StoredEvent.reload = s.index.globalLog := by
    conv_rhs => rw [← List.map_id s.index.globalLog]
    exact List.map_congr_left fun e he => StoredEvent.reload_eq_self (hjson e he)
  rw [hreload] at hlog
  refine ⟨s', hnew, hsync, ⟨hsync.index, hsync.holds.valid, ?_, ?_⟩, hs.whole, ?_, hs.isJson⟩
  · rw [hlog, hs.reads.history]
  · rw [hopened.index]
    exact EventIndex.tight_ofEntries es
  · rw [hopened.knownFileSize, hs.whole.loadedSize]

theorem Stores.refine_step {w : Stores} {h : History} (hw : w.Refine cz h) {c : Command}
    (hc : c.IsJson) : ∃ w', w.step cz filePath c = .ok w' ∧ w'.Refine cz (h.step c) := by
  cases c with
  | append streamId events ev memoryTime jsonlTime =>
    exact ⟨_, rfl, (InMemoryEventStore.append_refines hw.memory memoryTime streamId hc ev).2,
      (JsonlEventStore.append_refines hw.jsonl jsonlTime streamId hc ev).2⟩
  | reopen verifyOnLoad =>
    obtain ⟨s', hnew, hs'⟩ := hw.jsonl.reopen filePath verifyOnLoad
    exact ⟨⟨w.memory, s', w.file⟩, bind_eq_ok.mpr ⟨s', hnew, rfl⟩, hw.memory, hs'⟩

theorem Stores.refine_run {w : Stores} {h : History} (hw : w.Refine cz h) {cs : List Command}
    (hcs : ∀ c ∈ cs, c.IsJson) :
    ∃ w', w.run cz filePath cs = .ok w' ∧ w'.Refine cz (cs.foldl History.step h) := by
  induction cs generalizing w h with
  | nil => exact ⟨w, rfl, hw⟩
  | cons c cs ih =>
    obtain ⟨hc, hcs⟩ := List.forall_mem_cons.mp hcs
    obtain ⟨w₁, hstep, hw₁⟩ := Stores.refine_step filePath hw hc
    obtain ⟨w₂, hrun, hw₂⟩ := ih hw₁ hcs
    exact ⟨w₂, bind_eq_ok.mpr ⟨w₁, hstep, hrun⟩, hw₂⟩

variable (cz) in
theorem Stores.exists_open : ∃ w, Stores.open cz filePath = .ok w ∧ w.Refine cz [] := by
  obtain ⟨s, hnew, hlog, hsync⟩ := (show Holds cz none [] from holds_none).opens filePath true
  obtain ⟨es, -, -, hopened⟩ := JsonlEventStore.opened_of_new hnew
  refine ⟨⟨.new, s, none⟩, bind_eq_ok.mpr ⟨s, hnew, rfl⟩, reads_empty, hsync, ?_, whole_none, ?_, ?_⟩
  · refine ⟨hsync.index, hsync.holds.valid, ?_, ?_⟩
    · rw [hlog]
      rfl
    · rw [hopened.index]
      exact EventIndex.tight_ofEntries es
  · rw [hopened.knownFileSize]
    rfl
  · exact fun x hx => absurd hx List.not_mem_nil

/-- What a user of the two stores sees of their agreement with the abstract log. -/
structure Stores.Agree (cz : Canonicalizer) (w : Stores) (h : History) : Prop where
  append : ∀ streamId events ev memoryTime jsonlTime, (∀ b ∈ events, EventBody.IsJson b) →
    (w.memory.append cz memoryTime streamId events ev).result = (h.append streamId events ev).2 ∧
      (w.jsonl.append cz (.sound jsonlTime) w.file streamId events ev).result =
        (h.append streamId events ev).2
  read : ∀ streamId options,
    (w.memory.read streamId options).map (List.map StoredEvent.recorded) =
        h.read streamId options ∧
      (w.jsonl.read streamId options).map (List.map StoredEvent.recorded) =
        h.read streamId options
  readAll : ∀ options,
    (w.memory.readAll options).map StoredEvent.recorded = h.readAll options ∧
      (w.jsonl.readAll options).map StoredEvent.recorded = h.readAll options
  globalPosition : h.records.map Recorded.globalPosition =
    (List.range h.length).map fun i => .ofNat (i + 1)
  version : ∀ streamId records, h.stream streamId = some records →
    records.map Recorded.version = (List.range records.length).map fun i => .ofNat (i + 1)
  verifyIntegrity :
    (∃ r, w.memory.verifyIntegrity cz = .ok r ∧ r.valid = true) ∧
      ∃ r, w.jsonl.verifyIntegrity cz = .ok r ∧ r.valid = true

theorem Stores.Refine.agree {w : Stores} {h : History} (hw : w.Refine cz h) : w.Agree cz h where
  append streamId events ev memoryTime jsonlTime hjson :=
    ⟨(InMemoryEventStore.append_refines hw.memory memoryTime streamId hjson ev).1,
      (JsonlEventStore.append_refines hw.jsonl jsonlTime streamId hjson ev).1⟩
  read streamId options := ⟨hw.memory.read streamId options, hw.jsonl.reads.read streamId options⟩
  readAll options := ⟨hw.memory.readAll options, hw.jsonl.reads.readAll options⟩
  globalPosition := by
    have hpos := hw.memory.valid.globalPosition
    have hlen : h.length = w.memory.index.globalLog.length := by
      rw [← hw.memory.history, historyOf, List.length_map]
    rw [← hw.memory.history, ← hw.memory.valid.recorded, List.map_map, hw.memory.history, hlen,
      ← hpos]
    rfl
  version streamId records hrecords := by
    have hversion := hw.memory.valid.version streamId
    rw [← hw.memory.stream] at hrecords
    obtain ⟨es, hes, rfl⟩ := Option.map_eq_some_iff.mp hrecords
    have hstream := hw.memory.index.stream streamId
    rw [EventIndex.stream, hes, Option.getD_some] at hstream
    rw [List.map_map, List.length_map, hstream, ← hversion]
    rfl
  verifyIntegrity := ⟨hw.memory.valid.verifies, hw.jsonl.reads.valid.verifies⟩

/-- On JSON events, with the JSONL store reopened at any points, both stores accept, reject and
read what the abstract log does. -/
theorem stores_agree (cz : Canonicalizer) (filePath : JsString) (cs : List Command)
    (hcs : ∀ c ∈ cs, c.IsJson) :
    ∃ w₀ w, Stores.open cz filePath = .ok w₀ ∧ w₀.run cz filePath cs = .ok w ∧
      w.Agree cz (cs.foldl History.step []) := by
  obtain ⟨w₀, hopen, hw₀⟩ := Stores.exists_open cz filePath
  obtain ⟨w, hrun, hw⟩ := Stores.refine_run filePath hw₀ hcs
  exact ⟨w₀, w, hopen, hrun, hw.agree⟩

/-- A version conflict and a reopen between two appends. -/
theorem stores_agree_reopened :
    ∃ w₀ w, Stores.open jcs (js "events.jsonl") = .ok w₀ ∧
      w₀.run jcs (js "events.jsonl")
        [.append (js "a") [openedEvent, openedEvent] none (js "t1") (js "t2"), .reopen true,
          .append (js "a") [openedEvent] (some .noStream) (js "t3") (js "t4"),
          .append (js "b") [openedEvent] (some (.number 0)) (js "t5") (js "t6")] = .ok w ∧
      w.Agree jcs ([.append (js "a") [openedEvent, openedEvent] none (js "t1") (js "t2"),
        .reopen true, .append (js "a") [openedEvent] (some .noStream) (js "t3") (js "t4"),
        .append (js "b") [openedEvent] (some (.number 0)) (js "t5") (js "t6")].foldl
          History.step []) := by
  refine stores_agree jcs (js "events.jsonl") _ ?_
  simp only [List.forall_mem_cons, Command.IsJson, isJson_openedEvent, List.not_mem_nil,
    false_imp_iff, implies_true, and_self]

end Attestia.EventStore
