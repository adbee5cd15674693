import Attestia.EventStore.FileLog
import Attestia.Lib.System

/-!
# Crash recovery

One process at a time opens the file, appends, and may die in the middle of an append when
some of the bytes that it wants to write have reached the file. Writes append in order.
-/

namespace Attestia.EventStore

open Lib JsonNumber

/-- The arguments of an append and the time that it reads. -/
structure Call where
  appendedAt : JsString
  streamId : JsString
  events : List DomainEvent
  expectedVersion : Option ExpectedVersion

namespace JsonlEventStore

variable [Rounding] (cz : Canonicalizer)

/-- An append in which nothing fails. -/
def call (s : JsonlEventStore) (file : File) (c : Call) : Outcome :=
  s.append cz (.sound c.appendedAt) file c.streamId c.events c.expectedVersion

/-- The bytes that an append writes, the repair first. -/
def bytesOf (s : JsonlEventStore) (file : File) (c : Call) : Except JsError Bytes := do
  checkAppend c.streamId c.events (s.index.streamVersion c.streamId) c.expectedVersion
  let batch ← (s.started c.streamId).prepare cz file c.appendedAt c.streamId c.events
  return s.repairBytes ++ batch.payload

/-- The file after an append that died before it opened the file, or `n` bytes later. -/
def interrupted (s : JsonlEventStore) (file : File) (c : Call) (cut : Option ℕ) : File :=
  match s.bytesOf cz file c, cut with
  | .ok bytes, some n => some (file.getD [] ++ bytes.take n)
  | _, _ => file

end JsonlEventStore

/-- The file, and the store of the running process. -/
structure Process where
  file : File
  store : Option JsonlEventStore

inductive ProcessLabel where
  | open
  | append (c : Call)
  | crash (c : Call) (cut : Option ℕ)

variable (cz : Canonicalizer) (filePath : JsString)

def Process.next (p : Process) : ProcessLabel → Option Process
  | .open => (JsonlEventStore.new cz filePath true none p.file).toOption.map fun s =>
      ⟨p.file, some s⟩
  | .append c => p.store.map fun s =>
      let o := s.call cz p.file c
      ⟨o.file, some o.store⟩
  | .crash c cut => p.store.map fun s => ⟨s.interrupted cz p.file c cut, none⟩

/-- Runs on a file that does not exist at first. -/
def crashSystem : System Process ProcessLabel := ⟨(· = ⟨none, none⟩), Process.next cz filePath⟩

/-- The file opens with verification and gives this log. -/
structure Recovers (file : File) (log : List StoredEvent) : Prop where
  opens : ∃ s, JsonlEventStore.new cz filePath true none file = .ok s ∧
    s.index.globalLog = log ∧ ∀ id, s.index.stream id = ofStream id log
  globalPosition : log.map (fun e => e.globalPosition) =
    (List.range log.length).map fun i => .ofNat (i + 1)
  version : ∀ id, (ofStream id log).map (fun e => e.version) =
    (List.range (ofStream id log).length).map fun i => .ofNat (i + 1)
  verifies : Verifies cz log

variable {cz filePath}

theorem Holds.recovers {file : File} {log : List StoredEvent} (h : Holds cz file log) :
    Recovers cz filePath file (log.map StoredEvent.reload) := by
  obtain ⟨s, hs, hlog, hsync⟩ := h.opens filePath true
  refine ⟨⟨s, hs, hlog, fun id => ?_⟩, h.valid.reload.globalPosition, h.valid.reload.version,
    h.valid.reload.verifies⟩
  rw [hsync.index.stream, hlog]

theorem Recovers.unique {file : File} {as bs : List StoredEvent}
    (ha : Recovers cz filePath file as) (hb : Recovers cz filePath file bs) : as = bs := by
  obtain ⟨s, hs, rfl, -⟩ := ha.opens
  obtain ⟨t, ht, rfl, -⟩ := hb.opens
  cases hs.symm.trans ht
  rfl

theorem InSync.recovers {s : JsonlEventStore} {file : File} (h : InSync cz s file) :
    Recovers cz filePath file (s.index.globalLog.map StoredEvent.reload) := h.holds.recovers

/-! ## One step -/

/-- The events of `stored`, read back behind those of the log. -/
theorem Holds.recovers_append {file : File} {log stored : List StoredEvent}
    (h : Holds cz file (log ++ stored)) :
    Recovers cz filePath file (log.map StoredEvent.reload ++ stored.map StoredEvent.reload) := by
  rw [← List.map_append]
  exact h.recovers

section

variable {s : JsonlEventStore} {file : File}

/-- A returned append has added its batch, a refused one nothing. -/
theorem InSync.call (hs : InSync cz s file) (c : Call) :
    InSync cz (s.call cz file c).store (s.call cz file c).file ∧
      ((∃ err, (s.call cz file c).result = .error err ∧ (s.call cz file c).file = file) ∨
        ∃ r stored, (s.call cz file c).result = .ok r ∧
          stored.map (fun e => e.event) = c.events ∧ (∀ e ∈ stored, e.streamId = c.streamId) ∧
          Holds cz (s.call cz file c).file (s.index.globalLog ++ stored)) := by
  rw [JsonlEventStore.call]
  obtain ⟨err, -, h⟩ | ⟨-, ⟨err, -, h⟩ | ⟨b, hprep, h⟩⟩ :=
    s.append_sound_cases cz c.appendedAt file c.streamId c.events c.expectedVersion
  · rw [h]
    exact ⟨hs, .inl ⟨err, rfl, rfl⟩⟩
  · rw [h]
    exact ⟨hs.started c.streamId, .inl ⟨err, rfl, rfl⟩⟩
  · rw [h]
    have hb := JsonlEventStore.prepared_of_prepare hprep
    exact ⟨(hs.started c.streamId).commit hb, .inr ⟨_, b.stored, rfl, hb.chained.map_event,
      hb.chained.streamId_eq, (hs.started c.streamId).holds_payload hb⟩⟩

/-- An interrupted append has added the first events of its batch. -/
theorem InSync.interrupted (hs : InSync cz s file) (c : Call) (cut : Option ℕ) :
    ∃ stored : List StoredEvent, stored.map (fun e => e.event) <+: c.events ∧
      (∀ e ∈ stored, e.streamId = c.streamId) ∧
      Holds cz (s.interrupted cz file c cut) (s.index.globalLog ++ stored) := by
  have hnone : Holds cz file (s.index.globalLog ++ []) := by
    rw [List.append_nil]
    exact hs.holds
  unfold JsonlEventStore.interrupted
  cases hbytes : s.bytesOf cz file c with
  | error err => exact ⟨[], List.nil_prefix, fun e he => absurd he List.not_mem_nil, hnone⟩
  | ok bytes =>
    cases cut with
    | none => exact ⟨[], List.nil_prefix, fun e he => absurd he List.not_mem_nil, hnone⟩
    | some n =>
      obtain ⟨_, -, hbytes⟩ := bind_eq_ok.mp hbytes
      obtain ⟨b, hprep, hbytes⟩ := bind_eq_ok.mp hbytes
      cases hbytes
      have hb := JsonlEventStore.prepared_of_prepare hprep
      obtain ⟨k, -, hk⟩ := (hs.started c.streamId).holds_part hb (List.take_prefix n _)
      refine ⟨b.stored.take k, ?_, fun e he => ?_, hk⟩
      · rw [List.map_take, hb.chained.map_event]
        exact List.take_prefix k _
      · exact hb.chained.streamId_eq e (List.mem_of_mem_take he)

end

/-! ## Runs -/

/-- The file always holds a log, and an open store is in sync with it. -/
structure Process.Sound (cz : Canonicalizer) (p : Process) : Prop where
  holds : ∃ log, Holds cz p.file log
  inSync : ∀ s, p.store = some s → InSync cz s p.file

theorem Process.sound_next {p p' : Process} (hp : p.Sound cz) {l : ProcessLabel}
    (h : p.next cz filePath l = some p') : p'.Sound cz := by
  cases l with
  | «open» =>
    obtain ⟨log, hlog⟩ := hp.holds
    obtain ⟨s, hs, -, hsync⟩ := hlog.opens filePath true
    rw [Process.next, hs] at h
    cases h
    exact ⟨⟨log, hlog⟩, fun t ht => Option.some.inj ht ▸ hsync⟩
  | append c =>
    obtain ⟨s, hs, rfl⟩ := Option.map_eq_some_iff.mp h
    have hsync := ((hp.inSync s hs).call c).1
    exact ⟨⟨_, hsync.holds⟩, fun t ht => Option.some.inj ht ▸ hsync⟩
  | crash c cut =>
    obtain ⟨s, hs, rfl⟩ := Option.map_eq_some_iff.mp h
    obtain ⟨stored, -, -, hholds⟩ := (hp.inSync s hs).interrupted c cut
    exact ⟨⟨_, hholds⟩, fun t ht => nomatch ht⟩

theorem Process.sound_of_reachable {p : Process} (hp : (crashSystem cz filePath).Reachable p) :
    p.Sound cz := by
  refine hp.invariant (I := Process.Sound cz) ?_ fun _ _ _ hs h => Process.sound_next hs h
  rintro _ rfl
  exact ⟨⟨[], holds_none⟩, fun t ht => nomatch ht⟩

/-- A step only adds events to the log. -/
theorem Process.recovers_next {p p' : Process} (hp : p.Sound cz) {l : ProcessLabel}
    (h : p.next cz filePath l = some p') {log : List StoredEvent}
    (hlog : Recovers cz filePath p.file log) :
    ∃ more, Recovers cz filePath p'.file (log ++ more) := by
  have hsame : Recovers cz filePath p.file (log ++ []) := by rwa [List.append_nil]
  cases l with
  | «open» =>
    obtain ⟨s, -, rfl⟩ := Option.map_eq_some_iff.mp h
    exact ⟨[], hsame⟩
  | append c =>
    obtain ⟨s, hs, rfl⟩ := Option.map_eq_some_iff.mp h
    obtain rfl := hlog.unique (hp.inSync s hs).recovers
    obtain ⟨err, -, hfile⟩ | ⟨r, stored, -, -, -, hholds⟩ := ((hp.inSync s hs).call c).2
    · exact ⟨[], by simpa only [hfile] using hsame⟩
    · exact ⟨_, hholds.recovers_append⟩
  | crash c cut =>
    obtain ⟨s, hs, rfl⟩ := Option.map_eq_some_iff.mp h
    obtain rfl := hlog.unique (hp.inSync s hs).recovers
    obtain ⟨stored, -, -, hholds⟩ := (hp.inSync s hs).interrupted c cut
    exact ⟨_, hholds.recovers_append⟩

theorem Process.recovers_run {p p' : Process} (hp : p.Sound cz) {ls : List ProcessLabel}
    (h : (crashSystem cz filePath).run p ls = some p') {log : List StoredEvent}
    (hlog : Recovers cz filePath p.file log) :
    ∃ more, Recovers cz filePath p'.file (log ++ more) := by
  induction ls generalizing p log with
  | nil =>
    cases h
    exact ⟨[], by rwa [List.append_nil]⟩
  | cons l ls ih =>
    obtain ⟨q, hq, h⟩ := Option.bind_eq_some_iff.mp h
    obtain ⟨as, has⟩ := Process.recovers_next hp hq hlog
    obtain ⟨bs, hbs⟩ := ih (Process.sound_next hp hq) h has
    exact ⟨as ++ bs, by rwa [← List.append_assoc]⟩

/-- At every point of every run the file opens with verification and gives a log that the store
has in memory too; a returned append adds its events to it, an interrupted one the first of
them, and whatever happens later, the log stays. -/
theorem crash_recovery {p : Process} (hp : (crashSystem cz filePath).Reachable p) :
    ∃ log, Recovers cz filePath p.file log ∧
      (∀ s, p.store = some s → s.index.globalLog.map StoredEvent.reload = log ∧
        (∀ c err, (s.call cz p.file c).result = .error err → (s.call cz p.file c).file = p.file) ∧
        (∀ c r, (s.call cz p.file c).result = .ok r →
          ∃ stored : List StoredEvent, stored.map (fun e => e.event) = c.events ∧
            (∀ e ∈ stored, e.streamId = c.streamId) ∧
            Recovers cz filePath (s.call cz p.file c).file
              (log ++ stored.map StoredEvent.reload)) ∧
        ∀ c cut, ∃ stored : List StoredEvent, stored.map (fun e => e.event) <+: c.events ∧
          (∀ e ∈ stored, e.streamId = c.streamId) ∧
          Recovers cz filePath (s.interrupted cz p.file c cut)
            (log ++ stored.map StoredEvent.reload)) ∧
      ∀ ls p', (crashSystem cz filePath).run p ls = some p' →
        ∃ more, Recovers cz filePath p'.file (log ++ more) := by
  have hsound := Process.sound_of_reachable hp
  obtain ⟨log, hlog⟩ := hsound.holds
  refine ⟨_, hlog.recovers, fun s hs => ?_, fun ls p' h =>
    Process.recovers_run hsound h hlog.recovers⟩
  have hsync := hsound.inSync s hs
  have hsame : s.index.globalLog.map StoredEvent.reload = log.map StoredEvent.reload :=
    (show Recovers cz filePath p.file _ from hsync.recovers).unique hlog.recovers
  rw [← hsame]
  refine ⟨rfl, fun c err herr => ?_, fun c r hr => ?_, fun c cut => ?_⟩
  · obtain ⟨_, -, hfile⟩ | ⟨_, _, hok, -⟩ := (hsync.call c).2
    · exact hfile
    · cases herr.symm.trans hok
  · obtain ⟨_, herr, -⟩ | ⟨_, stored, -, hevents, hid, hholds⟩ := (hsync.call c).2
    · cases hr.symm.trans herr
    · exact ⟨stored, hevents, hid, hholds.recovers_append⟩
  · obtain ⟨stored, hevents, hid, hholds⟩ := hsync.interrupted c cut
    exact ⟨stored, hevents, hid, hholds.recovers_append⟩

/-- Ten bytes of the second append reach the file. -/
def tenByteRun : List ProcessLabel :=
  [.open, .append ⟨js "t1", js "a", [openedEvent], none⟩,
    .crash ⟨js "t2", js "a", [openedEvent], some (.number 1)⟩ (some 10)]

theorem crash_recovery_tenByteRun :
    ∃ p log, (crashSystem jcs (js "events.jsonl")).run ⟨none, none⟩ tenByteRun = some p ∧
      Recovers jcs (js "events.jsonl") p.file log := by
  obtain ⟨p, hp⟩ : ∃ p, (crashSystem jcs (js "events.jsonl")).run ⟨none, none⟩ tenByteRun =
      some p := ⟨_, rfl⟩
  obtain ⟨log, hlog, -⟩ := crash_recovery (System.Reachable.run (.init rfl) hp)
  exact ⟨p, log, hp, hlog⟩

end Attestia.EventStore
