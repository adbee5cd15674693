import Attestia.EventStore.CrashRecovery
import Mathlib.Logic.Function.Basic

/-!
# Many instances on one file

Any number of stores are opened at any times on a file that holds a log, among whatever lines and
bytes loading skips. The lock is held from the check under it to the end of the append; what is
written reaches the file part by part in between, while other instances are opened on what is
there. A write may throw, and the process that writes may die.
-/

namespace Attestia.EventStore

open Lib JsonNumber Function

variable (cz : Canonicalizer) (filePath : JsString)

namespace JsonlEventStore

/-- What an append does once it has the lock, up to its first write. -/
def enter (s : JsonlEventStore) (file : File) (c : Call) :
    JsonlEventStore × Except JsError Batch :=
  match checkAppend c.streamId c.events (s.index.streamVersion c.streamId) c.expectedVersion with
  | .error err => (s, .error err)
  | .ok _ => (s.started c.streamId,
      (s.started c.streamId).prepare cz file c.appendedAt c.streamId c.events)

end JsonlEventStore

/-- The instance that holds the lock: whether it repairs a missing newline or writes its payload, and
what of that it has still to write. -/
structure Writer where
  id : ℕ
  batch : JsonlEventStore.Batch
  repairing : Bool
  rest : Bytes

/-- The first write of an append, and the one behind the repair. -/
def Writer.start (id : ℕ) (s : JsonlEventStore) (batch : JsonlEventStore.Batch) : Writer :=
  ⟨id, batch, s.needsTrailingNewline,
    if s.needsTrailingNewline then s.repairBytes else batch.payload⟩

structure World where
  file : File
  instances : ℕ → Option JsonlEventStore
  /-- the size of the file when the instance last read it or ended a write; the code does not keep
  it, but counts the bytes of the text that it has read -/
  seen : ℕ → ℕ
  writer : Option Writer
  /-- the stored events of the appends that have returned, in their order -/
  returned : List (List StoredEvent)

inductive WorldLabel where
  | open (id : ℕ) (verifyOnLoad : Bool)
  /-- an append takes the lock and gets as far as its first write, or is refused -/
  | append (id : ℕ) (c : Call)
  /-- an append does not get the lock -/
  | lockFailed (id : ℕ) (c : Call) (err : JsError)
  /-- the next `n` bytes reach the file -/
  | write (n : ℕ)
  /-- the missing newline is on disk -/
  | repaired
  /-- the commit in memory, the release of the lock and the return -/
  | commit
  /-- the write throws, and the append releases the lock -/
  | fail
  /-- the writing process dies, and its lock is broken -/
  | crash

namespace World

def size (w : World) : ℕ := (w.file.getD []).length

def busy (w : World) (id : ℕ) : Bool := w.writer.any fun x => x.id = id

def set (w : World) (id : ℕ) (s : JsonlEventStore) : World :=
  { w with instances := update w.instances id (some s) }

/-- The instance after a read of the whole file, or after a write. -/
def look (w : World) (id : ℕ) (s : JsonlEventStore) : World :=
  { w.set id s with seen := update w.seen id w.size }

def next (w : World) : WorldLabel → Option World
  | .open id verifyOnLoad =>
    if w.busy id then none
    else (JsonlEventStore.new cz filePath verifyOnLoad none w.file).toOption.map (w.look id)
  | .append id c =>
    if w.writer.isSome then none
    else (w.instances id).map fun s =>
      let r := s.enter cz w.file c
      match r.2 with
      | .error _ => w.set id r.1
      | .ok batch => { w.set id r.1 with writer := some (.start id r.1 batch) }
  | .lockFailed id c err =>
    if w.busy id then none
    else (w.instances id).map fun s =>
      w.set id (s.append cz { JsonlEventStore.Environment.sound c.appendedAt with lock := .error err } w.file
        c.streamId c.events c.expectedVersion).store
  | .write n => w.writer.map fun x =>
      { w with
        file := some (w.file.getD [] ++ x.rest.take n)
        writer := some { x with rest := x.rest.drop n } }
  | .repaired => w.writer.bind fun x =>
      if x.repairing = true ∧ x.rest = [] then (w.instances x.id).map fun s =>
        { w.look x.id s.repaired with writer := some (.start x.id s.repaired x.batch) }
      else none
  | .commit => w.writer.bind fun x =>
      if x.repairing = false ∧ x.rest = [] then (w.instances x.id).map fun s =>
        { w.look x.id (s.commit x.batch) with
          writer := none
          returned := w.returned ++ [x.batch.stored] }
      else none
  | .fail => w.writer.map fun _ => { w with writer := none }
  | .crash => w.writer.map fun x =>
      { w with instances := update w.instances x.id none, writer := none }

def initial (file : File) : World := ⟨file, fun _ => none, fun _ => 0, none, []⟩

/-- The check under the lock sees what has been written behind the appending instance: nothing has, or
the file is longer than the text that the instance has counted. -/
def Detects (w : World) : WorldLabel → Prop
  | .append id _ => ∀ s, w.instances id = some s →
      w.seen id = w.size ∨ s.knownFileSize.getD 0 < w.size
  | _ => True

/-- An instance is opened where the text that it counts is as long as the file: its bytes are valid. -/
def ReadsText (w : World) : WorldLabel → Prop
  | .open _ _ => byteLength w.file.text = w.size
  | _ => True

end World

def worldSystem (file : File) : System World WorldLabel :=
  ⟨(· = .initial file), World.next cz filePath⟩

variable {cz filePath}

/-! ## Instances and the file -/

/-- Only the bytes of a file matter to a log. -/
theorem Holds.of_getD {file file' : File} {log : List StoredEvent} (h : Holds cz file log)
    (heq : file'.getD [] = file.getD []) : Holds cz file' log := by
  refine ⟨?_, h.valid⟩
  rw [File.entries, heq]
  exact h.entries

theorem InSync.of_getD {s : JsonlEventStore} {file file' : File} (h : InSync cz s file)
    (heq : file'.getD [] = file.getD []) : InSync cz s file' := by
  refine ⟨h.holds.of_getD heq, h.index, ?_⟩
  rw [File.text, heq]
  exact h.needsTrailingNewline

/-- The repair of the newline adds no event. -/
theorem InSync.repaired {s : JsonlEventStore} {file : File} (h : InSync cz s file) :
    InSync cz s.repaired (some (file.getD [] ++ s.repairBytes)) := by
  refine ⟨⟨entries_repaired h.holds.entries, h.holds.valid⟩, h.index, ?_⟩
  have hclosed := closed_repaired h.needsTrailingNewline
  exact ((Bool.not_eq_false' _).mpr (decide_eq_true hclosed)).symm

/-- The file is longer than the text that the instance has counted. -/
def Behind (s : JsonlEventStore) (file : File) : Prop :=
  s.knownFileSize.getD 0 < (file.getD []).length

/-- The check under the lock refuses such an instance. -/
theorem Behind.prepare {s : JsonlEventStore} {file : File} (h : Behind s file)
    (cz : Canonicalizer) (appendedAt streamId : JsString) (events : List DomainEvent) :
    ∃ m, s.prepare cz file appendedAt streamId events =
      .error (.eventStoreError .concurrencyConflict m none) := by
  obtain ⟨m, hm⟩ : ∃ m, s.detectExternalAdvanceUnderLock file =
      .error (.eventStoreError .concurrencyConflict m none) := by
    cases file with
    | none => exact absurd h (Nat.not_lt_zero _)
    | some bytes => exact ⟨_, if_pos h⟩
  exact ⟨m, by rw [JsonlEventStore.prepare, hm]; rfl⟩

/-- With arguments that pass the checks, a rejection is a conflict. -/
theorem conflict_of_checkAppend {streamId : JsString} {events : List DomainEvent} {n : ℕ}
    {ev : Option ExpectedVersion} {err : JsError}
    (h : checkAppend streamId events n ev = .error err) (hid : streamId ≠ []) (hne : events ≠ []) :
    ∃ m id, err = .eventStoreError .concurrencyConflict m id := by
  have hid' : validateStreamId streamId = .ok () :=
    if_neg fun h => hid (List.length_eq_zero_iff.mp h)
  have hne' : ¬ events.length = 0 := fun h => hne (List.length_eq_zero_iff.mp h)
  unfold checkAppend at h
  rw [hid', if_neg hne'] at h
  cases ev with
  | none => cases h
  | some ev =>
    cases ev with
    | any => cases h
    | noStream =>
      by_cases hn : n = 0
      · simp only [hn, ne_eq, not_true_eq_false, if_false] at h
        cases h
      · simp only [ne_eq, hn, not_false_eq_true, if_true] at h
        cases h
        exact ⟨_, _, rfl⟩
    | number q =>
      by_cases hq : (n : ℚ) = q
      · simp only [hq, ne_eq, not_true_eq_false, if_false] at h
        cases h
      · simp only [ne_eq, hq, not_false_eq_true, if_true] at h
        cases h
        exact ⟨_, _, rfl⟩

/-- A call is refused and writes nothing; with arguments that pass the checks it is a conflict. -/
def Conflicts (cz : Canonicalizer) (s : JsonlEventStore) (file : File) (c : Call) : Prop :=
  (s.call cz file c).file = file ∧ ∃ err, (s.call cz file c).result = .error err ∧
    (c.streamId ≠ [] → c.events ≠ [] → ∃ m id, err = .eventStoreError .concurrencyConflict m id)

theorem Behind.conflicts {s : JsonlEventStore} {file : File} (h : Behind s file)
    (cz : Canonicalizer) (c : Call) : Conflicts cz s file c := by
  have hbehind : Behind (s.started c.streamId) file := h
  obtain ⟨m, hm⟩ := hbehind.prepare cz c.appendedAt c.streamId c.events
  rw [Conflicts, JsonlEventStore.call]
  obtain ⟨err, hcheck, happend⟩ | ⟨-, ⟨err, hprep, happend⟩ | ⟨b, hprep, -⟩⟩ :=
    s.append_sound_cases cz c.appendedAt file c.streamId c.events c.expectedVersion
  · rw [happend]
    exact ⟨rfl, err, rfl, conflict_of_checkAppend hcheck⟩
  · rw [happend]
    cases hm.symm.trans hprep
    exact ⟨rfl, _, rfl, fun _ _ => ⟨m, none, rfl⟩⟩
  · cases hm.symm.trans hprep

/-- An append that does not get the lock leaves the file alone. -/
theorem lockFailed_store (cz : Canonicalizer) (s : JsonlEventStore) (file : File) (c : Call)
    (err : JsError) :
    let o := s.append cz { JsonlEventStore.Environment.sound c.appendedAt with lock := .error err }
      file c.streamId c.events c.expectedVersion
    (o.store = s ∨ o.store = s.started c.streamId) ∧ o.file = file := by
  have h := JsonlEventStore.append_ends cz s
    { JsonlEventStore.Environment.sound c.appendedAt with lock := .error err } file c.streamId
    c.events c.expectedVersion
  generalize s.append cz _ file c.streamId c.events c.expectedVersion = o at h ⊢
  cases h with
  | rejected _ => exact ⟨.inl rfl, rfl⟩
  | refused _ _ => exact ⟨.inr rfl, rfl⟩
  | repairFailed _ hbefore _ _ => cases hbefore
  | writeFailed _ hbefore _ => cases hbefore
  | written _ hbefore => cases hbefore

theorem enter_cases (cz : Canonicalizer) (s : JsonlEventStore) (file : File) (c : Call) :
    (∃ err, s.enter cz file c = (s, .error err) ∨
        s.enter cz file c = (s.started c.streamId, .error err)) ∨
      ∃ b, s.enter cz file c = (s.started c.streamId, .ok b) ∧
        (s.started c.streamId).prepare cz file c.appendedAt c.streamId c.events = .ok b := by
  rw [JsonlEventStore.enter]
  cases checkAppend c.streamId c.events (s.index.streamVersion c.streamId) c.expectedVersion with
  | error err => exact .inl ⟨err, .inl rfl⟩
  | ok _ =>
    cases hprep : (s.started c.streamId).prepare cz file c.appendedAt c.streamId c.events with
    | error err => exact .inl ⟨err, .inr rfl⟩
    | ok b => exact .inr ⟨b, rfl, rfl⟩

/-! ## The invariant -/

/-- A log that begins with `log₀` and has the returned appends behind it, in their order. -/
def World.Keeps (log₀ : List StoredEvent) (w : World) (log : List StoredEvent) : Prop :=
  ∃ more, log = log₀ ++ more ∧ (w.returned.flatten.map StoredEvent.reload).Sublist more

theorem World.Keeps.append {log₀ : List StoredEvent} {w : World} {log : List StoredEvent}
    (h : w.Keeps log₀ log) (part : List StoredEvent) : w.Keeps log₀ (log ++ part) := by
  obtain ⟨more, rfl, hsub⟩ := h
  exact ⟨more ++ part, List.append_assoc .., hsub.trans (List.sublist_append_left ..)⟩

theorem World.Keeps.returned {log₀ : List StoredEvent} {w w' : World} {log stored : List StoredEvent}
    (h : w.Keeps log₀ log) (hw : w'.returned = w.returned ++ [stored]) :
    w'.Keeps log₀ (log ++ stored.map StoredEvent.reload) := by
  obtain ⟨more, rfl, hsub⟩ := h
  refine ⟨more ++ stored.map StoredEvent.reload, List.append_assoc .., ?_⟩
  rw [hw, List.flatten_append, List.flatten_singleton, List.map_append]
  exact hsub.append (List.Sublist.refl _)

/-- What an instance has in memory is the log of the file, unless the file has grown since. -/
structure World.Knows (cz : Canonicalizer) (w : World) (id : ℕ) (s : JsonlEventStore) : Prop where
  seen_le : w.seen id ≤ w.size
  inSync : w.seen id = w.size → InSync cz s w.file

/-- `x` holds the lock: the file was `before` when it began its write, and it knew that. -/
structure World.Writing (cz : Canonicalizer) (log₀ : List StoredEvent) (w : World) (x : Writer)
    (before : File) (written : Bytes) (s : JsonlEventStore) (c : Call) : Prop where
  instance_eq : w.instances x.id = some s
  inSync : InSync cz s before
  prepared : Prepared cz s c.appendedAt c.streamId c.events x.batch
  repairing : x.repairing = s.needsTrailingNewline
  data : written ++ x.rest = if x.repairing then s.repairBytes else x.batch.payload
  file : w.file.getD [] = before.getD [] ++ written
  seen : w.seen x.id = (before.getD []).length
  keeps : w.Keeps log₀ (s.index.globalLog.map StoredEvent.reload)

structure World.Sound (cz : Canonicalizer) (log₀ : List StoredEvent) (w : World) : Prop where
  log : ∃ log, Holds cz w.file log ∧ w.Keeps log₀ (log.map StoredEvent.reload)
  instances : ∀ id s, w.instances id = some s → w.Knows cz id s
  writing : ∀ x, w.writer = some x → ∃ before written s c, w.Writing cz log₀ x before written s c

section

variable {log₀ : List StoredEvent} {w : World} {x : Writer} {before : File} {written : Bytes}
  {s : JsonlEventStore} {c : Call}

theorem World.Writing.part (h : w.Writing cz log₀ x before written s c) :
    written <+: s.repairBytes ++ x.batch.payload := by
  have hdata := h.data
  rw [h.repairing] at hdata
  cases hneed : s.needsTrailingNewline with
  | true =>
    rw [hneed, if_pos rfl] at hdata
    exact (hdata ▸ List.prefix_append written x.rest).trans (List.prefix_append _ _)
  | false =>
    rw [hneed, if_neg (by decide)] at hdata
    rw [JsonlEventStore.repairBytes, hneed, if_neg (by decide), List.nil_append, ← hdata]
    exact List.prefix_append written x.rest

/-- In the middle of a write the file holds the log with a part of the batch. -/
theorem World.Writing.log (h : w.Writing cz log₀ x before written s c) :
    ∃ log, Holds cz w.file log ∧ w.Keeps log₀ (log.map StoredEvent.reload) := by
  obtain ⟨k, -, hk⟩ := h.inSync.holds_part h.prepared h.part
  refine ⟨_, hk.of_getD h.file, ?_⟩
  rw [List.map_append]
  exact h.keeps.append _

/-- What the writer and the other instances know when more bytes have reached the file. -/
theorem World.Knows.grow {w' : World} {id : ℕ} (h : w.Knows cz id s) {part : Bytes}
    (hfile : w'.file.getD [] = w.file.getD [] ++ part) (hseen : w'.seen id = w.seen id) :
    w'.Knows cz id s := by
  have hsize : w'.size = w.size + part.length := by
    rw [World.size, hfile, List.length_append]
    rfl
  have hle := h.seen_le
  refine ⟨by omega, fun heq => ?_⟩
  have hnil : part = [] := List.eq_nil_of_length_eq_zero (by omega)
  refine (h.inSync (by omega)).of_getD ?_
  rw [hfile, hnil, List.append_nil]

end

/-! ## Steps -/

theorem forall_update {w : World} {id : ℕ} {s : JsonlEventStore} {P : ℕ → JsonlEventStore → Prop}
    (h : ∀ id' s', id' ≠ id → w.instances id' = some s' → P id' s') (hs : P id s) :
    ∀ id' s', (w.set id s).instances id' = some s' → P id' s' := by
  intro id' s' hs'
  change update w.instances id (some s) id' = some s' at hs'
  by_cases hid : id' = id
  · subst hid
    rw [update_self] at hs'
    exact Option.some.inj hs' ▸ hs
  · rw [update_of_ne hid] at hs'
    exact h id' s' hid hs'

section

variable {log₀ : List StoredEvent} {w : World}

theorem not_busy {x : Writer} (hw : w.writer = some x) {id : ℕ} (h : w.busy id = false) :
    x.id ≠ id := by
  rw [World.busy, hw] at h
  simpa using h

/-- Another instance than the writer changes in memory only. -/
theorem World.Sound.set (h : w.Sound cz log₀) {id : ℕ} (hid : w.busy id = false)
    {t : JsonlEventStore} (ht : w.Knows cz id t) : (w.set id t).Sound cz log₀ where
  log := h.log
  instances := forall_update (fun id' s' _ hs' => (⟨(h.instances id' s' hs').1,
    (h.instances id' s' hs').2⟩ : (w.set id t).Knows cz id' s')) ⟨ht.1, ht.2⟩
  writing x hx := by
    obtain ⟨before, written, s, c, hwriting⟩ := h.writing x hx
    refine ⟨before, written, s, c, { hwriting with instance_eq := ?_ }⟩
    change update w.instances id (some t) x.id = some s
    rw [update_of_ne (not_busy hx hid), hwriting.instance_eq]

/-- An instance is opened, also in the middle of a write: it has read the log of the file. -/
theorem World.Sound.open (h : w.Sound cz log₀) {id : ℕ} (hid : w.busy id = false)
    {verifyOnLoad : Bool} {t : JsonlEventStore}
    (ht : JsonlEventStore.new cz filePath verifyOnLoad none w.file = .ok t) :
    (w.look id t).Sound cz log₀ := by
  obtain ⟨log, hlog, -⟩ := h.log
  obtain ⟨s', hs', -, hsync⟩ := hlog.opens filePath verifyOnLoad
  cases ht.symm.trans hs'
  refine ⟨h.log, forall_update (fun id' s' hne hs' => ?_) ?_, fun x hx => ?_⟩
  · have hknows := h.instances id' s' hs'
    have hseen : (w.look id t).seen id' = w.seen id' := update_of_ne hne _ _
    exact ⟨hseen ▸ hknows.1, hseen ▸ hknows.2⟩
  · have hseen : (w.look id t).seen id = w.size := update_self ..
    exact ⟨hseen.le, fun _ => hsync⟩
  · obtain ⟨before, written, s, c, hwriting⟩ := h.writing x hx
    have hne := not_busy hx hid
    refine ⟨before, written, s, c, { hwriting with instance_eq := ?_, seen := ?_ }⟩
    · change update w.instances id (some t) x.id = some s
      rw [update_of_ne hne, hwriting.instance_eq]
    · change update w.seen id w.size x.id = _
      rw [update_of_ne hne, hwriting.seen]

/-- The writer begins a write of a file that it knows. -/
theorem World.Sound.start (h : w.Sound cz log₀) {id : ℕ} {s : JsonlEventStore} {c : Call}
    {batch : JsonlEventStore.Batch} (hseen : w.seen id = w.size) (hsync : InSync cz s w.file)
    (hb : Prepared cz s c.appendedAt c.streamId c.events batch) :
    { w.set id s with writer := some (.start id s batch) }.Sound cz log₀ where
  log := h.log
  instances := forall_update (fun id' s' _ hs' => (⟨(h.instances id' s' hs').1,
    (h.instances id' s' hs').2⟩ :
      { w.set id s with writer := some (.start id s batch) }.Knows cz id' s'))
    ⟨hseen.le, fun _ => hsync⟩
  writing x hx := by
    obtain rfl := Option.some.inj hx
    obtain ⟨log, hlog, hkeeps⟩ := h.log
    refine ⟨w.file, [], s, c, update_self .., hsync, hb, rfl, rfl, (List.append_nil _).symm, hseen,
      ?_⟩
    rw [hsync.holds.unique hlog]
    exact hkeeps

theorem World.Sound.append (h : w.Sound cz log₀) {id : ℕ} {s : JsonlEventStore} {c : Call}
    (hfree : w.writer = none) (hs : w.instances id = some s)
    (hdetects : w.Detects (.append id c)) {w' : World}
    (hnext : w.next cz filePath (.append id c) = some w') : w'.Sound cz log₀ := by
  rw [World.next, hfree, hs] at hnext
  obtain rfl := Option.some.inj hnext
  have hknows := h.instances id s hs
  have hid : w.busy id = false := by rw [World.busy, hfree]; rfl
  have hstarted : w.Knows cz id (s.started c.streamId) :=
    ⟨hknows.1, fun heq => (hknows.2 heq).started c.streamId⟩
  obtain ⟨err, henter | henter⟩ | ⟨b, henter, hprep⟩ := enter_cases cz s w.file c <;>
    simp only [henter]
  · exact h.set hid hknows
  · exact h.set hid hstarted
  · have hseen : w.seen id = w.size := by
      refine (hdetects s hs).resolve_right fun hlt => ?_
      have hbehind : Behind (s.started c.streamId) w.file := hlt
      obtain ⟨m, hm⟩ := hbehind.prepare cz c.appendedAt c.streamId c.events
      cases hprep.symm.trans hm
    exact h.start hseen (hstarted.2 hseen) (JsonlEventStore.prepared_of_prepare hprep)

theorem World.Sound.lockFailed (h : w.Sound cz log₀) {id : ℕ} {s : JsonlEventStore} {c : Call}
    {err : JsError} (hid : w.busy id = false) (hs : w.instances id = some s) :
    (w.set id (s.append cz { JsonlEventStore.Environment.sound c.appendedAt with lock := .error err }
      w.file c.streamId c.events c.expectedVersion).store).Sound cz log₀ := by
  have hknows := h.instances id s hs
  obtain ⟨hstore | hstore, -⟩ := lockFailed_store cz s w.file c err
  · rw [hstore]
    exact h.set hid hknows
  · rw [hstore]
    exact h.set hid ⟨hknows.1, fun heq => (hknows.2 heq).started c.streamId⟩

/-- More bytes reach the file: the writer and the others that knew it are behind. -/
theorem World.Sound.write (h : w.Sound cz log₀) {x : Writer} (hx : w.writer = some x) (n : ℕ) :
    { w with
      file := some (w.file.getD [] ++ x.rest.take n)
      writer := some { x with rest := x.rest.drop n } }.Sound cz log₀ := by
  obtain ⟨before, written, s, c, hwriting⟩ := h.writing x hx
  have hwriting' : { w with
      file := some (w.file.getD [] ++ x.rest.take n)
      writer := some { x with rest := x.rest.drop n } }.Writing cz log₀
        { x with rest := x.rest.drop n } before (written ++ x.rest.take n) s c :=
    { hwriting with
      data := by rw [List.append_assoc, List.take_append_drop, hwriting.data]
      file := by rw [Option.getD_some, hwriting.file, List.append_assoc] }
  refine ⟨hwriting'.log, fun id s' hs' => (h.instances id s' hs').grow rfl rfl, fun y hy => ?_⟩
  obtain rfl := Option.some.inj hy
  exact ⟨before, _, s, c, hwriting'⟩

/-- The file ends with the newline that it lacked. -/
theorem World.Sound.repaired (h : w.Sound cz log₀) {x : Writer} {s : JsonlEventStore}
    (hx : w.writer = some x) (hs : w.instances x.id = some s) (hrepairing : x.repairing = true)
    (hrest : x.rest = []) :
    { w.look x.id s.repaired with writer := some (.start x.id s.repaired x.batch) }.Sound cz log₀ := by
  obtain ⟨before, written, s', c, hwriting⟩ := h.writing x hx
  cases hs.symm.trans hwriting.instance_eq
  have hwritten : written = s.repairBytes := by
    have hdata := hwriting.data
    rwa [hrest, List.append_nil, hrepairing, if_pos rfl] at hdata
  have hsync : InSync cz s.repaired w.file := by
    refine hwriting.inSync.repaired.of_getD ?_
    rw [hwriting.file, hwritten, Option.getD_some]
  have hseen : (w.look x.id s.repaired).seen x.id = w.size := update_self ..
  have hlook : (w.look x.id s.repaired).Knows cz x.id s.repaired := ⟨hseen.le, fun _ => hsync⟩
  refine ⟨h.log, forall_update (fun id' s' hne hs' => ?_) ⟨hlook.1, hlook.2⟩, fun y hy => ?_⟩
  · have hknows := h.instances id' s' hs'
    have hseen' : (w.look x.id s.repaired).seen id' = w.seen id' := update_of_ne hne _ _
    exact ⟨hseen' ▸ hknows.1, hseen' ▸ hknows.2⟩
  · obtain rfl := Option.some.inj hy
    exact ⟨w.file, [], s.repaired, c, update_self .., hsync, ⟨hwriting.prepared.chained,
      hwriting.prepared.images, hwriting.prepared.commit⟩, rfl, rfl, (List.append_nil _).symm, hseen,
      hwriting.keeps⟩

/-- The append returns with its batch in the file. -/
theorem World.Sound.commit (h : w.Sound cz log₀) {x : Writer} {s : JsonlEventStore}
    (hx : w.writer = some x) (hs : w.instances x.id = some s) (hrepairing : x.repairing = false)
    (hrest : x.rest = []) :
    { w.look x.id (s.commit x.batch) with
      writer := none
      returned := w.returned ++ [x.batch.stored] }.Sound cz log₀ := by
  obtain ⟨before, written, s', c, hwriting⟩ := h.writing x hx
  cases hs.symm.trans hwriting.instance_eq
  have hneed : s.needsTrailingNewline = false := hwriting.repairing ▸ hrepairing
  have hrepair : s.repairBytes = [] := by rw [JsonlEventStore.repairBytes, hneed]; rfl
  have hfile : w.file.getD [] = before.getD [] ++ (s.repairBytes ++ x.batch.payload) := by
    have hdata := hwriting.data
    rw [hrest, List.append_nil, hrepairing, if_neg (by decide)] at hdata
    rw [hwriting.file, hdata, hrepair, List.nil_append]
  have hholds := (hwriting.inSync.holds_payload hwriting.prepared).of_getD hfile
  have hsync := (hwriting.inSync.commit hwriting.prepared).of_getD hfile
  rw [JsonlEventStore.repaired_eq_self hneed] at hsync
  refine ⟨⟨_, hholds, ?_⟩, forall_update (fun id' s' hne hs' => ?_) ?_,
    fun _ hy => absurd hy (Option.some_ne_none _).symm⟩
  · rw [List.map_append]
    exact hwriting.keeps.returned rfl
  · have hknows := h.instances id' s' hs'
    have hseen : (w.look x.id (s.commit x.batch)).seen id' = w.seen id' := update_of_ne hne _ _
    exact ⟨hseen ▸ hknows.1, hseen ▸ hknows.2⟩
  · have hseen : (w.look x.id (s.commit x.batch)).seen x.id = w.size := update_self ..
    exact ⟨hseen.le, fun _ => hsync⟩

/-- The writer is gone, with its instance or without it. -/
theorem World.Sound.stop (h : w.Sound cz log₀) {instances : ℕ → Option JsonlEventStore}
    (hsub : ∀ id s, instances id = some s → w.instances id = some s) :
    { w with instances := instances, writer := none }.Sound cz log₀ where
  log := h.log
  instances id s hs := ⟨(h.instances id s (hsub id s hs)).1, (h.instances id s (hsub id s hs)).2⟩
  writing _ hx := nomatch hx

end

theorem World.sound_next {log₀ : List StoredEvent} {w w' : World} (h : w.Sound cz log₀)
    {l : WorldLabel} (hdetects : w.Detects l) (hnext : w.next cz filePath l = some w') :
    w'.Sound cz log₀ := by
  cases l with
  | «open» id verifyOnLoad =>
    rw [World.next] at hnext
    split at hnext
    · cases hnext
    · rename_i hid
      cases hnew : JsonlEventStore.new cz filePath verifyOnLoad none w.file with
      | error err =>
        rw [hnew] at hnext
        cases hnext
      | ok t =>
        rw [hnew] at hnext
        cases hnext
        exact h.open (Bool.not_eq_true _ ▸ hid) hnew
  | append id c =>
    have hnext' := hnext
    rw [World.next] at hnext'
    split at hnext'
    · cases hnext'
    · rename_i hfree
      rw [Bool.not_eq_true, Option.isSome_eq_false_iff, Option.isNone_iff_eq_none] at hfree
      obtain ⟨s, hs, -⟩ := Option.map_eq_some_iff.mp hnext'
      exact h.append hfree hs hdetects hnext
  | lockFailed id c err =>
    rw [World.next] at hnext
    split at hnext
    · cases hnext
    · rename_i hid
      obtain ⟨s, hs, rfl⟩ := Option.map_eq_some_iff.mp hnext
      exact h.lockFailed (Bool.not_eq_true _ ▸ hid) hs
  | write n =>
    obtain ⟨x, hx, rfl⟩ := Option.map_eq_some_iff.mp hnext
    exact h.write hx n
  | repaired =>
    obtain ⟨x, hx, hnext⟩ := Option.bind_eq_some_iff.mp hnext
    split at hnext
    · rename_i hends
      obtain ⟨s, hs, rfl⟩ := Option.map_eq_some_iff.mp hnext
      exact h.repaired hx hs hends.1 hends.2
    · cases hnext
  | commit =>
    obtain ⟨x, hx, hnext⟩ := Option.bind_eq_some_iff.mp hnext
    split at hnext
    · rename_i hends
      obtain ⟨s, hs, rfl⟩ := Option.map_eq_some_iff.mp hnext
      exact h.commit hx hs hends.1 hends.2
    · cases hnext
  | fail =>
    obtain ⟨x, hx, rfl⟩ := Option.map_eq_some_iff.mp hnext
    exact h.stop fun _ _ => id
  | crash =>
    obtain ⟨x, hx, rfl⟩ := Option.map_eq_some_iff.mp hnext
    refine h.stop fun id s hs => ?_
    by_cases hid : id = x.id
    · rw [hid, update_self] at hs
      cases hs
    · rwa [update_of_ne hid] at hs

theorem World.sound_of_reachable {file : File} {log : List StoredEvent} (hfile : Holds cz file log)
    {w : World} (hw : (worldSystem cz filePath file).ReachableVia World.Detects w) :
    w.Sound cz (log.map StoredEvent.reload) := by
  refine hw.invariant (I := World.Sound cz (log.map StoredEvent.reload)) ?_
    fun _ _ _ hs hok h => World.sound_next hs hok h
  rintro _ rfl
  exact ⟨⟨log, hfile, [], (List.append_nil _).symm, List.Sublist.refl _⟩, fun _ _ h => (nomatch h),
    fun _ h => (nomatch h)⟩

/-! ## One append -/

section

variable {file : File} {w : World} {x : Writer} {s : JsonlEventStore}

/-- The file behind a write that nothing interrupts. -/
def World.written (w : World) (x : Writer) : World :=
  { w with file := some (w.file.getD [] ++ x.rest), writer := some { x with rest := [] } }

theorem World.run_write (hx : w.writer = some x) (ls : List WorldLabel) :
    (worldSystem cz filePath file).run w (.write x.rest.length :: ls) =
      (worldSystem cz filePath file).run (w.written x) ls := by
  rw [System.run]
  simp only [worldSystem, World.next, hx, Option.map_some, Option.bind_some, List.take_length,
    List.drop_length]
  rfl

theorem World.run_repaired (hs : w.instances x.id = some s)
    (hrepairing : x.repairing = true) (ls : List WorldLabel) :
    (worldSystem cz filePath file).run (w.written x) (.repaired :: ls) =
      (worldSystem cz filePath file).run { (w.written x).look x.id s.repaired with
        writer := some (.start x.id s.repaired x.batch) } ls := by
  rw [System.run]
  simp only [worldSystem, World.next, World.written, hrepairing, hs, Option.map_some,
    Option.bind_some, and_self, if_true]

theorem World.run_commit (hs : w.instances x.id = some s)
    (hrepairing : x.repairing = false) :
    (worldSystem cz filePath file).run (w.written x) [.commit] =
      some { (w.written x).look x.id (s.commit x.batch) with
        writer := none
        returned := w.returned ++ [x.batch.stored] } := by
  rw [System.run]
  simp only [worldSystem, World.next, World.written, hrepairing, hs, Option.map_some,
    Option.bind_some, and_self, if_true]
  rfl

/-- The steps of an append that nobody disturbs are the call. -/
theorem World.run_append (hfree : w.writer = none) {id : ℕ} (hs : w.instances id = some s)
    {c : Call} {r : AppendResult} (hr : (s.call cz w.file c).result = .ok r) :
    ∃ ls w', (worldSystem cz filePath file).run w (.append id c :: ls) = some w' ∧
      (∀ l ∈ ls, ∀ v : World, v.Detects l) ∧ w'.file = (s.call cz w.file c).file ∧
      w'.instances = update w.instances id (some (s.call cz w.file c).store) ∧
      (∀ other, other ≠ id → w'.seen other = w.seen other) ∧ w'.writer = none ∧
      ∃ stored, w'.returned = w.returned ++ [stored] ∧
        stored.map (fun e => e.event) = c.events := by
  rw [JsonlEventStore.call] at hr ⊢
  obtain ⟨err, -, h⟩ | ⟨hcheck, ⟨err, -, h⟩ | ⟨b, hprep, h⟩⟩ :=
    s.append_sound_cases cz c.appendedAt w.file c.streamId c.events c.expectedVersion
  · rw [h] at hr
    cases hr
  · rw [h] at hr
    cases hr
  · have henter : s.enter cz w.file c = (s.started c.streamId, .ok b) := by
      rw [JsonlEventStore.enter, hcheck]
      exact congrArg (Prod.mk _) hprep
    have hevents := (JsonlEventStore.prepared_of_prepare hprep).chained.map_event
    obtain ⟨v, hv⟩ : ∃ v, v = { w.set id (s.started c.streamId) with
        writer := some (.start id (s.started c.streamId) b) } := ⟨_, rfl⟩
    have hfile : v.file = w.file := by rw [hv]; rfl
    have hinstances : v.instances = update w.instances id (some (s.started c.streamId)) := by
      rw [hv]; rfl
    have hinstance : v.instances id = some (s.started c.streamId) := by
      rw [hinstances, update_self]
    have hseen : v.seen = w.seen := by rw [hv]; rfl
    have hreturned : v.returned = w.returned := by rw [hv]; rfl
    have hrun : ∀ ls, (worldSystem cz filePath file).run w (.append id c :: ls) =
        (worldSystem cz filePath file).run v ls := by
      intro ls
      have happend : w.next cz filePath (.append id c) = some v := by
        rw [World.next, hfree, hs, hv]
        simp only [Option.isSome_none, Bool.false_eq_true, if_false, Option.map_some, henter]
      rw [System.run]
      exact congrArg (Option.bind · _) happend
    rw [h]
    cases hneed : (s.started c.streamId).needsTrailingNewline with
    | false =>
      have hwriter : v.writer = some ⟨id, b, false, b.payload⟩ := by
        rw [hv, Writer.start, hneed]
        rfl
      refine ⟨[.write b.payload.length, .commit], _, (hrun _).trans ((run_write hwriter _).trans
        (run_commit hinstance rfl)), by simp [World.Detects], ?_, ?_, fun other hne => ?_, rfl,
        b.stored, ?_, hevents⟩
      · have hrepair : s.repairBytes = [] := if_neg (Bool.eq_false_iff.mp hneed)
        rw [hrepair, List.nil_append, ← hfile]
        rfl
      · rw [JsonlEventStore.repaired_eq_self hneed]
        show update v.instances id _ = _
        rw [hinstances, update_idem]
      · exact (update_of_ne hne _ _).trans (by rw [← hseen]; rfl)
      · show v.returned ++ _ = _
        rw [hreturned]
    | true =>
      have hwriter : v.writer = some ⟨id, b, true, s.repairBytes⟩ := by
        rw [hv, Writer.start, hneed]
        rfl
      have hrepaired := (hrun _).trans ((run_write hwriter _).trans
        (run_repaired hinstance rfl [.write b.payload.length, .commit]))
      refine ⟨[.write s.repairBytes.length, .repaired, .write b.payload.length, .commit], _,
        hrepaired.trans ((run_write (x := ⟨id, b, false, b.payload⟩) rfl _).trans
          (run_commit (update_self ..) rfl)), by simp [World.Detects], ?_, ?_, fun other hne => ?_,
        rfl, b.stored, ?_, hevents⟩
      · rw [← List.append_assoc, ← hfile]
        rfl
      · show update (update v.instances id _) id _ = _
        rw [hinstances, update_idem, update_idem]
      · exact (update_of_ne hne _ _).trans ((update_of_ne hne _ _).trans (by rw [← hseen]; rfl))
      · show v.returned ++ _ = _
        rw [hreturned]

end

/-! ## Valid text -/

/-- Every instance has counted the bytes that it has seen. -/
def World.Counts (w : World) : Prop :=
  ∀ id s, w.instances id = some s → s.knownFileSize.getD 0 = w.seen id

section

variable {log₀ : List StoredEvent} {w : World}

theorem World.Counts.detects (h : w.Counts) (hsound : w.Sound cz log₀) (l : WorldLabel) :
    w.Detects l := by
  cases l with
  | append id c =>
    intro s hs
    have hle := (hsound.instances id s hs).seen_le
    have hcount := h id s hs
    omega
  | _ => trivial

theorem World.Counts.set (h : w.Counts) {id : ℕ} {s t : JsonlEventStore}
    (hs : w.instances id = some s) (ht : t.knownFileSize = s.knownFileSize) : (w.set id t).Counts :=
  forall_update (fun id' s' _ hs' => h id' s' hs') (ht ▸ h id s hs)

theorem World.Counts.look (h : w.Counts) {id : ℕ} {t : JsonlEventStore}
    (ht : t.knownFileSize.getD 0 = w.size) : (w.look id t).Counts := by
  refine forall_update (fun id' s' hne hs' => (h id' s' hs').trans ?_) (ht.trans ?_)
  · exact (update_of_ne hne _ _).symm
  · exact (update_self id w.size w.seen).symm

/-- What a write that has ended has added to the file. -/
theorem World.Writing.size {x : Writer} {before : File} {written : Bytes} {s : JsonlEventStore}
    {c : Call} (h : w.Writing cz log₀ x before written s c) (hrest : x.rest = []) :
    w.size = w.seen x.id + (if x.repairing then s.repairBytes else x.batch.payload).length := by
  rw [← h.data, hrest, List.append_nil, h.seen, World.size, h.file, List.length_append]

/-- A file of which nothing is known does not lack a newline. -/
theorem World.Writing.knownFileSize {x : Writer} {before : File} {written : Bytes}
    {s : JsonlEventStore} {c : Call} (h : w.Writing cz log₀ x before written s c)
    (hcount : s.knownFileSize.getD 0 = w.seen x.id) (hrepairing : x.repairing = true) :
    s.knownFileSize = some (w.seen x.id) := by
  cases hknown : s.knownFileSize with
  | some n =>
    rw [hknown] at hcount
    exact congrArg some hcount
  | none =>
    rw [hknown, h.seen] at hcount
    have hnil : before.getD [] = [] := List.eq_nil_of_length_eq_zero hcount.symm
    have hclosed : Lines.Closed before.text := by
      rw [File.text, hnil]
      exact .inl rfl
    rw [h.repairing, h.inSync.needsTrailingNewline, decide_eq_true hclosed] at hrepairing
    cases hrepairing

theorem World.counts_next {w' : World} (h : w.Counts) (hsound : w.Sound cz log₀) {l : WorldLabel}
    (hreads : w.ReadsText l) (hnext : w.next cz filePath l = some w') : w'.Counts := by
  cases l with
  | «open» id verifyOnLoad =>
    rw [World.next] at hnext
    split at hnext
    · cases hnext
    · cases hnew : JsonlEventStore.new cz filePath verifyOnLoad none w.file with
      | error err =>
        rw [hnew] at hnext
        cases hnext
      | ok t =>
        rw [hnew] at hnext
        cases hnext
        obtain ⟨es, -, -, hopened⟩ := JsonlEventStore.opened_of_new hnew
        refine h.look (.trans ?_ hreads)
        rw [hopened.knownFileSize]
        cases w.file <;> rfl
  | append id c =>
    rw [World.next] at hnext
    split at hnext
    · cases hnext
    · obtain ⟨s, hs, rfl⟩ := Option.map_eq_some_iff.mp hnext
      obtain ⟨err, henter | henter⟩ | ⟨b, henter, -⟩ := enter_cases cz s w.file c <;>
        simp only [henter] <;> exact h.set hs rfl
  | lockFailed id c err =>
    rw [World.next] at hnext
    split at hnext
    · cases hnext
    · obtain ⟨s, hs, rfl⟩ := Option.map_eq_some_iff.mp hnext
      obtain ⟨hstore | hstore, -⟩ := lockFailed_store cz s w.file c err <;>
        rw [hstore] <;> exact h.set hs rfl
  | write n =>
    obtain ⟨x, -, rfl⟩ := Option.map_eq_some_iff.mp hnext
    exact h
  | repaired =>
    obtain ⟨x, hx, hnext⟩ := Option.bind_eq_some_iff.mp hnext
    split at hnext
    · rename_i hends
      obtain ⟨s, hs, rfl⟩ := Option.map_eq_some_iff.mp hnext
      obtain ⟨before, written, s', c, hwriting⟩ := hsound.writing x hx
      cases hs.symm.trans hwriting.instance_eq
      have hsize := hwriting.size hends.2
      rw [hends.1, if_pos rfl] at hsize
      refine h.look ?_
      rw [JsonlEventStore.repaired, hwriting.knownFileSize (h x.id s hs) hends.1, hsize]
      rfl
    · cases hnext
  | commit =>
    obtain ⟨x, hx, hnext⟩ := Option.bind_eq_some_iff.mp hnext
    split at hnext
    · rename_i hends
      obtain ⟨s, hs, rfl⟩ := Option.map_eq_some_iff.mp hnext
      obtain ⟨before, written, s', c, hwriting⟩ := hsound.writing x hx
      cases hs.symm.trans hwriting.instance_eq
      have hsize := hwriting.size hends.2
      rw [hends.1, if_neg (by decide)] at hsize
      refine h.look ?_
      rw [JsonlEventStore.knownFileSize_commit, Option.getD_some, h x.id s hs, hsize]
    · cases hnext
  | fail =>
    obtain ⟨x, -, rfl⟩ := Option.map_eq_some_iff.mp hnext
    exact h
  | crash =>
    obtain ⟨x, -, rfl⟩ := Option.map_eq_some_iff.mp hnext
    intro id s hs
    change update w.instances x.id none id = some s at hs
    by_cases hid : id = x.id
    · rw [hid, update_self] at hs
      cases hs
    · rw [update_of_ne hid] at hs
      exact h id s hs

/-- Where every instance is opened on valid text, the check under the lock sees whatever has been
written behind an instance. -/
theorem detects_of_readsText {file : File} {log : List StoredEvent} (hfile : Holds cz file log)
    (hw : (worldSystem cz filePath file).ReachableVia World.ReadsText w) :
    (worldSystem cz filePath file).ReachableVia World.Detects w ∧ w.Counts := by
  induction hw with
  | init h =>
    obtain rfl := h
    exact ⟨.init rfl, fun _ _ h => nomatch h⟩
  | @step w w' l _ hreads hnext ih =>
    obtain ⟨hreach, hcounts⟩ := ih
    have hsound := World.sound_of_reachable hfile hreach
    exact ⟨hreach.step (hcounts.detects hsound l) hnext, World.counts_next hcounts hsound hreads hnext⟩

end

/-! ## One log -/

/-- In every run in which the check under the lock sees whatever has been written behind the instance
that appends: at every moment the file opens with verification and holds, behind the log that it held
at first, the events of the appends that have returned, each once and in their order; and an instance
that is behind the file is refused. -/
theorem instances_keep_one_log {file : File} {log₀ : List StoredEvent} (hfile : Holds cz file log₀)
    {w : World} (hw : (worldSystem cz filePath file).ReachableVia World.Detects w) :
    ∃ more, Recovers cz filePath w.file (log₀.map StoredEvent.reload ++ more) ∧
      (w.returned.flatten.map StoredEvent.reload).Sublist more ∧
      ∀ id s c, w.writer = none → w.instances id = some s → w.Detects (.append id c) →
        (w.seen id ≠ w.size ∨
          s.index.globalLog.map StoredEvent.reload ≠ log₀.map StoredEvent.reload ++ more) →
        Conflicts cz s w.file c := by
  have hsound := World.sound_of_reachable hfile hw
  obtain ⟨log, hlog, more, heq, hsub⟩ := hsound.log
  refine ⟨more, heq ▸ hlog.recovers, hsub, fun id s c _ hs hdetects hbehind => ?_⟩
  obtain hseen | hlt := hdetects s hs
  · refine absurd ?_ (hbehind.resolve_left (not_not_intro hseen))
    rw [← heq]
    exact ((hsound.instances id s hs).inSync hseen).holds.unique hlog
  · exact Behind.conflicts hlt cz c

/-- A brace, and a byte that is no text, without a newline. -/
def tornFile : File := some [0x7B, 0xFF]

def openedCall : Call := ⟨js "t", js "a", [openedEvent], some .noStream⟩

/-- Two instances are opened on the torn file; the append of the first repairs it, and the second is
refused. -/
theorem instances_keep_one_log_tornFile :
    ∃ w more, (worldSystem jcs (js "f") tornFile).Reachable w ∧ w.returned.length = 1 ∧
      Recovers jcs (js "f") w.file more ∧
      ∃ t, w.instances 1 = some t ∧ Conflicts jcs t w.file openedCall := by
  obtain ⟨v, s, t, r, hv, hfree, hs, ht, hnone, hseen, hseen', hknown, hr, hsize⟩ : ∃ v s t r,
      (worldSystem jcs (js "f") tornFile).run (.initial tornFile) [.open 0 true, .open 1 false] =
        some v ∧ v.writer = none ∧ v.instances 0 = some s ∧ v.instances 1 = some t ∧
      v.returned = [] ∧ v.seen 0 = v.size ∧ v.seen 1 = 2 ∧ t.knownFileSize = some 4 ∧
      (s.call jcs v.file openedCall).result = .ok r ∧
      (((s.call jcs v.file openedCall).file.getD []).drop 4).isEmpty = false :=
    ⟨_, _, _, _, rfl, rfl, rfl, rfl, rfl, rfl, rfl, rfl, rfl, by decide +kernel⟩
  have hopened : (worldSystem jcs (js "f") tornFile).ReachableVia World.Detects v :=
    .run (.init rfl) (by simp [World.Detects]) hv
  obtain ⟨ls, w, hrun, hls, hfile, hinstances, hothers, hwriter, stored, hreturned, -⟩ :=
    World.run_append hfree hs hr
  obtain ⟨u, hu, hrun⟩ := Option.bind_eq_some_iff.mp hrun
  have hcurrent : v.Detects (.append 0 openedCall) := fun _ _ => .inl hseen
  have hw := (hopened.step hcurrent hu).run hls hrun
  have ht' : w.instances 1 = some t := by rw [hinstances, update_of_ne (by decide), ht]
  have hlt : 4 < w.size := by
    rw [World.size, hfile, ← not_le, ← List.drop_eq_nil_iff]
    exact List.isEmpty_eq_false_iff.mp hsize
  have hstale : w.seen 1 ≠ w.size := by rw [hothers 1 (by decide), hseen']; omega
  have hdetects : w.Detects (.append 1 openedCall) := by
    intro t' ht''
    obtain rfl := Option.some.inj (ht'.symm.trans ht'')
    exact .inr (by rw [hknown]; exact hlt)
  obtain ⟨more, hrecovers, -, hrefuses⟩ :=
    instances_keep_one_log (show Holds jcs tornFile [] from ⟨rfl, .empty⟩) hw
  refine ⟨w, more, hw.reachable, ?_, hrecovers, t, ht',
    hrefuses 1 t openedCall hwriter ht' hdetects (.inl hstale)⟩
  rw [hreturned, hnone]
  rfl

/-- 120 bytes that are no text, and a newline: loading counts 361 bytes of the 121. -/
def invalidFile : File := some (List.replicate 120 0xFF ++ [0x0A])

/-- Two instances are opened, and both append. -/
def forkRun : List WorldLabel :=
  [.open 0 true, .open 1 true, .append 0 openedCall, .write 225, .commit, .append 1 openedCall,
    .write 225, .commit]

set_option maxRecDepth 10000 in
theorem holds_invalidFile : Holds jcs invalidFile [] := ⟨rfl, .empty⟩

/-- A log that a file opens with has the positions of the records in the file. -/
theorem Recovers.positions {filePath : JsString} {file : File} {log : List StoredEvent}
    (h : Recovers cz filePath file log) {es : List Entry} (hes : file.entries = .ok es) :
    es.map (fun x => x.1.globalPosition) = (List.range es.length).map fun i => .ofNat (i + 1) := by
  obtain ⟨s, hs, rfl, -⟩ := h.opens
  obtain ⟨es', hes', -, hopened⟩ := JsonlEventStore.opened_of_new hs
  obtain rfl := Except.ok.inj (hes'.symm.trans hes)
  have hpositions := h.globalPosition
  rw [hopened.index, EventIndex.globalLog_ofEntries, List.map_map, List.length_map] at hpositions
  exact hpositions

set_option maxRecDepth 10000 in
/-- The second instance is not refused, and writes a second event of position one. -/
theorem not_one_log : ¬ ∀ (file : File) (log₀ : List StoredEvent) (w : World),
    Holds jcs file log₀ → (worldSystem jcs (js "f") file).Reachable w →
      ∃ log, Recovers jcs (js "f") w.file log := by
  intro h
  have hrun : (((worldSystem jcs (js "f") invalidFile).run (.initial invalidFile) forkRun).bind
      fun w => w.file.entries.toOption.map fun es => es.map fun x => x.1.globalPosition) =
        some [.ofNat 1, .ofNat 1] := by
    decide +kernel
  obtain ⟨w, hw, hpositions⟩ := Option.bind_eq_some_iff.mp hrun
  obtain ⟨es, hes, hmap⟩ := Option.map_eq_some_iff.mp hpositions
  obtain ⟨log, hlog⟩ := h invalidFile [] w holds_invalidFile (System.Reachable.run (.init rfl) hw)
  have hentries : w.file.entries = .ok es := by
    cases hfile : w.file.entries <;> rw [hfile] at hes <;> cases hes
    rfl
  have hrange := hlog.positions hentries
  have hlength : es.length = 2 := by rw [← List.length_map, hmap]; rfl
  rw [hmap, hlength] at hrange
  revert hrange
  decide +kernel

end Attestia.EventStore
