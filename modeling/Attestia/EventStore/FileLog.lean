import Attestia.EventStore.Reload

/-!
# The log in the file

A file holds a log if loading finds the events of the log and the log is valid. A store is in
sync with a file that holds its own log. An append keeps the store in sync, and whatever part
of its payload reaches the file, the file holds the log with a part of the batch.
-/

namespace Attestia.EventStore

open Lib JsonNumber

variable (cz : Canonicalizer)

structure Holds (file : File) (log : List StoredEvent) : Prop where
  entries : file.entries = .ok (log.map StoredEvent.entry)
  valid : ValidLog cz log

variable {cz}

theorem holds_none : Holds cz none [] := ⟨rfl, .empty⟩

theorem map_entry_reload (log : List StoredEvent) :
    (log.map StoredEvent.reload).map StoredEvent.entry = log.map StoredEvent.entry := by
  simp

theorem Holds.reload {file : File} {log : List StoredEvent} (h : Holds cz file log) :
    Holds cz file (log.map StoredEvent.reload) :=
  ⟨by rw [map_entry_reload, h.entries], h.valid.reload⟩

/-- What a file holds is determined up to reading it back. -/
theorem Holds.unique {file : File} {as bs : List StoredEvent} (ha : Holds cz file as)
    (hb : Holds cz file bs) : as.map StoredEvent.reload = bs.map StoredEvent.reload := by
  have h := congrArg (List.map Prod.fst) (Except.ok.inj (ha.entries.symm.trans hb.entries))
  rw [List.map_map, List.map_map] at h
  exact h

/-! ## Opening -/

/-- Reading an event that comes next adds it. -/
theorem EventIndex.load_eq_add {s : EventIndex} {log : List StoredEvent} (hs : IndexOf s log)
    {e : StoredEvent} (he : IsNext cz log e) : s.load e e.hash = s.add e := by
  have hpos : s.nextGlobalPosition.val ≤ e.globalPosition.val := by
    rw [hs.nextGlobalPosition, he.globalPosition]
  rw [EventIndex.load, if_pos hpos]
  rfl

theorem ValidLog.indexOf_ofEntries {log : List StoredEvent} (h : ValidLog cz log) :
    IndexOf (.ofEntries (log.map StoredEvent.entry)) (log.map StoredEvent.reload) := by
  induction h with
  | empty => exact indexOf_empty
  | append _ he ih =>
    have hload := EventIndex.load_eq_add ih he.reload
    rw [List.map_append, List.map_append, EventIndex.ofEntries, List.foldl_append,
      ← EventIndex.ofEntries, List.map_singleton, List.map_singleton, List.foldl_cons,
      List.foldl_nil]
    exact hload ▸ ih.add he.reload

variable (cz)

/-- The store's memory is the index of the log that the file holds. -/
structure InSync (s : JsonlEventStore) (file : File) : Prop where
  holds : Holds cz file s.index.globalLog
  index : IndexOf s.index s.index.globalLog
  needsTrailingNewline : s.needsTrailingNewline = !decide (Lines.Closed file.text)

variable {cz}

/-- A file that holds a log opens, and the store is in sync with it. -/
theorem Holds.opens {file : File} {log : List StoredEvent} (h : Holds cz file log)
    (filePath : JsString) (verifyOnLoad : Bool) :
    ∃ s, JsonlEventStore.new cz filePath verifyOnLoad none file = .ok s ∧
      s.index.globalLog = log.map StoredEvent.reload ∧ InSync cz s file := by
  have hfst : (log.map StoredEvent.entry).map Prod.fst = log.map StoredEvent.reload := by
    rw [List.map_map]
    rfl
  obtain ⟨s, hs, hopened⟩ := JsonlEventStore.new_of_entries cz filePath h.entries
    fun _ : verifyOnLoad = true => hfst ▸ h.valid.reload.verifies
  have hlog : s.index.globalLog = log.map StoredEvent.reload := by
    rw [hopened.index, EventIndex.globalLog_ofEntries, hfst]
  refine ⟨s, hs, hlog, ?_, ?_, hopened.needsTrailingNewline⟩
  · rw [hlog]
    exact h.reload
  · rw [hlog, hopened.index]
    exact h.valid.indexOf_ofEntries

/-! ## Batches -/

/-- The file is closed once the newline is repaired. -/
theorem closed_repaired {s : JsonlEventStore} {file : File}
    (h : s.needsTrailingNewline = !decide (Lines.Closed file.text)) :
    Lines.Closed (Utf8.decode (file.getD [] ++ s.repairBytes)) := by
  rw [JsonlEventStore.repairBytes]
  split
  · exact Lines.closed_decode_append_newline _
  · rename_i hneed
    rw [List.append_nil]
    rw [Bool.not_eq_true, h, Bool.not_eq_false', decide_eq_true_iff] at hneed
    exact hneed

section

variable [Rounding] (cz : Canonicalizer)

/-- What an append has prepared when it starts to write. -/
structure Prepared (s : JsonlEventStore) (appendedAt streamId : JsString)
    (events : List DomainEvent) (b : JsonlEventStore.Batch) : Prop where
  chained : Chained cz streamId appendedAt (s.index.streamVersion streamId + 1)
    s.index.nextGlobalPosition s.index.lastHash events b.stored
  images : List.Forall₂ IsImage b.stored b.lines
  commit : (s.commit b).index = b.stored.foldl EventIndex.add s.index

variable {cz}

namespace JsonlEventStore

/-- The loop of the JSONL store makes a batch, its lines, and the cursors behind it. -/
theorem buildBatch_eq_ok {streamId appendedAt : JsString} {events : List DomainEvent} {v : ℕ}
    {p : Number} {prev : JsonValue} {b : Batch}
    (h : buildBatch cz streamId appendedAt events v p prev = .ok b) :
    Chained cz streamId appendedAt v p prev events b.stored ∧
      List.Forall₂ IsImage b.stored b.lines ∧
      ∀ s : EventIndex, s.nextGlobalPosition = p → s.lastHash = prev →
        b.stored.foldl EventIndex.push
            { s with nextGlobalPosition := b.nextGlobalPosition, lastHash := b.lastHash } =
          b.stored.foldl EventIndex.add s := by
  induction events generalizing v p prev b with
  | nil =>
    cases h
    exact ⟨.nil, .nil, fun s hp hprev => by subst hp hprev; rfl⟩
  | cons event events ih =>
    obtain ⟨hash, hhash, h⟩ := bind_eq_ok.mp h
    obtain ⟨j, hj, h⟩ := bind_eq_ok.mp h
    obtain ⟨rest, hrest, h⟩ := bind_eq_ok.mp h
    cases h
    obtain ⟨hch, himages, hcommit⟩ := ih hrest
    refine ⟨.cons hhash hch, .cons ⟨j, hj, rfl⟩ himages, fun s hp hprev => ?_⟩
    subst hp hprev
    exact hcommit (s.add (withHash (baseEvent streamId appendedAt event v s.nextGlobalPosition)
      hash s.lastHash)) rfl rfl

theorem prepared_of_prepare {s : JsonlEventStore} {file : File} {appendedAt streamId : JsString}
    {events : List DomainEvent} {b : Batch}
    (h : s.prepare cz file appendedAt streamId events = .ok b) :
    Prepared cz s appendedAt streamId events b := by
  obtain ⟨_, -, h⟩ := bind_eq_ok.mp h
  obtain ⟨hch, himages, hcommit⟩ := buildBatch_eq_ok h
  exact ⟨hch, himages, hcommit s.index rfl rfl⟩

end JsonlEventStore

theorem newline_not_mem_lines {stored : List StoredEvent} {ts : List (List Char)}
    (h : List.Forall₂ IsImage stored ts) : ∀ t ∈ ts, '\n' ∉ t := by
  induction h with
  | nil => exact fun t ht => absurd ht List.not_mem_nil
  | cons himage _ ih =>
    refine List.forall_mem_cons.mpr ⟨?_, ih⟩
    obtain ⟨j, -, rfl⟩ := himage
    exact JsonValue.newline_not_mem_text j

variable {s : JsonlEventStore} {file : File} {appendedAt streamId : JsString}
  {events : List DomainEvent} {b : JsonlEventStore.Batch}

theorem Prepared.lines (hb : Prepared cz s appendedAt streamId events b)
    (hk : s.index.nextGlobalPosition.IsKept) (hw : s.index.nextGlobalPosition.IsWritten) :
    List.Forall₂ IsLine b.stored b.lines := by
  have hstored : ∀ e ∈ b.stored, (e.hash ≠ none ∧ e.previousHash ≠ none) ∧
      e.globalPosition.IsKept ∧ e.globalPosition.IsWritten := fun e he => by
    obtain ⟨hkept, hwritten⟩ := hb.chained.isWritten_iff hk e he
    exact ⟨hb.chained.links_ne_none e he, hkept, hwritten.mpr hw⟩
  refine ((List.forall₂_and_left _ _).mpr ⟨hstored, hb.images⟩).imp fun e t h => ?_
  exact ⟨h.2, h.1.1, h.1.2.1, h.1.2.2⟩

theorem entries_repaired {es : List Entry} (h : file.entries = .ok es) :
    fileEntries (file.getD [] ++ s.repairBytes) = .ok es := by
  rw [JsonlEventStore.repairBytes]
  split
  · exact fileEntries_append_newline h
  · rw [List.append_nil]
    exact h

theorem globalLog_commit (hb : Prepared cz s appendedAt streamId events b) :
    (s.commit b).index.globalLog = s.index.globalLog ++ b.stored := by
  rw [hb.commit]
  generalize s.index = t
  induction b.stored generalizing t with
  | nil => exact (List.append_nil _).symm
  | cons e es ih =>
    rw [List.foldl_cons, ih]
    exact List.append_assoc _ [e] es

end

section

variable {s : JsonlEventStore} {file : File} {appendedAt streamId : JsString}
  {events : List DomainEvent} {b : JsonlEventStore.Batch}

/-- The log with the batch is valid, and the commit takes its index. -/
theorem InSync.append_stored (hs : InSync cz s file)
    (hb : Prepared cz s appendedAt streamId events b) :
    ValidLog cz (s.index.globalLog ++ b.stored) ∧
      IndexOf (s.commit b).index (s.index.globalLog ++ b.stored) := by
  rw [hb.commit]
  refine hb.chained.append hs.holds.valid hs.index ?_ hs.index.nextGlobalPosition hs.index.lastHash
  rw [EventIndex.streamVersion, hs.index.stream]

/-- Whatever part of the bytes of an append reaches the file, the file holds the log with the
first events of the batch. -/
theorem InSync.holds_part (hs : InSync cz s file)
    (hb : Prepared cz s appendedAt streamId events b) {p : Bytes}
    (hp : p <+: s.repairBytes ++ b.payload) :
    ∃ k ≤ b.stored.length,
      Holds cz (some (file.getD [] ++ p)) (s.index.globalLog ++ b.stored.take k) := by
  have hvalid : ∀ k, ValidLog cz (s.index.globalLog ++ b.stored.take k) := fun k =>
    (hs.append_stored hb).1.of_isPrefix
      (List.prefix_append_right_inj _ |>.mpr (List.take_prefix k _))
  by_cases hr : s.repairBytes <+: p
  · obtain ⟨q, rfl⟩ := hr
    obtain ⟨k, hk, hentries⟩ := fileEntries_append_prefix
      (closed_repaired hs.needsTrailingNewline) (entries_repaired hs.holds.entries)
      (hb.lines rfl (Option.some_ne_none _)) (newline_not_mem_lines hb.images)
      (List.prefix_append_right_inj _ |>.mp hp)
    refine ⟨k, hk, ?_, hvalid k⟩
    rw [List.append_assoc, ← List.map_append] at hentries
    exact hentries
  · -- nothing has been written
    have hnil : p = [] := by
      have hp' := (List.prefix_or_prefix_of_prefix hp (List.prefix_append _ _)).resolve_right hr
      rw [JsonlEventStore.repairBytes] at hp' hr
      split at hp'
      · obtain h | h := List.prefix_concat_iff.mp (show p <+: [] ++ [0x0A] from hp')
        · rename_i hneed
          rw [if_pos hneed, h] at hr
          exact absurd (List.prefix_refl _) hr
        · exact List.prefix_nil.mp h
      · exact List.prefix_nil.mp hp'
    refine ⟨0, Nat.zero_le _, ?_, hvalid 0⟩
    rw [hnil, List.append_nil, List.take_zero, List.append_nil]
    exact hs.holds.entries

/-- The whole payload adds the whole batch. -/
theorem InSync.holds_payload (hs : InSync cz s file)
    (hb : Prepared cz s appendedAt streamId events b) :
    Holds cz (some (file.getD [] ++ (s.repairBytes ++ b.payload)))
      (s.index.globalLog ++ b.stored) := by
  have hentries := fileEntries_append_payload (closed_repaired hs.needsTrailingNewline)
    (entries_repaired hs.holds.entries) (hb.lines rfl (Option.some_ne_none _))
    (newline_not_mem_lines hb.images)
  refine ⟨?_, (hs.append_stored hb).1⟩
  rw [List.append_assoc, ← List.map_append] at hentries
  exact hentries

/-- The commit keeps the store in sync. -/
theorem InSync.commit (hs : InSync cz s file)
    (hb : Prepared cz s appendedAt streamId events b) :
    InSync cz (s.repaired.commit b) (some (file.getD [] ++ (s.repairBytes ++ b.payload))) := by
  have hindex : (s.repaired.commit b).index = (s.commit b).index := rfl
  have hlog := globalLog_commit hb
  rw [← hindex] at hlog
  refine ⟨?_, ?_, ?_⟩
  · rw [hlog]
    exact hs.holds_payload hb
  · rw [hlog]
    exact (hs.append_stored hb).2
  · have hclosed := Lines.closed_decode_append_join
      (closed_repaired hs.needsTrailingNewline) b.lines
    rw [List.append_assoc] at hclosed
    exact ((Bool.not_eq_false' _).mpr (decide_eq_true hclosed)).symm

end

/-! ## One append -/

namespace JsonlEventStore

/-- The file after the repair of a missing newline. -/
def afterRepair (s : JsonlEventStore) (file : File) : File :=
  if s.needsTrailingNewline then some (file.getD [] ++ s.repairBytes) else file

theorem repaired_eq_self {s : JsonlEventStore} (h : s.needsTrailingNewline = false) :
    s.repaired = s := by
  cases s with
  | mk =>
    cases h
    simp [repaired, repairBytes]

theorem getD_afterRepair (s : JsonlEventStore) (file : File) :
    (s.afterRepair file).getD [] = file.getD [] ++ s.repairBytes := by
  rw [afterRepair, repairBytes]
  split
  · rfl
  · exact (List.append_nil _).symm

theorem writeAndSync_ok {file file' : File} {data : Bytes} {outcome : WriteOutcome}
    (h : writeAndSync file data outcome = (file', .ok ())) :
    file' = some (file.getD [] ++ data) := by
  cases outcome <;> cases h
  rfl

/-- The repair fails, or the newline is there afterwards. -/
theorem repair_cases (s : JsonlEventStore) (file : File) (outcome : WriteOutcome) :
    (∃ err file', s.needsTrailingNewline = true ∧
      writeAndSync file s.repairBytes outcome = (file', .error err) ∧
      s.repair file outcome = (file', s, .error err)) ∨
    s.repair file outcome = (s.afterRepair file, s.repaired, .ok ()) := by
  rw [repair, afterRepair]
  cases hneed : s.needsTrailingNewline with
  | false =>
    rw [repaired_eq_self hneed]
    exact .inr rfl
  | true =>
    cases hw : writeAndSync file s.repairBytes outcome with
    | mk file' r =>
      cases r with
      | error err => exact .inl ⟨err, file', rfl, rfl, rfl⟩
      | ok u =>
        rw [writeAndSync_ok hw]
        exact .inr rfl

section

variable [Rounding] (cz : Canonicalizer)

/-- How an append ends. -/
inductive Ends (s : JsonlEventStore) (env : Environment) (file : File) (streamId : JsString)
    (events : List DomainEvent) (ev : Option ExpectedVersion) : Outcome → Prop where
  | rejected {err : JsError} :
    checkAppend streamId events (s.index.streamVersion streamId) ev = .error err →
    Ends s env file streamId events ev ⟨⟨s, .error err, []⟩, file⟩
  | refused {err : JsError} :
    checkAppend streamId events (s.index.streamVersion streamId) ev = .ok () →
    (s.started streamId).beforeWrite cz env file streamId events = .error err →
    Ends s env file streamId events ev ⟨⟨s.started streamId, .error err, []⟩, file⟩
  | repairFailed {b : Batch} {err : JsError} {file' : File} :
    checkAppend streamId events (s.index.streamVersion streamId) ev = .ok () →
    (s.started streamId).beforeWrite cz env file streamId events = .ok b →
    s.needsTrailingNewline = true →
    writeAndSync file s.repairBytes env.repairWrite = (file', .error err) →
    Ends s env file streamId events ev ⟨⟨s.started streamId, .error err, []⟩, file'⟩
  | writeFailed {b : Batch} {err : JsError} {file' : File} :
    checkAppend streamId events (s.index.streamVersion streamId) ev = .ok () →
    (s.started streamId).beforeWrite cz env file streamId events = .ok b →
    writeAndSync (s.afterRepair file) b.payload env.payloadWrite = (file', .error err) →
    Ends s env file streamId events ev ⟨⟨(s.started streamId).repaired, .error err, []⟩, file'⟩
  | written {b : Batch} :
    checkAppend streamId events (s.index.streamVersion streamId) ev = .ok () →
    (s.started streamId).beforeWrite cz env file streamId events = .ok b →
    Ends s env file streamId events ev
      ⟨⟨(s.started streamId).repaired.commit b,
        .ok (appendResult streamId (s.index.streamVersion streamId) events.length),
        s.subscribers.dispatch streamId b.stored⟩,
      some (file.getD [] ++ (s.repairBytes ++ b.payload))⟩

variable {cz}

variable (cz) in
theorem append_ends (s : JsonlEventStore) (env : Environment) (file : File) (streamId : JsString)
    (events : List DomainEvent) (ev : Option ExpectedVersion) :
    Ends cz s env file streamId events ev (s.append cz env file streamId events ev) := by
  rw [append]
  cases hcheck : checkAppend streamId events (s.index.streamVersion streamId) ev with
  | error err => exact .rejected hcheck
  | ok u =>
    cases hbefore : (s.started streamId).beforeWrite cz env file streamId events with
    | error err =>
      simp only [hbefore]
      exact .refused hcheck hbefore
    | ok b =>
      simp only [hbefore]
      obtain ⟨err, file', hneed, hw, hr⟩ | hr := (s.started streamId).repair_cases file
        env.repairWrite
      · rw [hr]
        exact .repairFailed hcheck hbefore hneed hw
      · rw [hr]
        cases hw : writeAndSync ((s.started streamId).afterRepair file) b.payload
            env.payloadWrite with
        | mk file' r =>
          cases r with
          | error err =>
            simp only [hw]
            exact .writeFailed hcheck hbefore hw
          | ok u =>
            simp only [hw]
            rw [writeAndSync_ok hw, getD_afterRepair, List.append_assoc]
            exact .written hcheck hbefore

variable (cz) in
/-- Where nothing fails, an append is refused and leaves the file alone, or it writes. -/
theorem append_sound_cases (s : JsonlEventStore) (appendedAt : JsString) (file : File)
    (streamId : JsString) (events : List DomainEvent) (ev : Option ExpectedVersion) :
    (∃ err, checkAppend streamId events (s.index.streamVersion streamId) ev = .error err ∧
      s.append cz (.sound appendedAt) file streamId events ev = ⟨⟨s, .error err, []⟩, file⟩) ∨
    checkAppend streamId events (s.index.streamVersion streamId) ev = .ok () ∧
      ((∃ err, (s.started streamId).prepare cz file appendedAt streamId events = .error err ∧
        s.append cz (.sound appendedAt) file streamId events ev =
          ⟨⟨s.started streamId, .error err, []⟩, file⟩) ∨
      ∃ b, (s.started streamId).prepare cz file appendedAt streamId events = .ok b ∧
        s.append cz (.sound appendedAt) file streamId events ev =
          ⟨⟨(s.started streamId).repaired.commit b,
            .ok (appendResult streamId (s.index.streamVersion streamId) events.length),
            s.subscribers.dispatch streamId b.stored⟩,
          some (file.getD [] ++ (s.repairBytes ++ b.payload))⟩) := by
  have h := append_ends cz s (.sound appendedAt) file streamId events ev
  generalize s.append cz (.sound appendedAt) file streamId events ev = o at h ⊢
  cases h with
  | rejected hcheck => exact .inl ⟨_, hcheck, rfl⟩
  | refused hcheck hbefore => exact .inr ⟨hcheck, .inl ⟨_, hbefore, rfl⟩⟩
  | repairFailed _ _ _ hw => cases hw
  | writeFailed _ _ hw => cases hw
  | written hcheck hbefore => exact .inr ⟨hcheck, .inr ⟨_, hbefore, rfl⟩⟩

end

end JsonlEventStore

theorem InSync.started {s : JsonlEventStore} {file : File} (h : InSync cz s file)
    (streamId : JsString) : InSync cz (s.started streamId) file :=
  ⟨h.holds, h.index.createStream streamId, h.needsTrailingNewline⟩

/-! ## Files of whole lines -/

/-- A file that no cut has gone through. -/
def Whole (file : File) : Prop := ∃ ts, file.getD [] = Utf8.encode (Lines.join ts)

theorem whole_none : Whole none := ⟨[], rfl⟩

theorem Whole.append {file : File} (h : Whole file) (b : JsonlEventStore.Batch) :
    Whole (some (file.getD [] ++ b.payload)) := by
  obtain ⟨ts, hts⟩ := h
  refine ⟨ts ++ b.lines, ?_⟩
  rw [Option.getD_some, hts, JsonlEventStore.Batch.payload, ← Utf8.encode_append]
  exact congrArg _ List.flatMap_append.symm

theorem Whole.closed {file : File} (h : Whole file) : Lines.Closed file.text := by
  obtain ⟨ts, hts⟩ := h
  rw [File.text, hts, Utf8.decode_encode]
  exact Lines.closed_join ts

/-- Loading finds the size on disk. -/
theorem Whole.loadedSize {file : File} (h : Whole file) :
    file.loadedSize = file.map List.length := by
  obtain ⟨ts, hts⟩ := h
  cases file with
  | none => rfl
  | some bytes =>
    rw [Option.getD_some] at hts
    rw [hts, File.loadedSize, Option.map_some, Option.map_some, Utf8.decode_encode, byteLength]

theorem InSync.repairBytes {s : JsonlEventStore} {file : File} (hs : InSync cz s file)
    (h : Whole file) : s.needsTrailingNewline = false ∧ s.repairBytes = [] := by
  have hneed : s.needsTrailingNewline = false := by
    rw [hs.needsTrailingNewline, decide_eq_true h.closed]
    rfl
  exact ⟨hneed, by rw [JsonlEventStore.repairBytes, hneed]; rfl⟩

namespace JsonlEventStore

/-- The check under the lock lets pass what is not behind the file. -/
theorem detectExternalAdvanceUnderLock_eq_ok {s : JsonlEventStore} {file : File} :
    s.detectExternalAdvanceUnderLock file = .ok () ↔
      (file = none → s.knownFileSize = none) ∧ (file.getD []).length ≤ s.knownFileSize.getD 0 := by
  cases file with
  | none =>
    by_cases h : s.knownFileSize = none <;> simp [detectExternalAdvanceUnderLock, h]
  | some bytes =>
    by_cases h : s.knownFileSize.getD 0 < bytes.length
    · simp [detectExternalAdvanceUnderLock, h]
    · simp [detectExternalAdvanceUnderLock, h, not_lt.mp h]

theorem knownFileSize_commit (s : JsonlEventStore) (b : Batch) :
    (s.commit b).knownFileSize = some (s.knownFileSize.getD 0 + b.payload.length) := rfl

end JsonlEventStore

end Attestia.EventStore
