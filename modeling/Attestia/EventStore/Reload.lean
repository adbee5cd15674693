import Attestia.EventStore.JsonlStore
import Attestia.EventStore.EventLog

/-!
# Reading back what was written

A file is described by the events that loading finds in it. Behind a file that can be
opened, every part of the payload of an append is read back as a prefix of its events,
whatever the byte at which the payload was cut.
-/

namespace Attestia.EventStore

open Lib JsonNumber

/-! ## One line -/

theorem eventBodyOf_image {b : EventBody} {v : JsonValue} (h : b.image = .ok v) :
    eventBodyOf v = b.reload := by
  obtain ⟨t, m, p, ht, hm, hp, rfl⟩ := EventBody.image_eq_ok.mp h
  rw [eventBodyOf, EventBody.reload, JsValue.image_reload ht, JsValue.image_reload hm,
    JsValue.image_reload hp]
  simp

theorem storedOf_links {e : StoredEvent} (hl : e.hash ≠ none ∧ e.previousHash ≠ none) :
    storedOf e.toEventContent.reload e.hash e.previousHash = e.reload := by
  obtain ⟨x, hx⟩ := Option.ne_none_iff_exists'.mp hl.1
  obtain ⟨y, hy⟩ := Option.ne_none_iff_exists'.mp hl.2
  rw [hx, hy, storedOf]
  exact StoredEvent.ext rfl rfl rfl rfl rfl hx.symm hy.symm

theorem text_object_ne_nil (entries : List (JsString × Option JsonValue)) :
    (JsonValue.object entries).text ≠ [] := by
  obtain ⟨cs, hcs, -⟩ := Json.text_obj (Json.ofEntries
    (entries.filterMap fun e => e.2.map fun v => (e.1, v.val)))
  rw [JsonValue.text, JsonValue.object, hcs]
  exact List.cons_ne_nil _ _

variable [Rounding]

/-- The event `e` is written as the line `t`. -/
def IsImage (e : StoredEvent) (t : List Char) : Prop := ∃ j, e.image = .ok j ∧ t = j.text

/-- The event `e`, with both chain fields and a position that is read back, is written as the
line `t`. -/
structure IsLine (e : StoredEvent) (t : List Char) : Prop where
  image : IsImage e t
  links : e.hash ≠ none ∧ e.previousHash ≠ none
  kept : e.globalPosition.IsKept
  written : e.globalPosition.IsWritten

theorem StoredEvent.image_eq_ok {e : StoredEvent} {j : JsonValue} (h : e.image = .ok j) :
    ∃ b, e.event.image = .ok b ∧
      j = .object (e.entries b ++ [(js "hash", e.hash), (js "previousHash", e.previousHash)]) := by
  rw [StoredEvent.image] at h
  cases hb : e.event.image with
  | error err => rw [hb] at h; cases h
  | ok b => rw [hb] at h; exact ⟨b, rfl, (Except.ok.inj h).symm⟩

/-- A record of an event gives its content back, and its chain fields where both are there, if
it has a position. -/
theorem readRecord_image {e : StoredEvent} {j : JsonValue} (h : e.image = .ok j) :
    readRecord j = match (Rounding.json e.globalPosition).map Rounding.round with
      | some p => .ok (.event (storedOf { e.toEventContent.reload with globalPosition := p } e.hash
          e.previousHash) e.hash)
      | none => .ok (.skipped .missingField) := by
  obtain ⟨b, hb, hj⟩ := StoredEvent.image_eq_ok h
  have hbody := eventBodyOf_image hb
  have hb0 : JsonValue.isNull b.val = false := by
    obtain ⟨t, m, p, -, -, -, rfl⟩ := EventBody.image_eq_ok.mp hb
    rfl
  have hj0 : JsonValue.isNull j.val = false := by
    rw [hj]
    rfl
  have hs : stringField j "streamId" = some e.streamId := by
    simp [hj, stringField, EventContent.entries, JsonValue.str]
  have hv : numberField j "version" = some e.version := by
    simp [hj, numberField, EventContent.entries, JsonValue.num]
  have hg : numberField j "globalPosition" = Rounding.json e.globalPosition := by
    cases hx : Rounding.json e.globalPosition <;>
      simp [hj, numberField, EventContent.entries, JsonValue.ofNumber, JsonValue.num,
        JsonValue.null, hx]
  have ha : stringField j "appendedAt" = some e.appendedAt := by
    simp [hj, stringField, EventContent.entries, JsonValue.str]
  have hev : j.get? (js "event") = some b := by simp [hj, EventContent.entries]
  have hh : j.get? (js "hash") = e.hash := by
    cases hx : e.hash <;> cases hy : e.previousHash <;>
      simp [hj, EventContent.entries, hx, hy]
  have hp : j.get? (js "previousHash") = e.previousHash := by
    cases hx : e.hash <;> cases hy : e.previousHash <;>
      simp [hj, EventContent.entries, hx, hy]
  simp only [readRecord, hj0, hs, hv, hg, ha, hev, hh, hp, Bool.false_eq_true, if_false]
  cases (Rounding.json e.globalPosition).map Rounding.round with
  | none => rfl
  | some p =>
    simp only [hb0, hbody, Bool.false_eq_true, if_false]
    rfl

theorem IsLine.object {e : StoredEvent} {t : List Char} (h : IsLine e t) :
    ∃ entries, t = (JsonValue.object entries).text := by
  obtain ⟨j, hj, rfl⟩ := h.image
  obtain ⟨b, -, rfl⟩ := StoredEvent.image_eq_ok hj
  exact ⟨_, rfl⟩

theorem readLine_text_object (entries : List (JsString × Option JsonValue)) :
    readLine (JsonValue.object entries).text = readRecord (.object entries) := by
  simp only [readLine, JsonValue.trim_text_object, text_object_ne_nil, if_false,
    JsonValue.parse_text]

theorem IsImage.readLine {e : StoredEvent} {t : List Char} (h : IsImage e t) :
    ∃ j, e.image = .ok j ∧ readLine t = readRecord j := by
  obtain ⟨j, hj, rfl⟩ := h
  obtain ⟨b, -, rfl⟩ := StoredEvent.image_eq_ok hj
  exact ⟨_, hj, readLine_text_object _⟩

theorem IsImage.readLine_of_isWritten {e : StoredEvent} {t : List Char} (h : IsImage e t)
    (hk : e.globalPosition.IsKept) (hw : e.globalPosition.IsWritten) :
    EventStore.readLine t =
      .ok (.event (storedOf e.toEventContent.reload e.hash e.previousHash) e.hash) := by
  obtain ⟨j, hj, hread⟩ := h.readLine
  rw [hread, readRecord_image hj, hk.map_round_json hw]
  rfl

/-- A line without a position is skipped. -/
theorem IsImage.readLine_of_not_isWritten {e : StoredEvent} {t : List Char} (h : IsImage e t)
    (hw : ¬ e.globalPosition.IsWritten) :
    EventStore.readLine t = .ok (.skipped .missingField) := by
  obtain ⟨j, hj, hread⟩ := h.readLine
  rw [hread, readRecord_image hj, not_ne_iff.mp hw]
  rfl

/-- A whole line gives its event back. -/
theorem readLine_of_isLine {e : StoredEvent} {t : List Char} (h : IsLine e t) :
    readLine t = .ok (.event e.reload e.hash) := by
  rw [h.image.readLine_of_isWritten h.kept h.written, storedOf_links h.links]

/-- A torn line is skipped. -/
theorem readLine_of_torn {e : StoredEvent} {t frag : List Char} (h : IsLine e t)
    (hf : Lines.Torn t frag) (hne : frag ≠ t) :
    readLine frag = .ok .blank ∨ readLine frag = .ok (.skipped .parseError) := by
  obtain ⟨entries, rfl⟩ := h.object
  rw [readLine]
  split
  · exact .inl rfl
  · rw [JsonValue.parse_trim_torn hf hne]
    exact .inr rfl

/-! ## The events of a file -/

/-- An event with the `hash` of its record. -/
abbrev Entry := StoredEvent × Option JsonValue

def entryOf : LoadedLine → Option Entry
  | .event stored recordHash => some (stored, recordHash)
  | _ => none

/-- The events that loading finds in the lines of a text. -/
def entriesOf (lines : List (List Char)) : Except JsError (List Entry) :=
  (readLines lines).map fun ls => ls.filterMap entryOf

def fileEntries (bytes : Bytes) : Except JsError (List Entry) :=
  entriesOf (Lines.split (Utf8.decode bytes))

theorem entriesOf_eq_ok {lines : List (List Char)} {es : List Entry} :
    entriesOf lines = .ok es ↔ ∃ ls, readLines lines = .ok ls ∧ ls.filterMap entryOf = es := by
  rw [entriesOf]
  cases readLines lines with
  | error e => exact ⟨fun h => (nomatch h), fun ⟨_, h, _⟩ => (nomatch h)⟩
  | ok ls =>
    exact ⟨fun h => ⟨ls, rfl, Except.ok.inj h⟩, fun ⟨_, h, h'⟩ => by cases h; exact congrArg _ h'⟩

theorem entriesOf_nil : entriesOf [] = .ok [] := rfl

theorem entriesOf_cons {line : List Char} {lines : List (List Char)} {l : LoadedLine}
    {es : List Entry} (hl : readLine line = .ok l) (h : entriesOf lines = .ok es) :
    entriesOf (line :: lines) = .ok ((entryOf l).toList ++ es) := by
  obtain ⟨ls, hls, rfl⟩ := entriesOf_eq_ok.mp h
  refine entriesOf_eq_ok.mpr ⟨l :: ls, bind_eq_ok.mpr ⟨l, hl, bind_eq_ok.mpr ⟨ls, hls, rfl⟩⟩, ?_⟩
  rw [List.filterMap_cons]
  cases entryOf l <;> rfl

theorem entriesOf_cons_inv {line : List Char} {lines : List (List Char)} {es : List Entry}
    (h : entriesOf (line :: lines) = .ok es) :
    ∃ l ys, readLine line = .ok l ∧ entriesOf lines = .ok ys ∧ es = (entryOf l).toList ++ ys := by
  obtain ⟨ls, hls, rfl⟩ := entriesOf_eq_ok.mp h
  obtain ⟨l, hl, hls⟩ := bind_eq_ok.mp hls
  obtain ⟨rest, hrest, hls⟩ := bind_eq_ok.mp hls
  cases hls
  refine ⟨l, _, hl, entriesOf_eq_ok.mpr ⟨rest, hrest, rfl⟩, ?_⟩
  rw [List.filterMap_cons]
  cases entryOf l <;> rfl

theorem entriesOf_append {as bs : List (List Char)} {es : List Entry} :
    entriesOf (as ++ bs) = .ok es ↔
      ∃ xs ys, entriesOf as = .ok xs ∧ entriesOf bs = .ok ys ∧ es = xs ++ ys := by
  induction as generalizing es with
  | nil =>
    constructor
    · exact fun h => ⟨[], es, rfl, h, rfl⟩
    · rintro ⟨xs, ys, hx, hy, rfl⟩
      cases hx
      exact hy
  | cons a as ih =>
    rw [List.cons_append]
    constructor
    · intro h
      obtain ⟨l, zs, hl, hzs, rfl⟩ := entriesOf_cons_inv h
      obtain ⟨xs, ys, hx, hy, rfl⟩ := ih.mp hzs
      exact ⟨_, ys, entriesOf_cons hl hx, hy, (List.append_assoc _ _ _).symm⟩
    · rintro ⟨xs, ys, hx, hy, rfl⟩
      obtain ⟨l, zs, hl, hzs, rfl⟩ := entriesOf_cons_inv hx
      rw [List.append_assoc]
      exact entriesOf_cons hl (ih.mpr ⟨zs, ys, hzs, hy, rfl⟩)

/-- Blank lines hold no event. -/
theorem entriesOf_blank : entriesOf [[]] = .ok [] := rfl

/-- A newline at the end changes nothing. -/
theorem fileEntries_append_newline {bytes : Bytes} {es : List Entry}
    (h : fileEntries bytes = .ok es) : fileEntries (bytes ++ [0x0A]) = .ok es := by
  rw [fileEntries, Utf8.decode_append_newline, Lines.split_append_newline]
  exact entriesOf_append.mpr ⟨es, [], h, entriesOf_blank, (List.append_nil es).symm⟩

/-- The lines of a closed file without the empty one at the end. -/
theorem entriesOf_dropLast {bytes : Bytes} (hf : Lines.Closed (Utf8.decode bytes))
    {es : List Entry} (h : fileEntries bytes = .ok es) :
    entriesOf (Lines.split (Utf8.decode bytes)).dropLast = .ok es := by
  rw [fileEntries, Lines.split_closed hf] at h
  obtain ⟨xs, ys, hx, hy, rfl⟩ := entriesOf_append.mp h
  cases entriesOf_blank.symm.trans hy
  rw [hx, List.append_nil]

/-! ## A part of a batch -/

/-- The entry under which a written event is found again. -/
def StoredEvent.entry (e : StoredEvent) : Entry := (e.reload, e.hash)

omit [Rounding] in
@[simp] theorem StoredEvent.entry_reload (e : StoredEvent) : e.reload.entry = e.entry := by
  rw [entry, reload_eq_self (EventBody.isJson_reload e.event)]
  rfl

theorem entriesOf_isLine {stored : List StoredEvent} {ts : List (List Char)}
    (h : List.Forall₂ IsLine stored ts) : entriesOf ts = .ok (stored.map StoredEvent.entry) := by
  induction h with
  | nil => rfl
  | cons ht _ ih => exact entriesOf_cons (readLine_of_isLine ht) ih

/-- Lines without a position hold no events. -/
theorem entriesOf_not_isWritten {stored : List StoredEvent} {ts : List (List Char)}
    (h : List.Forall₂ IsImage stored ts) (hw : ∀ e ∈ stored, ¬ e.globalPosition.IsWritten) :
    entriesOf ts = .ok [] := by
  induction h with
  | nil => rfl
  | cons ht _ ih =>
    obtain ⟨hhead, htail⟩ := List.forall_mem_cons.mp hw
    exact entriesOf_cons (ht.readLine_of_not_isWritten hhead) (ih htail)

/-- A part of a line holds the event of the line or none. -/
theorem entriesOf_torn {e : StoredEvent} {t frag : List Char} (h : IsLine e t)
    (hf : Lines.Torn t frag) : entriesOf [frag] = .ok (if frag = t then [e.entry] else []) := by
  split
  · rename_i hft
    exact entriesOf_cons (hft ▸ readLine_of_isLine h) entriesOf_nil
  · rename_i hne
    obtain hl | hl := readLine_of_torn h hf hne <;> exact entriesOf_cons hl entriesOf_nil

/-- Lines behind a closed file give their events. -/
theorem fileEntries_append_lines {f : Bytes} (hf : Lines.Closed (Utf8.decode f))
    {es xs : List Entry} (h : fileEntries f = .ok es) {ts : List (List Char)}
    (hts : entriesOf ts = .ok xs) (hnl : ∀ t ∈ ts, '\n' ∉ t) :
    fileEntries (f ++ Utf8.encode (Lines.join ts)) = .ok (es ++ xs) := by
  rw [fileEntries, Lines.split_decode_append_join hf hnl]
  refine entriesOf_append.mpr ⟨es, _, entriesOf_dropLast hf h, ?_, rfl⟩
  exact entriesOf_append.mpr ⟨_, [], hts, entriesOf_blank, (List.append_nil _).symm⟩

/-- The whole payload behind a closed file gives all its events. -/
theorem fileEntries_append_payload {f : Bytes} (hf : Lines.Closed (Utf8.decode f))
    {es : List Entry} (h : fileEntries f = .ok es) {stored : List StoredEvent}
    {ts : List (List Char)} (hts : List.Forall₂ IsLine stored ts) (hnl : ∀ t ∈ ts, '\n' ∉ t) :
    fileEntries (f ++ Utf8.encode (Lines.join ts)) =
      .ok (es ++ stored.map StoredEvent.entry) :=
  fileEntries_append_lines hf h (entriesOf_isLine hts) hnl

/-- Any part of the payload behind a closed file gives the first of its events. -/
theorem fileEntries_append_prefix {f : Bytes} (hf : Lines.Closed (Utf8.decode f))
    {es : List Entry} (h : fileEntries f = .ok es) {stored : List StoredEvent}
    {ts : List (List Char)} (hts : List.Forall₂ IsLine stored ts) (hnl : ∀ t ∈ ts, '\n' ∉ t)
    {p : Bytes} (hp : p <+: Utf8.encode (Lines.join ts)) :
    ∃ k ≤ stored.length,
      fileEntries (f ++ p) = .ok (es ++ (stored.take k).map StoredEvent.entry) := by
  obtain ⟨k, frag, hsplit, hfrag⟩ := Lines.split_decode_append hf hnl hp
  have hwhole := entriesOf_isLine (List.forall₂_take k hts)
  have hlen := hts.length_eq
  rw [fileEntries, hsplit]
  obtain ⟨rfl, rfl⟩ | ⟨t, ht, htorn⟩ := hfrag
  · refine ⟨ts.length, hlen.ge, entriesOf_append.mpr ⟨es, _, entriesOf_dropLast hf h, ?_, rfl⟩⟩
    exact entriesOf_append.mpr ⟨_, [], hwhole, entriesOf_blank, (List.append_nil _).symm⟩
  · obtain ⟨hk, rfl⟩ := List.getElem?_eq_some_iff.mp ht
    have hk' : k < stored.length := hlen ▸ hk
    have hline : IsLine stored[k] ts[k] := List.Forall₂.get hts hk' hk
    have hpart := entriesOf_torn hline htorn
    have hboth := entriesOf_append.mpr ⟨_, _, hwhole, hpart, rfl⟩
    by_cases hft : frag = ts[k]
    · rw [if_pos hft] at hboth
      refine ⟨k + 1, hk', entriesOf_append.mpr ⟨es, _, entriesOf_dropLast hf h, hboth, ?_⟩⟩
      rw [List.take_succ_eq_append_getElem hk', List.map_append, List.map_singleton]
    · rw [if_neg hft, List.append_nil] at hboth
      exact ⟨k, hk'.le, entriesOf_append.mpr ⟨es, _, entriesOf_dropLast hf h, hboth, rfl⟩⟩

/-! ## Opening -/

def EventIndex.ofEntries (es : List Entry) : EventIndex :=
  es.foldl (fun s x => s.load x.1 x.2) .empty

theorem EventIndex.ofLines_eq (ls : List LoadedLine) :
    EventIndex.ofLines ls = EventIndex.ofEntries (ls.filterMap entryOf) := by
  rw [EventIndex.ofLines, EventIndex.ofEntries]
  generalize EventIndex.empty = s
  induction ls generalizing s with
  | nil => rfl
  | cons l ls ih => cases l <;> exact ih _

theorem EventIndex.globalLog_load (s : EventIndex) (e : StoredEvent) (h : Option JsonValue) :
    (s.load e h).globalLog = s.globalLog ++ [e] := by
  rw [EventIndex.load]
  split <;> rfl

theorem EventIndex.globalLog_ofEntries (es : List Entry) :
    (EventIndex.ofEntries es).globalLog = es.map Prod.fst := by
  induction es using List.reverseRecOn with
  | nil => rfl
  | append_singleton es x ih =>
    rw [EventIndex.ofEntries, List.foldl_append, List.foldl_cons, List.foldl_nil,
      EventIndex.globalLog_load, ← EventIndex.ofEntries, ih, List.map_append, List.map_singleton]

namespace File

def entries (file : File) : Except JsError (List Entry) := fileEntries (file.getD [])

/-- The size that loading records. -/
def loadedSize (file : File) : Option ℕ := file.map fun bytes => byteLength (Utf8.decode bytes)

def text (file : File) : List Char := Utf8.decode (file.getD [])

end File

/-- What the constructor sets besides the diagnostics. -/
structure Opened (filePath : JsString) (file : File) (es : List Entry) (s : JsonlEventStore) :
    Prop where
  filePath : s.filePath = filePath
  index : s.index = .ofEntries es
  subscribers : s.subscribers = .empty
  knownFileSize : s.knownFileSize = file.loadedSize
  needsTrailingNewline : s.needsTrailingNewline = !decide (Lines.Closed file.text)

theorem loadFromFile_of_entries (filePath : JsString) {file : File} {es : List Entry}
    (h : file.entries = .ok es) :
    ∃ d, loadFromFile filePath none file =
      .ok ⟨.ofEntries es, file.loadedSize, !decide (Lines.Closed file.text), d⟩ := by
  cases file with
  | none =>
    cases (show fileEntries [] = .ok [] from rfl).symm.trans h
    exact ⟨⟨0, 0, []⟩, rfl⟩
  | some bytes =>
    obtain ⟨ls, hls, rfl⟩ := entriesOf_eq_ok.mp (show fileEntries bytes = .ok es from h)
    refine ⟨diagnosticsOf ls, bind_eq_ok.mpr ⟨ls, hls, ?_⟩⟩
    rw [EventIndex.ofLines_eq]
    rfl

theorem entries_of_loadFromFile {filePath : JsString} {file : File} {loaded : Loaded}
    (h : loadFromFile filePath none file = .ok loaded) : ∃ es, file.entries = .ok es := by
  cases file with
  | none => exact ⟨[], rfl⟩
  | some bytes =>
    obtain ⟨ls, hls, -⟩ := bind_eq_ok.mp
      (show (readLines (Lines.split (Utf8.decode bytes)) >>= _) = .ok loaded from h)
    exact ⟨_, entriesOf_eq_ok.mpr ⟨ls, hls, rfl⟩⟩

namespace JsonlEventStore

theorem verifyLoaded_eq_ok {filePath : JsString} {verifyOnLoad : Bool} {log : List StoredEvent} :
    verifyLoaded cz filePath verifyOnLoad log = .ok () ↔ (verifyOnLoad = true → Verifies cz log) := by
  cases verifyOnLoad with
  | false => exact ⟨fun _ h => (nomatch h), fun _ => rfl⟩
  | true =>
    rw [verifyLoaded, if_pos rfl]
    constructor
    · intro h _
      obtain ⟨r, hr, h⟩ := bind_eq_ok.mp h
      split at h
      · exact ⟨r, hr, ‹_›⟩
      · cases h
    · intro h
      obtain ⟨r, hr, hvalid⟩ := h rfl
      refine bind_eq_ok.mpr ⟨r, hr, ?_⟩
      rw [if_pos hvalid]
      rfl

variable (cz) in
/-- The constructor runs through on a file whose events can be read and, where that is asked
for, verified. -/
theorem new_of_entries (filePath : JsString) {verifyOnLoad : Bool} {file : File} {es : List Entry}
    (h : file.entries = .ok es) (hv : verifyOnLoad = true → Verifies cz (es.map Prod.fst)) :
    ∃ s, new cz filePath verifyOnLoad none file = .ok s ∧ Opened filePath file es s := by
  obtain ⟨d, hd⟩ := loadFromFile_of_entries filePath h
  rw [← EventIndex.globalLog_ofEntries] at hv
  exact ⟨_, bind_eq_ok.mpr ⟨_, hd, bind_eq_ok.mpr ⟨(), verifyLoaded_eq_ok.mpr hv, rfl⟩⟩,
    rfl, rfl, rfl, rfl, rfl⟩

theorem opened_of_new {filePath : JsString} {verifyOnLoad : Bool} {file : File}
    {s : JsonlEventStore} (h : new cz filePath verifyOnLoad none file = .ok s) :
    ∃ es, file.entries = .ok es ∧ (verifyOnLoad = true → Verifies cz (es.map Prod.fst)) ∧
      Opened filePath file es s := by
  obtain ⟨loaded, hl, h⟩ := bind_eq_ok.mp h
  obtain ⟨es, hes⟩ := entries_of_loadFromFile hl
  obtain ⟨d, hd⟩ := loadFromFile_of_entries filePath hes
  cases hl.symm.trans hd
  obtain ⟨_, hv, h⟩ := bind_eq_ok.mp h
  cases h
  rw [verifyLoaded_eq_ok, EventIndex.globalLog_ofEntries] at hv
  exact ⟨es, hes, hv, rfl, rfl, rfl, rfl, rfl⟩

end JsonlEventStore

end Attestia.EventStore
