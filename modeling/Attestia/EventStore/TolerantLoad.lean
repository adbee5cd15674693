import Attestia.EventStore.JsonlStore

/-!
# Loading a file of any content

`_loadFromFile`: a line is blank, skipped or an event, whatever JSON value it holds, but for a
value of which a property is read and which is `null`: the record itself, or its event where the
fields in front of it are there.
-/

namespace Attestia.EventStore

open Lib JsonNumber

/-- The required fields in front of the event are there. -/
def HasFields (record : JsonValue) : Prop :=
  (stringField record "streamId").isSome ∧ (numberField record "version").isSome ∧
    (numberField record "globalPosition").isSome ∧ (stringField record "appendedAt").isSome

/-- The load reads a property of `null`. -/
def ReadsNull (record : JsonValue) : Prop :=
  JsonValue.isNull record.val = true ∨
    (HasFields record ∧ ∃ event, record.get? (js "event") = some event ∧
      JsonValue.isNull event.val = true)

/-- A line that holds such a record. -/
def NullLine (line : List Char) : Prop :=
  Lines.trim line ≠ [] ∧ ∃ record, JsonValue.parse (Lines.trim line) = some record ∧ ReadsNull record

def nonBlankLines (bytes : Bytes) : ℕ :=
  (Lines.split (Utf8.decode bytes)).countP fun line => Lines.trim line ≠ []

/-! ## One line -/

/-- A record is skipped or gives an event, unless a property of `null` is read. -/
theorem exists_readRecord (record : JsonValue) :
    (∃ l, readRecord record = .ok l) ↔ ¬ ReadsNull record := by
  unfold readRecord ReadsNull HasFields
  cases hnull : JsonValue.isNull record.val with
  | true => simp
  | false =>
    generalize stringField record "streamId" = streamId
    generalize numberField record "version" = version
    generalize numberField record "globalPosition" = globalPosition
    generalize stringField record "appendedAt" = appendedAt
    generalize record.get? (js "event") = event
    -- a missing field is noticed before the event is read
    rcases streamId with _ | streamId
    · simp
    rcases version with _ | version
    · simp
    rcases globalPosition with _ | globalPosition
    · simp
    rcases appendedAt with _ | appendedAt
    · simp
    rcases event with _ | event
    · simp
    · cases hevent : JsonValue.isNull event.val <;> simp [hevent]

theorem ne_blank_of_readRecord {record : JsonValue} {l : LoadedLine}
    (h : readRecord record = .ok l) : l ≠ .blank := by
  rintro rfl
  unfold readRecord at h
  split at h
  · cases h
  · split at h
    · split at h <;> cases h
    · cases h

theorem exists_readLine (line : List Char) :
    (∃ l, readLine line = .ok l) ↔ ¬ NullLine line := by
  unfold readLine NullLine
  by_cases htrim : Lines.trim line = []
  · rw [if_pos htrim]
    exact iff_of_true ⟨.blank, rfl⟩ fun h => h.1 htrim
  · rw [if_neg htrim]
    cases hparse : JsonValue.parse (Lines.trim line) with
    | none => simp
    | some record => simp [htrim, exists_readRecord record]

theorem blank_of_readLine {line : List Char} {l : LoadedLine} (h : readLine line = .ok l) :
    l = .blank ↔ Lines.trim line = [] := by
  unfold readLine at h
  by_cases htrim : Lines.trim line = []
  · rw [if_pos htrim] at h
    cases h
    exact iff_of_true rfl htrim
  · rw [if_neg htrim] at h
    refine iff_of_false ?_ htrim
    split at h
    · rintro rfl
      cases h
    · exact ne_blank_of_readRecord h

/-! ## The file -/

theorem readLines_eq_ok {lines : List (List Char)} {ls : List LoadedLine} :
    readLines lines = .ok ls ↔ List.Forall₂ (fun line l => readLine line = .ok l) lines ls := by
  induction lines generalizing ls with
  | nil =>
    rw [List.forall₂_nil_left_iff]
    exact ⟨fun h => by cases h; rfl, fun h => by rw [h]; rfl⟩
  | cons line lines ih =>
    rw [List.forall₂_cons_left_iff, readLines, bind_eq_ok]
    apply exists_congr
    intro l
    rw [bind_eq_ok, ← exists_and_left]
    apply exists_congr
    intro rest
    rw [ih, eq_comm (a := ls)]
    apply and_congr_right
    intro _
    apply and_congr_right
    intro _
    exact ⟨fun h => Except.ok.inj h, fun h => congrArg Except.ok h⟩

theorem exists_readLines (lines : List (List Char)) :
    (∃ ls, readLines lines = .ok ls) ↔ ∀ line ∈ lines, ¬ NullLine line := by
  induction lines with
  | nil => exact iff_of_true ⟨[], rfl⟩ fun line hline => absurd hline List.not_mem_nil
  | cons line lines ih =>
    rw [List.forall_mem_cons, ← ih, ← exists_readLine]
    simp only [readLines_eq_ok, List.forall₂_cons_left_iff]
    constructor
    · rintro ⟨ls, l, rest, hl, hrest, -⟩
      exact ⟨⟨l, hl⟩, rest, hrest⟩
    · rintro ⟨⟨l, hl⟩, rest, hrest⟩
      exact ⟨_, l, rest, hl, hrest, rfl⟩

/-- Every line that is not blank is an event or a skip. -/
theorem diagnosticsOf_total {lines : List (List Char)} {ls : List LoadedLine}
    (h : readLines lines = .ok ls) :
    (diagnosticsOf ls).eventsLoaded + (diagnosticsOf ls).skippedLines =
      lines.countP fun line => Lines.trim line ≠ [] := by
  have hcount : ∀ start : ℕ, ls.countP isEvent + ((ls.zipIdx start).filterMap skipOf).length =
      lines.countP fun line => Lines.trim line ≠ [] := by
    induction readLines_eq_ok.mp h with
    | nil => exact fun _ => rfl
    | @cons line l lines ls hl hls ih =>
      intro start
      have ih := ih (readLines_eq_ok.mpr hls) (start + 1)
      have hblank := blank_of_readLine hl
      rw [List.zipIdx_cons, List.countP_cons, List.countP_cons, ← ih]
      cases l with
      | blank =>
        have htrim := hblank.mp rfl
        rw [List.filterMap_cons_none (show skipOf (.blank, start) = none from rfl)]
        simp [isEvent, htrim]
      | skipped reason =>
        have htrim : Lines.trim line ≠ [] := fun hnil => by cases hblank.mpr hnil
        rw [List.filterMap_cons_some (show skipOf (.skipped reason, start) = some _ from rfl)]
        simp only [isEvent, List.length_cons, htrim, ne_eq, not_false_eq_true, decide_true, if_true,
          Bool.false_eq_true, if_false]
        omega
      | event stored recordHash =>
        have htrim : Lines.trim line ≠ [] := fun hnil => by cases hblank.mpr hnil
        rw [List.filterMap_cons_none (show skipOf (.event stored recordHash, start) = none from rfl)]
        simp only [isEvent, htrim, ne_eq, not_false_eq_true, decide_true, if_true]
        omega
  exact hcount 1

theorem new_eq_ok (cz : Canonicalizer) (filePath : JsString) (bytes : Bytes) {s : JsonlEventStore} :
    JsonlEventStore.new cz filePath false none (some bytes) = .ok s →
      ∃ ls, readLines (Lines.split (Utf8.decode bytes)) = .ok ls ∧
        s.loadDiagnostics = diagnosticsOf ls := by
  intro h
  obtain ⟨loaded, hloaded, h⟩ := bind_eq_ok.mp h
  obtain ⟨ls, hls, hloaded⟩ := bind_eq_ok.mp
    (show (readLines (Lines.split (Utf8.decode bytes)) >>= _) = .ok loaded from hloaded)
  cases hloaded
  cases h
  exact ⟨ls, hls, rfl⟩

/-- Opening a file without verification returns, and counts every line that is not blank as loaded
or as skipped, exactly where no line makes the load read a property of `null`. -/
theorem load_tolerant_iff (cz : Canonicalizer) (filePath : JsString) (bytes : Bytes) :
    (∃ s, JsonlEventStore.new cz filePath false none (some bytes) = .ok s ∧
        s.loadDiagnostics.eventsLoaded + s.loadDiagnostics.skippedLines = nonBlankLines bytes) ↔
      ∀ line ∈ Lines.split (Utf8.decode bytes), ¬ NullLine line := by
  rw [← exists_readLines]
  constructor
  · rintro ⟨s, hs, -⟩
    obtain ⟨ls, hls, -⟩ := new_eq_ok cz filePath bytes hs
    exact ⟨ls, hls⟩
  · rintro ⟨ls, hls⟩
    let loaded : Loaded := ⟨.ofLines ls, some (byteLength (Utf8.decode bytes)),
      !decide (Lines.Closed (Utf8.decode bytes)), diagnosticsOf ls⟩
    have hloaded : loadFromFile filePath none (some bytes) = .ok loaded :=
      bind_eq_ok.mpr ⟨ls, hls, rfl⟩
    exact ⟨_, bind_eq_ok.mpr ⟨loaded, hloaded, rfl⟩, diagnosticsOf_total hls⟩

/-- The line `null` ends the load. -/
theorem load_null_line :
    JsonlEventStore.new jcs (js "events.jsonl") false none
      (some [0x6E, 0x75, 0x6C, 0x6C, 0x0A]) = .error .typeError :=
  rfl

end Attestia.EventStore
