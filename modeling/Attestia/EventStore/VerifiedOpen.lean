import Attestia.EventStore.CrashRecovery
import Attestia.EventStore.StoreRefinement
import Attestia.Lib.Binary64Rounding

/-!
# Appending to a file that was opened with verification

Any file that the store opens with verification, records without hashes, records with a `hash`
but no `previousHash` and any positions included, and any appends that succeed on it. Positions
are doubles: behind a large one the next may be the same, a small one may vanish behind `1`, and
an infinite one is written as `null`.
-/

namespace Attestia.EventStore

open Lib JsonNumber

section

variable [Rounding]

/-! ## What loading finds -/

/-- An entry as loading makes it. -/
structure Entry.Loaded (x : Entry) : Prop where
  isJson : x.1.event.IsJson
  kept : x.1.globalPosition.IsKept
  hash : ∀ h p, x.1.links = some (h, p) → x.2 = some h

omit [Rounding] in
theorem isJson_eventBodyOf (event : JsonValue) : (eventBodyOf event).IsJson :=
  ⟨JsValue.isJson_ofOption _, JsValue.isJson_ofOption _, JsValue.isJson_ofOption _⟩

theorem loaded_storedOf {content : EventContent} (h : content.event.IsJson)
    (hk : content.globalPosition.IsKept) (hash previousHash : Option JsonValue) :
    Entry.Loaded (storedOf content hash previousHash, hash) := by
  cases hash with
  | none => exact ⟨h, hk, fun _ _ hl => nomatch hl⟩
  | some x =>
    cases previousHash with
    | none => exact ⟨h, hk, fun _ _ hl => nomatch hl⟩
    | some p =>
      refine ⟨h, hk, fun y q hl => ?_⟩
      cases hl
      rfl

theorem loaded_of_readRecord {record : JsonValue} {e : StoredEvent} {h : Option JsonValue}
    (hr : readRecord record = .ok (.event e h)) : Entry.Loaded (e, h) := by
  rw [readRecord] at hr
  split at hr
  · cases hr
  · split at hr
    · rename_i hposition _ _
      obtain ⟨n, -, rfl⟩ := Option.map_eq_some_iff.mp hposition
      split at hr
      · cases hr
      · cases hr
        exact loaded_storedOf (isJson_eventBodyOf _) (Number.isKept_round n) _ _
    · cases hr

theorem loaded_of_readLine {line : List Char} {e : StoredEvent} {h : Option JsonValue}
    (hl : readLine line = .ok (.event e h)) : Entry.Loaded (e, h) := by
  rw [readLine] at hl
  split at hl
  · cases hl
  · split at hl
    · cases hl
    · exact loaded_of_readRecord hl

theorem loaded_of_entriesOf {lines : List (List Char)} {es : List Entry}
    (h : entriesOf lines = .ok es) : ∀ x ∈ es, x.Loaded := by
  induction lines generalizing es with
  | nil =>
    cases h
    exact fun x hx => absurd hx List.not_mem_nil
  | cons line lines ih =>
    obtain ⟨l, ys, hl, hys, rfl⟩ := entriesOf_cons_inv h
    intro x hx
    obtain hx | hx := List.mem_append.mp hx
    · cases l with
      | event e r =>
        cases List.mem_singleton.mp hx
        exact loaded_of_readLine hl
      | _ => exact absurd hx List.not_mem_nil
    · exact ih hys x hx

/-! ## Joining a chain -/

/-- An event at position `p` with previous hash `prev` continues the chain. -/
structure Joins (c : ChainEnd) (p : Number) (prev : JsonValue) : Prop where
  position : ∀ q, c.position = some q → p = q
  hash : prev = .str (c.hash.getD GENESIS_HASH)

variable {cz : Canonicalizer}

theorem continues_withHash {base : EventContent} {hash : JsString} {prev : JsonValue}
    (h : computeEventHash cz base prev = .ok hash) (c : ChainEnd) :
    Continues cz c (withHash base hash prev).reload ↔ Joins c base.globalPosition prev := by
  constructor
  · rintro ⟨hpos, hhash, -⟩
    exact ⟨hpos, hhash⟩
  · rintro ⟨hpos, hhash⟩
    exact ⟨hpos, hhash, hash, computeEventHash_reload h, rfl⟩

section

variable {streamId appendedAt : JsString} {v : ℕ} {p : Number} {prev : JsonValue}
  {events : List DomainEvent} {stored : List StoredEvent}

/-- A batch that joins the chain continues it, and the next one joins what it leaves. -/
theorem Chained.chainFrom (h : Chained cz streamId appendedAt v p prev events stored)
    {c : ChainEnd} (hj : Joins c p prev) {s : EventIndex} (hp : s.nextGlobalPosition = p)
    (hprev : s.lastHash = prev) :
    ChainFrom cz c (stored.map StoredEvent.reload) ∧
      Joins (chainEnd c (stored.map StoredEvent.reload))
        (stored.foldl EventIndex.add s).nextGlobalPosition
        (stored.foldl EventIndex.add s).lastHash := by
  induction h generalizing c s with
  | nil =>
    subst hp hprev
    exact ⟨trivial, hj⟩
  | @cons v p prev event hash events stored hhash _ ih =>
    have hnext : Joins (c.next (withHash (baseEvent streamId appendedAt event v p) hash
        prev).reload) p.next (.str hash) := ⟨fun q hq => Option.some.inj hq, rfl⟩
    obtain ⟨hchain, hend⟩ := ih hnext
      (s := s.add (withHash (baseEvent streamId appendedAt event v p) hash prev)) rfl rfl
    exact ⟨⟨(continues_withHash hhash c).mpr hj, hchain⟩, hend⟩

/-- The position behind a batch is written if the first one is. -/
theorem Chained.isWritten_next (h : Chained cz streamId appendedAt v p prev events stored)
    (hk : p.IsKept) {s : EventIndex} (hp : s.nextGlobalPosition = p) :
    (stored.foldl EventIndex.add s).nextGlobalPosition.IsKept ∧
      ((stored.foldl EventIndex.add s).nextGlobalPosition.IsWritten ↔ p.IsWritten) := by
  induction h generalizing s with
  | nil =>
    subst hp
    exact ⟨hk, Iff.rfl⟩
  | @cons v p prev event hash events stored _ _ ih =>
    obtain ⟨hkept, hwritten⟩ := ih p.isKept_next (s := s.add (withHash (baseEvent streamId
      appendedAt event v p) hash prev)) rfl
    exact ⟨hkept, hwritten.trans (Number.isWritten_next hk)⟩

theorem Chained.joins (h : Chained cz streamId appendedAt v p prev events stored)
    (hne : stored ≠ []) {c : ChainEnd} (hc : ChainFrom cz c (stored.map StoredEvent.reload)) :
    Joins c p prev := by
  cases h with
  | nil => exact absurd rfl hne
  | cons hhash _ => exact (continues_withHash hhash c).mp hc.1

end

/-! ## The cursors that loading leaves -/

/-- The next event would join the chain of the loaded log: its position is the one behind the
last one, which is not written as `null`, and the tracked hash is that of a verified record or
still that of genesis. -/
structure Continuable (s : EventIndex) : Prop where
  written : ∀ e, s.globalLog.getLast? = some e → e.globalPosition.IsWritten
  position : ∀ e, s.globalLog.getLast? = some e →
    1 ≤ e.globalPosition.val ∨ e.globalPosition.next = .ofNat 1
  hash : (∃ e ∈ s.globalLog, e.links ≠ none) ∨ s.lastHash = .str GENESIS_HASH

/-- The cursors behind the verified entries `es`, where the chain ends in `c`. -/
structure LoadedCursors (es : List Entry) (s : EventIndex) (c : ChainEnd) : Prop where
  position : c.position = es.getLast?.map fun x => x.1.globalPosition.next
  next_empty : es = [] → s.nextGlobalPosition = .ofNat 1
  next : ∀ x, es.getLast? = some x → s.nextGlobalPosition =
    if 1 ≤ x.1.globalPosition.val then x.1.globalPosition.next else .ofNat 1
  unhashed : c.hash = none → ∀ x ∈ es, x.1.links = none
  hashed : ∀ h, c.hash = some h → s.lastHash = .str h ∧ ∃ x ∈ es, x.1.links ≠ none

theorem loadedCursors_nil : LoadedCursors [] .empty .start :=
  ⟨rfl, fun _ => rfl, fun _ h => (nomatch h), fun _ _ hx => absurd hx List.not_mem_nil,
    fun _ h => (nomatch h)⟩

theorem EventIndex.lastHash_load (s : EventIndex) (e : StoredEvent) (h : Option JsonValue) :
    (s.load e h).lastHash = h.getD s.lastHash := by
  rw [EventIndex.load]
  split <;> rfl

/-- The position after one more event: contiguous positions are followed once they reach `1`. -/
theorem LoadedCursors.next_load {es : List Entry} {s : EventIndex} {c : ChainEnd}
    (h : LoadedCursors es s c) {x : Entry} (hx : Continues cz c x.1) :
    (s.load x.1 x.2).nextGlobalPosition =
      if 1 ≤ x.1.globalPosition.val then x.1.globalPosition.next else .ofNat 1 := by
  have hload : (s.load x.1 x.2).nextGlobalPosition =
      if s.nextGlobalPosition.val ≤ x.1.globalPosition.val then x.1.globalPosition.next
      else s.nextGlobalPosition := by
    rw [EventIndex.load]
    split <;> rfl
  have hone : (Number.ofNat 1).val = 1 := by simp [Number.ofNat]
  rw [hload]
  cases hlast : es.getLast? with
  | none =>
    rw [h.next_empty (List.getLast?_eq_none_iff.mp hlast), hone]
  | some y =>
    have hpos : x.1.globalPosition = y.1.globalPosition.next :=
      hx.1 _ (by rw [h.position, hlast]; rfl)
    rw [h.next y hlast]
    by_cases hy : 1 ≤ y.1.globalPosition.val
    · -- the last position was followed already
      have hx1 : 1 ≤ x.1.globalPosition.val := by
        rw [hpos]
        exact Number.one_le_next hy
      rw [if_pos hy, if_pos hx1, hpos, if_pos (le_refl _)]
    · rw [if_neg hy, hone]

theorem LoadedCursors.load {es : List Entry} {s : EventIndex} {c : ChainEnd}
    (h : LoadedCursors es s c) {x : Entry} (hl : x.Loaded) (hx : Continues cz c x.1) :
    LoadedCursors (es ++ [x]) (s.load x.1 x.2) (c.next x.1) := by
  have hlast := s.lastHash_load x.1 x.2
  refine ⟨?_, fun hnil => absurd hnil (by simp), fun y hy => ?_, fun hnone => ?_,
    fun y hy => ?_⟩
  · rw [List.getLast?_concat, ChainEnd.next]
    split <;> rfl
  · rw [List.getLast?_concat] at hy
    cases hy
    exact h.next_load hx
  · rw [ChainEnd.next] at hnone
    split at hnone
    · cases hnone
    · rename_i hlinks
      exact List.forall_mem_append.mpr ⟨h.unhashed hnone, List.forall_mem_singleton.mpr hlinks⟩
  · rw [ChainEnd.next] at hy
    split at hy
    · rename_i hash prev hlinks
      have hcontinues := hx.2
      rw [hlinks] at hcontinues
      obtain ⟨-, k, -, rfl⟩ := hcontinues
      cases hy
      rw [hlast, hl.hash _ _ hlinks]
      exact ⟨rfl, x, by simp, by rw [hlinks]; exact Option.some_ne_none _⟩
    · rename_i hlinks
      -- an event without chain fields continues only a chain that has not started
      have hcontinues := hx.2
      rw [hlinks] at hcontinues
      rw [hcontinues] at hy
      cases hy

theorem loadedCursors_of_chainFrom {es : List Entry} (hl : ∀ x ∈ es, x.Loaded)
    (hc : ChainFrom cz .start (es.map Prod.fst)) :
    LoadedCursors es (.ofEntries es) (chainEnd .start (es.map Prod.fst)) := by
  induction es using List.reverseRecOn with
  | nil => exact loadedCursors_nil
  | append_singleton es x ih =>
    rw [List.map_append, chainFrom_append] at hc
    have hx := ih (fun y hy => hl y (List.mem_append_left _ hy)) hc.1
    have hnext := hx.load (hl x (by simp)) hc.2.1
    rw [EventIndex.ofEntries, List.foldl_append, chainEnd, List.map_append, List.foldl_append]
    exact hnext

theorem LoadedCursors.joins_iff {es : List Entry} {s : EventIndex} {c : ChainEnd}
    (h : LoadedCursors es s c) (hlog : s.globalLog = es.map Prod.fst) :
    Joins c s.nextGlobalPosition s.lastHash ↔
      (∀ e, s.globalLog.getLast? = some e →
        1 ≤ e.globalPosition.val ∨ e.globalPosition.next = .ofNat 1) ∧
      ((∃ e ∈ s.globalLog, e.links ≠ none) ∨ s.lastHash = .str GENESIS_HASH) := by
  have hposition : (∀ q, c.position = some q → s.nextGlobalPosition = q) ↔
      ∀ e, s.globalLog.getLast? = some e →
        1 ≤ e.globalPosition.val ∨ e.globalPosition.next = .ofNat 1 := by
    rw [h.position, hlog, List.getLast?_map]
    cases hlast : es.getLast? with
    | none => simp
    | some x =>
      simp only [Option.map_some, Option.some.injEq, forall_eq', h.next x hlast]
      by_cases hx : 1 ≤ x.1.globalPosition.val
      · simp [hx]
      · rw [if_neg hx]
        exact ⟨fun heq => .inr heq.symm, fun hor => (hor.resolve_left hx).symm⟩
  have hhash : s.lastHash = .str (c.hash.getD GENESIS_HASH) ↔
      (∃ e ∈ s.globalLog, e.links ≠ none) ∨ s.lastHash = .str GENESIS_HASH := by
    cases hc : c.hash with
    | none =>
      refine ⟨.inr, fun hor => hor.resolve_left ?_⟩
      rintro ⟨e, he, hlinks⟩
      rw [hlog] at he
      obtain ⟨x, hx, rfl⟩ := List.mem_map.mp he
      exact hlinks (h.unhashed hc x hx)
    | some k =>
      obtain ⟨hlast, x, hx, hlinks⟩ := h.hashed k hc
      refine ⟨fun _ => .inl ⟨x.1, ?_, hlinks⟩, fun _ => hlast⟩
      rw [hlog]
      exact List.mem_map_of_mem hx
  exact ⟨fun hj => ⟨hposition.mp hj.position, hhash.mp hj.hash⟩,
    fun hc => ⟨hposition.mpr hc.1, hhash.mpr hc.2⟩⟩

/-- The next position is one that the store can have, and where it follows the last one, it is
written if that one is. -/
theorem LoadedCursors.isWritten_next {es : List Entry} {s : EventIndex} {c : ChainEnd}
    (h : LoadedCursors es s c) (hl : ∀ x ∈ es, x.Loaded) :
    s.nextGlobalPosition.IsKept ∧ (Joins c s.nextGlobalPosition s.lastHash →
      (s.nextGlobalPosition.IsWritten ↔
        ∀ x, es.getLast? = some x → x.1.globalPosition.IsWritten)) := by
  cases hlast : es.getLast? with
  | none =>
    rw [h.next_empty (List.getLast?_eq_none_iff.mp hlast)]
    exact ⟨Number.isKept_one, fun _ =>
      ⟨fun _ x hx => (nomatch hx), fun _ => Number.isWritten_one⟩⟩
  | some x =>
    have hkept := (hl x (List.mem_of_getLast? hlast)).kept
    refine ⟨?_, fun hj => ?_⟩
    · rw [h.next x hlast]
      split
      · exact Number.isKept_next _
      · exact Number.isKept_one
    · have hnext : s.nextGlobalPosition = x.1.globalPosition.next :=
        hj.position _ (by rw [h.position, hlast]; rfl)
      rw [hnext, Number.isWritten_next hkept]
      exact ⟨fun hw y hy => Option.some.inj hy ▸ hw, fun hw => hw x rfl⟩

theorem LoadedCursors.continuable_iff {es : List Entry} {s : EventIndex} {c : ChainEnd}
    (h : LoadedCursors es s c) (hl : ∀ x ∈ es, x.Loaded) (hlog : s.globalLog = es.map Prod.fst) :
    Continuable s ↔
      Joins c s.nextGlobalPosition s.lastHash ∧ s.nextGlobalPosition.IsWritten := by
  have hlast : (∀ e, s.globalLog.getLast? = some e → e.globalPosition.IsWritten) ↔
      ∀ x, es.getLast? = some x → x.1.globalPosition.IsWritten := by
    rw [hlog, List.getLast?_map]
    cases es.getLast? <;> simp
  constructor
  · rintro ⟨hwritten, hposition, hhash⟩
    have hj := (h.joins_iff hlog).mpr ⟨hposition, hhash⟩
    exact ⟨hj, ((h.isWritten_next hl).2 hj).mpr (hlast.mp hwritten)⟩
  · rintro ⟨hj, hwritten⟩
    obtain ⟨hposition, hhash⟩ := (h.joins_iff hlog).mp hj
    exact ⟨hlast.mpr (((h.isWritten_next hl).2 hj).mp hwritten), hposition, hhash⟩

/-! ## Appends that succeed -/

/-- The store and the file after appends all of which succeed. -/
def JsonlEventStore.appendAll (cz : Canonicalizer) :
    JsonlEventStore → File → List Call → Option (JsonlEventStore × File)
  | s, file, [] => some (s, file)
  | s, file, c :: cs =>
    match (s.call cz file c).result with
    | .ok _ => appendAll cz (s.call cz file c).store (s.call cz file c).file cs
    | .error _ => none

/-- What is known of a store and its file between appends. -/
structure Tracks (s : JsonlEventStore) (file : File) (es : List Entry) : Prop where
  entries : file.entries = .ok es
  kept : s.index.nextGlobalPosition.IsKept
  needsTrailingNewline : s.needsTrailingNewline = !decide (Lines.Closed file.text)

theorem Tracks.started {s : JsonlEventStore} {file : File} {es : List Entry} (h : Tracks s file es)
    (streamId : JsString) : Tracks (s.started streamId) file es :=
  ⟨h.entries, h.kept, h.needsTrailingNewline⟩

/-- The lines of a batch add its events if their positions are written, and nothing otherwise. -/
theorem Tracks.commit {s : JsonlEventStore} {file : File} {es : List Entry} (h : Tracks s file es)
    {appendedAt streamId : JsString} {events : List DomainEvent} {b : JsonlEventStore.Batch}
    (hb : Prepared cz s appendedAt streamId events b) :
    ∃ xs, Tracks (s.repaired.commit b) (some (file.getD [] ++ (s.repairBytes ++ b.payload)))
        (es ++ xs) ∧
      (s.index.nextGlobalPosition.IsWritten → xs = b.stored.map StoredEvent.entry) ∧
      (¬ s.index.nextGlobalPosition.IsWritten → xs = []) := by
  have hclosed := closed_repaired h.needsTrailingNewline
  have hindex : (s.repaired.commit b).index = b.stored.foldl EventIndex.add s.index := hb.commit
  have htracks : ∀ xs, entriesOf b.lines = .ok xs →
      Tracks (s.repaired.commit b) (some (file.getD [] ++ (s.repairBytes ++ b.payload)))
        (es ++ xs) := fun xs hxs => by
    refine ⟨?_, ?_, ?_⟩
    · have hentries := fileEntries_append_lines hclosed (entries_repaired h.entries) hxs
        (newline_not_mem_lines hb.images)
      rw [List.append_assoc] at hentries
      exact hentries
    · rw [hindex]
      exact (hb.chained.isWritten_next h.kept rfl).1
    · have hclosed' := Lines.closed_decode_append_join hclosed b.lines
      rw [List.append_assoc] at hclosed'
      exact ((Bool.not_eq_false' _).mpr (decide_eq_true hclosed')).symm
  by_cases hw : s.index.nextGlobalPosition.IsWritten
  · exact ⟨_, htracks _ (entriesOf_isLine (hb.lines h.kept hw)), fun _ => rfl,
      fun hn => absurd hw hn⟩
  · refine ⟨[], htracks _ (entriesOf_not_isWritten hb.images fun e he hwritten => hw ?_),
      fun hn => absurd hn hw, fun _ => rfl⟩
    exact (hb.chained.isWritten_iff h.kept e he).2.mp hwritten

/-- Appends that succeed add their events if the first position is written, and these continue a
chain exactly if the first of them joins it. -/
theorem Tracks.appendAll {s s' : JsonlEventStore} {file file' : File} {es : List Entry}
    (h : Tracks s file es) {cs : List Call}
    (happ : s.appendAll cz file cs = some (s', file')) :
    ∃ (new : List StoredEvent) (xs : List Entry), file'.entries = .ok (es ++ xs) ∧
      (s.index.nextGlobalPosition.IsWritten → xs = new.map StoredEvent.entry) ∧
      (¬ s.index.nextGlobalPosition.IsWritten → xs = []) ∧
      new.map (fun e => e.event) = cs.flatMap Call.events ∧ (cs ≠ [] → new ≠ []) ∧
      ∀ c, (Joins c s.index.nextGlobalPosition s.index.lastHash →
          ChainFrom cz c (new.map StoredEvent.reload)) ∧
        (cs ≠ [] → ChainFrom cz c (new.map StoredEvent.reload) →
          Joins c s.index.nextGlobalPosition s.index.lastHash) := by
  induction cs generalizing s file es with
  | nil =>
    cases happ
    refine ⟨[], [], ?_, fun _ => rfl, fun _ => rfl, rfl, fun hne => absurd rfl hne,
      fun c => ⟨fun _ => trivial, fun hne => absurd rfl hne⟩⟩
    rw [List.append_nil]
    exact h.entries
  | cons c cs ih =>
    obtain ⟨err, -, hcall⟩ | ⟨hcheck, ⟨err, -, hcall⟩ | ⟨b, hprep, hcall⟩⟩ :=
      s.append_sound_cases cz c.appendedAt file c.streamId c.events c.expectedVersion
    · rw [JsonlEventStore.appendAll, JsonlEventStore.call, hcall] at happ
      cases happ
    · rw [JsonlEventStore.appendAll, JsonlEventStore.call, hcall] at happ
      cases happ
    · rw [JsonlEventStore.appendAll, JsonlEventStore.call, hcall] at happ
      have hb := JsonlEventStore.prepared_of_prepare hprep
      obtain ⟨xs, htracks, hall, hnone⟩ := (h.started c.streamId).commit hb
      obtain ⟨new, ys, hentries, hall', hnone', hevents, -, hchain⟩ := ih htracks happ
      have hne : b.stored ≠ [] := fun hnil =>
        events_ne_nil_of_checkAppend hcheck (by rw [← hb.chained.map_event, hnil]; rfl)
      have hindex : ((s.started c.streamId).repaired.commit b).index =
          b.stored.foldl EventIndex.add (s.index.createStream c.streamId) := hb.commit
      have hwritten :
          ((s.started c.streamId).repaired.commit b).index.nextGlobalPosition.IsWritten ↔
          s.index.nextGlobalPosition.IsWritten := by
        rw [hindex]
        exact (hb.chained.isWritten_next h.kept rfl).2
      refine ⟨b.stored ++ new, xs ++ ys, ?_, fun hw => ?_, fun hw => ?_, ?_, fun _ => ?_,
        fun e => ⟨fun hj => ?_, fun _ hc => ?_⟩⟩
      · rw [← List.append_assoc]
        exact hentries
      · rw [hall hw, hall' (hwritten.mpr hw), List.map_append]
      · rw [hnone hw, hnone' (mt hwritten.mp hw), List.append_nil]
      · rw [List.map_append, List.flatMap_cons, hb.chained.map_event, hevents]
      · exact fun hnil => hne (List.append_eq_nil_iff.mp hnil).1
      · obtain ⟨hfirst, hj'⟩ := hb.chained.chainFrom hj rfl rfl
        rw [List.map_append]
        refine (chainFrom_append cz _ _ _).mpr ⟨hfirst, (hchain _).1 ?_⟩
        rw [hindex]
        exact hj'
      · rw [List.map_append] at hc
        exact hb.chained.joins hne ((chainFrom_append cz _ _ _).mp hc).1

/-! ## Opening again -/

variable (cz) in
/-- The file opens with verification and gives the events of `s` followed by those of the
appends. -/
def Reopens (filePath : JsString) (s : JsonlEventStore) (file' : File) (cs : List Call) : Prop :=
  ∃ (t : JsonlEventStore) (new : List StoredEvent),
    JsonlEventStore.new cz filePath true none file' = .ok t ∧
    t.index.globalLog = s.index.globalLog ++ new.map StoredEvent.reload ∧
    new.map (fun e => e.event) = cs.flatMap Call.events

section

variable {filePath : JsString} {file file' : File} {s s' : JsonlEventStore} {cs : List Call}

/-- What is known of a store opened with verification and the events appended to it. -/
theorem exists_appended (hopen : JsonlEventStore.new cz filePath true none file = .ok s)
    (happ : s.appendAll cz file cs = some (s', file')) :
    ∃ (es : List Entry) (new : List StoredEvent) (xs : List Entry),
      file'.entries = .ok (es ++ xs) ∧ ChainFrom cz .start (es.map Prod.fst) ∧
      s.index.globalLog = es.map Prod.fst ∧
      new.map (fun e => e.event) = cs.flatMap Call.events ∧ (cs ≠ [] → new ≠ []) ∧
      (Continuable s.index → xs = new.map StoredEvent.entry ∧
        ChainFrom cz .start (es.map Prod.fst ++ new.map StoredEvent.reload)) ∧
      (cs ≠ [] → ¬ Continuable s.index → xs = [] ∨ xs = new.map StoredEvent.entry ∧
        ¬ ChainFrom cz .start (es.map Prod.fst ++ new.map StoredEvent.reload)) := by
  obtain ⟨es, hes, hverifies, hopened⟩ := JsonlEventStore.opened_of_new hopen
  have hloaded := loaded_of_entriesOf hes
  have hchain := (verifies_iff _).mp (hverifies rfl)
  have hlog : s.index.globalLog = es.map Prod.fst := by
    rw [hopened.index, EventIndex.globalLog_ofEntries]
  have hcursors := loadedCursors_of_chainFrom hloaded hchain
  rw [← hopened.index] at hcursors
  have htracks : Tracks s file es :=
    ⟨hes, (hcursors.isWritten_next hloaded).1, hopened.needsTrailingNewline⟩
  have hiff := hcursors.continuable_iff hloaded hlog
  obtain ⟨new, xs, hentries, hall, hnone, hevents, hne, hnew⟩ := htracks.appendAll happ
  obtain ⟨hjoin, hjoined⟩ := hnew (chainEnd .start (es.map Prod.fst))
  refine ⟨es, new, xs, hentries, hchain, hlog, hevents, hne, fun hcont => ?_, fun hcs hcont => ?_⟩
  · obtain ⟨hj, hw⟩ := hiff.mp hcont
    exact ⟨hall hw, (chainFrom_append cz _ _ _).mpr ⟨hchain, hjoin hj⟩⟩
  · by_cases hw : s.index.nextGlobalPosition.IsWritten
    · refine .inr ⟨hall hw, fun hc => hcont (hiff.mpr ⟨?_, hw⟩)⟩
      exact hjoined hcs ((chainFrom_append cz _ _ _).mp hc).2
    · exact .inl (hnone hw)

/-- A file that opens again after an append had cursors that joined the chain. -/
theorem continuable_of_reopens (hopen : JsonlEventStore.new cz filePath true none file = .ok s)
    (happ : s.appendAll cz file cs = some (s', file')) (hcs : cs ≠ [])
    (h : Reopens cz filePath s file' cs) : Continuable s.index := by
  obtain ⟨es, new, xs, hentries, -, hlog, hevents, hne, -, hnot⟩ := exists_appended hopen happ
  obtain ⟨t, new', ht, hlog', hevents'⟩ := h
  obtain ⟨es', hes', hverifies', hopened'⟩ := JsonlEventStore.opened_of_new ht
  cases hes'.symm.trans hentries
  by_contra hcont
  obtain rfl | ⟨rfl, hchain⟩ := hnot hcs hcont
  · -- nothing was added to the file
    rw [hopened'.index, EventIndex.globalLog_ofEntries, List.append_nil, hlog,
      List.self_eq_append_right, List.map_eq_nil_iff] at hlog'
    rw [hlog', List.map_nil] at hevents'
    rw [← hevents', List.map_eq_nil_iff] at hevents
    exact hne hcs hevents
  · have hverified := (verifies_iff _).mp (hverifies' rfl)
    rw [List.map_append, List.map_map] at hverified
    exact hchain hverified

theorem reopens_of_chainFrom {es : List Entry} {new : List StoredEvent}
    (hentries : file'.entries = .ok (es ++ new.map StoredEvent.entry))
    (hevents : new.map (fun e => e.event) = cs.flatMap Call.events)
    (hlog : s.index.globalLog = es.map Prod.fst)
    (hchain : ChainFrom cz .start (es.map Prod.fst ++ new.map StoredEvent.reload)) :
    Reopens cz filePath s file' cs := by
  have hfst : (es ++ new.map StoredEvent.entry).map Prod.fst =
      es.map Prod.fst ++ new.map StoredEvent.reload := by
    rw [List.map_append, List.map_map]
    rfl
  rw [← hfst] at hchain
  obtain ⟨t, ht, hopened⟩ := JsonlEventStore.new_of_entries cz filePath hentries
    fun _ : true = true => (verifies_iff _).mpr hchain
  refine ⟨t, new, ht, ?_, hevents⟩
  rw [hopened.index, EventIndex.globalLog_ofEntries, hfst, hlog]

theorem reopens_nil (hopen : JsonlEventStore.new cz filePath true none file = .ok s) :
    Reopens cz filePath s file [] :=
  ⟨s, [], hopen, (List.append_nil _).symm, rfl⟩

theorem reopens_of_continuable (hopen : JsonlEventStore.new cz filePath true none file = .ok s)
    (happ : s.appendAll cz file cs = some (s', file')) (hcont : Continuable s.index) :
    Reopens cz filePath s file' cs := by
  obtain ⟨es, new, xs, hentries, -, hlog, hevents, -, hadded, -⟩ := exists_appended hopen happ
  obtain ⟨rfl, hchain⟩ := hadded hcont
  exact reopens_of_chainFrom hentries hevents hlog hchain

/-- After appends that succeed on a file opened with verification, the file opens again exactly
if there were none or the loader's cursors joined the verified chain. -/
theorem reopens_iff_continuable (hopen : JsonlEventStore.new cz filePath true none file = .ok s)
    (happ : s.appendAll cz file cs = some (s', file')) :
    Reopens cz filePath s file' cs ↔ cs = [] ∨ Continuable s.index := by
  constructor
  · intro h
    by_cases hcs : cs = []
    · exact .inl hcs
    · exact .inr (continuable_of_reopens hopen happ hcs h)
  · rintro (rfl | hcont)
    · cases happ
      exact reopens_nil hopen
    · exact reopens_of_continuable hopen happ hcont

end

/-! ## One event more -/

theorem Chained.singleton {streamId appendedAt : JsString} {v : ℕ} {p : Number} {prev : JsonValue}
    {event : DomainEvent} {stored : List StoredEvent}
    (h : Chained cz streamId appendedAt v p prev [event] stored) :
    ∃ e hash, stored = [e] ∧ e.hash = some (.str hash) ∧ e.links ≠ none := by
  cases h with
  | cons _ hrest =>
    cases hrest
    exact ⟨_, _, rfl, rfl, Option.some_ne_none _⟩

variable (cz) in
/-- An append of one JSON event by a store that knows the file succeeds. -/
theorem appendAll_singleton {s : JsonlEventStore} {file : File}
    (hknown : s.knownFileSize = file.map List.length) {prev : JsString}
    (hprev : s.index.lastHash = .str prev) {c : Call} (hid : c.streamId ≠ []) {event : DomainEvent}
    (hevents : c.events = [event]) (hjson : event.IsJson) (hev : c.expectedVersion = none) :
    ∃ s' file' b, s.appendAll cz file [c] = some (s', file') ∧
      Prepared cz (s.started c.streamId) c.appendedAt c.streamId [event] b ∧
      file' = some (file.getD [] ++ (s.repairBytes ++ b.payload)) := by
  have hcheck : checkAppend c.streamId c.events (s.index.streamVersion c.streamId)
      c.expectedVersion = .ok () := by
    have hid' : validateStreamId c.streamId = .ok () :=
      if_neg fun h => hid (List.length_eq_zero_iff.mp h)
    unfold checkAppend
    rw [hid', hevents, hev]
    rfl
  obtain ⟨b, hprep⟩ := JsonlEventStore.prepare_of_isJson cz hknown hprev c.appendedAt c.streamId
    (List.forall_mem_singleton.mpr hjson)
  rw [← hevents] at hprep
  obtain ⟨err, hcheck', -⟩ | ⟨-, ⟨err, hprep', -⟩ | ⟨b', hprep', hcall⟩⟩ :=
    s.append_sound_cases cz c.appendedAt file c.streamId c.events c.expectedVersion
  · cases hcheck.symm.trans hcheck'
  · cases hprep.symm.trans hprep'
  · cases hprep.symm.trans hprep'
    refine ⟨(s.call cz file c).store, (s.call cz file c).file, b, ?_,
      hevents ▸ JsonlEventStore.prepared_of_prepare hprep, ?_⟩
    · rw [JsonlEventStore.appendAll, JsonlEventStore.call, hcall]
      rfl
    · rw [JsonlEventStore.call, hcall]

/-- Behind a file whose cursors join the chain, one event more is appended, and the file opens with
the hashed event at its end. -/
theorem exists_opened_append {filePath : JsString} {file : File} {s : JsonlEventStore}
    (hwhole : Whole file) (hopen : JsonlEventStore.new cz filePath true none file = .ok s)
    (hcont : Continuable s.index) {prev : JsString} (hprev : s.index.lastHash = .str prev)
    {c : Call} (hid : c.streamId ≠ []) {event : DomainEvent} (hevents : c.events = [event])
    (hjson : event.IsJson) (hev : c.expectedVersion = none) :
    ∃ s' file' t e hash, s.appendAll cz file [c] = some (s', file') ∧ Whole file' ∧
      JsonlEventStore.new cz filePath true none file' = .ok t ∧
      t.index.globalLog = s.index.globalLog ++ [e] ∧ e.links ≠ none ∧
      t.index.lastHash = .str hash := by
  obtain ⟨es, hes, hverifies, hopened⟩ := JsonlEventStore.opened_of_new hopen
  have hloaded := loaded_of_entriesOf hes
  have hchain := (verifies_iff _).mp (hverifies rfl)
  have hcursors := loadedCursors_of_chainFrom hloaded hchain
  rw [← hopened.index] at hcursors
  have hlog : s.index.globalLog = es.map Prod.fst := by
    rw [hopened.index, EventIndex.globalLog_ofEntries]
  obtain ⟨hjoins, hwritten⟩ := (hcursors.continuable_iff hloaded hlog).mp hcont
  obtain ⟨s', file', b, happ, hb, hfile⟩ := appendAll_singleton cz
    (hopened.knownFileSize.trans hwhole.loadedSize) hprev hid hevents hjson hev
  have hneed : s.repairBytes = [] := by
    rw [JsonlEventStore.repairBytes, hopened.needsTrailingNewline, decide_eq_true hwhole.closed]
    rfl
  have hentries := fileEntries_append_payload hwhole.closed hes
    (hb.lines (hcursors.isWritten_next hloaded).1 hwritten) (newline_not_mem_lines hb.images)
  have hadded := (hb.chained.chainFrom hjoins rfl rfl).1
  obtain ⟨e, hash, hstored, hhash, hlinks⟩ := hb.chained.singleton
  rw [hstored, List.map_singleton] at hentries hadded
  rw [hneed, List.nil_append] at hfile
  subst hfile
  have hfst : (es ++ [e.entry]).map Prod.fst = es.map Prod.fst ++ [e.reload] := by
    rw [List.map_append]
    rfl
  have hverified := (chainFrom_append cz _ _ _).mpr ⟨hchain, hadded⟩
  rw [← hfst, ← verifies_iff] at hverified
  obtain ⟨t, ht, hopened'⟩ := JsonlEventStore.new_of_entries cz filePath
    (show File.entries (some (file.getD [] ++ b.payload)) = _ from hentries)
    fun _ : true = true => hverified
  refine ⟨s', _, t, e.reload, hash, happ, hwhole.append b, ht, ?_, hlinks, ?_⟩
  · rw [hopened'.index, EventIndex.globalLog_ofEntries, hfst, hlog]
  · rw [hopened'.index, EventIndex.ofEntries, List.foldl_append, List.foldl_cons, List.foldl_nil,
      EventIndex.lastHash_load, StoredEvent.entry, hhash]
    rfl

/-! ## Files of one record without a link -/

def openedEventJson : JsonValue := .object [(js "type", some (.str (js "account.opened"))),
  (js "metadata", some (.object [])), (js "payload", some (.object []))]

/-- A record without a previous hash. -/
def unlinkedRecord (globalPosition : Number) (hash : Option JsonValue) : JsonValue := .object [
  (js "event", some openedEventJson), (js "streamId", some (.str (js "a"))),
  (js "version", some (.num (.ofNat 1))),
  (js "globalPosition", some (.num globalPosition)), (js "appendedAt", some (.str (js "t0"))),
  (js "hash", hash)]

def unlinkedFile (globalPosition : Number) (hash : Option JsonValue) : File :=
  some (Utf8.encode (Lines.join [(unlinkedRecord globalPosition hash).text]))

/-- The event that is read from it. -/
def unlinkedEvent (globalPosition : Number) : StoredEvent :=
  ⟨⟨openedEvent, js "a", .ofNat 1, Rounding.round globalPosition, js "t0"⟩, none, none⟩

theorem readRecord_unlinkedRecord (globalPosition : Number) (hash : Option JsonValue) :
    readRecord (unlinkedRecord globalPosition hash) =
      .ok (.event (unlinkedEvent globalPosition) hash) := by
  have hbody : eventBodyOf openedEventJson = openedEvent :=
    eventBodyOf_image (b := openedEvent) rfl
  have hev : (unlinkedRecord globalPosition hash).get? (js "event") = some openedEventJson := by
    simp [unlinkedRecord]
  have hv : numberField (unlinkedRecord globalPosition hash) "version" = some (.ofNat 1) := by
    simp [unlinkedRecord, numberField, JsonValue.num]
  have hg : numberField (unlinkedRecord globalPosition hash) "globalPosition" =
      some globalPosition := by
    simp [unlinkedRecord, numberField, JsonValue.num]
  have hs : stringField (unlinkedRecord globalPosition hash) "streamId" = some (js "a") := by
    simp [unlinkedRecord, stringField, JsonValue.str]
  have ha : stringField (unlinkedRecord globalPosition hash) "appendedAt" = some (js "t0") := by
    simp [unlinkedRecord, stringField, JsonValue.str]
  have hh : (unlinkedRecord globalPosition hash).get? (js "hash") = hash := by
    cases hash <;> simp [unlinkedRecord]
  have hp : (unlinkedRecord globalPosition hash).get? (js "previousHash") = none := by
    cases hash <;> simp [unlinkedRecord]
  have hnull : JsonValue.isNull (unlinkedRecord globalPosition hash).val = false := rfl
  have hnull' : JsonValue.isNull openedEventJson.val = false := rfl
  simp only [readRecord, hnull, hs, hv, hg, ha, hev, hnull', hbody, hh, hp, Bool.false_eq_true,
    if_false, Option.map_some]
  cases hash <;> rfl

omit [Rounding] in
theorem whole_unlinkedFile (globalPosition : Number) (hash : Option JsonValue) :
    Whole (unlinkedFile globalPosition hash) := ⟨_, rfl⟩

theorem entries_unlinkedFile (globalPosition : Number) (hash : Option JsonValue) :
    (unlinkedFile globalPosition hash).entries = .ok [(unlinkedEvent globalPosition, hash)] := by
  have hline : readLine (unlinkedRecord globalPosition hash).text = _ :=
    (readLine_text_object _).trans (readRecord_unlinkedRecord globalPosition hash)
  have hsplit := Lines.split_join (List.forall_mem_singleton.mpr
    (JsonValue.newline_not_mem_text (unlinkedRecord globalPosition hash))) []
  rw [List.append_nil] at hsplit
  rw [unlinkedFile, File.entries, Option.getD_some, fileEntries, Utf8.decode_encode, hsplit]
  exact entriesOf_cons hline entriesOf_blank

variable (cz) in
/-- The file opens: nothing in it is verified. -/
theorem exists_opened_unlinkedFile (filePath : JsString) (globalPosition : Number)
    (hash : Option JsonValue) :
    ∃ s, JsonlEventStore.new cz filePath true none (unlinkedFile globalPosition hash) = .ok s ∧
      Opened filePath (unlinkedFile globalPosition hash) [(unlinkedEvent globalPosition, hash)] s := by
  have hchain : ChainFrom cz .start [unlinkedEvent globalPosition] :=
    ⟨⟨fun _ h => (nomatch h), rfl⟩, trivial⟩
  exact JsonlEventStore.new_of_entries cz filePath (entries_unlinkedFile globalPosition hash)
    fun _ : true = true => (verifies_iff _).mpr hchain

end

/-! ## With the numbers of the language -/

attribute [local instance] Rounding.binary64

theorem Number.isWritten_iff {n : Number} : n.IsWritten ↔ |n.val| < 2 ^ 1024 := by
  rw [Number.IsWritten, Rounding.json]
  simp

section

variable {cz : Canonicalizer} {filePath : JsString} {file file' : File} {s s' : JsonlEventStore}
  {cs : List Call}

/-- After appends that succeed on a file opened with verification, the file opens again exactly
if there were none or the loader's cursors joined the verified chain. -/
theorem reopens_iff (hopen : JsonlEventStore.new cz filePath true none file = .ok s)
    (happ : s.appendAll cz file cs = some (s', file')) :
    Reopens cz filePath s file' cs ↔ cs = [] ∨ Continuable s.index :=
  reopens_iff_continuable hopen happ

end

def openedCallAt (appendedAt : String) : Call := ⟨js appendedAt, js "a", [openedEvent], none⟩

/-- On a record with a hash alone: the store opens the file, appends one event, and then refuses to
open it. -/
theorem not_reopens_hashOnly :
    ∃ s s' file', JsonlEventStore.new jcs (js "events.jsonl") true none
        (unlinkedFile (.ofNat 1) (some (.str (js "x")))) = .ok s ∧
      s.appendAll jcs (unlinkedFile (.ofNat 1) (some (.str (js "x")))) [openedCallAt "t1"] =
        some (s', file') ∧
      ¬ Reopens jcs (js "events.jsonl") s file' [openedCallAt "t1"] := by
  obtain ⟨s, hs, hopened⟩ := exists_opened_unlinkedFile jcs (js "events.jsonl") (.ofNat 1)
    (some (.str (js "x")))
  have hknown := hopened.knownFileSize.trans (whole_unlinkedFile _ _).loadedSize
  have hlast : s.index.lastHash = .str (js "x") := by
    rw [hopened.index]
    exact EventIndex.lastHash_load _ _ _
  obtain ⟨s', file', b, happ, -, -⟩ := appendAll_singleton jcs hknown hlast
    (c := openedCallAt "t1") (by decide) rfl isJson_openedEvent rfl
  refine ⟨s, s', file', hs, happ, fun hre => ?_⟩
  obtain ⟨e, he, hlinks⟩ | hgenesis :=
    (continuable_of_reopens hs happ (List.cons_ne_nil _ _) hre).hash
  · rw [hopened.index, EventIndex.globalLog_ofEntries] at he
    cases List.mem_singleton.mp he
    exact hlinks rfl
  · rw [hlast] at hgenesis
    have hx : js "x" = GENESIS_HASH := congrArg hashText hgenesis
    simp [GENESIS_HASH] at hx

/-- A position that vanishes when one is added to it. -/
def smallPosition : Number := ⟨scale 1 (-20), decimal_scale 1 (-20)⟩

theorem continuable_smallPosition {filePath : JsString} {s : JsonlEventStore}
    (hopened : Opened filePath (unlinkedFile smallPosition none)
      [(unlinkedEvent smallPosition, none)] s) : Continuable s.index := by
  have hlast : ∀ e, s.index.globalLog.getLast? = some e → e = unlinkedEvent smallPosition := by
    rw [hopened.index, EventIndex.globalLog_ofEntries]
    exact fun e he => (Option.some.inj he).symm
  refine ⟨fun e he => ?_, fun e he => .inr ?_, .inr ?_⟩
  · rw [hlast e he, Number.isWritten_iff]
    show |JsNumber.kept (scale 1 (-20))| < 2 ^ 1024
    decide +kernel
  · rw [hlast e he]
    refine Number.ext ?_
    show JsNumber.kept (JsNumber.kept (scale 1 (-20)) + 1) = ((1 : ℕ) : ℚ)
    decide +kernel
  · rw [hopened.index]
    exact EventIndex.lastHash_load _ _ _

/-- A file with an unhashed record at a small position and a hashed one behind it. -/
theorem reopens_iff_partlyHashed :
    ∃ s s' file file', JsonlEventStore.new jcs (js "events.jsonl") true none file = .ok s ∧
      s.appendAll jcs file [openedCallAt "t2"] = some (s', file') ∧
      (∃ e, s.index.globalLog = [unlinkedEvent smallPosition, e] ∧ e.links ≠ none) ∧
      (Reopens jcs (js "events.jsonl") s file' [openedCallAt "t2"] ↔
        [openedCallAt "t2"] = [] ∨ Continuable s.index) := by
  obtain ⟨s₀, hs₀, hopened⟩ :=
    exists_opened_unlinkedFile jcs (js "events.jsonl") smallPosition none
  have hlast : s₀.index.lastHash = .str GENESIS_HASH := by
    rw [hopened.index]
    exact EventIndex.lastHash_load _ _ _
  obtain ⟨-, file, s, e, hash, -, hwhole, hs, hlog, hlinks, hhash⟩ :=
    exists_opened_append (whole_unlinkedFile _ _) hs₀ (continuable_smallPosition hopened) hlast
      (c := openedCallAt "t1") (by decide) rfl isJson_openedEvent rfl
  obtain ⟨es, -, -, hopened'⟩ := JsonlEventStore.opened_of_new hs
  obtain ⟨s', file', b, happ, -, -⟩ := appendAll_singleton jcs
    (hopened'.knownFileSize.trans hwhole.loadedSize) hhash (c := openedCallAt "t2") (by decide) rfl
    isJson_openedEvent rfl
  refine ⟨s, s', file, file', hs, happ, ⟨e, ?_, hlinks⟩, reopens_iff hs happ⟩
  rw [hlog, hopened.index, EventIndex.globalLog_ofEntries]
  rfl

end Attestia.EventStore
