import Attestia.EventStore.FileLog
import Attestia.Lib.Base64Url
import Attestia.Lib.Jcs
import Attestia.Lib.Paging
import Attestia.Vault.Restoration

/-!
# Pagination

`pagination.ts` and the list routes: a page ends with a cursor that states the field of its last
item, and the next page takes the items whose field is greater as a string.
-/

namespace Attestia.Node

open Lib EventStore JsonNumber Vault

/-! ## Cursors -/

structure CursorData where
  field : JsString
  value : JsString

def cursorJson (field value : JsString) : JsonValue :=
  .object [(js "f", some (.str field)), (js "v", some (.str value))]

/-- The bytes that a cursor stands for. -/
def cursorBytes (field value : JsString) : Bytes := Utf8.encode (cursorJson field value).text

def encodeCursor (field value : JsString) : JsString := Base64Url.encode (cursorBytes field value)

def MAX_CURSOR_LENGTH : ℕ := 512

/-- `BASE64URL_RE`. -/
def isBase64Url (cursor : JsString) : Bool :=
  let digits := cursor.takeWhile fun u => (Base64Url.value u).isSome
  digits ≠ [] && [[], js "=", js "=="].contains (cursor.drop digits.length)

def decodeCursor (cursor : JsString) : Option CursorData :=
  if cursor.length = 0 ∨ MAX_CURSOR_LENGTH < cursor.length ∨ isBase64Url cursor = false then none
  else do
    let data ← JsonValue.parse (Utf8.decode (Base64Url.decode cursor))
    return ⟨← stringField data "f", ← stringField data "v"⟩

theorem isBase64Url_encode {bs : Bytes} (h : bs ≠ []) :
    isBase64Url (Base64Url.encode bs) = true := by
  have hdigits : (Base64Url.encode bs).takeWhile (fun u => (Base64Url.value u).isSome) =
      Base64Url.encode bs :=
    List.takeWhile_eq_self_iff.mpr fun u hu => Base64Url.isSome_value_of_mem_encode hu
  simp only [isBase64Url, hdigits, List.drop_length, Bool.and_eq_true, decide_eq_true_eq]
  exact ⟨Base64Url.encode_ne_nil h, by decide⟩

theorem cursorBytes_ne_nil (field value : JsString) : cursorBytes field value ≠ [] := by
  intro h
  have htext : Utf8.decode (cursorBytes field value) = (cursorJson field value).text :=
    Utf8.decode_encode _
  have hparse := JsonValue.parse_text (cursorJson field value)
  rw [← htext, h] at hparse
  cases hparse

theorem stringField_cursorJson (field value : JsString) :
    stringField (cursorJson field value) "f" = some field ∧
      stringField (cursorJson field value) "v" = some value := by
  have hnodup : ([(js "f", some (JsonValue.str field)), (js "v", some (.str value))].map
      Prod.fst).Nodup := by
    show [js "f", js "v"].Nodup
    decide
  constructor
  · rw [stringField, cursorJson, JsonValue.get?_object hnodup]
    rfl
  · rw [stringField, cursorJson, JsonValue.get?_object hnodup]
    rfl

/-- A cursor is read back as long as it is not too long. -/
theorem decodeCursor_encodeCursor (field value : JsString) :
    decodeCursor (encodeCursor field value) =
      if (cursorBytes field value).length ≤ 384 then some ⟨field, value⟩ else none := by
  have hbytes := cursorBytes_ne_nil field value
  have hempty : (encodeCursor field value).length ≠ 0 := fun h =>
    Base64Url.encode_ne_nil hbytes (List.length_eq_zero_iff.mp h)
  have hlong : MAX_CURSOR_LENGTH < (encodeCursor field value).length ↔
      ¬ (cursorBytes field value).length ≤ 384 := by
    rw [encodeCursor, Base64Url.length_encode, MAX_CURSOR_LENGTH]
    omega
  have hformat : isBase64Url (encodeCursor field value) ≠ false := by
    rw [encodeCursor, isBase64Url_encode hbytes]
    decide
  rw [decodeCursor]
  by_cases h : (cursorBytes field value).length ≤ 384
  · have hvalid : ¬ ((encodeCursor field value).length = 0 ∨
        MAX_CURSOR_LENGTH < (encodeCursor field value).length ∨
        isBase64Url (encodeCursor field value) = false) := by
      rintro (hzero | hlt | hfalse)
      · exact hempty hzero
      · exact hlong.mp hlt h
      · exact hformat hfalse
    obtain ⟨hf, hv⟩ := stringField_cursorJson field value
    rw [if_neg hvalid, if_pos h, encodeCursor, Base64Url.decode_encode, cursorBytes,
      Utf8.decode_encode, JsonValue.parse_text]
    show (do return (⟨← stringField (cursorJson field value) "f",
      ← stringField (cursorJson field value) "v"⟩ : CursorData)) = _
    rw [hf, hv]
    rfl
  · rw [if_pos (.inr (.inl (hlong.mpr h))), if_neg h]

/-! ## Pages -/

structure PaginationQuery where
  cursor : Option JsString
  limit : ℕ

structure PaginationMeta where
  cursor : Option JsString
  hasMore : Bool

structure PaginatedResponse (α : Type*) where
  data : List α
  pagination : PaginationMeta

/-- `a > b` on strings, which compares code units. -/
def isGreater (a b : JsString) : Bool := !Json.keyLe a b

variable {α : Type*}

/-- The cursor filter. -/
def applyCursor (items : List α) (cursor : Option JsString) (getField : α → JsString) : List α :=
  match cursor.bind decodeCursor with
  | none => items
  | some decoded => items.filter fun item => isGreater (getField item) decoded.value

def paginate (items : List α) (query : PaginationQuery) (getField : α → JsString)
    (fieldName : JsString) : PaginatedResponse α :=
  let filtered := applyCursor items query.cursor getField
  let page := filtered.take (query.limit + 1)
  let hasMore := decide (query.limit < page.length)
  let data := if hasMore then page.take query.limit else page
  let cursor := if hasMore then
    data.getLast?.map fun item => encodeCursor fieldName (getField item) else none
  ⟨data, cursor, hasMore⟩

theorem paginate_hasMore (items : List α) (query : PaginationQuery) (getField : α → JsString)
    (fieldName : JsString) :
    (paginate items query getField fieldName).pagination.hasMore = true ↔
      query.limit < (applyCursor items query.cursor getField).length := by
  rw [paginate, decide_eq_true_iff, List.length_take]
  omega

theorem paginate_data (items : List α) (query : PaginationQuery) (getField : α → JsString)
    (fieldName : JsString) :
    (paginate items query getField fieldName).data =
      (applyCursor items query.cursor getField).take query.limit := by
  simp only [paginate, List.length_take, decide_eq_true_eq]
  split
  · rw [List.take_take, Nat.min_eq_left (Nat.le_succ _)]
  · rw [List.take_of_length_le (by omega), List.take_of_length_le (by omega)]

theorem paginate_cursor {items : List α} {query : PaginationQuery} {getField : α → JsString}
    {fieldName : JsString}
    (h : query.limit < (applyCursor items query.cursor getField).length) :
    (paginate items query getField fieldName).pagination.cursor =
      ((applyCursor items query.cursor getField).take query.limit).getLast?.map
        fun item => encodeCursor fieldName (getField item) := by
  rw [← paginate_data items query getField fieldName]
  have hmore := (paginate_hasMore items query getField fieldName).mpr h
  simp only [paginate] at hmore ⊢
  rw [if_pos hmore]

/-! ## Following the cursors -/

/-- What a list route hands to `paginate`: items that are all distinct, and the field that the
cursor states. -/
structure Listing (α : Type*) where
  items : List α
  getField : α → JsString
  fieldName : JsString
  nodup : items.Nodup

namespace Listing

variable (l : Listing α) (limit : ℕ)

/-- The pages that a client gets who asks for the next one with the cursor of the last. -/
def page : ℕ → PaginatedResponse α
  | 0 => paginate l.items ⟨none, limit⟩ l.getField l.fieldName
  | k + 1 => paginate l.items ⟨(page k).pagination.cursor, limit⟩ l.getField l.fieldName

/-- The pages end, and together they are the list. -/
def VisitsOnce : Prop :=
  ∃ n, (∀ k < n, (l.page limit k).pagination.hasMore = true) ∧
    (l.page limit n).pagination.hasMore = false ∧
    (List.range (n + 1)).flatMap (fun k => (l.page limit k).data) = l.items

/-- An item whose cursor can be read. -/
def Readable (e : α) : Prop := (cursorBytes l.fieldName (l.getField e)).length ≤ 384

instance : DecidablePred l.Readable := fun _ => inferInstanceAs (Decidable (_ ≤ _))

def Follows (e y : α) : Prop := isGreater (l.getField y) (l.getField e) = true

instance : DecidableRel l.Follows := fun _ _ => inferInstanceAs (Decidable (_ = _))

theorem follows_iff {e y : α} :
    l.Follows e y ↔ ¬ Json.keyLe (l.getField y) (l.getField e) = true := by
  rw [Follows, isGreater, Bool.not_eq_true', Bool.not_eq_true]

instance : Std.Irrefl l.Follows where
  irrefl _ h := l.follows_iff.mp h ((Json.keyLe_total _ _).elim id id)

instance : IsTrans α l.Follows where
  trans e f y hef hfy := by
    have hle := (Json.keyLe_total (l.getField e) (l.getField f)).resolve_right
      (l.follows_iff.mp hef)
    exact l.follows_iff.mpr fun h => l.follows_iff.mp hfy (Json.keyLe_trans h hle)

/-! ## The pages as a walk -/

/-- The cursor that page `k` is asked for with. -/
def cursorBefore : ℕ → Option JsString
  | 0 => none
  | k + 1 => (l.page limit k).pagination.cursor

theorem page_eq (k : ℕ) :
    l.page limit k = paginate l.items ⟨l.cursorBefore limit k, limit⟩ l.getField l.fieldName := by
  cases k <;> rfl

/-- A cursor that was made for an item selects what remains after the item. -/
theorem applyCursor_encodeCursor (e : α) :
    applyCursor l.items (some (encodeCursor l.fieldName (l.getField e))) l.getField =
      Paging.restAfter l.Follows l.Readable l.items e := by
  rw [applyCursor, Option.bind_some, decodeCursor_encodeCursor, Paging.restAfter]
  by_cases h : l.Readable e
  · have hlength : (cursorBytes l.fieldName (l.getField e)).length ≤ 384 := h
    rw [if_pos h, if_pos hlength]
    apply List.filter_congr
    intro y _
    show isGreater (l.getField y) (l.getField e) = decide (isGreater _ _ = true)
    exact Bool.decide_eq_true.symm
  · have hlength : ¬ (cursorBytes l.fieldName (l.getField e)).length ≤ 384 := h
    rw [if_neg h, if_neg hlength]

variable {limit}

theorem applyCursor_eq_window (hlimit : 1 ≤ limit) {k : ℕ}
    (h : ∀ j < k, (l.page limit j).pagination.hasMore = true) :
    applyCursor l.items (l.cursorBefore limit k) l.getField =
      Paging.window l.Follows l.Readable limit l.items k := by
  induction k with
  | zero => rfl
  | succ k ih =>
    have hwindow := ih fun j hj => h j (Nat.lt_succ_of_lt hj)
    have hmore := h k (Nat.lt_succ_self k)
    rw [page_eq, paginate_hasMore] at hmore
    have hcursor : (paginate l.items ⟨l.cursorBefore limit k, limit⟩ l.getField
        l.fieldName).pagination.cursor = _ := paginate_cursor hmore
    rw [← page_eq, hwindow] at hcursor
    rw [hwindow] at hmore
    have hne : (Paging.window l.Follows l.Readable limit l.items k).take limit ≠ [] := by
      apply List.ne_nil_of_length_pos
      rw [List.length_take_of_le hmore.le]
      exact hlimit
    have hlast := List.getLast?_eq_some_getLast hne
    rw [cursorBefore, hcursor, Paging.window_succ hlast, hlast, Option.map_some,
      applyCursor_encodeCursor]

/-- Following the cursors is the walk over the windows. -/
theorem visitsOnce_iff_walk (hlimit : 1 ≤ limit) :
    l.VisitsOnce limit ↔ Paging.VisitsOnce l.Follows l.Readable limit l.items := by
  have hmore : ∀ k, (∀ j < k, (l.page limit j).pagination.hasMore = true) →
      ((l.page limit k).pagination.hasMore = true ↔
        limit < (Paging.window l.Follows l.Readable limit l.items k).length) := by
    intro k hk
    rw [page_eq, paginate_hasMore, l.applyCursor_eq_window hlimit hk]
  have hdata : ∀ n, (∀ j < n, (l.page limit j).pagination.hasMore = true) →
      (List.range (n + 1)).flatMap (fun k => (l.page limit k).data) =
        (List.range (n + 1)).flatMap
          fun k => (Paging.window l.Follows l.Readable limit l.items k).take limit := by
    intro n hn
    apply List.flatMap_congr
    intro k hk
    have hk := List.mem_range.mp hk
    rw [page_eq, paginate_data, l.applyCursor_eq_window hlimit fun j hj => hn j (by omega)]
  constructor
  · rintro ⟨n, hall, hend, hpages⟩
    refine ⟨n, ?_, ?_, ?_⟩
    · intro k hk
      exact (hmore k fun j hj => hall j (by omega)).mp (hall k hk)
    · rw [← Bool.not_eq_true, hmore n hall] at hend
      exact Nat.le_of_not_lt hend
    · rw [← hdata n hall]
      exact hpages
  · rintro ⟨n, hall, hend, hpages⟩
    have hpage : ∀ k ≤ n, ∀ j < k, (l.page limit j).pagination.hasMore = true := by
      intro k hk
      induction k with
      | zero => exact fun j hj => absurd hj (Nat.not_lt_zero j)
      | succ k ih =>
        intro j hj
        rcases Nat.lt_succ_iff_lt_or_eq.mp hj with hj | rfl
        · exact ih (by omega) j hj
        · exact (hmore j (ih (by omega))).mpr (hall j hk)
    refine ⟨n, hpage n le_rfl, ?_, ?_⟩
    · rw [← Bool.not_eq_true, hmore n (hpage n le_rfl)]
      exact Nat.not_lt_of_le hend
    · rw [hdata n (hpage n le_rfl)]
      exact hpages

theorem pagination_visitsOnce_iff (hlimit : 1 ≤ limit) :
    l.VisitsOnce limit ↔
      ∀ before edge after, l.items = before ++ edge :: after → limit ∣ before.length + 1 →
        after ≠ [] → (cursorBytes l.fieldName (l.getField edge)).length ≤ 384 ∧
          (∀ y ∈ before, isGreater (l.getField y) (l.getField edge) = false) ∧
          ∀ y ∈ after, isGreater (l.getField y) (l.getField edge) = true := by
  rw [l.visitsOnce_iff_walk hlimit, Paging.visitsOnce_iff hlimit l.nodup]
  constructor
  · intro h before edge after hitems hdvd hafter
    have hparts := h before edge after hitems hdvd hafter
    exact ⟨hparts.usable, fun y hy => Bool.eq_false_of_not_eq_true (hparts.before y hy),
      hparts.after⟩
  · intro h before edge after hitems hdvd hafter
    obtain ⟨husable, hbefore, hafter⟩ := h before edge after hitems hdvd hafter
    exact ⟨husable, fun y hy => Bool.not_eq_true _ ▸ hbefore y hy, hafter⟩

/-- Three items in pages of two. -/
theorem pagination_visitsOnce_iff_letters :
    (Listing.mk [js "a", js "b", js "c"] (fun item => item) (js "id") (by decide)).VisitsOnce
      2 := by
  apply (pagination_visitsOnce_iff _ (by decide)).mpr
  intro before edge after hitems hdvd hafter
  obtain ⟨b, rfl⟩ : ∃ b, before = [b] := by
    apply List.length_eq_one_iff.mp
    have hlength := congrArg List.length hitems
    have hpos := List.length_pos_of_ne_nil hafter
    rw [List.length_append] at hlength
    change 3 = before.length + (after.length + 1) at hlength
    omega
  cases hitems
  refine ⟨by decide +kernel, ?_, ?_⟩
  · exact List.forall_mem_singleton.mpr (by decide +kernel)
  · exact List.forall_mem_singleton.mpr (by decide +kernel)

/-- Items of one field value are lost behind the edge of a page. -/
theorem not_visitsOnce_of_tie (hlimit : 1 ≤ limit) (hlength : limit < l.items.length)
    (hties : ∀ i ∈ l.items, ∀ j ∈ l.items, l.getField i = l.getField j) : ¬ l.VisitsOnce limit := by
  obtain ⟨before, edge, hitems, hbefore⟩ := Paging.exists_edge hlimit hlength
  have hedge : edge ∈ l.items := by
    rw [hitems]
    exact List.mem_append_right _ List.mem_cons_self
  have hrest : l.items.drop limit ≠ [] := List.drop_eq_nil_iff.not.mpr (by omega)
  obtain ⟨y, hy⟩ := List.exists_mem_of_ne_nil _ hrest
  rw [l.visitsOnce_iff_walk hlimit, Paging.visitsOnce_iff hlimit l.nodup]
  intro h
  have hparts := h before edge _ hitems (by rw [hbefore]) hrest
  have hfollows := l.follows_iff.mp (hparts.after y hy)
  rw [hties y (List.mem_of_mem_drop hy) edge hedge] at hfollows
  exact hfollows ((Json.keyLe_total _ _).elim id id)

end Listing

/-! ## The list routes -/

section routes

variable {cz : Canonicalizer}

def allEvents (s : EventIndex) (afterPosition : Option ℚ) : List StoredEvent :=
  s.readAll ⟨afterPosition.map (· + 1), none, none⟩

def streamEvents (s : EventIndex) (streamId : JsString) (afterVersion : Option ℚ) :
    Except JsError (List StoredEvent) :=
  s.read streamId ⟨afterVersion.map (· + 1), none, none⟩

/-- `listIntents`. -/
def listIntents (m : IntentManager) (status : Option IntentStatus) : List VaultIntent :=
  match status with
  | none => m.intents.values
  | some status => m.intents.values.filter fun i => i.status = status

/-- The intents by the time they were declared, as the collation of the host compares it. -/
def sortedIntents (localeCompare : JsString → JsString → ℤ) (m : IntentManager)
    (status : Option IntentStatus) : List VaultIntent :=
  (listIntents m status).mergeSort fun a b => localeCompare a.declaredAt b.declaredAt ≤ 0

theorem nodup_of_numbered {log : List StoredEvent} {key : StoredEvent → Number} {n : ℕ}
    (h : log.map key = (List.range n).map fun i => Number.ofNat (i + 1)) : log.Nodup := by
  apply List.Nodup.of_map key
  rw [h]
  exact List.nodup_range.map fun i j hij => Nat.succ.inj (Number.ofNat_injective hij)

theorem nodup_allEvents {s : EventIndex} (h : ValidLog cz s.globalLog) (afterPosition : Option ℚ) :
    (allEvents s afterPosition).Nodup := (nodup_of_numbered h.globalPosition).filter _

theorem nodup_streamEvents {s : EventIndex} {log : List StoredEvent} (hlog : ValidLog cz log)
    (hs : IndexOf s log) {streamId : JsString} {afterVersion : Option ℚ} {events : List StoredEvent}
    (h : streamEvents s streamId afterVersion = .ok events) : events.Nodup := by
  have hstream : (s.stream streamId).Nodup := by
    rw [hs.stream streamId]
    exact nodup_of_numbered (hlog.version streamId)
  obtain ⟨-, h⟩ := bind_unit_eq_ok.mp h
  cases hfound : s.streams streamId with
  | none =>
    rw [hfound] at h
    cases h
    exact List.nodup_nil
  | some found =>
    rw [EventIndex.stream, hfound] at hstream
    rw [hfound] at h
    dsimp only at h
    split at h
    · cases h
    · cases h
      exact hstream.filter _

theorem nodup_sortedIntents (localeCompare : JsString → JsString → ℤ) {v : Vault}
    (h : vaultSystem.Reachable v) (status : Option IntentStatus) :
    (sortedIntents localeCompare v.intents status).Nodup := by
  have hvalues : v.intents.intents.values.Nodup := by
    have hids := JsMap.nodup_map_values (f := id) (g := VaultIntent.id)
      (orderly_of_reachable h).intents
    rwa [List.map_id] at hids
  apply (List.mergeSort_perm _ _).nodup_iff.mpr
  cases status with
  | none => exact hvalues
  | some status => exact hvalues.filter _

/-- The list of `GET /api/v1/events`. -/
def allEventsListing {s : EventIndex} (h : ValidLog cz s.globalLog) (afterPosition : Option ℚ) :
    Listing StoredEvent where
  items := allEvents s afterPosition
  getField e := JsonValue.numberString e.globalPosition
  fieldName := js "globalPosition"
  nodup := nodup_allEvents h afterPosition

/-- The list of `GET /api/v1/events/:streamId`, where the store answers. -/
def streamEventsListing {s : EventIndex} {log : List StoredEvent} (hlog : ValidLog cz log)
    (hs : IndexOf s log) {streamId : JsString} {afterVersion : Option ℚ} {events : List StoredEvent}
    (h : streamEvents s streamId afterVersion = .ok events) : Listing StoredEvent where
  items := events
  getField e := JsonValue.numberString e.version
  fieldName := js "version"
  nodup := nodup_streamEvents hlog hs h

/-- The list of `GET /api/v1/intents`. -/
def intentsListing (localeCompare : JsString → JsString → ℤ) {v : Vault}
    (h : vaultSystem.Reachable v) (status : Option IntentStatus) : Listing VaultIntent where
  items := sortedIntents localeCompare v.intents status
  getField i := i.declaredAt
  fieldName := js "declaredAt"
  nodup := nodup_sortedIntents localeCompare h status

/-- A call that declares an intent. -/
def declaration (id : JsString) : VaultCall :=
  .declare id (js "transfer") (js "Payroll") ⟨none, .undefined⟩ none (js "2026-01-01T00:00:00.000Z")

/-- Two intents of one moment. -/
def simultaneous : Vault :=
  ((new ⟨js "owner", js "USD", .ofNat 2⟩).call (declaration (js "first"))).call
    (declaration (js "second"))

theorem reachable_simultaneous : vaultSystem.Reachable simultaneous := by
  have hnew : vaultSystem.Reachable (new ⟨js "owner", js "USD", .ofNat 2⟩) := .init ⟨_, rfl⟩
  have hfirst := hnew.next (e := declaration (js "first")) rfl
  exact hfirst.next (e := declaration (js "second")) rfl

/-- A collation by code units. -/
def compareUnits (a b : JsString) : ℤ :=
  if a = b then 0 else if isGreater a b then 1 else -1

/-- The second one is on no page. -/
theorem simultaneous_lost :
    ¬ (intentsListing compareUnits reachable_simultaneous none).VisitsOnce 1 := by
  have hperm : (intentsListing compareUnits reachable_simultaneous none).items.Perm
      simultaneous.intents.intents.values := List.mergeSort_perm _ _
  have htimes : ∀ i ∈ simultaneous.intents.intents.values,
      i.declaredAt = js "2026-01-01T00:00:00.000Z" := by
    have hall : simultaneous.intents.intents.values.all (fun i =>
        i.declaredAt = js "2026-01-01T00:00:00.000Z") = true := by decide +kernel
    exact fun i hi => of_decide_eq_true (List.all_eq_true.mp hall i hi)
  apply Listing.not_visitsOnce_of_tie _ (by decide)
  · rw [hperm.length_eq]
    decide +kernel
  · intro i hi j hj
    exact (htimes i (hperm.mem_iff.mp hi)).trans (htimes j (hperm.mem_iff.mp hj)).symm

/-- Pages of nine lose the tenth of numbered items, since `"10"` comes before `"9"`. -/
theorem not_visitsOnce_of_numbered {α : Type*} {l : Listing α}
    (hnumbered : ∀ (i : ℕ) (hi : i < l.items.length),
      l.getField l.items[i] = JsonValue.numberString (.ofNat (i + 1)))
    (hlength : 9 < l.items.length) : ¬ l.VisitsOnce 9 := by
  rw [Listing.visitsOnce_iff_walk _ (by decide), Paging.visitsOnce_iff (by decide) l.nodup]
  intro hedges
  have hninth := List.take_append_drop 8 l.items
  rw [List.drop_eq_getElem_cons (by omega)] at hninth
  have hparts := hedges _ _ _ hninth.symm (by rw [List.length_take_of_le (by omega)])
    (List.drop_eq_nil_iff.not.mpr (by omega))
  have htenth : l.items[9] ∈ l.items.drop 9 := by
    rw [List.drop_eq_getElem_cons hlength]
    exact List.mem_cons_self
  have hfollows := hparts.after _ htenth
  have htext : isGreater (JsonValue.numberString (.ofNat 10)) (JsonValue.numberString (.ofNat 9)) =
      false := by decide +kernel
  rw [Listing.Follows, hnumbered 9 hlength, hnumbered 8 (by omega), htext] at hfollows
  exact Bool.false_ne_true hfollows

theorem getElem_of_numbered {log : List StoredEvent} {key : StoredEvent → Number} {n : ℕ}
    (h : log.map key = (List.range n).map fun i => Number.ofNat (i + 1)) (i : ℕ)
    (hi : i < log.length) : key log[i] = .ofNat (i + 1) := by
  have hlength : log.length = n := by
    rw [← List.length_map (f := key), h, List.length_map, List.length_range]
  have hi' := congrArg (fun l => l[i]?) h
  simpa [hi, hlength ▸ hi] using hi'

/-- No bound selects all of a numbered log. -/
theorem select_of_numbered {log : List StoredEvent} {key : StoredEvent → Number} {n : ℕ}
    (h : log.map key = (List.range n).map fun i => Number.ofNat (i + 1)) :
    select key ⟨none, none, none⟩ log = log := by
  apply List.filter_eq_self.mpr
  intro e he
  obtain ⟨i, hi, rfl⟩ := List.getElem_of_mem he
  rw [decide_eq_true_iff, getElem_of_numbered h i hi]
  show (1 : ℚ) ≤ ((i + 1 : ℕ) : ℚ)
  exact_mod_cast Nat.le_add_left 1 i

theorem allEvents_not_visitsOnce {s : EventIndex} (h : ValidLog cz s.globalLog)
    (hlength : 9 < s.globalLog.length) : ¬ (allEventsListing h none).VisitsOnce 9 := by
  have hitems : (allEventsListing h none).items = s.globalLog := select_of_numbered h.globalPosition
  apply not_visitsOnce_of_numbered
  · rw [hitems]
    intro i hi
    exact congrArg JsonValue.numberString (getElem_of_numbered h.globalPosition i hi)
  · rwa [hitems]

theorem streamEvents_not_visitsOnce {s : EventIndex} {log : List StoredEvent}
    (hlog : ValidLog cz log) (hs : IndexOf s log) {streamId : JsString} {events : List StoredEvent}
    (h : streamEvents s streamId none = .ok events) (hlength : 9 < events.length) :
    ¬ (streamEventsListing hlog hs h).VisitsOnce 9 := by
  have hnumbered := hlog.version streamId
  rw [← hs.stream streamId] at hnumbered
  have hitems : events = s.stream streamId := by
    obtain ⟨-, h⟩ := bind_unit_eq_ok.mp h
    rw [EventIndex.stream] at hnumbered ⊢
    cases hfound : s.streams streamId with
    | none =>
      rw [hfound] at h
      exact (Except.ok.inj h).symm
    | some found =>
      rw [hfound] at h hnumbered
      dsimp only at h
      split at h
      · cases h
      · exact (Except.ok.inj h).symm.trans (select_of_numbered hnumbered)
  subst hitems
  apply not_visitsOnce_of_numbered
  · intro i hi
    exact congrArg JsonValue.numberString (getElem_of_numbered hnumbered i hi)
  · exact hlength

end routes

end Attestia.Node
