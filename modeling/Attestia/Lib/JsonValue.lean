import Attestia.Lib.JsonPrefix

/-!
# Well-formed JSON values

The values that a program handles: what `JSON.parse` returns and `JSON.stringify` accepts,
each with the proof that it is well formed. `toJsString` is the conversion to a string that
a template literal makes, `strictEq` is `===`.
-/

namespace Attestia.Lib

open JsonNumber

@[ext] structure JsonValue where
  val : Json
  wf : val.WF

namespace JsonValue

def str (s : JsString) : JsonValue := ⟨.str s, trivial, trivial⟩

def num (n : Number) : JsonValue := ⟨.num n.val, n.decimal, trivial⟩

def null : JsonValue := ⟨.null, trivial, trivial⟩

def array (vs : List JsonValue) : JsonValue :=
  ⟨.arr (vs.map val), Json.wf_arr fun _ h => by
    obtain ⟨v, -, rfl⟩ := List.mem_map.mp h
    exact v.wf⟩

/-- The object literal with the given entries; an entry without a value is left out. -/
def object (entries : List (JsString × Option JsonValue)) : JsonValue :=
  ⟨.obj (Json.ofEntries (entries.filterMap fun e => e.2.map fun v => (e.1, v.val))), by
    refine Json.wf_obj_ofEntries fun m hm => ?_
    obtain ⟨e, -, he⟩ := List.mem_filterMap.mp hm
    obtain ⟨v, -, rfl⟩ := Option.map_eq_some_iff.mp he
    exact v.wf⟩

def get? (v : JsonValue) (key : JsString) : Option JsonValue :=
  (v.val.get? key).pmap JsonValue.mk fun _ h => v.wf.get? h

def text (v : JsonValue) : List Char := v.val.text

def parse (cs : List Char) : Option JsonValue :=
  (Json.parse cs).pmap JsonValue.mk fun _ h => Json.wf_of_parse h

theorem str_injective : Function.Injective str := fun _ _ h =>
  Json.str.inj (congrArg JsonValue.val h)

/-! ## Properties -/

theorem pmap_mk_eq_some {o : Option Json} {h : ∀ v ∈ o, v.WF} {w : JsonValue} :
    o.pmap JsonValue.mk h = some w ↔ o = some w.val := by
  rw [Option.pmap_eq_some_iff]
  constructor
  · rintro ⟨v, _, hv, rfl⟩
    exact hv
  · intro hw
    exact ⟨w.val, w.wf, hw, rfl⟩

theorem get?_eq_some {v w : JsonValue} {key : JsString} :
    v.get? key = some w ↔ v.val.get? key = some w.val := pmap_mk_eq_some

theorem find?_setMember_self (k : JsString) (v : Json) (ms : List (JsString × Json)) :
    (Json.setMember k v ms).find? (fun m => m.1 = k) = some (k, v) := by
  fun_induction Json.setMember k v ms with
  | case1 => simp
  | case2 => simp
  | case3 m ms hk _ ih => rw [List.find?_cons_of_neg (by simpa using hk), ih]
  | case4 => simp

theorem find?_setMember_ne {k key : JsString} (h : key ≠ k) (v : Json)
    (ms : List (JsString × Json)) :
    (Json.setMember k v ms).find? (fun m => m.1 = key) = ms.find? fun m => m.1 = key := by
  have hk : ¬ k = key := fun e => h e.symm
  fun_induction Json.setMember k v ms with
  | case1 => simp [hk]
  | case2 m ms hm => simp [hk, hm]
  | case3 m ms _ _ ih => rw [List.find?_cons, List.find?_cons, ih]
  | case4 m ms => rw [List.find?_cons_of_neg (by simpa using hk)]

/-- A property of the object that a list of entries builds is the last entry under its key. -/
theorem get?_ofEntries (entries : List (JsString × Json)) (key : JsString) :
    (Json.obj (Json.ofEntries entries)).get? key =
      (entries.reverse.find? fun e => e.1 = key).map Prod.snd := by
  induction entries using List.reverseRecOn with
  | nil => rfl
  | append_singleton es e ih =>
    have hset : Json.ofEntries (es ++ [e]) = Json.setMember e.1 e.2 (Json.ofEntries es) := by
      simp [Json.ofEntries]
    rw [hset, Json.get?, List.reverse_append, List.reverse_singleton, List.singleton_append]
    by_cases he : key = e.1
    · subst he
      rw [find?_setMember_self, List.find?_cons_of_pos (by simp)]
    · have he' : ¬ e.1 = key := fun h => he h.symm
      rw [find?_setMember_ne he, List.find?_cons_of_neg (by simpa using he')]
      exact ih

theorem setMember_perm {k : JsString} {v : Json} {ms : List (JsString × Json)}
    (h : k ∉ ms.map Prod.fst) : (Json.setMember k v ms).Perm ((k, v) :: ms) := by
  fun_induction Json.setMember k v ms with
  | case1 => exact .rfl
  | case2 m ms hm => exact absurd (hm ▸ .head _) h
  | case3 m ms hk _ ih =>
    rw [List.map_cons, List.mem_cons, not_or] at h
    exact ((ih h.2).cons m).trans (.swap _ _ _)
  | case4 => exact .rfl

/-- An object whose keys are all different has the entries that it is built from. -/
theorem ofEntries_perm {entries : List (JsString × Json)} (h : (entries.map Prod.fst).Nodup) :
    (Json.ofEntries entries).Perm entries := by
  induction entries using List.reverseRecOn with
  | nil => exact .rfl
  | append_singleton es e ih =>
    rw [List.map_append, List.nodup_append] at h
    have hes := ih h.1
    have hset : Json.ofEntries (es ++ [e]) = Json.setMember e.1 e.2 (Json.ofEntries es) := by
      simp [Json.ofEntries]
    have hnew : e.1 ∉ (Json.ofEntries es).map Prod.fst := by
      rw [(hes.map Prod.fst).mem_iff]
      exact fun hmem => h.2.2 e.1 hmem e.1 (.head _) rfl
    rw [hset]
    exact (setMember_perm hnew).trans ((hes.cons e).trans (List.perm_append_singleton e es).symm)

theorem get?_object_append (entries : List (JsString × Option JsonValue)) (k key : JsString)
    (v : Option JsonValue) :
    (object (entries ++ [(k, v)])).get? key =
      if key = k ∧ v ≠ none then v else (object entries).get? key := by
  cases v with
  | none =>
    simp only [object, List.filterMap_append, List.filterMap_cons, Option.map_none,
      List.filterMap_nil, List.append_nil, ne_eq, not_true_eq_false, and_false, if_false]
  | some v =>
    have hobj : (object (entries ++ [(k, some v)])).val =
        .obj (Json.setMember k v.val (Json.ofEntries
          (entries.filterMap fun e => e.2.map fun v => (e.1, v.val)))) := by
      simp only [object, List.filterMap_append, List.filterMap_cons, Option.map_some,
        List.filterMap_nil, Json.ofEntries, List.foldl_append, List.foldl_cons, List.foldl_nil]
    by_cases hk : key = k
    · subst hk
      rw [if_pos ⟨rfl, by simp⟩, get?_eq_some, hobj, Json.get?, find?_setMember_self]
      rfl
    · rw [if_neg fun h => hk h.1]
      ext1 w
      rw [get?_eq_some, get?_eq_some, hobj, Json.get?, find?_setMember_ne hk]
      rfl

@[simp] theorem get?_object_nil (key : JsString) : (object []).get? key = none := rfl

/-- A property of an object literal is its last entry under that key. -/
@[simp] theorem get?_object_cons (k key : JsString) (v : Option JsonValue)
    (entries : List (JsString × Option JsonValue)) :
    (object ((k, v) :: entries)).get? key =
      ((object entries).get? key).or (if k = key then v else none) := by
  induction entries using List.reverseRecOn with
  | nil =>
    rw [← List.nil_append [(k, v)], get?_object_append, get?_object_nil, Option.none_or]
    by_cases hk : k = key
    · cases v <;> simp [hk]
    · have hk' : ¬ key = k := fun h => hk h.symm
      simp [hk, hk']
  | append_singleton es e ih =>
    rw [← List.cons_append, get?_object_append, get?_object_append, ih]
    split
    · rename_i h
      obtain ⟨w, hw⟩ := Option.ne_none_iff_exists'.mp h.2
      rw [hw, Option.some_or]
    · rfl

/-- The properties of an object literal whose keys are all different. -/
theorem get?_object {entries : List (JsString × Option JsonValue)}
    (h : (entries.map Prod.fst).Nodup) (key : JsString) :
    (object entries).get? key = (entries.find? fun e => e.1 = key).bind Prod.snd := by
  induction entries with
  | nil => rfl
  | cons e es ih =>
    obtain ⟨k, v⟩ := e
    rw [List.map_cons, List.nodup_cons] at h
    rw [get?_object_cons, ih h.2]
    by_cases hk : k = key
    · have hnone : (es.find? fun e => decide (e.1 = key)) = none := by
        rw [List.find?_eq_none]
        intro e he heq
        have hmem : e.1 ∈ es.map Prod.fst := List.mem_map_of_mem he
        rw [of_decide_eq_true heq, ← hk] at hmem
        exact h.1 hmem
      rw [hnone, List.find?_cons_of_pos (by simpa using hk), if_pos hk]
      rfl
    · rw [List.find?_cons_of_neg (by simpa using hk), if_neg hk, Option.or_none]

/-! ## Objects -/

theorem filter_setMember (k : JsString) (v : Json) (ms : List (JsString × Json)) :
    ((Json.setMember k v ms).filter fun m => m.1 ≠ k) = ms.filter fun m => m.1 ≠ k := by
  fun_induction Json.setMember k v ms with
  | case1 => simp
  | case2 m ms hm => simp [hm]
  | case3 m ms hk _ ih =>
    rw [List.filter_cons_of_pos (by simpa using hk), List.filter_cons_of_pos (by simpa using hk), ih]
  | case4 m ms => simp

end JsonValue

/-- A value that is an object. -/
structure JsonObject extends JsonValue where
  isObject : ∃ ms, val = .obj ms

namespace JsonObject

def members (v : JsonObject) : List (JsString × Json) :=
  match v.val with
  | .obj ms => ms
  | _ => []

theorem val_eq (v : JsonObject) : v.val = .obj v.members := by
  obtain ⟨ms, hms⟩ := v.isObject
  rw [members, hms]

/-- The object literal with the given entries. -/
def ofEntries (entries : List (JsString × Option JsonValue)) : JsonObject :=
  ⟨.object entries, _, rfl⟩

/-- What destructuring leaves of an object whose property of the key is taken out. -/
def without (v : JsonObject) (key : JsString) : JsonObject where
  val := .obj (v.members.filter fun m => m.1 ≠ key)
  wf := by
    have hwf := v.wf
    rw [v.val_eq] at hwf
    refine ⟨Json.printableMembers_iff.mpr fun m hm => ?_, ?_,
      Json.orderedMembers_iff.mpr fun m hm => ?_⟩
    · exact Json.printableMembers_iff.mp hwf.1 m (List.mem_filter.mp hm).1
    · exact hwf.2.1.sublist (List.filter_sublist.map _)
    · exact Json.orderedMembers_iff.mp hwf.2.2 m (List.mem_filter.mp hm).1
  isObject := ⟨_, rfl⟩

/-- A property that is assigned last does not matter once it is taken out. -/
theorem without_ofEntries_append (entries : List (JsString × Option JsonValue)) (key : JsString)
    (v : JsonValue) :
    ((ofEntries (entries ++ [(key, some v)])).without key).toJsonValue =
      ((ofEntries entries).without key).toJsonValue := by
  have hset : (ofEntries (entries ++ [(key, some v)])).members =
      Json.setMember key v.val (ofEntries entries).members := by
    simp only [ofEntries, members, JsonValue.object, List.filterMap_append, List.filterMap_cons,
      Option.map_some, List.filterMap_nil, Json.ofEntries, List.foldl_append, List.foldl_cons,
      List.foldl_nil]
  apply JsonValue.ext
  show Json.obj _ = Json.obj _
  rw [hset, JsonValue.filter_setMember]

end JsonObject

namespace JsonValue

/-! ## Lines -/

theorem parse_eq_some {cs : List Char} {v : JsonValue} :
    parse cs = some v ↔ Json.parse cs = some v.val := pmap_mk_eq_some

theorem parse_eq_none {cs : List Char} : parse cs = none ↔ Json.parse cs = none :=
  Option.pmap_eq_none_iff

theorem parse_text (v : JsonValue) : parse v.text = some v :=
  parse_eq_some.mpr (Json.parse_text v.wf)

theorem newline_not_mem_text (v : JsonValue) : '\n' ∉ v.text := Json.newline_not_mem_text v.val

theorem trim_text_object (entries : List (JsString × Option JsonValue)) :
    Lines.trim (object entries).text = (object entries).text := Json.trim_text _

theorem parse_trim_torn {entries : List (JsString × Option JsonValue)} {frag : List Char}
    (h : Lines.Torn (object entries).text frag) (hne : frag ≠ (object entries).text) :
    parse (Lines.trim frag) = none :=
  parse_eq_none.mpr (Json.parse_trim_torn (object entries).wf.1 h hne)

/-! ## Conversions -/

/-- The text of a number in a message. -/
def numberString (n : Number) : JsString := JsString.units (numberText n.val)

def isNull : Json → Bool
  | .null => true
  | _ => false

mutual

/-- `ToString`: an object has no text of its own, and one with an own `toString`, which is
never callable here, has no text at all. -/
def toJsString : Json → Option JsString
  | .null => some (js "null")
  | .bool b => some (js (if b then "true" else "false"))
  | .num q => some (JsString.units (numberText q))
  | .str s => some s
  | .arr es => joinElements es
  | .obj ms => if (ms.any fun m => m.1 = js "toString") then none else some (js "[object Object]")

/-- `Array.prototype.join`, in which `null` has the empty text. -/
def joinElements : List Json → Option JsString
  | [] => some []
  | v :: vs =>
    match if isNull v then some [] else toJsString v, joinElements vs with
    | some s, some t => some (if vs.isEmpty then s else s ++ js "," ++ t)
    | _, _ => none

end

/-- `===` on values that come from different places: two arrays or objects are never the same. -/
def strictEq (a b : JsonValue) : Bool :=
  match a.val, b.val with
  | .null, .null => true
  | .bool x, .bool y => x = y
  | .num x, .num y => x = y
  | .str x, .str y => x = y
  | _, _ => false

theorem strictEq_str (v : JsonValue) (s : JsString) : strictEq v (str s) = true ↔ v = str s := by
  rw [JsonValue.ext_iff]
  obtain ⟨v, hv⟩ := v
  cases v <;> simp [strictEq, str]

end JsonValue

end Attestia.Lib
