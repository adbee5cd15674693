import Attestia.Lib.JsonValue
import Attestia.Lib.Sorting

/-!
# Canonical JSON

The canonical form of a value prints the members of every object in the order of their
keys. Two values with the same canonical text are the same up to the order of members.
-/

namespace Attestia.Lib

namespace Json

/-- The order of keys as strings of code units. -/
def keyLe : JsString → JsString → Bool
  | [], _ => true
  | _ :: _, [] => false
  | u :: s, v :: t => u < v || (u = v && keyLe s t)

theorem keyLe_total (s t : JsString) : keyLe s t = true ∨ keyLe t s = true := by
  induction s generalizing t with
  | nil => exact .inl rfl
  | cons u s ih =>
    cases t with
    | nil => exact .inr rfl
    | cons v t =>
      by_cases huv : u = v
      · subst huv
        simpa [keyLe] using ih t
      · rcases UInt16.lt_or_lt_of_ne huv with h | h <;> simp [keyLe, h]

theorem keyLe_antisymm {s t : JsString} (h : keyLe s t = true) (h' : keyLe t s = true) : s = t := by
  induction s generalizing t with
  | nil =>
    cases t with
    | nil => rfl
    | cons v t => cases h'
  | cons u s ih =>
    cases t with
    | nil => cases h
    | cons v t =>
      simp only [keyLe, Bool.or_eq_true, decide_eq_true_eq, Bool.and_eq_true] at h h'
      rcases h with h | ⟨rfl, h⟩
      · rcases h' with h' | ⟨rfl, -⟩
        · exact absurd h' (UInt16.lt_asymm h)
        · exact absurd h (UInt16.lt_irrefl _)
      · rcases h' with h' | ⟨-, h'⟩
        · exact absurd h' (UInt16.lt_irrefl _)
        · rw [ih h h']

theorem keyLe_trans {s t r : JsString} (h : keyLe s t = true) (h' : keyLe t r = true) :
    keyLe s r = true := by
  induction s generalizing t r with
  | nil => rfl
  | cons u s ih =>
    cases t with
    | nil => cases h
    | cons v t =>
      cases r with
      | nil => cases h'
      | cons w r =>
        simp only [keyLe, Bool.or_eq_true, decide_eq_true_eq, Bool.and_eq_true] at h h' ⊢
        rcases h with h | ⟨rfl, h⟩
        · rcases h' with h' | ⟨rfl, -⟩
          · exact .inl (UInt16.lt_trans h h')
          · exact .inl h
        · rcases h' with h' | ⟨rfl, h'⟩
          · exact .inl h'
          · exact .inr ⟨rfl, ih h h'⟩

instance : Std.Total fun s t : JsString => keyLe s t = true := ⟨keyLe_total⟩

instance : IsTrans JsString fun s t => keyLe s t = true := ⟨fun _ _ _ => keyLe_trans⟩

/-- `sort()` on strings. -/
def sortStrings (texts : List JsString) : List JsString :=
  texts.insertionSort fun s t => keyLe s t

theorem sortStrings_eq_of_perm {as bs : List JsString} (h : as.Perm bs) :
    sortStrings as = sortStrings bs :=
  List.Perm.eq_of_pairwise (fun _ _ _ _ => keyLe_antisymm) (List.pairwise_insertionSort _ as)
    (List.pairwise_insertionSort _ bs)
    ((List.perm_insertionSort _ as).trans (h.trans (List.perm_insertionSort _ bs).symm))

def sortMembers (ms : List (JsString × Json)) : List (JsString × Json) :=
  ms.insertionSort fun a b => keyLe a.1 b.1

mutual

def sortKeys : Json → Json
  | arr es => arr (sortKeysElements es)
  | obj ms => obj (sortMembers (sortKeysMembers ms))
  | v => v

def sortKeysElements : List Json → List Json
  | [] => []
  | v :: vs => sortKeys v :: sortKeysElements vs

def sortKeysMembers : List (JsString × Json) → List (JsString × Json)
  | [] => []
  | m :: ms => (m.1, sortKeys m.2) :: sortKeysMembers ms

end

theorem mem_sortMembers {ms : List (JsString × Json)} {m : JsString × Json} :
    m ∈ sortMembers ms ↔ m ∈ ms :=
  (List.perm_insertionSort _ ms).mem_iff

theorem orders_keyLe (keys : List JsString) : Orders (fun s t => keyLe s t = true) keys where
  total s _ t _ := keyLe_total s t
  trans _ _ _ _ _ _ := keyLe_trans
  antisymm _ _ _ _ := keyLe_antisymm

/-- Members of different keys are sorted into one order. -/
theorem sortMembers_eq_of_perm {as bs : List (JsString × Json)} (h : as.Perm bs)
    (hnodup : (as.map Prod.fst).Nodup) : sortMembers as = sortMembers bs :=
  insertionSort_eq_of_perm ((orders_keyLe _).of_map fun _ ha _ hb =>
    List.inj_on_of_nodup_map hnodup ha hb) h
theorem sortKeysMembers_eq_map (ms : List (JsString × Json)) :
    sortKeysMembers ms = ms.map fun m => (m.1, sortKeys m.2) := by
  induction ms with
  | nil => rfl
  | cons m ms ih => rw [sortKeysMembers, ih, List.map_cons]

theorem sortKeysElements_eq_map (vs : List Json) : sortKeysElements vs = vs.map sortKeys := by
  induction vs with
  | nil => rfl
  | cons v vs ih => rw [sortKeysElements, ih, List.map_cons]

mutual

theorem printable_sortKeys : ∀ {v : Json}, Printable v → Printable (sortKeys v)
  | null, _ => trivial
  | bool _, _ => trivial
  | num _, h => h
  | str _, _ => trivial
  | arr _, h => printable_sortKeysElements h
  | obj _, h => printableMembers_iff.mpr fun m hm =>
      printableMembers_iff.mp (printable_sortKeysMembers h) m (mem_sortMembers.mp hm)

theorem printable_sortKeysElements : ∀ {vs : List Json}, PrintableElements vs →
    PrintableElements (sortKeysElements vs)
  | [], _ => trivial
  | _ :: _, h => ⟨printable_sortKeys h.1, printable_sortKeysElements h.2⟩

theorem printable_sortKeysMembers : ∀ {ms : List (JsString × Json)}, PrintableMembers ms →
    PrintableMembers (sortKeysMembers ms)
  | [], _ => trivial
  | _ :: _, h => ⟨printable_sortKeys h.1, printable_sortKeysMembers h.2⟩

end

/-- Every member of an object is the one that its key finds. -/
theorem find?_of_keysOrdered {ms : List (JsString × Json)} (h : KeysOrdered ms)
    {m : JsString × Json} (hm : m ∈ ms) : (ms.find? fun x => x.1 = m.1) = some m := by
  induction ms with
  | nil => cases hm
  | cons a ms ih =>
    rw [KeysOrdered, List.map_cons, List.pairwise_cons] at h
    obtain rfl | hm := List.mem_cons.mp hm
    · rw [List.find?_cons_of_pos (by simp)]
    · have hne := keyBefore_ne (h.1 _ (List.mem_map_of_mem hm))
      rw [List.find?_cons_of_neg (by simpa using hne), ih h.2 hm]

/-! ## A function of the values of an object -/

theorem map_setMember (f : Json → Json) (k : JsString) (v : Json) (ms : List (JsString × Json)) :
    (setMember k v ms).map (fun m => (m.1, f m.2)) =
      setMember k (f v) (ms.map fun m => (m.1, f m.2)) := by
  induction ms with
  | nil => rfl
  | cons m ms ih =>
    rw [setMember, List.map_cons, setMember]
    split
    · rfl
    · split
      · rw [List.map_cons, ih]
      · rfl

theorem map_ofEntries (f : Json → Json) (entries : List (JsString × Json)) :
    (ofEntries entries).map (fun m => (m.1, f m.2)) =
      ofEntries (entries.map fun m => (m.1, f m.2)) := by
  induction entries using List.reverseRecOn with
  | nil => rfl
  | append_singleton entries e ih =>
    rw [ofEntries, List.foldl_append, List.map_append]
    change (setMember e.1 e.2 (ofEntries entries)).map _ = _
    rw [map_setMember, ih, ofEntries, ofEntries, List.foldl_append]
    rfl

end Json

namespace JsonValue

/-- The same value up to the order of the members of its objects. -/
def Same (v w : JsonValue) : Prop := v.val.sortKeys = w.val.sortKeys

/-- The canonical text of a value. -/
def canonicalText (v : JsonValue) : String := String.ofList v.val.sortKeys.text

theorem same_of_canonicalText_eq {v w : JsonValue} (h : canonicalText v = canonicalText w) :
    v.Same w :=
  Json.text_injective (Json.printable_sortKeys v.wf.1) (Json.printable_sortKeys w.wf.1)
    (String.ofList_injective h)

theorem Same.refl (v : JsonValue) : v.Same v := rfl

/-- Objects whose entries are the same. -/
theorem same_object {es fs : List (JsString × Option JsonValue)}
    (h : List.Forall₂ (fun a b => a.1 = b.1 ∧ Option.Rel Same a.2 b.2) es fs) :
    (object es).Same (object fs) := by
  have hentries : (es.filterMap fun e => e.2.map fun v => (e.1, v.val)).map
      (fun m => (m.1, m.2.sortKeys)) =
      (fs.filterMap fun e => e.2.map fun v => (e.1, v.val)).map fun m => (m.1, m.2.sortKeys) := by
    induction h with
    | nil => rfl
    | @cons a b es fs hab _ ih =>
      obtain ⟨k, x⟩ := a
      obtain ⟨l, y⟩ := b
      obtain ⟨rfl, hxy⟩ := hab
      cases hxy with
      | none => simpa using ih
      | some hsame =>
        simp only [List.filterMap_cons, Option.map_some, List.map_cons, ih]
        exact congrArg (fun v => (k, v) :: _) hsame
  rw [Same, object, object, Json.sortKeys, Json.sortKeys, Json.sortKeysMembers_eq_map,
    Json.sortKeysMembers_eq_map, Json.map_ofEntries, Json.map_ofEntries, hentries]

theorem map_fst_filterMap_sublist (es : List (JsString × Option JsonValue)) :
    ((es.filterMap fun e => e.2.map fun v => (e.1, v.val)).map Prod.fst).Sublist (es.map Prod.fst) := by
  induction es with
  | nil => exact .slnil
  | cons e es ih =>
    obtain ⟨k, _ | v⟩ := e
    · exact ih.cons k
    · exact ih.cons_cons k

/-- The members of an object have no order. -/
theorem same_object_of_perm {es fs : List (JsString × Option JsonValue)} (h : es.Perm fs)
    (hnodup : (es.map Prod.fst).Nodup) : (object es).Same (object fs) := by
  have hentries := h.filterMap fun e => e.2.map fun v => (e.1, v.val)
  have hkeys := hnodup.sublist (map_fst_filterMap_sublist es)
  have hkeys' := ((hentries.map Prod.fst).nodup_iff).mp hkeys
  have hmembers := (ofEntries_perm hkeys).trans (hentries.trans (ofEntries_perm hkeys').symm)
  rw [Same, object, object, Json.sortKeys, Json.sortKeys, Json.sortKeysMembers_eq_map,
    Json.sortKeysMembers_eq_map]
  refine congrArg Json.obj (Json.sortMembers_eq_of_perm (hmembers.map _) ?_)
  rw [List.map_map]
  exact ((ofEntries_perm hkeys).map Prod.fst).nodup_iff.mpr hkeys

theorem canonicalText_eq_of_same {v w : JsonValue} (h : v.Same w) :
    v.canonicalText = w.canonicalText := congrArg (fun j : Json => String.ofList j.text) h

theorem same_str {s t : JsString} (h : (str s).Same (str t)) : s = t := Json.str.inj h

theorem same_num {m n : JsonNumber.Number} (h : (num m).Same (num n)) : m = n :=
  JsonNumber.Number.ext (Json.num.inj h)

/-- The same objects have the same properties. -/
theorem Same.get? {v w x : JsonValue} {key : JsString} (h : v.Same w) (hv : v.get? key = some x) :
    ∃ y, w.get? key = some y ∧ x.Same y := by
  obtain ⟨v, hwfv⟩ := v
  obtain ⟨w, hwfw⟩ := w
  rw [get?_eq_some] at hv
  cases v with
  | obj ms =>
    cases w with
    | obj ms' =>
      obtain ⟨m, hm, hx⟩ := Option.map_eq_some_iff.mp hv
      have hkey : m.1 = key := by simpa using List.find?_some hm
      have hsort := Json.obj.inj h
      rw [Json.sortKeysMembers_eq_map, Json.sortKeysMembers_eq_map] at hsort
      have hmem : (m.1, m.2.sortKeys) ∈ ms'.map fun m => (m.1, m.2.sortKeys) := by
        rw [← Json.mem_sortMembers, ← hsort, Json.mem_sortMembers]
        exact List.mem_map_of_mem (List.mem_of_find?_eq_some hm)
      obtain ⟨m', hm', heq⟩ := List.mem_map.mp hmem
      obtain ⟨h1, h2⟩ := Prod.mk.inj heq
      have hfind := Json.find?_of_keysOrdered hwfw.2.1 hm'
      rw [h1, hkey] at hfind
      have hget : (Json.obj ms').get? key = some m'.2 := by rw [Json.get?, hfind, Option.map_some]
      refine ⟨⟨m'.2, hwfw.get? hget⟩, get?_eq_some.mpr hget, ?_⟩
      rw [Same, ← hx, ← h2]
    | _ => cases h
  | _ => cases hv

/-- The same objects have the same properties, and lack the same ones. -/
theorem Same.rel_get? {v w : JsonValue} (h : v.Same w) (key : JsString) :
    Option.Rel Same (v.get? key) (w.get? key) := by
  cases hv : v.get? key with
  | none =>
    cases hw : w.get? key with
    | none => exact .none
    | some y =>
      obtain ⟨x, hx, -⟩ := Same.get? h.symm hw
      cases hv.symm.trans hx
  | some x =>
    obtain ⟨y, hw, hs⟩ := h.get? hv
    rw [hw]
    exact .some hs

/-- The same arrays of images of an encoding that is one-to-one up to `Same`. -/
theorem eq_of_same_array {α : Type*} {encode : α → JsonValue}
    (hinj : ∀ a b, (encode a).Same (encode b) → a = b) {as bs : List α}
    (h : (array (as.map encode)).Same (array (bs.map encode))) : as = bs := by
  have hmap := Json.arr.inj h
  simp only [Json.sortKeysElements_eq_map, List.map_map] at hmap
  exact List.map_injective_iff.mpr (fun a b hab => hinj a b hab) hmap

end JsonValue

end Attestia.Lib
