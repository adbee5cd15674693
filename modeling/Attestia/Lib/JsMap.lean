import Mathlib.Algebra.BigOperators.Group.List.Basic
import Mathlib.Data.List.Induction
import Mathlib.Data.List.Nodup

/-!
# Maps in insertion order

The `Map` of the language: a key is written once, a new one behind the others, and a
rewritten one keeps its place. `collect` groups a list by a key, in the way of a loop that
reads an accumulator or starts one.
-/

namespace Attestia.Lib

@[ext] structure JsMap (κ α : Type*) where
  entries : List (κ × α)
  nodup : (entries.map Prod.fst).Nodup

namespace JsMap

variable {κ α ε : Type*} [DecidableEq κ]

def empty : JsMap κ α := ⟨[], List.nodup_nil⟩

def keys (m : JsMap κ α) : List κ := m.entries.map Prod.fst

def values (m : JsMap κ α) : List α := m.entries.map Prod.snd

def get? (m : JsMap κ α) (k : κ) : Option α := (m.entries.find? fun e => e.1 = k).map Prod.snd

def has (m : JsMap κ α) (k : κ) : Bool := (m.get? k).isSome

def setEntries (k : κ) (v : α) : List (κ × α) → List (κ × α)
  | [] => [(k, v)]
  | e :: es => if e.1 = k then (k, v) :: es else e :: setEntries k v es

theorem keys_setEntries (k : κ) (v : α) (es : List (κ × α)) :
    (setEntries k v es).map Prod.fst =
      if k ∈ es.map Prod.fst then es.map Prod.fst else es.map Prod.fst ++ [k] := by
  induction es with
  | nil => simp [setEntries]
  | cons e es ih =>
    rw [setEntries]
    by_cases he : e.1 = k
    · simp [he]
    · have he' : ¬ k = e.1 := fun h => he h.symm
      simp only [if_neg he, List.map_cons, ih, List.mem_cons, he', false_or]
      split <;> rfl

def set (m : JsMap κ α) (k : κ) (v : α) : JsMap κ α :=
  ⟨setEntries k v m.entries, by
    rw [keys_setEntries]
    split
    · exact m.nodup
    · rename_i hk
      exact List.nodup_append.mpr ⟨m.nodup, List.nodup_singleton k,
        fun a ha b hb h => hk (List.mem_singleton.mp hb ▸ h ▸ ha)⟩⟩

def filterKeys (p : κ → Bool) (m : JsMap κ α) : JsMap κ α :=
  ⟨m.entries.filter fun e => p e.1, m.nodup.sublist (List.filter_sublist.map Prod.fst)⟩

/-- `Map.prototype.delete`. -/
def erase (m : JsMap κ α) (k : κ) : JsMap κ α := m.filterKeys fun key => key ≠ k

@[simp] theorem get?_empty (k : κ) : (empty : JsMap κ α).get? k = none := rfl

omit [DecidableEq κ] in
theorem not_entries_empty_ne : ¬ (empty : JsMap κ α).entries ≠ [] := not_not.mpr rfl

theorem keys_set (m : JsMap κ α) (k : κ) (v : α) :
    (m.set k v).keys = if k ∈ m.keys then m.keys else m.keys ++ [k] :=
  keys_setEntries k v m.entries

@[simp] theorem mem_keys_set {m : JsMap κ α} {k l : κ} {v : α} :
    l ∈ (m.set k v).keys ↔ l = k ∨ l ∈ m.keys := by
  rw [keys_set]
  split
  · rename_i hk
    exact ⟨.inr, fun h => h.elim (fun h => h ▸ hk) id⟩
  · rw [List.mem_append, List.mem_singleton, or_comm]

theorem get?_set (m : JsMap κ α) (k l : κ) (v : α) :
    (m.set k v).get? l = if k = l then some v else m.get? l := by
  obtain ⟨es, hnodup⟩ := m
  simp only [get?, set]
  clear hnodup
  induction es with
  | nil => by_cases h : k = l <;> simp [setEntries, h]
  | cons e es ih =>
    rw [setEntries]
    by_cases he : e.1 = k
    · subst he
      by_cases h : e.1 = l <;> simp [h]
    · by_cases hl : e.1 = l
      · subst hl
        have hk : ¬ k = e.1 := fun h => he h.symm
        simp [he, hk]
      · simp [he, hl, ih]

@[simp] theorem get?_set_self (m : JsMap κ α) (k : κ) (v : α) : (m.set k v).get? k = some v := by
  rw [get?_set, if_pos rfl]

theorem get?_set_of_ne (m : JsMap κ α) {k l : κ} (v : α) (h : k ≠ l) :
    (m.set k v).get? l = m.get? l := by
  rw [get?_set, if_neg h]

theorem get?_eq_some {m : JsMap κ α} {k : κ} {v : α} : m.get? k = some v ↔ (k, v) ∈ m.entries := by
  obtain ⟨es, hnodup⟩ := m
  simp only [get?]
  induction es with
  | nil => simp
  | cons e es ih =>
    obtain ⟨l, w⟩ := e
    rw [List.map_cons, List.nodup_cons] at hnodup
    by_cases hl : l = k
    · subst hl
      rw [List.find?_cons_of_pos (by simp), Option.map_some, Option.some.injEq, List.mem_cons]
      constructor
      · rintro rfl
        exact .inl rfl
      · rintro (h | h)
        · exact (Prod.mk.inj h).2.symm
        · exact absurd (List.mem_map_of_mem h) hnodup.1
    · rw [List.find?_cons_of_neg (by simpa using hl), ih hnodup.2, List.mem_cons]
      constructor
      · exact .inr
      · rintro (h | h)
        · exact absurd (Prod.mk.inj h).1.symm hl
        · exact h

theorem mem_keys {m : JsMap κ α} {k : κ} : k ∈ m.keys ↔ ∃ v, m.get? k = some v := by
  simp only [get?_eq_some, keys, List.mem_map, Prod.exists, exists_and_right, exists_eq_right]

theorem mem_values {m : JsMap κ α} {v : α} : v ∈ m.values ↔ ∃ k, m.get? k = some v := by
  simp only [get?_eq_some, values, List.mem_map, Prod.exists, exists_eq_right]

theorem get?_eq_none {m : JsMap κ α} {k : κ} : m.get? k = none ↔ k ∉ m.keys := by
  rw [mem_keys, Option.eq_none_iff_forall_ne_some, not_exists]

theorem has_eq_true {m : JsMap κ α} {k : κ} : m.has k = true ↔ k ∈ m.keys := by
  rw [mem_keys, has, Option.isSome_iff_exists]

theorem get?_filterKeys (m : JsMap κ α) (p : κ → Bool) (k : κ) :
    (m.filterKeys p).get? k = if p k then m.get? k else none := by
  apply Option.ext
  intro v
  rw [get?_eq_some]
  change (k, v) ∈ m.entries.filter (fun e => p e.1) ↔ _
  rw [List.mem_filter, ← get?_eq_some]
  split
  · rename_i hp
    exact and_iff_left hp
  · rename_i hp
    simp [hp]

theorem get?_erase (m : JsMap κ α) (k l : κ) :
    (m.erase k).get? l = if l = k then none else m.get? l := by
  rw [erase, get?_filterKeys]
  by_cases h : l = k <;> simp [h]

/-- What holds of the entries, and of one that is set, holds of the entries then. -/
theorem forall_set {m : JsMap κ α} {k : κ} {v : α} {P : κ → α → Prop}
    (hm : ∀ l a, m.get? l = some a → P l a) (hv : P k v) :
    ∀ l a, (m.set k v).get? l = some a → P l a := by
  intro l a h
  rw [get?_set] at h
  split at h
  · rename_i heq
    rw [← heq, ← Option.some.inj h]
    exact hv
  · exact hm l a h

/-- Where the old value does not count, a value that is set is one more. -/
theorem exists_values_set {m : JsMap κ α} {k : κ} {v : α} {P : α → Prop}
    (hold : ∀ a, m.get? k = some a → ¬ P a) :
    (∃ a ∈ (m.set k v).values, P a) ↔ (∃ a ∈ m.values, P a) ∨ P v := by
  simp only [mem_values]
  constructor
  · rintro ⟨a, ⟨l, hl⟩, ha⟩
    rw [get?_set] at hl
    split at hl
    · rw [Option.some.inj hl]
      exact .inr ha
    · exact .inl ⟨a, ⟨l, hl⟩, ha⟩
  · rintro (⟨a, ⟨l, hl⟩, ha⟩ | hv)
    · have hne : k ≠ l := by
        rintro rfl
        exact hold a hl ha
      exact ⟨a, ⟨l, by rw [get?_set_of_ne _ _ hne, hl]⟩, ha⟩
    · exact ⟨v, ⟨k, get?_set_self m k v⟩, hv⟩

/-- What fixes the key of a value does not occur twice among the values. -/
theorem nodup_map_values {β : Type*} {m : JsMap κ α} {f : α → β} {g : β → κ}
    (h : ∀ k v, m.get? k = some v → g (f v) = k) : (m.values.map f).Nodup := by
  apply List.Nodup.of_map g
  have hkeys : (m.values.map f).map g = m.keys := by
    rw [values, keys, List.map_map, List.map_map]
    apply List.map_congr_left
    rintro ⟨k, v⟩ he
    exact h k v (get?_eq_some.mpr he)
  rw [hkeys]
  exact m.nodup

theorem entries_set_of_not_mem {m : JsMap κ α} {k : κ} (h : k ∉ m.keys) (v : α) :
    (m.set k v).entries = m.entries ++ [(k, v)] := by
  obtain ⟨es, hnodup⟩ := m
  simp only [keys, set] at h ⊢
  clear hnodup
  induction es with
  | nil => rfl
  | cons e es ih =>
    rw [List.map_cons, List.mem_cons, not_or] at h
    rw [setEntries, if_neg (fun he => h.1 he.symm), ih h.2, List.cons_append]

/-- Sets the entries of a list in turn. -/
def setAll (m : JsMap κ α) (l : List (κ × α)) : JsMap κ α :=
  l.foldl (fun m e => m.set e.1 e.2) m

theorem entries_setAll {m : JsMap κ α} {l : List (κ × α)} (hnodup : (l.map Prod.fst).Nodup)
    (hnew : ∀ e ∈ l, e.1 ∉ m.keys) : (m.setAll l).entries = m.entries ++ l := by
  induction l generalizing m with
  | nil => exact (List.append_nil _).symm
  | cons e l ih =>
    rw [List.map_cons, List.nodup_cons] at hnodup
    have hentries := entries_set_of_not_mem (hnew e (.head _)) e.2
    have hnew' : ∀ a ∈ l, a.1 ∉ (m.set e.1 e.2).keys := by
      intro a ha hmem
      rcases mem_keys_set.mp hmem with hkey | hkey
      · exact hnodup.1 (hkey ▸ List.mem_map_of_mem ha)
      · exact hnew a (.tail _ ha) hkey
    have hrest := ih hnodup.2 hnew'
    rw [hentries, List.append_assoc] at hrest
    exact hrest

/-- Sets records under their ids until an id comes twice. -/
def importAll {ε : Type*} (id : α → κ) (duplicate : κ → ε) (m : JsMap κ α) :
    List κ → List α → JsMap κ α × Except ε Unit
  | _, [] => (m, .ok ())
  | seen, a :: l =>
    if id a ∈ seen then (m, .error (duplicate (id a)))
    else importAll id duplicate (m.set (id a) a) (seen ++ [id a]) l

/-- Records with different ids are all set. -/
theorem importAll_of_nodup {ε : Type*} {id : α → κ} {duplicate : κ → ε} {m : JsMap κ α}
    {seen : List κ} {l : List α} (hnodup : (l.map id).Nodup) (hseen : ∀ a ∈ l, id a ∉ seen) :
    importAll id duplicate m seen l = (m.setAll (l.map fun a => (id a, a)), .ok ()) := by
  induction l generalizing m seen with
  | nil => rfl
  | cons a l ih =>
    rw [List.map_cons, List.nodup_cons] at hnodup
    rw [importAll, if_neg (hseen a (.head _)), ih hnodup.2]
    · rfl
    · intro b hb hmem
      rcases List.mem_append.mp hmem with hmem | hmem
      · exact hseen b (.tail _ hb) hmem
      · rw [List.mem_singleton] at hmem
        exact hnodup.1 (hmem ▸ List.mem_map_of_mem hb)

/-- The values of a map whose keys are their ids give the map again. -/
theorem map_values_of_keyed {id : α → κ} {m : JsMap κ α}
    (hkeyed : ∀ k a, m.get? k = some a → id a = k) :
    (m.values.map fun a => (id a, a)) = m.entries := by
  rw [values, List.map_map]
  conv_rhs => rw [← List.map_id m.entries]
  apply List.map_congr_left
  intro e he
  exact Prod.ext (hkeyed e.1 e.2 (get?_eq_some.mpr he)) rfl

/-- Setting the values of a map under their own keys builds the map again. -/
theorem setAll_values {id : α → κ} {m : JsMap κ α}
    (hkeyed : ∀ k a, m.get? k = some a → id a = k) :
    (empty : JsMap κ α).setAll (m.values.map fun a => (id a, a)) = m := by
  apply JsMap.ext
  rw [map_values_of_keyed hkeyed, entries_setAll m.nodup fun _ _ => List.not_mem_nil]
  rfl

theorem importAll_values {ε : Type*} {id : α → κ} {duplicate : κ → ε} {m : JsMap κ α}
    (hkeyed : ∀ k a, m.get? k = some a → id a = k) :
    importAll id duplicate .empty [] m.values = (m, .ok ()) := by
  have hnodup : (m.values.map id).Nodup :=
    nodup_map_values (g := fun k => k) hkeyed
  rw [importAll_of_nodup hnodup fun _ _ => List.not_mem_nil, setAll_values hkeyed]

/-- An import into an empty map that installs every record, or throws and leaves the map empty. -/
def AllOrNothing {ε : Type*} (id : α → κ) (l : List α) (r : JsMap κ α × Except ε Unit) : Prop :=
  (r.2 = .ok () ∧ r.1.entries = l.map fun a => (id a, a)) ∨ ((∃ e, r.2 = .error e) ∧ r.1 = .empty)

theorem mem_keys_importAll {ε : Type*} {id : α → κ} {duplicate : κ → ε} {m : JsMap κ α}
    {seen : List κ} {l : List α} {k : κ} (hk : k ∈ m.keys) :
    k ∈ (importAll id duplicate m seen l).1.keys := by
  induction l generalizing m seen with
  | nil => exact hk
  | cons a l ih =>
    rw [importAll]
    split
    · exact hk
    · apply ih
      exact mem_keys_set.mpr (.inr hk)

theorem importAll_eq_ok {ε : Type*} {id : α → κ} {duplicate : κ → ε} {m : JsMap κ α}
    {seen : List κ} {l : List α} (h : (importAll id duplicate m seen l).2 = .ok ()) :
    (l.map id).Nodup ∧ ∀ a ∈ l, id a ∉ seen := by
  induction l generalizing m seen with
  | nil => exact ⟨List.nodup_nil, fun _ ha => absurd ha List.not_mem_nil⟩
  | cons a l ih =>
    rw [importAll] at h
    split at h
    · cases h
    · rename_i hseen
      obtain ⟨hnodup, hnew⟩ := ih h
      have hfirst : id a ∉ l.map id := by
        intro hmem
        obtain ⟨b, hb, heq⟩ := List.mem_map.mp hmem
        apply hnew b hb
        rw [heq]
        exact List.mem_append_right _ (.head _)
      refine ⟨List.nodup_cons.mpr ⟨hfirst, hnodup⟩, List.forall_mem_cons.mpr ⟨hseen, ?_⟩⟩
      intro b hb hmem
      exact hnew b hb (List.mem_append_left _ hmem)

/-- An id is only found twice after the first record with it has been set. -/
theorem allOrNothing_importAll {ε : Type*} {id : α → κ} {duplicate : κ → ε} {l : List α} :
    AllOrNothing id l (importAll id duplicate .empty [] l) ↔ (l.map id).Nodup := by
  constructor
  · rintro (⟨hok, -⟩ | ⟨⟨e, he⟩, hempty⟩)
    · exact (importAll_eq_ok hok).1
    · cases l with
      | nil => exact List.nodup_nil
      | cons a l =>
        have hkept : id a ∈ (importAll id duplicate .empty [] (a :: l)).1.keys := by
          rw [importAll, if_neg List.not_mem_nil]
          apply mem_keys_importAll
          exact mem_keys_set.mpr (.inl rfl)
        rw [hempty] at hkept
        exact absurd hkept List.not_mem_nil
  · intro hnodup
    left
    have hkeys : ((l.map fun a => (id a, a)).map Prod.fst).Nodup := by
      rw [List.map_map]
      exact hnodup
    rw [importAll_of_nodup hnodup fun _ _ => List.not_mem_nil]
    exact ⟨rfl, entries_setAll hkeys fun _ _ => List.not_mem_nil⟩

/-- Setting a key adds the new value to a sum over the values and takes the old one away. -/
theorem sum_values_set {M : Type*} [AddCommMonoid M] (f : α → M) (m : JsMap κ α) (k : κ) (v : α) :
    ((m.set k v).values.map f).sum + ((m.get? k).map f).getD 0 = (m.values.map f).sum + f v := by
  obtain ⟨es, hnodup⟩ := m
  simp only [values, set, get?, List.map_map, Option.map_map]
  clear hnodup
  induction es with
  | nil => simp [setEntries]
  | cons e es ih =>
    rw [setEntries]
    by_cases he : e.1 = k
    · simp [he, add_comm, add_left_comm]
    · simp [he, ih, add_assoc]

/-- A sum over the values is the value of a key and the sum without it. -/
theorem sum_values_erase {M : Type*} [AddCommMonoid M] (f : α → M) {m : JsMap κ α} {k : κ} {v : α}
    (h : m.get? k = some v) : f v + ((m.erase k).values.map f).sum = (m.values.map f).sum := by
  have hmem := get?_eq_some.mp h
  have hnodup := m.nodup
  simp only [erase, filterKeys, values]
  generalize m.entries = es at hmem hnodup
  induction es with
  | nil => cases hmem
  | cons e es ih =>
    rw [List.map_cons, List.nodup_cons] at hnodup
    rcases List.mem_cons.mp hmem with rfl | htail
    · -- no other entry has the key
      have hrest : es.filter (fun e => decide (e.1 ≠ k)) = es := by
        apply List.filter_eq_self.mpr
        intro e he
        rw [decide_eq_true_eq]
        intro hkey
        have hkeys : e.1 ∈ es.map Prod.fst := List.mem_map_of_mem he
        exact hnodup.1 (hkey ▸ hkeys)
      rw [List.filter_cons_of_neg (by simp), hrest]
      simp
    · have hne : e.1 ≠ k := by
        intro hkey
        have hkeys : k ∈ es.map Prod.fst := List.mem_map_of_mem htail
        exact hnodup.1 (hkey.symm ▸ hkeys)
      rw [List.filter_cons_of_pos (by simpa using hne)]
      simp only [List.map_cons, List.sum_cons]
      rw [add_left_comm, ih htail hnodup.2]

/-! ## Grouping -/

/-- Groups a list by a key: the first element of a group starts its accumulator, and every one
is added to it. -/
def collect (key : ε → κ) (start : ε → α) (add : α → ε → α) (l : List ε) : JsMap κ α :=
  l.foldl (fun m e => m.set (key e) (add ((m.get? (key e)).getD (start e)) e)) empty

/-- The accumulator of a group. -/
def total (start : ε → α) (add : α → ε → α) (group : List ε) : Option α :=
  group.head?.map fun e => group.foldl add (start e)

variable (key : ε → κ) (start : ε → α) (add : α → ε → α)

theorem total_append_singleton (group : List ε) (e : ε) :
    total start add (group ++ [e]) = some (add ((total start add group).getD (start e)) e) := by
  cases group with
  | nil => rfl
  | cons a group => simp [total]

theorem collect_append_singleton (l : List ε) (e : ε) :
    collect key start add (l ++ [e]) = (collect key start add l).set (key e)
      (add (((collect key start add l).get? (key e)).getD (start e)) e) := by
  rw [collect, List.foldl_append]
  rfl

theorem get?_collect (l : List ε) (k : κ) :
    (collect key start add l).get? k = total start add (l.filter fun e => key e = k) := by
  induction l using List.reverseRecOn with
  | nil => rfl
  | append_singleton l e ih =>
    rw [collect_append_singleton, List.filter_append]
    by_cases hk : key e = k
    · subst hk
      rw [get?_set_self, ih]
      simp [total_append_singleton]
    · rw [get?_set_of_ne _ _ hk, ih]
      simp [hk]

theorem mem_keys_collect {l : List ε} {k : κ} :
    k ∈ (collect key start add l).keys ↔ ∃ e ∈ l, key e = k := by
  rw [← not_iff_not, ← get?_eq_none, get?_collect, total, Option.map_eq_none_iff,
    List.head?_eq_none_iff, List.filter_eq_nil_iff]
  simp

/-- The elements of a list by their keys. -/
def groupBy (l : List ε) : JsMap κ (List ε) := collect key (fun _ => []) (fun g e => g ++ [e]) l

theorem get?_groupBy (l : List ε) (k : κ) :
    (groupBy key l).get? k =
      if (l.filter fun e => key e = k) = [] then none else some (l.filter fun e => key e = k) := by
  rw [groupBy, get?_collect, total]
  generalize (l.filter fun e => key e = k) = group
  have hfold : ∀ g : List ε, group.foldl (fun g e => g ++ [e]) g = g ++ group := by
    induction group with
    | nil => simp
    | cons e es ih => simp [ih]
  cases group with
  | nil => rfl
  | cons e es => simp only [List.head?_cons, Option.map_some, hfold, List.nil_append,
      reduceCtorEq, if_false]

theorem mem_entries_groupBy {l : List ε} {k : κ} {group : List ε} :
    (k, group) ∈ (groupBy key l).entries ↔
      group = (l.filter fun e => key e = k) ∧ group ≠ [] := by
  rw [← get?_eq_some, get?_groupBy]
  split
  · rename_i hnil
    exact ⟨fun h => (nomatch h), fun h => absurd (h.1.trans hnil) h.2⟩
  · rename_i hne
    constructor
    · rintro h
      cases h
      exact ⟨rfl, hne⟩
    · rintro ⟨rfl, -⟩
      rfl

theorem setEntries_append_singleton {k : κ} {es : List (κ × α)} (hk : k ∉ es.map Prod.fst)
    (v w : α) : setEntries k v (es ++ [(k, w)]) = es ++ [(k, v)] := by
  induction es with
  | nil => simp [setEntries]
  | cons e es ih =>
    rw [List.map_cons, List.mem_cons, not_or] at hk
    rw [List.cons_append, setEntries, if_neg fun h => hk.1 h.symm, ih hk.2, List.cons_append]

/-- Elements of the last key go behind those that its group has. -/
theorem entries_groupBy_append_of_last {l : List ε} {init : List (κ × List ε)} {k : κ}
    {group : List ε} (h : (groupBy key l).entries = init ++ [(k, group)]) {es : List ε}
    (hes : ∀ e ∈ es, key e = k) :
    (groupBy key (l ++ es)).entries = init ++ [(k, group ++ es)] := by
  induction es using List.reverseRecOn with
  | nil => simp [h]
  | append_singleton es e ih =>
    have ih := ih fun a ha => hes a (List.mem_append_left _ ha)
    have hk : key e = k := hes e (by simp)
    have hnew : k ∉ init.map Prod.fst := by
      have hnodup := (groupBy key (l ++ es)).nodup
      rw [ih, List.map_append, List.nodup_append] at hnodup
      exact fun hmem => hnodup.2.2 _ hmem k (by simp) rfl
    have hget : (groupBy key (l ++ es)).get? k = some (group ++ es) := by
      rw [get?_eq_some, ih]
      simp
    rw [← List.append_assoc, groupBy, collect_append_singleton, hk]
    show setEntries k _ (groupBy key (l ++ es)).entries = _
    rw [ih, setEntries_append_singleton hnew]
    change init ++ [(k, ((groupBy key (l ++ es)).get? k).getD [] ++ [e])] = _
    rw [hget]
    simp

/-- Elements of a new key are a group of their own, behind the others. -/
theorem entries_groupBy_append_of_new {l es : List ε} {k : κ} (hl : ∀ e ∈ l, key e ≠ k)
    (hes : ∀ e ∈ es, key e = k) (hne : es ≠ []) :
    (groupBy key (l ++ es)).entries = (groupBy key l).entries ++ [(k, es)] := by
  cases es with
  | nil => exact absurd rfl hne
  | cons e es =>
    have hk : key e = k := hes e (.head _)
    have hnew : key e ∉ (groupBy key l).keys := by
      rw [groupBy, mem_keys_collect]
      rintro ⟨a, ha, heq⟩
      exact hl a ha (heq.trans hk)
    have hfirst : (groupBy key (l ++ [e])).entries = (groupBy key l).entries ++ [(k, [e])] := by
      rw [groupBy, collect_append_singleton, ← groupBy, entries_set_of_not_mem hnew,
        get?_eq_none.mpr hnew, hk]
      rfl
    rw [List.append_cons]
    exact entries_groupBy_append_of_last key hfirst fun a ha => hes a (.tail _ ha)

/-- Batches of distinct keys come back as the groups of their concatenation. -/
theorem entries_groupBy_flatMap {β : Type*} {f : β → List ε} {g : β → κ} {batches : List β}
    (hnodup : (batches.map g).Nodup) (hne : ∀ b ∈ batches, f b ≠ [])
    (hkey : ∀ b ∈ batches, ∀ e ∈ f b, key e = g b) :
    (groupBy key (batches.flatMap f)).entries = batches.map fun b => (g b, f b) := by
  induction batches using List.reverseRecOn with
  | nil => rfl
  | append_singleton bs b ih =>
    rw [List.map_append, List.nodup_append] at hnodup
    have ih := ih hnodup.1 (fun a ha => hne a (List.mem_append_left _ ha))
      fun a ha => hkey a (List.mem_append_left _ ha)
    have hold : ∀ e ∈ bs.flatMap f, key e ≠ g b := by
      intro e he heq
      obtain ⟨a, ha, hea⟩ := List.mem_flatMap.mp he
      have hga : key e = g a := hkey a (List.mem_append_left _ ha) e hea
      exact hnodup.2.2 (g a) (List.mem_map_of_mem ha) (g b) (by simp) (hga.symm.trans heq)
    have hb : b ∈ bs ++ [b] := by simp
    rw [List.flatMap_append, List.flatMap_singleton,
      entries_groupBy_append_of_new key hold (hkey b hb) (hne b hb), ih, List.map_append]
    rfl

/-- A sum over the accumulators is the sum over the list, where every addition counts. -/
theorem sum_values_collect {M : Type*} [AddCommGroup M] (f : α → M) (g : ε → M) (l : List ε)
    (hstart : ∀ e, f (start e) = 0)
    (hadd : ∀ pre e, pre ++ [e] <+: l → ∀ acc,
      acc = ((collect key start add pre).get? (key e)).getD (start e) →
        f (add acc e) = f acc + g e) :
    ((collect key start add l).values.map f).sum = (l.map g).sum := by
  induction l using List.reverseRecOn with
  | nil => rfl
  | append_singleton l e ih =>
    have ih := ih fun pre a hpre => hadd pre a (hpre.trans (List.prefix_append l [e]))
    have hset := sum_values_set f (collect key start add l) (key e)
      (add (((collect key start add l).get? (key e)).getD (start e)) e)
    rw [hadd l e List.prefix_rfl _ rfl, ih] at hset
    have hold : f (((collect key start add l).get? (key e)).getD (start e)) =
        (((collect key start add l).get? (key e)).map f).getD 0 := by
      cases (collect key start add l).get? (key e) with
      | none => exact hstart e
      | some acc => rfl
    rw [hold, ← add_assoc, add_right_comm] at hset
    rw [collect_append_singleton, add_right_cancel hset]
    simp

end JsMap

end Attestia.Lib
