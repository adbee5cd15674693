import Attestia.Lib.JsString
import Attestia.Lib.JsonNumber

/-!
# JSON values and their text

The values of JSON and the text that `JSON.stringify` prints for them. A number is the
exact value of its decimal text, so the rounding of binary floating point is not part of
the model. The members of an object stand in property order: array indices ascending, then
the other keys, none of them twice.
-/

namespace Attestia.Lib

inductive Json where
  | null
  | bool (b : Bool)
  | num (q : ℚ)
  | str (s : JsString)
  | arr (elements : List Json)
  | obj (members : List (JsString × Json))

namespace Json

open JsonNumber

/-! ## Keys -/

/-- A key that is the canonical text of an array index. -/
def arrayIndex (key : JsString) : Option ℕ :=
  let n := digitsValue (JsString.toWellFormed key)
  if JsString.units (natText n) = key ∧ n < 2 ^ 32 - 1 then some n else none

/-- The order of two different keys of one object, where it is fixed by the keys. -/
def keyBefore (a b : JsString) : Bool :=
  match arrayIndex a, arrayIndex b with
  | some m, some n => m < n
  | some _, none => true
  | none, some _ => false
  | none, none => a ≠ b

/-- Assigns a property: the value of an existing one is replaced in place. -/
def setMember (k : JsString) (v : Json) : List (JsString × Json) → List (JsString × Json)
  | [] => [(k, v)]
  | m :: ms =>
    if m.1 = k then (k, v) :: ms
    else if keyBefore m.1 k then m :: setMember k v ms
    else (k, v) :: m :: ms

/-- The object built by assigning the entries in order. -/
def ofEntries (entries : List (JsString × Json)) : List (JsString × Json) :=
  entries.foldl (fun ms e => setMember e.1 e.2 ms) []

/-- The own property of an object; no other value has one. -/
def get? (key : JsString) : Json → Option Json
  | obj ms => (ms.find? fun m => m.1 = key).map Prod.snd
  | _ => none

theorem arrayIndex_injective {a b : JsString} {n : ℕ} (ha : arrayIndex a = some n)
    (hb : arrayIndex b = some n) : a = b := by
  simp only [arrayIndex, Option.ite_none_right_eq_some, Option.some.injEq] at ha hb
  rw [← ha.1.1, ← hb.1.1, ha.2, hb.2]

theorem keyBefore_ne {a b : JsString} (h : keyBefore a b = true) : a ≠ b := by
  rintro rfl
  unfold keyBefore at h
  split at h <;> simp_all

/-- A key that is not assigned behind `b` stands before everything behind `b`. -/
theorem keyBefore_trans {a b c : JsString} (hba : keyBefore b a = false) (hab : keyBefore a b = true)
    (hbc : keyBefore b c = true) : keyBefore a c = true := by
  unfold keyBefore at *
  cases ha : arrayIndex a <;> cases hb : arrayIndex b <;> cases hc : arrayIndex c <;> simp_all
  omega

theorem keyBefore_or {a b : JsString} (h : a ≠ b) : keyBefore a b = true ∨ keyBefore b a = true := by
  unfold keyBefore
  cases ha : arrayIndex a with
  | none =>
    cases hb : arrayIndex b with
    | none => exact .inl (decide_eq_true h)
    | some n => exact .inr rfl
  | some m =>
    cases hb : arrayIndex b with
    | none => exact .inl rfl
    | some n =>
      have hmn : m ≠ n := fun e => h (arrayIndex_injective ha (e ▸ hb))
      exact (lt_or_gt_of_ne hmn).imp decide_eq_true decide_eq_true

/-- The members of an object are in property order. -/
def KeysOrdered (ms : List (JsString × Json)) : Prop :=
  (ms.map Prod.fst).Pairwise fun a b => keyBefore a b = true

theorem mem_setMember {k : JsString} {v : Json} {ms : List (JsString × Json)} {m : JsString × Json}
    (h : m ∈ setMember k v ms) : m = (k, v) ∨ m ∈ ms := by
  fun_induction setMember k v ms with
  | case1 => exact .inl (List.mem_singleton.mp h)
  | case2 => exact (List.mem_cons.mp h).imp id (.tail _)
  | case3 _ _ _ _ ih =>
    obtain rfl | h := List.mem_cons.mp h
    · exact .inr (.head _)
    · exact (ih h).imp id (.tail _)
  | case4 => exact List.mem_cons.mp h

theorem KeysOrdered.setMember {ms : List (JsString × Json)} (h : KeysOrdered ms) (k : JsString)
    (v : Json) : KeysOrdered (setMember k v ms) := by
  unfold KeysOrdered at *
  fun_induction Json.setMember k v ms with
  | case1 => simp
  | case2 m ms hk =>
    rw [List.map_cons, List.pairwise_cons] at *
    exact ⟨hk ▸ h.1, h.2⟩
  | case3 m ms hk hb ih =>
    rw [List.map_cons, List.pairwise_cons] at *
    refine ⟨fun x hx => ?_, ih h.2⟩
    obtain ⟨y, hy, rfl⟩ := List.mem_map.mp hx
    obtain rfl | hy := mem_setMember hy
    · exact hb
    · exact h.1 _ (List.mem_map_of_mem hy)
  | case4 m ms hk hb =>
    have hmk : keyBefore m.1 k = false := by simpa using hb
    have hkm : keyBefore k m.1 = true := (keyBefore_or hk).resolve_left hb
    rw [List.map_cons, List.pairwise_cons]
    refine ⟨fun x hx => ?_, h⟩
    rw [List.map_cons, List.pairwise_cons] at h
    obtain rfl | hx := List.mem_cons.mp hx
    · exact hkm
    · exact keyBefore_trans hmk hkm (h.1 x hx)

theorem mem_ofEntries {entries : List (JsString × Json)} {m : JsString × Json}
    (h : m ∈ ofEntries entries) : m ∈ entries := by
  induction entries using List.reverseRecOn with
  | nil => exact h
  | append_singleton es e ih =>
    rw [ofEntries, List.foldl_append] at h
    obtain rfl | h := mem_setMember h
    · exact List.mem_append_right _ (.head _)
    · exact List.mem_append_left _ (ih h)

theorem keysOrdered_ofEntries (entries : List (JsString × Json)) :
    KeysOrdered (ofEntries entries) := by
  induction entries using List.reverseRecOn with
  | nil => exact List.Pairwise.nil
  | append_singleton es e ih =>
    rw [ofEntries, List.foldl_append]
    exact ih.setMember e.1 e.2

theorem setMember_of_forall {k : JsString} {v : Json} {ms : List (JsString × Json)}
    (h : ∀ m ∈ ms, keyBefore m.1 k = true) : setMember k v ms = ms ++ [(k, v)] := by
  induction ms with
  | nil => rfl
  | cons m ms ih =>
    have hm := h m (.head _)
    rw [setMember, if_neg (keyBefore_ne hm), if_pos hm, ih fun x hx => h x (.tail _ hx)]
    rfl

/-- Members that are already in property order are assigned as they stand. -/
theorem ofEntries_of_keysOrdered {ms : List (JsString × Json)} (h : KeysOrdered ms) :
    ofEntries ms = ms := by
  induction ms using List.reverseRecOn with
  | nil => rfl
  | append_singleton ms m ih =>
    rw [KeysOrdered, List.map_append, List.pairwise_append] at h
    rw [ofEntries, List.foldl_append, ← ofEntries, ih h.1]
    refine setMember_of_forall fun x hx => ?_
    exact h.2.2 _ (List.mem_map_of_mem hx) _ (by simp)

/-! ## Well-formed values -/

mutual

/-- Every number has a finite decimal text, so that the value can be printed. -/
def Printable : Json → Prop
  | num q => Decimal q
  | arr es => PrintableElements es
  | obj ms => PrintableMembers ms
  | _ => True

def PrintableElements : List Json → Prop
  | [] => True
  | v :: vs => Printable v ∧ PrintableElements vs

def PrintableMembers : List (JsString × Json) → Prop
  | [] => True
  | m :: ms => Printable m.2 ∧ PrintableMembers ms

end

mutual

/-- Every object has its members in property order. -/
def Ordered : Json → Prop
  | arr es => OrderedElements es
  | obj ms => KeysOrdered ms ∧ OrderedMembers ms
  | _ => True

def OrderedElements : List Json → Prop
  | [] => True
  | v :: vs => Ordered v ∧ OrderedElements vs

def OrderedMembers : List (JsString × Json) → Prop
  | [] => True
  | m :: ms => Ordered m.2 ∧ OrderedMembers ms

end

mutual

/-- Builds the value of a syntax tree, whose objects list their members as they were written. -/
def build : Json → Json
  | arr es => arr (buildElements es)
  | obj ms => obj (ofEntries (buildMembers ms))
  | v => v

def buildElements : List Json → List Json
  | [] => []
  | v :: vs => build v :: buildElements vs

def buildMembers : List (JsString × Json) → List (JsString × Json)
  | [] => []
  | m :: ms => (m.1, build m.2) :: buildMembers ms

end

def WF (v : Json) : Prop := Printable v ∧ Ordered v

theorem printableMembers_iff {ms : List (JsString × Json)} :
    PrintableMembers ms ↔ ∀ m ∈ ms, Printable m.2 := by
  induction ms with
  | nil => simp [PrintableMembers]
  | cons m ms ih => simp [PrintableMembers, ih]

theorem orderedMembers_iff {ms : List (JsString × Json)} :
    OrderedMembers ms ↔ ∀ m ∈ ms, Ordered m.2 := by
  induction ms with
  | nil => simp [OrderedMembers]
  | cons m ms ih => simp [OrderedMembers, ih]

theorem wf_obj_ofEntries {ms : List (JsString × Json)} (h : ∀ m ∈ ms, WF m.2) :
    WF (obj (ofEntries ms)) :=
  ⟨printableMembers_iff.mpr fun m hm => (h m (mem_ofEntries hm)).1, keysOrdered_ofEntries ms,
    orderedMembers_iff.mpr fun m hm => (h m (mem_ofEntries hm)).2⟩

theorem wf_arr {es : List Json} (h : ∀ v ∈ es, WF v) : WF (arr es) := by
  induction es with
  | nil => exact ⟨trivial, trivial⟩
  | cons v es ih =>
    have hv := h v (.head _)
    have hes := ih fun w hw => h w (.tail _ hw)
    exact ⟨⟨hv.1, hes.1⟩, hv.2, hes.2⟩

theorem WF.get? {v w : Json} {key : JsString} (h : WF v) (hw : v.get? key = some w) : WF w := by
  cases v with
  | obj ms =>
    obtain ⟨m, hm, rfl⟩ := Option.map_eq_some_iff.mp hw
    have hmem := List.mem_of_find?_eq_some hm
    exact ⟨printableMembers_iff.mp h.1 m hmem, orderedMembers_iff.mp h.2.2 m hmem⟩
  | _ => cases hw

mutual

theorem build_of_ordered : ∀ {v : Json}, Ordered v → build v = v
  | null, _ | bool _, _ | num _, _ | str _, _ => rfl
  | arr _, h => congrArg arr (buildElements_of_ordered h)
  | obj ms, h => by
    rw [Ordered] at h
    rw [build, buildMembers_of_ordered h.2, ofEntries_of_keysOrdered h.1]

theorem buildElements_of_ordered : ∀ {vs : List Json}, OrderedElements vs → buildElements vs = vs
  | [], _ => rfl
  | v :: vs, h => by
    rw [OrderedElements] at h
    rw [buildElements, build_of_ordered h.1, buildElements_of_ordered h.2]

theorem buildMembers_of_ordered :
    ∀ {ms : List (JsString × Json)}, OrderedMembers ms → buildMembers ms = ms
  | [], _ => rfl
  | (k, v) :: ms, h => by
    rw [OrderedMembers] at h
    rw [buildMembers, build_of_ordered h.1, buildMembers_of_ordered h.2]

end

mutual

theorem wf_build : ∀ {v : Json}, Printable v → WF (build v)
  | null, _ | bool _, _ | str _, _ => ⟨trivial, trivial⟩
  | num _, h => ⟨h, trivial⟩
  | arr _, h => wf_buildElements h
  | obj _, h => wf_obj_ofEntries (wf_buildMembers h)

theorem wf_buildElements : ∀ {vs : List Json}, PrintableElements vs →
    PrintableElements (buildElements vs) ∧ OrderedElements (buildElements vs)
  | [], _ => ⟨trivial, trivial⟩
  | v :: vs, h => by
    rw [PrintableElements] at h
    have hv := wf_build h.1
    have hvs := wf_buildElements h.2
    exact ⟨⟨hv.1, hvs.1⟩, hv.2, hvs.2⟩

theorem wf_buildMembers : ∀ {ms : List (JsString × Json)}, PrintableMembers ms →
    ∀ m ∈ buildMembers ms, WF m.2
  | [], _ => fun _ h => (nomatch h)
  | (k, v) :: ms, h => by
    rw [PrintableMembers] at h
    intro m hm
    obtain rfl | hm := List.mem_cons.mp hm
    · exact wf_build h.1
    · exact wf_buildMembers h.2 m hm

end

/-! ## Text -/

def hexText (u : UInt16) : List Char :=
  [Nat.digitChar (u.toNat / 4096), Nat.digitChar (u.toNat / 256 % 16),
    Nat.digitChar (u.toNat / 16 % 16), Nat.digitChar (u.toNat % 16)]

/-- The letter of a two-character escape. -/
def shortEscape (c : Char) : Option Char :=
  if c = '"' then some '"'
  else if c = '\\' then some '\\'
  else if c.toNat = 0x08 then some 'b'
  else if c.toNat = 0x0C then some 'f'
  else if c = '\n' then some 'n'
  else if c = '\r' then some 'r'
  else if c = '\t' then some 't'
  else none

/-- One code point of `QuoteJSONString`. -/
def quotePoint : JsString.CodePoint → List Char
  | .lone u => '\\' :: 'u' :: hexText u
  | .scalar c =>
    match shortEscape c with
    | some e => ['\\', e]
    | none => if c.toNat < 0x20 then '\\' :: 'u' :: hexText (UInt16.ofNat c.toNat) else [c]

/-- The text between the quotation marks, with the closing one. -/
def quoteBody (s : JsString) : List Char := (JsString.codePoints s).flatMap quotePoint ++ ['"']

mutual

/-- The text that `JSON.stringify` prints. -/
def text : Json → List Char
  | null => ['n', 'u', 'l', 'l']
  | bool true => ['t', 'r', 'u', 'e']
  | bool false => ['f', 'a', 'l', 's', 'e']
  | num q => numberText q
  | str s => '"' :: quoteBody s
  | arr [] => ['[', ']']
  | arr (v :: vs) => '[' :: (text v ++ elementsTail vs)
  | obj [] => ['{', '}']
  | obj (m :: ms) => '{' :: '"' :: (quoteBody m.1 ++ ':' :: (text m.2 ++ membersTail ms))

def elementsTail : List Json → List Char
  | [] => [']']
  | v :: vs => ',' :: (text v ++ elementsTail vs)

def membersTail : List (JsString × Json) → List Char
  | [] => ['}']
  | m :: ms => ',' :: '"' :: (quoteBody m.1 ++ ':' :: (text m.2 ++ membersTail ms))

end

theorem toNat_digitChar {n : ℕ} (h : n < 16) : 0x20 ≤ (Nat.digitChar n).toNat := by
  interval_cases n <;> decide

theorem printable_hexText {u : UInt16} {c : Char} (h : c ∈ hexText u) : 0x20 ≤ c.toNat := by
  have hu := u.toNat_lt
  simp only [hexText, List.mem_cons, List.not_mem_nil, or_false] at h
  obtain rfl | rfl | rfl | rfl := h <;> exact toNat_digitChar (by omega)

theorem printable_shortEscape {c e : Char} (h : shortEscape c = some e) : 0x20 ≤ e.toNat := by
  unfold shortEscape at h
  repeat' split at h
  all_goals cases h
  all_goals decide

theorem printable_quoteBody {s : JsString} {c : Char} (h : c ∈ quoteBody s) : 0x20 ≤ c.toNat := by
  obtain h | h := List.mem_append.mp h
  · obtain ⟨p, -, hp⟩ := List.mem_flatMap.mp h
    cases p with
    | lone u =>
      obtain rfl | hp := List.mem_cons.mp hp
      · decide
      obtain rfl | hp := List.mem_cons.mp hp
      · decide
      exact printable_hexText hp
    | scalar d =>
      rw [quotePoint] at hp
      split at hp
      · rename_i e he
        obtain rfl | hp := List.mem_cons.mp hp
        · decide
        rw [List.mem_singleton.mp hp]
        exact printable_shortEscape he
      · split at hp
        · obtain rfl | hp := List.mem_cons.mp hp
          · decide
          obtain rfl | hp := List.mem_cons.mp hp
          · decide
          exact printable_hexText hp
        · rw [List.mem_singleton.mp hp]
          omega
  · rw [List.mem_singleton.mp h]
    decide

theorem printable_numberText {q : ℚ} {c : Char} (h : c ∈ numberText q) : 0x20 ≤ c.toNat := by
  have hc := isNumberChar_of_mem_numberText h
  simp only [isNumberChar, Char.isDigit, Bool.or_eq_true, Bool.and_eq_true, decide_eq_true_eq,
    UInt32.le_iff_toNat_le] at hc
  obtain ((((⟨h0, -⟩ | rfl) | rfl) | rfl) | rfl) | rfl := hc
  · exact le_trans (by decide) h0
  all_goals decide

mutual

/-- The text of a value has no control character, so no line break. -/
theorem printable_text : ∀ (v : Json) {c : Char}, c ∈ text v → 0x20 ≤ c.toNat
  | null, c, h => by
    simp only [text, List.mem_cons, List.not_mem_nil, or_false] at h
    obtain rfl | rfl | rfl | rfl := h <;> decide
  | bool true, c, h => by
    simp only [text, List.mem_cons, List.not_mem_nil, or_false] at h
    obtain rfl | rfl | rfl | rfl := h <;> decide
  | bool false, c, h => by
    simp only [text, List.mem_cons, List.not_mem_nil, or_false] at h
    obtain rfl | rfl | rfl | rfl | rfl := h <;> decide
  | num q, c, h => printable_numberText h
  | str s, c, h => by
    obtain rfl | h := List.mem_cons.mp h
    · decide
    · exact printable_quoteBody h
  | arr [], c, h => by
    simp only [text, List.mem_cons, List.not_mem_nil, or_false] at h
    obtain rfl | rfl := h <;> decide
  | arr (v :: vs), c, h => by
    simp only [text, List.mem_cons, List.mem_append] at h
    obtain rfl | h | h := h
    · decide
    · exact printable_text v h
    · exact printable_elementsTail vs h
  | obj [], c, h => by
    simp only [text, List.mem_cons, List.not_mem_nil, or_false] at h
    obtain rfl | rfl := h <;> decide
  | obj ((k, v) :: ms), c, h => by
    simp only [text, List.mem_cons, List.mem_append] at h
    obtain rfl | rfl | h | rfl | h | h := h
    · decide
    · decide
    · exact printable_quoteBody h
    · decide
    · exact printable_text v h
    · exact printable_membersTail ms h

theorem printable_elementsTail : ∀ (vs : List Json) {c : Char}, c ∈ elementsTail vs → 0x20 ≤ c.toNat
  | [], c, h => by
    rw [List.mem_singleton.mp h]
    decide
  | v :: vs, c, h => by
    simp only [elementsTail, List.mem_cons, List.mem_append] at h
    obtain rfl | h | h := h
    · decide
    · exact printable_text v h
    · exact printable_elementsTail vs h

theorem printable_membersTail :
    ∀ (ms : List (JsString × Json)) {c : Char}, c ∈ membersTail ms → 0x20 ≤ c.toNat
  | [], c, h => by
    rw [List.mem_singleton.mp h]
    decide
  | (k, v) :: ms, c, h => by
    simp only [membersTail, List.mem_cons, List.mem_append] at h
    obtain rfl | rfl | h | rfl | h | h := h
    · decide
    · decide
    · exact printable_quoteBody h
    · decide
    · exact printable_text v h
    · exact printable_membersTail ms h

end

theorem getLast_membersTail (ms : List (JsString × Json)) :
    (membersTail ms).getLast? = some '}' := by
  induction ms with
  | nil => rfl
  | cons m ms ih =>
    rw [membersTail, ← List.cons_append, List.getLast?_cons, List.getLast?_append,
      List.getLast?_cons, List.getLast?_append, ih]
    rfl

/-- The text of an object stands between braces. -/
theorem text_obj (ms : List (JsString × Json)) :
    ∃ cs, text (obj ms) = '{' :: cs ∧ cs.getLast? = some '}' := by
  cases ms with
  | nil => exact ⟨['}'], rfl, rfl⟩
  | cons m ms =>
    refine ⟨_, rfl, ?_⟩
    rw [← List.cons_append, List.getLast?_append, List.getLast?_cons, List.getLast?_append,
      getLast_membersTail]
    rfl

end Json

end Attestia.Lib
