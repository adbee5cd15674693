import Mathlib.Algebra.Order.Ring.Nat
import Mathlib.Data.List.Nodup

/-!
# Paging by the last element seen

A list is handed out in pages of `L` elements. A page that is not the last is followed by the first
elements of those that come after its last one, or by the first page again where that element is not
`usable` as a mark. The pages are the list exactly where each edge of two pages parts it.
-/

namespace Attestia.Lib.Paging

variable {α : Type*}

/-- The `k`th stretch of `L` elements. -/
def chunk (L k : ℕ) (items : List α) : List α := (items.drop (k * L)).take L

theorem flatMap_chunk (L : ℕ) (items : List α) (n : ℕ) :
    (List.range n).flatMap (fun k => chunk L k items) = items.take (n * L) := by
  induction n with
  | zero =>
    rw [Nat.zero_mul, List.take_zero]
    rfl
  | succ n ih =>
    rw [List.range_succ, List.flatMap_append, ih, List.flatMap_singleton, Nat.succ_mul,
      List.take_add]
    rfl

/-- Full pieces and what remains after them can only be cut where the list has them. -/
theorem drop_eq_flatMap {L n : ℕ} {items : List α} {d : ℕ → List α}
    (hfull : ∀ k < n, (d k).length = L) (h : (List.range (n + 1)).flatMap d = items) {k : ℕ}
    (hk : k ≤ n) :
    items.drop (k * L) = (List.range' k (n + 1 - k)).flatMap d := by
  induction k with
  | zero => rw [Nat.zero_mul, List.drop_zero, ← h, List.range_eq_range', Nat.sub_zero]
  | succ k ih =>
    have hcount : n + 1 - k = n + 1 - (k + 1) + 1 := by omega
    rw [Nat.succ_mul, ← List.drop_drop, ih (by omega), hcount, List.range'_succ, List.flatMap_cons,
      ← hfull k (by omega), List.drop_left]

theorem eq_chunk {L n : ℕ} {items : List α} {d : ℕ → List α} (hfull : ∀ k < n, (d k).length = L)
    (hlast : (d n).length ≤ L) (h : (List.range (n + 1)).flatMap d = items) {k : ℕ} (hk : k ≤ n) :
    d k = chunk L k items := by
  rw [chunk, drop_eq_flatMap hfull h hk]
  rcases Nat.lt_or_eq_of_le hk with hk | rfl
  · have hcount : n + 1 - k = n - k + 1 := by omega
    rw [hcount, List.range'_succ, List.flatMap_cons, ← hfull k hk, List.take_left]
  · rw [Nat.add_sub_cancel_left, List.range'_one, List.flatMap_singleton,
      List.take_of_length_le hlast]

/-- In a list without repetition, what stands before a stretch is seen in its first elements. -/
theorem eq_nil_of_take_append {L : ℕ} (hL : 1 ≤ L) {early late : List α} (hlate : late ≠ [])
    (hnodup : (early ++ late).Nodup) (h : (early ++ late).take L = late.take L) : early = [] := by
  obtain ⟨L, rfl⟩ := Nat.exists_eq_add_of_le' hL
  cases early with
  | nil => rfl
  | cons x early =>
    cases late with
    | nil => exact absurd rfl hlate
    | cons y late =>
      rw [List.cons_append, List.take_succ_cons, List.take_succ_cons] at h
      have hxy : x = y := (List.cons.inj h).1
      rw [List.cons_append, List.nodup_cons, hxy] at hnodup
      exact absurd (List.mem_append_right _ List.mem_cons_self) hnodup.1

/-! ## The walk -/

variable (r : α → α → Prop) [DecidableRel r] (usable : α → Prop) [DecidablePred usable] (L : ℕ)
  (items : List α)

/-- What remains after an element. -/
def restAfter (e : α) : List α :=
  if usable e then items.filter fun y => r e y else items

/-- What page `k` takes its elements from. -/
def window : ℕ → List α
  | 0 => items
  | k + 1 =>
    match ((window k).take L).getLast? with
    | some e => restAfter r usable items e
    | none => []

/-- The pages end, and together they are the list. -/
def VisitsOnce : Prop :=
  ∃ n, (∀ k < n, L < (window r usable L items k).length) ∧
    (window r usable L items n).length ≤ L ∧
    (List.range (n + 1)).flatMap (fun k => (window r usable L items k).take L) = items

/-- An element that what stands before it does not come after, and all that follows does. -/
structure Parts (before : List α) (e : α) (after : List α) : Prop where
  usable : usable e
  before : ∀ y ∈ before, ¬ r e y
  after : ∀ y ∈ after, r e y

/-- Every edge between two pages parts the list. -/
def EdgesPart : Prop :=
  ∀ before e after, items = before ++ e :: after → L ∣ before.length + 1 → after ≠ [] →
    Parts r usable before e after

variable {r usable L items}

/-- The edges of pages are at the end of full stretches. -/
theorem getLast?_chunk {before after : List α} {e : α} {k : ℕ}
    (hlength : before.length + 1 = (k + 1) * L) (hL : 1 ≤ L) :
    (chunk L k (before ++ e :: after)).getLast? = some e := by
  have hsplit : before ++ e :: after = (before ++ [e]) ++ after := by
    rw [List.append_assoc, List.singleton_append]
  have hlen : (before ++ [e]).length = k * L + L := by
    rw [List.length_append, List.length_singleton, hlength, Nat.succ_mul]
  have hdrop : (before ++ [e]).drop (k * L) ≠ [] := by
    intro h
    have := List.drop_eq_nil_iff.mp h
    omega
  rw [chunk, hsplit, List.drop_append_of_le_length (by omega), List.take_append_of_le_length,
    List.take_of_length_le, List.getLast?_drop, if_neg (by omega), List.getLast?_concat]
  · rw [List.length_drop]
    omega
  · rw [List.length_drop]
    omega

theorem drop_edge {before after : List α} {e : α} {n : ℕ} (hlength : before.length + 1 = n) :
    (before ++ e :: after).drop n = after := by
  have hsplit : before ++ e :: after = (before ++ [e]) ++ after := by
    rw [List.append_assoc, List.singleton_append]
  rw [hsplit, List.drop_left' (by rw [List.length_append, List.length_singleton, hlength])]

theorem window_succ {k : ℕ} {e : α} (h : ((window r usable L items k).take L).getLast? = some e) :
    window r usable L items (k + 1) = restAfter r usable items e := by
  rw [window, h]

theorem exists_edge {n : ℕ} (hn : 1 ≤ n) (h : n < items.length) :
    ∃ before e, items = before ++ e :: items.drop n ∧ before.length + 1 = n := by
  have hi : n - 1 < items.length := by omega
  have hdrop : items.drop (n - 1) = items[n - 1] :: items.drop n := by
    rw [List.drop_eq_getElem_cons hi, Nat.sub_add_cancel hn]
  refine ⟨items.take (n - 1), items[n - 1], ?_, ?_⟩
  · rw [← hdrop, List.take_append_drop]
  · rw [List.length_take]
    omega

theorem restAfter_of_parts [Std.Irrefl r] {before after : List α} {e : α}
    (h : Parts r usable before e after) : restAfter r usable (before ++ e :: after) e = after := by
  have hbefore : (before ++ [e]).filter (fun y => r e y) = [] := by
    apply List.filter_eq_nil_iff.mpr
    intro y hy
    rw [decide_eq_true_iff]
    rcases List.mem_append.mp hy with hy | hy
    · exact h.before y hy
    · rw [List.mem_singleton.mp hy]
      exact Std.Irrefl.irrefl e
  have hafter : after.filter (fun y => r e y) = after :=
    List.filter_eq_self.mpr fun y hy => decide_eq_true (h.after y hy)
  have hsplit : before ++ e :: after = (before ++ [e]) ++ after := by
    rw [List.append_assoc, List.singleton_append]
  rw [restAfter, if_pos h.usable, hsplit, List.filter_append, hbefore, hafter, List.nil_append]

/-- Where the edges part the list, a window is what the pages before it have left. -/
theorem window_eq_drop [Std.Irrefl r] (hL : 1 ≤ L) (h : EdgesPart r usable L items) {k : ℕ}
    (hk : k = 0 ∨ k * L < items.length) : window r usable L items k = items.drop (k * L) := by
  induction k with
  | zero => rw [window, Nat.zero_mul, List.drop_zero]
  | succ k ih =>
    have hlt : (k + 1) * L < items.length := hk.resolve_left (Nat.succ_ne_zero k)
    have hsucc : (k + 1) * L = k * L + L := Nat.succ_mul k L
    obtain ⟨before, e, hitems, hlength⟩ := exists_edge (n := (k + 1) * L) (by omega) hlt
    have hlast : ((window r usable L items k).take L).getLast? = some e := by
      rw [ih (by omega), ← chunk, hitems]
      exact getLast?_chunk hlength hL
    have hparts := h before e _ hitems (hlength ▸ Nat.dvd_mul_left L (k + 1))
      (List.drop_eq_nil_iff.not.mpr (by omega))
    rw [window_succ hlast]
    conv_lhs => rw [hitems]
    exact restAfter_of_parts hparts

theorem visitsOnce_of_edgesPart [Std.Irrefl r] (hL : 1 ≤ L) (h : EdgesPart r usable L items) :
    VisitsOnce r usable L items := by
  let n := (items.length - 1) / L
  have hn : n * L ≤ items.length - 1 := Nat.div_mul_le_self _ _
  have hlast : items.length - 1 < n * L + L := Nat.lt_div_mul_add hL
  -- page `n` is the last, and no page before it is
  have hwindow : ∀ k ≤ n, window r usable L items k = items.drop (k * L) := by
    intro k hk
    apply window_eq_drop hL h
    rcases Nat.eq_zero_or_pos k with rfl | hpos
    · exact .inl rfl
    · have hkn : k * L ≤ n * L := Nat.mul_le_mul_right L hk
      have hL' : L ≤ k * L := Nat.le_mul_of_pos_left L hpos
      right
      omega
  refine ⟨n, ?_, ?_, ?_⟩
  · intro k hk
    have hkn : (k + 1) * L ≤ n * L := Nat.mul_le_mul_right L hk
    rw [Nat.succ_mul] at hkn
    rw [hwindow k hk.le, List.length_drop]
    omega
  · rw [hwindow n le_rfl, List.length_drop]
    omega
  · have hpages : (List.range (n + 1)).flatMap (fun k => (window r usable L items k).take L) =
        (List.range (n + 1)).flatMap (fun k => chunk L k items) := by
      apply List.flatMap_congr
      intro k hk
      rw [hwindow k (Nat.le_of_lt_succ (List.mem_range.mp hk)), chunk]
    rw [hpages, flatMap_chunk, List.take_of_length_le]
    rw [Nat.succ_mul]
    omega

/-! ## What a walk that visits everything once has seen -/

section walk

variable {n : ℕ} (hmore : ∀ k < n, L < (window r usable L items k).length)
  (hend : (window r usable L items n).length ≤ L)
  (hpages : (List.range (n + 1)).flatMap (fun k => (window r usable L items k).take L) = items)

include hmore hend hpages

theorem page_eq_chunk {k : ℕ} (hk : k ≤ n) :
    (window r usable L items k).take L = chunk L k items := by
  apply eq_chunk (d := fun k => (window r usable L items k).take L) _ _ hpages hk
  · intro k hk
    exact List.length_take_of_le (hmore k hk).le
  · rw [List.length_take]
    omega

theorem usable_edge (hL : 1 ≤ L) (hnodup : items.Nodup) {k : ℕ} (hk : k < n) {e : α}
    (he : (chunk L k items).getLast? = some e) (hrest : items.drop ((k + 1) * L) ≠ []) :
    usable e := by
  by_contra hunusable
  rw [← page_eq_chunk hmore hend hpages hk.le] at he
  have hnext := page_eq_chunk hmore hend hpages (Nat.succ_le_of_lt hk)
  rw [window_succ he, restAfter, if_neg hunusable, chunk] at hnext
  -- the walk has started again, so the next page is the first one
  have hsplit := List.take_append_drop ((k + 1) * L) items
  have hnil := eq_nil_of_take_append hL hrest (hsplit ▸ hnodup) (by rw [hsplit]; exact hnext)
  rcases List.take_eq_nil_iff.mp hnil with hzero | hitems
  · rw [Nat.mul_eq_zero] at hzero
    omega
  · rw [hitems, List.drop_nil] at hrest
    exact hrest rfl

theorem edge_before_next (hL : 1 ≤ L) (hnodup : items.Nodup) {k : ℕ} (hk : k < n) {e : α}
    (he : (chunk L k items).getLast? = some e) {y : α} (hy : y ∈ chunk L (k + 1) items) :
    r e y := by
  have hrest : items.drop ((k + 1) * L) ≠ [] := List.ne_nil_of_mem (List.mem_of_mem_take hy)
  have husable := usable_edge hmore hend hpages hL hnodup hk he hrest
  rw [← page_eq_chunk hmore hend hpages hk.le] at he
  rw [← page_eq_chunk hmore hend hpages (Nat.succ_le_of_lt hk), window_succ he, restAfter,
    if_pos husable] at hy
  exact of_decide_eq_true (List.mem_filter.mp (List.mem_of_mem_take hy)).2

/-- The edges lie one after the other, so an edge is before all that the later pages hold. -/
theorem edge_before_rest [IsTrans α r] (hL : 1 ≤ L) (hnodup : items.Nodup) {k : ℕ} (hk : k < n)
    {e : α} (he : (chunk L k items).getLast? = some e) {m : ℕ} (hm : k + 1 ≤ m) (hmn : m ≤ n)
    {y : α} (hy : y ∈ chunk L m items) : r e y := by
  induction m, hm using Nat.le_induction generalizing y with
  | base => exact edge_before_next hmore hend hpages hL hnodup hk he hy
  | succ m hm ih =>
    have hfull : (chunk L m items).length = L := by
      rw [← page_eq_chunk hmore hend hpages (by omega)]
      exact List.length_take_of_le (hmore m hmn).le
    have hne : chunk L m items ≠ [] := List.ne_nil_of_length_pos (by omega)
    have hedge : r e ((chunk L m items).getLast hne) := ih (by omega) (List.getLast_mem hne)
    exact trans_of r hedge (edge_before_next hmore hend hpages hL hnodup hmn
      (List.getLast?_eq_some_getLast hne) hy)

omit hend in
theorem drop_eq_pages {k : ℕ} (hk : k ≤ n) : items.drop (k * L) =
    (List.range' k (n + 1 - k)).flatMap fun k => (window r usable L items k).take L :=
  drop_eq_flatMap (fun k hk => List.length_take_of_le (hmore k hk).le) hpages hk

/-- A page that something follows is not the last. -/
theorem lt_of_rest {k : ℕ} (hrest : items.drop ((k + 1) * L) ≠ []) : k < n := by
  have hlast : items.drop (n * L) = (window r usable L items n).take L := by
    rw [drop_eq_pages hmore hpages le_rfl, Nat.add_sub_cancel_left, List.range'_one,
      List.flatMap_singleton]
  have hcount := congrArg List.length hlast
  have hpos := List.length_pos_of_ne_nil hrest
  rw [List.length_drop] at hpos
  rw [List.length_drop, List.length_take] at hcount
  have hlt : (k + 1) * L < (n + 1) * L := by
    rw [Nat.succ_mul n]
    omega
  exact Nat.lt_of_succ_lt_succ (Nat.lt_of_mul_lt_mul_right hlt)

theorem edge_before_drop [IsTrans α r] (hL : 1 ≤ L) (hnodup : items.Nodup) {k : ℕ} (hk : k < n)
    {e : α} (he : (chunk L k items).getLast? = some e) {y : α}
    (hy : y ∈ items.drop ((k + 1) * L)) : r e y := by
  rw [drop_eq_pages hmore hpages hk] at hy
  obtain ⟨m, hm, hy⟩ := List.mem_flatMap.mp hy
  rw [List.mem_range'_1] at hm
  rw [page_eq_chunk hmore hend hpages (by omega)] at hy
  exact edge_before_rest hmore hend hpages hL hnodup hk he hm.1 (by omega) hy

theorem edge_parts [IsTrans α r] (hL : 1 ≤ L) (hnodup : items.Nodup) {before after : List α}
    {e : α} (hitems : items = before ++ e :: after) {k : ℕ}
    (hlength : before.length + 1 = (k + 1) * L) (hafter : after ≠ []) :
    Parts r usable before e after := by
  have hdrop : items.drop ((k + 1) * L) = after := by rw [hitems, drop_edge hlength]
  have hk : k < n := lt_of_rest hmore hend hpages (hdrop ▸ hafter)
  have he : (chunk L k items).getLast? = some e := hitems ▸ getLast?_chunk hlength hL
  have husable := usable_edge hmore hend hpages hL hnodup hk he (hdrop ▸ hafter)
  have hlater : ∀ y ∈ after, r e y := fun y hy =>
    edge_before_drop hmore hend hpages hL hnodup hk he (hdrop ▸ hy)
  refine ⟨husable, ?_, hlater⟩
  -- an earlier element that is kept would head the next page
  have hnext := page_eq_chunk hmore hend hpages (Nat.succ_le_of_lt hk)
  rw [← page_eq_chunk hmore hend hpages hk.le] at he
  have hkept : after.filter (fun y => r e y) = after :=
    List.filter_eq_self.mpr fun y hy => decide_eq_true (hlater y hy)
  have hsplit : items = (before ++ [e]) ++ after := by
    rw [hitems, List.append_assoc, List.singleton_append]
  rw [window_succ he, restAfter, if_pos husable, chunk, hdrop, hsplit, List.filter_append, hkept]
    at hnext
  have hdistinct : ((before ++ [e]).filter (fun y => r e y) ++ after).Nodup :=
    (hsplit ▸ hnodup).sublist (List.filter_sublist.append_right after)
  have hnil := eq_nil_of_take_append hL hafter hdistinct hnext
  intro y hy hr
  exact List.filter_eq_nil_iff.mp hnil y (List.mem_append_left _ hy) (decide_eq_true hr)

end walk

theorem visitsOnce_iff [Std.Irrefl r] [IsTrans α r] (hL : 1 ≤ L) (hnodup : items.Nodup) :
    VisitsOnce r usable L items ↔ EdgesPart r usable L items := by
  refine ⟨?_, visitsOnce_of_edgesPart hL⟩
  rintro ⟨n, hmore, hend, hpages⟩ before e after hitems hdvd hafter
  obtain ⟨k, hk⟩ := hdvd
  cases k with
  | zero => omega
  | succ k =>
    rw [Nat.mul_comm] at hk
    exact edge_parts hmore hend hpages hL hnodup hitems hk hafter

end Attestia.Lib.Paging
