import Mathlib.Data.List.Forall2
import Mathlib.Data.List.Induction
import Mathlib.Data.List.Basic

/-!
# Hash chains

Entries that each carry the hash before them and the hash made of it and their content.
Where the hash is collision free and never the genesis value, the last hash fixes the
content of the whole chain.
-/

namespace Attestia.Lib.HashChain

variable {α δ : Type*}

structure Entry (α δ : Type*) where
  content : α
  previous : δ
  hash : δ

/-- The entries follow each other, the first one follows `g`. -/
def Linked (link : α → δ → δ) : δ → List (Entry α δ) → Prop
  | _, [] => True
  | g, e :: es => e.previous = g ∧ e.hash = link e.content e.previous ∧ Linked link e.hash es

/-- The hash that the next entry follows. -/
def last (g : δ) (es : List (Entry α δ)) : δ := (es.getLast?.map Entry.hash).getD g

variable {link : α → δ → δ}

theorem last_append_singleton (g : δ) (es : List (Entry α δ)) (e : Entry α δ) :
    last g (es ++ [e]) = e.hash := by
  rw [last, List.getLast?_concat, Option.map_some, Option.getD_some]

theorem last_cons (g : δ) (e : Entry α δ) (es : List (Entry α δ)) :
    last g (e :: es) = last e.hash es := by
  rw [last, last, List.getLast?_cons]
  cases es.getLast? <;> rfl

theorem linked_append {g : δ} {as bs : List (Entry α δ)} :
    Linked link g (as ++ bs) ↔ Linked link g as ∧ Linked link (last g as) bs := by
  induction as generalizing g with
  | nil => simp [Linked, last]
  | cons a as ih => rw [List.cons_append, Linked, Linked, ih, last_cons, and_assoc, and_assoc]

/-- Chains with the same last hash agree entry by entry, from the last one back to genesis. -/
theorem forall₂_of_last_eq {same : α → α → Prop} {g : δ} {as bs : List (Entry α δ)}
    (hinj : ∀ a ∈ as, ∀ b ∈ bs, link a.content a.previous = link b.content b.previous →
      same a.content b.content ∧ a.previous = b.previous)
    (hga : ∀ a ∈ as, link a.content a.previous ≠ g)
    (hgb : ∀ b ∈ bs, link b.content b.previous ≠ g)
    (ha : Linked link g as) (hb : Linked link g bs) (hlast : last g as = last g bs) :
    List.Forall₂ (fun a b => same a.content b.content) as bs := by
  induction as using List.reverseRecOn generalizing bs with
  | nil =>
    obtain rfl | ⟨bs, b, rfl⟩ := List.eq_nil_or_concat' bs
    · exact .nil
    · rw [last_append_singleton] at hlast
      have hbl := (linked_append.mp hb).2.2.1
      exact absurd (hbl.symm.trans hlast.symm) (hgb b (by simp))
  | append_singleton as a ih =>
    have hal := (linked_append.mp ha).2
    obtain rfl | ⟨bs, b, rfl⟩ := List.eq_nil_or_concat' bs
    · rw [last_append_singleton] at hlast
      exact absurd (hal.2.1.symm.trans hlast) (hga a (by simp))
    · have hbl := (linked_append.mp hb).2
      rw [last_append_singleton, last_append_singleton, hal.2.1, hbl.2.1] at hlast
      obtain ⟨hsame, hprev⟩ := hinj a (by simp) b (by simp) hlast
      rw [hal.1, hbl.1] at hprev
      refine List.rel_append (ih ?_ ?_ ?_ (linked_append.mp ha).1 (linked_append.mp hb).1 hprev)
        (.cons hsame .nil)
      · exact fun a ha b hb => hinj a (List.mem_append_left _ ha) b (List.mem_append_left _ hb)
      · exact fun a ha => hga a (List.mem_append_left _ ha)
      · exact fun b hb => hgb b (List.mem_append_left _ hb)

/-! ## Chains without records -/

/-- What is linked along a chain: each content with the hash before it. -/
def links (step : δ → α → δ) : δ → List α → List (α × δ)
  | _, [] => []
  | g, a :: as => (a, g) :: links step (step g a) as

/-- Chains of one length and one last hash agree content by content. -/
theorem forall₂_of_foldl_eq {step : δ → α → δ} {same : α → α → Prop} {g g' : δ} {as bs : List α}
    (hlen : as.length = bs.length)
    (hinj : ∀ x ∈ links step g as, ∀ y ∈ links step g' bs, step x.2 x.1 = step y.2 y.1 →
      same x.1 y.1 ∧ x.2 = y.2)
    (h : as.foldl step g = bs.foldl step g') : g = g' ∧ List.Forall₂ same as bs := by
  induction as generalizing g g' bs with
  | nil =>
    obtain rfl := List.length_eq_zero_iff.mp hlen.symm
    exact ⟨h, .nil⟩
  | cons a as ih =>
    obtain ⟨b, bs, rfl⟩ := List.exists_cons_of_length_eq_add_one hlen.symm
    obtain ⟨hg, hrest⟩ := ih (Nat.succ.inj hlen)
      (fun x hx y hy => hinj x (.tail _ hx) y (.tail _ hy)) h
    obtain ⟨hsame, hprevious⟩ := hinj _ (.head _) _ (.head _) hg
    exact ⟨hprevious, .cons hsame hrest⟩

end Attestia.Lib.HashChain
