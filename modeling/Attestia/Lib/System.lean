import Mathlib.Data.List.Basic

/-!
# Labelled systems

A system moves by labels that name everything its environment chooses; a label that is
not enabled leads nowhere. `ReachableVia ok` collects the states of the runs all of whose
steps meet `ok`.
-/

namespace Attestia.Lib

structure System (σ ε : Type*) where
  init : σ → Prop
  next : σ → ε → Option σ

namespace System

variable {σ ε : Type*} (S : System σ ε)

inductive ReachableVia (ok : σ → ε → Prop) : σ → Prop where
  | init {s : σ} : S.init s → ReachableVia ok s
  | step {s s' : σ} {e : ε} : ReachableVia ok s → ok s e → S.next s e = some s' → ReachableVia ok s'

def Reachable (s : σ) : Prop := S.ReachableVia (fun _ _ => True) s

/-- The state after a list of labels. -/
def run (s : σ) : List ε → Option σ
  | [] => some s
  | e :: es => (S.next s e).bind fun s' => run s' es

variable {S}

theorem Reachable.next {s s' : σ} {e : ε} (hs : S.Reachable s) (h : S.next s e = some s') :
    S.Reachable s' := hs.step trivial h

theorem ReachableVia.mono {ok ok' : σ → ε → Prop} {s : σ} (hs : S.ReachableVia ok s)
    (h : ∀ s e, ok s e → ok' s e) : S.ReachableVia ok' s := by
  induction hs with
  | init h => exact .init h
  | step _ hok hnext ih => exact ih.step (h _ _ hok) hnext

theorem ReachableVia.reachable {ok : σ → ε → Prop} {s : σ} (hs : S.ReachableVia ok s) :
    S.Reachable s := hs.mono fun _ _ _ => trivial

/-- A run whose labels meet `ok` in every state. -/
theorem ReachableVia.run {ok : σ → ε → Prop} {s s' : σ} {es : List ε} (hs : S.ReachableVia ok s)
    (hok : ∀ e ∈ es, ∀ s, ok s e) (h : S.run s es = some s') : S.ReachableVia ok s' := by
  induction es generalizing s with
  | nil => exact Option.some.inj h ▸ hs
  | cons e es ih =>
    obtain ⟨t, ht, h⟩ := Option.bind_eq_some_iff.mp h
    exact ih (hs.step (hok e (.head _) s) ht) (fun a ha => hok a (.tail _ ha)) h

theorem Reachable.run {s s' : σ} {es : List ε} (hs : S.Reachable s) (h : S.run s es = some s') :
    S.Reachable s' := by
  induction es generalizing s with
  | nil => exact Option.some.inj h ▸ hs
  | cons e es ih =>
    obtain ⟨t, ht, h⟩ := Option.bind_eq_some_iff.mp h
    exact ih (hs.next ht) h

/-- What holds initially and is kept by every step that meets `ok` holds along such runs. -/
theorem ReachableVia.invariant {ok : σ → ε → Prop} {I : σ → Prop} (hinit : ∀ s, S.init s → I s)
    (hstep : ∀ s e s', I s → ok s e → S.next s e = some s' → I s') {s : σ}
    (hs : S.ReachableVia ok s) : I s := by
  induction hs with
  | init h => exact hinit _ h
  | step _ hok hnext ih => exact hstep _ _ _ ih hok hnext

theorem Reachable.invariant {I : σ → Prop} (hinit : ∀ s, S.init s → I s)
    (hstep : ∀ s e s', I s → S.next s e = some s' → I s') {s : σ} (hs : S.Reachable s) : I s :=
  ReachableVia.invariant hinit (fun s e s' hi _ => hstep s e s' hi) hs

end System

end Attestia.Lib
