import Attestia.Lib.System

/-!
# Noninterference

What a party sees of a run is what it sees of the labels that concern it, taken alone. The states
of the two runs are related; a label that does not concern the party keeps the relation to the state
that stays where it is, and the others keep it side by side.
-/

namespace Attestia.Lib.System

variable {σ ε : Type*}

/-- A relation between the states of a run and those of the run of the labels that concern a party.
-/
structure Unwinds (S : System σ ε) (ok : ε → Prop) (concerns : ε → Bool) (R : σ → σ → Prop) :
    Prop where
  seen : ∀ {s t s' e}, R s t → ok e → concerns e = true → S.next s e = some s' →
    ∃ t', S.next t e = some t' ∧ R s' t'
  unseen : ∀ {s t s' e}, R s t → ok e → concerns e = false → S.next s e = some s' → R s' t

variable {S : System σ ε} {ok : ε → Prop} {concerns : ε → Bool} {R : σ → σ → Prop}

theorem Unwinds.run_filter (h : S.Unwinds ok concerns R) {s t s' : σ} {es : List ε} (hR : R s t)
    (hok : ∀ e ∈ es, ok e) (hrun : S.run s es = some s') :
    ∃ t', S.run t (es.filter concerns) = some t' ∧ R s' t' := by
  -- the state of the run moves on, that of the filtered run waits for the next label of the party
  induction es generalizing s t with
  | nil =>
    obtain rfl := Option.some.inj hrun
    exact ⟨t, rfl, hR⟩
  | cons e es ih =>
    obtain ⟨u, hnext, hrun⟩ := Option.bind_eq_some_iff.mp hrun
    have hlater : ∀ a ∈ es, ok a := fun a ha => hok a (.tail _ ha)
    cases hconcerns : concerns e with
    | false =>
      rw [List.filter_cons_of_neg (by rw [hconcerns]; exact Bool.false_ne_true)]
      exact ih (h.unseen hR (hok e (.head _)) hconcerns hnext) hlater hrun
    | true =>
      rw [List.filter_cons_of_pos hconcerns]
      obtain ⟨v, hv, hR'⟩ := h.seen hR (hok e (.head _)) hconcerns hnext
      obtain ⟨t', ht', hR''⟩ := ih hR' hlater hrun
      exact ⟨t', Option.bind_eq_some_iff.mpr ⟨v, hv, ht'⟩, hR''⟩

end Attestia.Lib.System
