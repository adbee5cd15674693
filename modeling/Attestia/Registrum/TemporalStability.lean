import Attestia.Registrum.Frontier
import Attestia.Registrum.Parity
import Attestia.Registrum.Replay
import Attestia.Registrum.RunInvariant

/-!
# Temporal stability

A registrar that is restored from a snapshot knows one version of each id. Two registrars
whose latest versions agree answer every call alike, and their snapshots agree.
-/

namespace Attestia.Registrum

open Lib JsonNumber

/-- The rules of the engine read the registered ids as a set. -/
def Engine.OrderInsensitive : Engine → Prop
  | .legacy invariants => insensitive invariants
  | .registry _ => True
  | .dual _ invariants => insensitive invariants
where
  insensitive (invariants : List Invariant) : Prop :=
    ∀ i ∈ invariants, ∀ (t : Transition) (ids ids' : List StateID) (n : ℤ), ids.Perm ids' →
      i.predicate (.registration t ids n) = i.predicate (.registration t ids' n)

namespace Registrar

/-! ## Registrars that match -/

/-- Two versions of an id with the same index. -/
def SameVersion (v w : RegisteredState) : Prop := w.id = v.id ∧ w.orderIndex = v.orderIndex

/-- Two registrars whose latest versions agree. -/
structure Matches (r q : Registrar) : Prop where
  left : r.Ordered
  right : q.Ordered
  engine : q.engine = r.engine
  cursor : q.currentOrderIndex = r.currentOrderIndex
  latest (id : StateID) : Option.Rel SameVersion (r.latestById.get? id) (q.latestById.get? id)
  parents : q.parentOf = r.parentOf

section agreement

variable {r q : Registrar}

theorem Matches.mem_keys (h : Matches r q) (id : StateID) :
    id ∈ q.latestById.keys ↔ id ∈ r.latestById.keys := by
  have hlatest := h.latest id
  rw [JsMap.mem_keys, JsMap.mem_keys]
  generalize r.latestById.get? id = v at *
  generalize q.latestById.get? id = w at *
  cases hlatest <;> simp

theorem Matches.keys (h : Matches r q) : r.latestById.keys.Perm q.latestById.keys := by
  apply (List.perm_ext_iff_of_nodup r.latestById.nodup q.latestById.nodup).mpr
  intro id
  exact (h.mem_keys id).symm

theorem Matches.withStatus (h : Matches r q) (s s' : Option ParityStatus) :
    Matches (r.withStatus s) (q.withStatus s') where
  left := h.left.withStatus s
  right := h.right.withStatus s'
  engine := h.engine
  cursor := h.cursor
  latest := h.latest
  parents := by rw [parentOf_withStatus, parentOf_withStatus, h.parents]

theorem Matches.appended (h : Matches r q) (hlt : r.currentOrderIndex < safeBound)
    (t : Transition) : Matches (r.appended t) (q.appended t) where
  left := h.left.appended hlt t
  right := h.right.appended (by rw [h.cursor]; exact hlt) t
  engine := h.engine
  cursor := by
    change roundDouble (q.currentOrderIndex + 1) = roundDouble (r.currentOrderIndex + 1)
    rw [h.cursor]
  latest id := by
    rw [get?_latest_appended, get?_latest_appended]
    split
    · exact .some ⟨rfl, h.cursor⟩
    · exact h.latest id
  parents := by
    funext id
    rw [h.left.parentOf_appended hlt, h.right.parentOf_appended (by rw [h.cursor]; exact hlt),
      h.parents]

/-! ## Their decisions -/

theorem Matches.evaluateRegistryRegistration (h : Matches r q)
    (registry : CompiledInvariantRegistry) (t : Transition) :
    q.evaluateRegistryRegistration registry t = r.evaluateRegistryRegistration registry t := by
  have hcontains : q.latestById.has = r.latestById.has := by
    funext id
    rw [Bool.eq_iff_iff, JsMap.has_eq_true, JsMap.has_eq_true, h.mem_keys]
  have hcontext : q.buildEvaluationContext t = r.buildEvaluationContext t := by
    rw [buildEvaluationContext, buildEvaluationContext, h.cursor]
    congr 1
  have hoperands : q.registrationOperands t = r.registrationOperands t := by
    rw [registrationOperands, registrationOperands, h.cursor]
  rw [Registrar.evaluateRegistryRegistration, Registrar.evaluateRegistryRegistration, hcontext,
    hoperands]
  simp only [buildRegistrationOutcome, h.cursor]

theorem Matches.evaluateLegacyRegistration (h : Matches r q) {invariants : List Invariant}
    (hinsensitive : Engine.OrderInsensitive.insensitive invariants) (t : Transition) :
    q.evaluateLegacyRegistration invariants t = r.evaluateLegacyRegistration invariants t := by
  have hviolated : (invariants.filter fun i => !i.predicate (q.legacyInput t i)) =
      invariants.filter fun i => !i.predicate (r.legacyInput t i) := by
    apply List.filter_congr
    intro i hi
    rw [legacyInput, legacyInput]
    cases i.scope with
    | state => rfl
    | transition => rfl
    | registration =>
      dsimp only
      rw [h.cursor, hinsensitive i hi t _ _ _ h.keys]
  have hoperands : q.registrationOperands t = r.registrationOperands t := by
    rw [registrationOperands, registrationOperands, h.cursor]
  rw [Registrar.evaluateLegacyRegistration, Registrar.evaluateLegacyRegistration, hviolated,
    hoperands]
  simp only [buildRegistrationOutcome, h.cursor]

theorem Matches.decision (h : Matches r q) (hengine : r.engine.OrderInsensitive) (t : Transition) :
    q.decision t = r.decision t := by
  unfold Registrar.decision
  rw [h.engine]
  cases hcase : r.engine with
  | legacy invariants =>
    rw [hcase] at hengine
    dsimp only
    rw [h.evaluateLegacyRegistration hengine]
  | registry registry =>
    dsimp only
    rw [h.evaluateRegistryRegistration]
  | dual registry invariants =>
    rw [hcase] at hengine
    dsimp only
    rw [h.evaluateRegistryRegistration, h.evaluateLegacyRegistration hengine]

/-- A call has the same result in both, and leaves them matching. -/
theorem Matches.register (h : Matches r q) (hengine : r.engine.OrderInsensitive) {t : Transition}
    (ht : r.Counts t) :
    (q.register t).2 = (r.register t).2 ∧ Matches (r.register t).1 (q.register t).1 := by
  have hdecision := h.decision hengine t
  cases hr : r.decision t with
  | refuse recorded result =>
    obtain ⟨s, hr'⟩ := register_of_refuse hr
    obtain ⟨s', hq'⟩ := register_of_refuse (hdecision.trans hr)
    rw [hr', hq']
    exact ⟨rfl, h.withStatus s s'⟩
  | accept recorded applied =>
    obtain ⟨s, hr'⟩ := h.left.register_of_accept hr
    obtain ⟨s', hq'⟩ := h.right.register_of_accept (hdecision.trans hr)
    rw [Counts, hr'] at ht
    rw [hr', hq', h.cursor]
    exact ⟨rfl, (h.appended (ht rfl) t).withStatus s s'⟩

end agreement

/-! ## Their snapshots -/

/-- What a snapshot takes of the frontier. -/
def projected (r : Registrar) : List (StateID × Option StateID × ℤ) :=
  r.frontier.map fun v => (v.id, r.resolveSnapshotParentId v, v.orderIndex)

theorem snapshot_eq_of_projected {r q : Registrar} (hengine : q.engine = r.engine)
    (hcursor : q.currentOrderIndex = r.currentOrderIndex) (h : q.projected = r.projected) :
    q.snapshot = r.snapshot := by
  have hids : ∀ r : Registrar, (r.frontier.map fun e => JsonValue.str e.id) =
      r.projected.map fun e => .str e.1 := by
    intro r
    rw [projected, List.map_map]
    rfl
  have hlineage : ∀ r : Registrar, r.lineageJson =
      assignedObject (r.projected.map fun e => (e.1, parentJson e.2.1)) := by
    intro r
    rw [projected, List.map_map]
    rfl
  have hassigned : ∀ r : Registrar, r.assignedJson =
      assignedObject (r.projected.map fun e => (e.1, .num (.ofInt e.2.2))) := by
    intro r
    rw [projected, List.map_map]
    rfl
  have hbare : ∀ r : Registrar, r.snapshot.lineageBare =
      r.projected.any fun e => e.1 = js "__proto__" && e.2.1.isNone := by
    intro r
    rw [projected, List.any_map]
    rfl
  have hmode : q.mode = r.mode := by rw [mode, mode, hengine]
  have hhash : q.registryHash = r.registryHash := by rw [registryHash, registryHash, hengine]
  have hvalue : q.snapshotValue = r.snapshotValue := by
    rw [snapshotValue, snapshotValue, orderingJson, orderingJson, hids, hids, hlineage, hlineage,
      hassigned, hassigned, h, hcursor, hmode, hhash]
  have hany : q.snapshot.lineageBare = r.snapshot.lineageBare := by rw [hbare, hbare, h]
  calc q.snapshot = ⟨q.snapshotValue, q.snapshot.lineageBare⟩ := rfl
    _ = ⟨r.snapshotValue, r.snapshot.lineageBare⟩ := by rw [hvalue, hany]
    _ = r.snapshot := rfl

theorem mem_projected {r : Registrar} (h : r.Linked) {e : StateID × Option StateID × ℤ} :
    e ∈ r.projected ↔
      ∃ v, r.latestById.get? e.1 = some v ∧ e.2 = (r.parentOf e.1, v.orderIndex) := by
  rw [projected, List.mem_map]
  constructor
  · rintro ⟨v, hv, rfl⟩
    obtain ⟨id, hv⟩ := mem_latest_values.mp (r.frontier_perm.mem_iff.mp hv)
    obtain ⟨rfl, -⟩ := h.latest hv
    refine ⟨v, hv, ?_⟩
    rw [parentOf, hv]
    rfl
  · rintro ⟨v, hv, he⟩
    obtain ⟨hid, -⟩ := h.latest hv
    refine ⟨v, r.frontier_perm.mem_iff.mpr (mem_latest_values.mpr ⟨_, hv⟩), ?_⟩
    rw [parentOf, hv, Option.bind_some] at he
    rw [hid, ← he]

theorem nodup_projected {r : Registrar} (h : r.Linked) : r.projected.Nodup := by
  apply List.Nodup.of_map Prod.fst
  rw [projected, List.map_map]
  have hids : (r.frontier.map RegisteredState.id).Perm r.latestById.keys := by
    apply (r.frontier_perm.map _).trans
    rw [map_id_values fun hv => (h.latest hv).1]
  exact hids.nodup_iff.mpr r.latestById.nodup

/-- The frontier is sorted by indices that are all different. -/
theorem Matches.projected_eq {r q : Registrar} (h : Matches r q) : q.projected = r.projected := by
  have hmem : ∀ e, e ∈ q.projected ↔ e ∈ r.projected := by
    intro e
    rw [mem_projected h.right.toLinked, mem_projected h.left.toLinked, h.parents]
    have hlatest := h.latest e.1
    generalize r.latestById.get? e.1 = v at *
    generalize q.latestById.get? e.1 = w at *
    cases hlatest with
    | none => simp
    | some hsame => simp [hsame.2]
  have hperm : q.projected.Perm r.projected :=
    (List.perm_ext_iff_of_nodup (nodup_projected h.right.toLinked)
      (nodup_projected h.left.toLinked)).mpr hmem
  have hsorted : ∀ r : Registrar, r.projected.Pairwise fun a b => a.2.2 ≤ b.2.2 := by
    intro r
    rw [projected, List.pairwise_map]
    exact List.pairwise_insertionSort _ _
  apply List.Perm.eq_of_pairwise _ (hsorted q) (hsorted r) hperm
  intro a b ha hb hab hba
  obtain ⟨v, hv, ha'⟩ := (mem_projected h.left.toLinked).mp ((hmem a).mp ha)
  obtain ⟨w, hw, hb'⟩ := (mem_projected h.left.toLinked).mp hb
  have hindex : v.orderIndex = w.orderIndex := by
    rw [ha', hb'] at hab hba
    exact le_antisymm hab hba
  have hid := h.left.distinct hv hw hindex
  refine Prod.ext hid ?_
  rw [ha', hb', hid, hindex]

theorem Matches.snapshot {r q : Registrar} (h : Matches r q) : q.snapshot = r.snapshot :=
  snapshot_eq_of_projected h.engine h.cursor h.projected_eq

/-! ## The restored registrar -/

/-- Versions that stand for the latest ones of a registrar, with their parents resolved. -/
structure Represents (r : Registrar) (vs : List RegisteredState) : Prop where
  ids : (vs.map RegisteredState.id).Nodup
  versionKey : ∀ w ∈ vs, w.versionKey = makeVersionKey w.id w.orderIndex
  parentKey : ∀ w ∈ vs, w.parentKey = none
  latest : ∀ w ∈ vs, ∃ v, r.latestById.get? w.id = some v ∧ w.orderIndex = v.orderIndex ∧
    w.parentId = r.parentOf w.id
  all : ∀ id v, r.latestById.get? id = some v → ∃ w ∈ vs, w.id = id

/-- The snapshot of a run restores what represents it. -/
theorem Lasting.fromSnapshot {r : Registrar} (h : r.Lasting) :
    ∃ vs, Represents r vs ∧ fromSnapshot r.snapshot r.engine.options =
      .ok (some (restoredWith r.engine vs r.currentOrderIndex)) := by
  obtain ⟨vs, hrestored, hids, hvs, hall⟩ := h.storable.fromSnapshot
  have hcursor : roundDouble (roundDouble (r.currentOrderIndex - 1) + 1) =
      r.currentOrderIndex := by
    rw [roundDouble_sub_one h.cursor h.inRange, sub_add_cancel]
    exact roundDouble_of_le (lt_of_lt_of_le (by decide) h.cursor) h.inRange
  rw [hcursor] at hrestored
  refine ⟨vs, ⟨hids, fun w hw => (hvs w hw).1, fun w hw => (hvs w hw).2.1, ?_, ?_⟩, hrestored⟩
  · intro w hw
    obtain ⟨-, -, v, hv, hid, hindex, hparent⟩ := hvs w hw
    obtain ⟨id, hv⟩ := mem_latest_values.mp hv
    obtain ⟨rfl, -⟩ := h.latest hv
    rw [← hid] at hv
    refine ⟨v, hv, hindex, ?_⟩
    rw [hparent, parentOf, hv, Option.bind_some]
  · intro id v hv
    obtain ⟨w, hw, hid⟩ := hall v (mem_latest_values.mpr ⟨id, hv⟩)
    exact ⟨w, hw, hid.trans (h.latest hv).1⟩

section restored

variable {r : Registrar} {vs : List RegisteredState}

theorem Represents.ordered (h : Represents r vs) (hr : r.Ordered) :
    (restoredWith r.engine vs r.currentOrderIndex).Ordered where
  toLinked := by
    refine linked_restoredWith h.ids h.versionKey h.parentKey hr.cursor fun w hw => .inl ?_
    obtain ⟨v, hv, hindex, -⟩ := h.latest w hw
    rw [hindex]
    exact (hr.latest_earlier hv).2
  inRange := hr.inRange
  earlier hw := by
    obtain ⟨hw, -⟩ := (get?_versions_restoredWith h.ids h.versionKey).mp hw
    obtain ⟨v, hv, hindex, -⟩ := h.latest _ hw
    rw [hindex]
    exact hr.latest_earlier hv
  distinct hv hw hvw := by
    obtain ⟨hvmem, rfl⟩ := (get?_latest_restoredWith h.ids h.versionKey).mp hv
    obtain ⟨hwmem, rfl⟩ := (get?_latest_restoredWith h.ids h.versionKey).mp hw
    obtain ⟨v', hv', hvindex, -⟩ := h.latest _ hvmem
    obtain ⟨w', hw', hwindex, -⟩ := h.latest _ hwmem
    apply hr.distinct hv' hw'
    rw [← hvindex, ← hwindex, hvw]

theorem Represents.rel (h : Represents r vs) (hr : r.Ordered) (id : StateID) :
    Option.Rel SameVersion (r.latestById.get? id)
      ((restoredWith r.engine vs r.currentOrderIndex).latestById.get? id) := by
  cases hv : r.latestById.get? id with
  | none =>
    have hnone : (restoredWith r.engine vs r.currentOrderIndex).latestById.get? id = none := by
      apply Option.eq_none_iff_forall_ne_some.mpr
      intro w hw
      obtain ⟨hmem, rfl⟩ := (get?_latest_restoredWith h.ids h.versionKey).mp hw
      obtain ⟨v, hv', -⟩ := h.latest w hmem
      cases hv.symm.trans hv'
    rw [hnone]
    exact .none
  | some v =>
    obtain ⟨w, hw, rfl⟩ := h.all id v hv
    obtain ⟨v', hv', hindex, -⟩ := h.latest w hw
    cases hv.symm.trans hv'
    rw [(get?_latest_restoredWith h.ids h.versionKey).mpr ⟨hw, rfl⟩]
    exact .some ⟨(hr.latest hv).1.symm, hindex⟩

/-- A resolved parent is under another id, so it is resolved again at once. -/
theorem Represents.parentOf (h : Represents r vs) (hr : r.Ordered) (id : StateID) :
    (restoredWith r.engine vs r.currentOrderIndex).parentOf id = r.parentOf id := by
  cases hw : (restoredWith r.engine vs r.currentOrderIndex).latestById.get? id with
  | none =>
    have hrel := h.rel hr id
    rw [hw] at hrel
    have hnone : r.latestById.get? id = none := by
      cases hv : r.latestById.get? id with
      | none => rfl
      | some v =>
        rw [hv] at hrel
        cases hrel
    rw [Registrar.parentOf, Registrar.parentOf, hw, hnone]
    rfl
  | some w =>
    have hresolves := (h.ordered hr).resolves hw
    obtain ⟨hmem, rfl⟩ := (get?_latest_restoredWith h.ids h.versionKey).mp hw
    obtain ⟨-, -, -, hparent⟩ := h.latest w hmem
    rw [Registrar.parentOf, hw, Option.bind_some]
    cases hp : r.parentOf w.id with
    | none =>
      rw [hp] at hparent
      exact hresolves.unique (.root hparent)
    | some p =>
      rw [hp] at hparent
      exact hresolves.unique (.cross hparent (hr.parentOf_ne hp))

theorem Represents.matches (h : Represents r vs) (hr : r.Ordered) :
    Matches r (restoredWith r.engine vs r.currentOrderIndex) where
  left := hr
  right := h.ordered hr
  engine := rfl
  cursor := rfl
  latest id := h.rel hr id
  parents := by
    funext id
    exact h.parentOf hr id

end restored

/-! ## Runs -/

/-- The calls of a list get indices that numbers can hold. -/
def CountsAll (r : Registrar) : List Transition → Prop
  | [] => True
  | t :: ts => r.Counts t ∧ (r.register t).1.CountsAll ts

theorem Matches.registerAll {r q : Registrar} (h : Matches r q)
    (hengine : r.engine.OrderInsensitive) {ts : List Transition} (hts : r.CountsAll ts) :
    (q.registerAll ts).2 = (r.registerAll ts).2 ∧
      Matches (r.registerAll ts).1 (q.registerAll ts).1 := by
  induction ts generalizing r q with
  | nil => exact ⟨rfl, h⟩
  | cons t ts ih =>
    obtain ⟨ht, hts⟩ := hts
    obtain ⟨hresult, hnext⟩ := h.register hengine ht
    have hengine' : (r.register t).1.engine.OrderInsensitive := by
      rw [engine_register]
      exact hengine
    obtain ⟨hresults, hend⟩ := ih hnext hengine' hts
    refine ⟨?_, hend⟩
    rw [Registrar.registerAll, Registrar.registerAll, hresult, hresults]

/-- The snapshot is valid and restores a registrar that cannot be told from this one. -/
def Stable (r : Registrar) : Prop :=
  (∃ s, validateSnapshot r.snapshot = .ok s ∧
    validateSnapshotConsistency s.stateIds s.lineage s.maxIndex s.assigned = .ok ()) ∧
  ∃ q, Registrar.fromSnapshot r.snapshot r.engine.options = .ok (some q) ∧
    q.snapshot = r.snapshot ∧
    ∀ ts, r.CountsAll ts → (q.registerAll ts).2 = (r.registerAll ts).2 ∧
      (q.registerAll ts).1.snapshot = (r.registerAll ts).1.snapshot

theorem Lasting.stable {r : Registrar} (h : r.Lasting) (hengine : r.engine.OrderInsensitive) :
    r.Stable := by
  constructor
  · obtain ⟨s, hvalid, hview⟩ := h.storable.validateSnapshot
    exact ⟨s, hvalid, validateSnapshotConsistency_eq_ok.mpr (h.storable.consistent hview)⟩
  · obtain ⟨vs, hvs, hrestored⟩ := h.fromSnapshot
    have hmatches := hvs.matches h.toOrdered
    refine ⟨_, hrestored, hmatches.snapshot, fun ts hts => ?_⟩
    obtain ⟨hresults, hend⟩ := hmatches.registerAll hengine hts
    exact ⟨hresults, hend.snapshot⟩

end Registrar

/-! ## The rules of the repository -/

/-- The engines of the three modes, with the rules that the repository has. -/
def canonicalEngines : List Engine :=
  [.legacy initialInvariants, .registry canonicalRegistry,
    .dual canonicalRegistry initialInvariants]

theorem insensitive_initialInvariants :
    Engine.OrderInsensitive.insensitive initialInvariants := by
  intro i hi t ids ids' n hperm
  have hmem : ∀ id, id ∈ ids ↔ id ∈ ids' := fun id => hperm.mem_iff
  simp only [initialInvariants, List.mem_cons, List.not_mem_nil, or_false] at hi
  rcases hi with rfl | rfl | rfl | rfl | rfl | rfl | rfl | rfl | rfl | rfl | rfl
  case inr.inr.inl =>
    simp only [identityUniqueInvariant]
    cases t.fromId <;> simp only [hmem]
  case inr.inr.inr.inr.inl =>
    simp only [lineageParentExistsInvariant]
    cases t.fromId <;> simp only [hmem]
  case inr.inr.inr.inr.inr.inr.inl =>
    simp only [lineageContinuousInvariant]
    cases t.fromId <;> simp only [hmem]
  all_goals rfl

theorem orderInsensitive_of_mem {engine : Engine} (h : engine ∈ canonicalEngines) :
    engine.OrderInsensitive := by
  simp only [canonicalEngines, List.mem_cons, List.not_mem_nil, or_false] at h
  rcases h with rfl | rfl | rfl
  · exact insensitive_initialInvariants
  · trivial
  · exact insensitive_initialInvariants

theorem passed_of_accepted {r : Registrar} {outcomes : List RuleOutcome} {evaluation : Evaluation}
    (h : Judges r outcomes evaluation) (haccepted : evaluation.verdict.kind = .accepted)
    {o : RuleOutcome} (ho : o ∈ outcomes) : o.passed = true := by
  rw [h.verdict, verdictOf] at haccepted
  split at haccepted
  · rename_i hfailed
    by_contra hpassed
    have hmem : o ∈ failedRules outcomes := List.mem_filter.mpr ⟨ho, by simpa using hpassed⟩
    rw [hfailed] at hmem
    cases hmem
  · dsimp only at haccepted
    split at haccepted <;> cases haccepted

theorem kind_of_ofEvaluation {recorded recorded' : Option ParityStatus} {evaluation : Evaluation}
    {applied : List JsString}
    (h : Registrar.Decision.ofEvaluation recorded evaluation = .accept recorded' applied) :
    evaluation.verdict.kind = .accepted := by
  rw [Registrar.Decision.ofEvaluation] at h
  split at h
  · assumption
  · cases h

/-- The rules accept a transition from a parent only where it keeps the identity. -/
theorem from_eq_of_accept {r : Registrar} (hengine : r.engine ∈ canonicalEngines) {t : Transition}
    {recorded : Option ParityStatus} {applied : List JsString}
    (h : r.decision t = .accept recorded applied) {p : StateID} (hp : t.fromId = some p) :
    p = t.toState.id := by
  obtain ⟨evaluation, hevaluation, hjudges⟩ := judges_canonicalRegistry (r := r) (t := t)
  have hlegacy := judges_evaluateLegacyRegistration r t initialInvariants
  -- the rule that a transition may not alter the identity is one of both engines
  have hpassed : (t.fromId.all fun id => t.toState.id = id) = true := by
    unfold Registrar.decision at h
    simp only [canonicalEngines, List.mem_cons, List.not_mem_nil, or_false] at hengine
    rcases hengine with heq | heq | heq
    · rw [heq] at h
      rw [legacyOutcomes_initialInvariants] at hlegacy
      exact passed_of_accepted hlegacy (kind_of_ofEvaluation h) (.head _)
    · rw [heq] at h
      dsimp only at h
      rw [hevaluation] at h
      rw [canonicalOutcomes_eq] at hjudges
      exact passed_of_accepted hjudges (kind_of_ofEvaluation h) (.tail _ (.head _))
    · rw [heq] at h
      dsimp only at h
      rw [hevaluation] at h
      dsimp only at h
      split at h
      · cases h
      · rw [canonicalOutcomes_eq] at hjudges
        exact passed_of_accepted hjudges (kind_of_ofEvaluation h) (.tail _ (.head _))
  rw [hp, Option.all_some, decide_eq_true_eq] at hpassed
  exact hpassed.symm

/-- What an accepted call has to meet under the rules of the repository. -/
def Registrar.Named (r : Registrar) (t : Transition) : Prop :=
  (acceptedIndex (r.register t).2).isSome →
    r.currentOrderIndex < safeBound ∧ t.toState.id ≠ js "__proto__"

theorem Registrar.Named.storing {r : Registrar} {t : Transition} (h : r.Named t)
    (hengine : r.engine ∈ canonicalEngines) : r.Storing t := by
  intro haccepted
  obtain ⟨hlt, hid⟩ := h haccepted
  refine ⟨hlt, hid, fun p hp => .inl ?_⟩
  cases hdecision : r.decision t with
  | refuse recorded result =>
    obtain ⟨status, hregister⟩ := register_of_refuse hdecision
    rw [hregister, acceptedIndex_of_decision hdecision] at haccepted
    cases haccepted
  | accept recorded applied => exact from_eq_of_accept hengine hdecision hp

/-- A run whose calls meet what storing asks. -/
theorem lasting_of_run {engine : Engine} {ok : Registrar → Transition → Prop}
    (hok : ∀ r t, r.engine = engine → ok r t → r.Storing t) {r : Registrar}
    (hr : (registrarSystem engine).ReachableVia ok r) : r.Lasting ∧ r.engine = engine := by
  apply hr.invariant (I := fun r => r.Lasting ∧ r.engine = engine)
  · rintro r rfl
    exact ⟨Registrar.lasting_new engine, rfl⟩
  · rintro r t r' ⟨ih, hsame⟩ ht hnext
    cases hnext
    refine ⟨ih.register (hok r t hsame ht), ?_⟩
    rw [Registrar.engine_register, hsame]

/-- Every state of a run is stable, where the run accepts no id `__proto__` and no index beyond
the safe integers, and, under rules of other origin, no parent that is unknown or descends from
the id itself. -/
theorem temporal_stability {engine : Engine} {r : Registrar}
    (h : engine ∈ canonicalEngines ∧ (registrarSystem engine).ReachableVia Registrar.Named r ∨
      engine.OrderInsensitive ∧ (registrarSystem engine).ReachableVia Registrar.Storing r) :
    r.Stable := by
  rcases h with ⟨hengine, hr⟩ | ⟨hinsensitive, hr⟩
  · obtain ⟨hlasting, rfl⟩ := lasting_of_run (fun r t hsame ht => ht.storing (hsame ▸ hengine)) hr
    exact hlasting.stable (orderInsensitive_of_mem hengine)
  · obtain ⟨hlasting, rfl⟩ := lasting_of_run (fun _ _ _ ht => ht) hr
    exact hlasting.stable hinsensitive

theorem temporal_stability_versions : ∃ r : Registrar,
    (registrarSystem (.dual canonicalRegistry initialInvariants)).run
        (.new (.dual canonicalRegistry initialInvariants)) versionCalls = some r ∧
      r.currentOrderIndex = 2 ∧ r.Stable := by
  refine ⟨_, rfl, by decide +kernel, temporal_stability (.inl ⟨.tail _ (.tail _ (.head _)), ?_⟩)⟩
  have hname : js "a" ≠ js "__proto__" := fun h => absurd (js_injective h) (by decide)
  refine .step (.step (.step (.init rfl) ?_ rfl) ?_ rfl) ?_ rfl
  all_goals exact fun _ => ⟨by decide +kernel, hname⟩

/-! ## The id `__proto__` -/

/-- An object that assignments build has no own property of that name. -/
theorem proto_not_mem_ownEntries (entries : List (StateID × JsonValue)) :
    js "__proto__" ∉ (ownEntries (Registrar.assignedObject entries).val).map Prod.fst := by
  rw [Registrar.assignedObject, val_object_map_some, ownEntries]
  intro hmem
  obtain ⟨e, he, hproto⟩ := List.mem_map.mp hmem
  obtain ⟨a, ha, rfl⟩ := List.mem_map.mp (Json.mem_ofEntries he)
  have hne := (List.mem_filter.mp ha).2
  rw [decide_eq_true_eq] at hne
  exact hne hproto

/-- The lineage of a root with this id loses its prototype and gets no entry. -/
theorem not_valid_of_proto {r : Registrar} {v : RegisteredState} (hv : v ∈ r.frontier)
    (hid : v.id = js "__proto__") (hroot : r.resolveSnapshotParentId v = none)
    (s : RegistrarSnapshotV1) : validateSnapshot r.snapshot ≠ .ok s := by
  intro h
  obtain ⟨l, o, a, hschema⟩ := validateSnapshot_eq_ok.mp h
  have hl : l = r.lineageJson.val := by
    have hlineage : r.snapshotValue.get? (js "lineage") = some r.lineageJson := by
      simp [Registrar.snapshotValue, literalJson]
    exact Option.some.inj (hschema.lineage.symm.trans (JsonValue.get?_eq_some.mp hlineage))
  have hbare : r.snapshot.lineageBare = true := by
    refine List.any_eq_true.mpr ⟨v, hv, ?_⟩
    simp [hid, hroot]
  have hregistered : js "__proto__" ∈ s.stateIds := by
    have hids : r.snapshotValue.get? (js "state_ids") =
        some (.array (r.frontier.map fun e => .str e.id)) := by
      simp [Registrar.snapshotValue, literalJson]
    have hjson := hschema.stateIds.symm.trans (JsonValue.get?_eq_some.mp hids)
    change some (Json.arr _) = some (Json.arr (List.map _ (List.map _ _))) at hjson
    rw [List.map_map] at hjson
    have hmem : Json.str (js "__proto__") ∈ s.stateIds.map .str := by
      rw [Json.arr.inj (Option.some.inj hjson), ← hid]
      exact List.mem_map_of_mem (f := fun e : RegisteredState => Json.str e.id) hv
    obtain ⟨id, hmem, hid⟩ := List.mem_map.mp hmem
    cases hid
    exact hmem
  have hread := hschema.consistent.has_lineage _ hregistered
  have hget : s.lineage.get? (js "__proto__") = none := by
    apply Option.isNone_iff_eq_none.mp
    rw [← Option.not_isSome, Bool.not_eq_true', ← Bool.not_eq_true, Record.isSome_get?_iff]
    have hkeys := congrArg (List.map Prod.fst) hschema.parents
    rw [List.map_map, List.map_map] at hkeys
    change _ ∉ s.lineage.entries.map Prod.fst
    rw [show s.lineage.entries.map Prod.fst = (ownEntries l).map Prod.fst from hkeys.symm, hl]
    exact proto_not_mem_ownEntries _
  rw [Record.read, hget, hschema.lineagePrototype, hbare] at hread
  cases hread

/-- Once a root with this id is registered, the snapshot is not valid. -/
theorem not_stable_proto :
    ∃ r, (registrarSystem (.legacy initialInvariants)).run (.new (.legacy initialInvariants))
        [⟨none, rootState (js "__proto__")⟩] = some r ∧ ¬ r.Stable := by
  refine ⟨_, rfl, fun hstable => ?_⟩
  obtain ⟨r, hr⟩ : ∃ r, r = Registrar.new (.legacy initialInvariants) := ⟨_, rfl⟩
  obtain ⟨t, ht⟩ : ∃ t : Transition, t = ⟨none, rootState (js "__proto__")⟩ := ⟨_, rfl⟩
  rw [← hr, ← ht] at hstable
  have hordered : r.Ordered := hr ▸ Registrar.ordered_new _
  obtain ⟨applied, hdecision⟩ : ∃ applied, r.decision t = .accept none applied := by
    have hne : js "__proto__" ≠ js "" := fun h => absurd (js_injective h) (by decide)
    rw [hr, ht]
    exact decision_rootState rfl le_rfl List.not_mem_nil hne
  obtain ⟨status, hregister⟩ := hordered.register_of_accept hdecision
  have hlt : r.currentOrderIndex < safeBound := by
    rw [hr]
    exact show (0 : ℤ) < safeBound by decide
  have hlatest : ((r.appended t).withStatus status).latestById.get? t.toState.id =
      some (r.nextVersion t) := (r.get?_latest_appended t _).trans (if_pos rfl)
  obtain ⟨⟨s, hvalid, -⟩, -⟩ := hstable
  rw [hregister] at hvalid
  refine not_valid_of_proto ?_ ?_ ?_ s hvalid (v := r.nextVersion t)
  · exact (Registrar.frontier_perm _).mem_iff.mpr (Registrar.mem_latest_values.mpr ⟨_, hlatest⟩)
  · rw [Registrar.nextVersion, ht]
    rfl
  · have hlinked := ((hordered.appended hlt t).withStatus status).toLinked
    apply (hlinked.resolves hlatest).unique (.root _)
    rw [Registrar.nextVersion, ht]

end Attestia.Registrum
