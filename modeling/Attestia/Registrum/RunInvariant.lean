import Attestia.Registrum.SnapshotSchema

/-!
# Runs and their history

A run starts empty or from a restored snapshot and calls `register`. While its cursor
counts, the accepted transitions are the history of the registrar.
-/

namespace Attestia.Registrum

open Lib

/-- A run: the registrar it has started from, and the transitions that were accepted, each with
its order index. -/
structure Run where
  start : Registrar
  registrar : Registrar
  accepted : List (Transition × ℤ)

/-- The start of a run: empty, or restored from a snapshot that owns its entries. -/
def Starts (r : Registrar) : Prop :=
  (∃ engine, r = .new engine) ∨ ∃ raw options, Registrar.fromSnapshot raw options = .ok (some r)

def Run.register (run : Run) (t : Transition) : Run where
  start := run.start
  registrar := (run.registrar.register t).1
  accepted :=
    match acceptedIndex (run.registrar.register t).2 with
    | some orderIndex => run.accepted ++ [(t, orderIndex)]
    | none => run.accepted

def runSystem : System Run Transition where
  init run := Starts run.start ∧ run.registrar = run.start ∧ run.accepted = []
  next run t := some (run.register t)

/-- The registrar is left as it was, the parity status apart. -/
def Untouched (r r' : Registrar) : Prop :=
  r'.versionsByKey = r.versionsByKey ∧ r'.latestById = r.latestById ∧
    r'.currentOrderIndex = r.currentOrderIndex ∧ r'.snapshot = r.snapshot

theorem untouched_withStatus (r : Registrar) (status : Option ParityStatus) :
    Untouched r (r.withStatus status) :=
  ⟨rfl, rfl, rfl, r.snapshot_withStatus status⟩

/-- The order index of the last accepted version of an id. -/
def Run.lastIndex (run : Run) (id : StateID) : Option ℤ :=
  ((run.accepted.filter fun e => e.1.toState.id = id).getLast?.map Prod.snd).or
    ((run.start.latestById.get? id).map RegisteredState.orderIndex)

/-- What a run is meant to keep. -/
structure Run.Intact (run : Run) : Prop where
  consecutive : run.accepted.map Prod.snd =
    (List.range run.accepted.length).map fun (n : ℕ) => run.start.currentOrderIndex + (n : ℤ)
  cursor : run.registrar.currentOrderIndex =
    run.start.currentOrderIndex + (run.accepted.length : ℤ)
  /-- Every accepted version is written under a key of its own. -/
  keys : run.registrar.versionsByKey.keys = run.start.versionsByKey.keys ++
    run.accepted.map fun e => makeVersionKey e.1.toState.id e.2
  written_once : (run.start.versionsByKey.keys ++
    run.accepted.map fun e => makeVersionKey e.1.toState.id e.2).Nodup
  latest (id : StateID) :
    (run.registrar.latestById.get? id).map RegisteredState.orderIndex = run.lastIndex id
  refused (t : Transition) (hlt : run.registrar.currentOrderIndex < safeBound)
    (h : acceptedIndex (run.registrar.register t).2 = none) :
    Untouched run.registrar (run.registrar.register t).1
  lineage (id : StateID) (v : RegisteredState) (h : run.registrar.latestById.get? id = some v) :
    Registrar.Descends v (run.registrar.lineageFrom v) ∧
      run.registrar.getLineage id = (run.registrar.lineageFrom v).1.map RegisteredState.id

namespace Run

/-- The part of a run that one call extends. -/
structure Recorded (run : Run) : Prop where
  linked : run.registrar.Linked
  consecutive : run.accepted.map Prod.snd =
    (List.range run.accepted.length).map fun (n : ℕ) => run.start.currentOrderIndex + (n : ℤ)
  cursor : run.registrar.currentOrderIndex =
    run.start.currentOrderIndex + (run.accepted.length : ℤ)
  keys : run.registrar.versionsByKey.keys = run.start.versionsByKey.keys ++
    run.accepted.map fun e => makeVersionKey e.1.toState.id e.2
  latest (id : StateID) :
    (run.registrar.latestById.get? id).map RegisteredState.orderIndex = run.lastIndex id

theorem recorded_of_starts {run : Run} (h : runSystem.init run) : run.Recorded := by
  obtain ⟨start, registrar, accepted⟩ := run
  obtain ⟨hstarts, hregistrar, haccepted⟩ := h
  dsimp only at hstarts hregistrar haccepted
  subst hregistrar haccepted
  refine ⟨?_, rfl, (add_zero _).symm, (List.append_nil _).symm, fun id => rfl⟩
  rcases hstarts with ⟨engine, rfl⟩ | ⟨raw, options, hraw⟩
  · exact Registrar.linked_new engine
  · exact Registrar.linked_of_fromSnapshot hraw

theorem Recorded.register {run : Run} (h : run.Recorded)
    (hlt : run.registrar.currentOrderIndex < safeBound) (t : Transition) :
    (run.register t).Recorded := by
  have hlinked := h.linked.register hlt t
  obtain ⟨status, ⟨hrefused, hindex⟩ | ⟨haccepted, hindex⟩⟩ := h.linked.register_cases hlt t
  · have hrun : run.register t = ⟨run.start, run.registrar.withStatus status, run.accepted⟩ := by
      rw [Run.register, hindex, hrefused]
    rw [hrun]
    exact ⟨hrefused ▸ hlinked, h.consecutive, h.cursor, h.keys, h.latest⟩
  · have hrun : run.register t = ⟨run.start, (run.registrar.appended t).withStatus status,
        run.accepted ++ [(t, run.registrar.currentOrderIndex)]⟩ := by
      rw [Run.register, hindex, haccepted]
    rw [hrun]
    refine ⟨haccepted ▸ hlinked, ?_, ?_, ?_, fun id => ?_⟩
    · rw [List.map_append, h.consecutive, List.length_append, List.length_singleton,
        List.range_succ, List.map_append, h.cursor]
      rfl
    · have hnext : ((run.registrar.appended t).withStatus status).currentOrderIndex =
          run.registrar.currentOrderIndex + 1 := roundDouble_add_one h.linked.cursor hlt
      rw [hnext, h.cursor, List.length_append, List.length_singleton, Nat.cast_add, Nat.cast_one,
        add_assoc]
    · have hkeys : ((run.registrar.appended t).withStatus status).versionsByKey.keys =
          run.registrar.versionsByKey.keys ++ [(run.registrar.nextVersion t).versionKey] := by
        change (run.registrar.versionsByKey.set _ _).keys = _
        rw [JsMap.keys_set, if_neg (h.linked.next_not_mem hlt t)]
      rw [hkeys, h.keys, List.map_append, List.append_assoc]
      rfl
    · change ((run.registrar.appended t).latestById.get? id).map _ = _
      rw [Registrar.get?_latest_appended, lastIndex, List.filter_append]
      by_cases hid : t.toState.id = id
      · simp [hid, Registrar.nextVersion]
      · rw [if_neg hid, h.latest, lastIndex]
        simp [hid]

theorem Recorded.intact {run : Run} (h : run.Recorded) : run.Intact where
  consecutive := h.consecutive
  cursor := h.cursor
  keys := h.keys
  written_once := h.keys ▸ run.registrar.versionsByKey.nodup
  latest := h.latest
  refused t hlt hnone := by
    obtain ⟨status, ⟨hrefused, -⟩ | ⟨-, hindex⟩⟩ := h.linked.register_cases hlt t
    · rw [hrefused]
      exact untouched_withStatus _ _
    · cases hnone.symm.trans hindex
  lineage id v hv := by
    refine ⟨h.linked.descends_lineageFrom hv, ?_⟩
    rw [Registrar.getLineage, hv]

end Run

/-- A run whose calls are all made while the cursor is a safe integer keeps its history. -/
theorem intact_of_safe_run {run : Run}
    (h : runSystem.ReachableVia (fun run _ => run.registrar.currentOrderIndex < safeBound) run) :
    run.Intact := by
  have hrecorded : run.Recorded := by
    refine h.invariant (fun _ => Run.recorded_of_starts) ?_
    intro run t run' hrun hlt hnext
    cases hnext
    exact hrun.register hlt t
  exact hrecorded.intact

/-- A root, a new version of it, and the root once more, which the rules refuse. -/
def versionCalls : List Transition :=
  [⟨none, rootState (js "a")⟩, ⟨some (js "a"), plainState (js "a")⟩, ⟨none, rootState (js "a")⟩]

theorem intact_of_safe_run_versions : ∃ run : Run,
    runSystem.run ⟨.new (.legacy initialInvariants), .new (.legacy initialInvariants), []⟩
        versionCalls = some run ∧ run.accepted.length = 2 ∧ run.Intact := by
  refine ⟨_, rfl, by decide +kernel, intact_of_safe_run ?_⟩
  have hroot : runSystem.ReachableVia (fun run _ => run.registrar.currentOrderIndex < safeBound)
      (Run.register ⟨.new (.legacy initialInvariants), .new (.legacy initialInvariants), []⟩
        ⟨none, rootState (js "a")⟩) :=
    .step (.init ⟨.inl ⟨_, rfl⟩, rfl, rfl⟩) (show (0 : ℤ) < safeBound by decide) rfl
  exact .step (.step hroot (by decide +kernel) rfl) (by decide +kernel) rfl

/-! ## Under the legacy rules -/

/-- What the legacy rules ask of a transition. -/
structure Lawful (r : Registrar) (t : Transition) : Prop where
  named : t.toState.id ≠ []
  root (h : t.fromId = none) : isRootState t.toState = true ∧ t.toState.id ∉ r.latestById.keys
  version (p : StateID) (h : t.fromId = some p) :
    t.toState.id = p ∧ p ∈ r.latestById.keys ∧ isRootState t.toState = false

theorem Lawful.decision {r : Registrar} {t : Transition} (h : Lawful r t)
    (hengine : r.engine = .legacy initialInvariants) (hcursor : 0 ≤ r.currentOrderIndex) :
    ∃ applied, r.decision t = .accept none applied := by
  have hpassed : ∀ i ∈ initialInvariants, i.predicate (r.legacyInput t i) = true := by
    obtain ⟨fromId, state⟩ := t
    have hlength : 0 < state.id.length := List.length_pos_iff.mpr h.named
    cases fromId with
    | none =>
      obtain ⟨hroot, hnew⟩ := h.root rfl
      simp [initialInvariants, identityImmutableInvariant, identityExplicitInvariant,
        identityUniqueInvariant, lineageExplicitInvariant, lineageParentExistsInvariant,
        lineageSingleParentInvariant, lineageContinuousInvariant, orderingTotalInvariant,
        orderingDeterministicInvariant, orderingMonotonicInvariant, orderingNonSemanticInvariant,
        Registrar.legacyInput, getTransition, getState, hroot, hcursor, hlength]
      exact hnew
    | some p =>
      obtain ⟨hid, hregistered, hroot⟩ := h.version p rfl
      dsimp only at hid hroot
      simp [initialInvariants, identityImmutableInvariant, identityExplicitInvariant,
        identityUniqueInvariant, lineageExplicitInvariant, lineageParentExistsInvariant,
        lineageSingleParentInvariant, lineageContinuousInvariant, orderingTotalInvariant,
        orderingDeterministicInvariant, orderingMonotonicInvariant, orderingNonSemanticInvariant,
        Registrar.legacyInput, getTransition, getState, hroot, hcursor, hid, hregistered]
      rw [← hid]
      exact hlength
  have hviolated : (initialInvariants.filter fun i => !i.predicate (r.legacyInput t i)) = [] := by
    apply List.filter_eq_nil_iff.mpr
    intro i hi
    rw [hpassed i hi]
    decide
  refine ⟨initialInvariants.map Invariant.id, ?_⟩
  rw [Registrar.decision, hengine]
  dsimp only
  rw [Registrar.evaluateLegacyRegistration, hviolated]
  rfl

/-- The legacy rules refuse a root under a registered id. -/
theorem decision_of_registeredRoot {r : Registrar} {t : Transition}
    (hengine : r.engine = .legacy initialInvariants) (hroot : t.fromId = none)
    (hmem : t.toState.id ∈ r.latestById.keys) :
    ∃ violations, r.decision t = .refuse none (.ok (.rejected violations)) := by
  have hviolates : identityUniqueInvariant ∈ initialInvariants.filter fun i =>
      !i.predicate (r.legacyInput t i) := by
    apply List.mem_filter.mpr
    refine ⟨by simp [initialInvariants], ?_⟩
    simp [identityUniqueInvariant, Registrar.legacyInput, hroot, hmem]
  have hne : ((initialInvariants.filter fun i => !i.predicate (r.legacyInput t i)).map fun i =>
      Registrar.makeViolation i.id i.description i.failureMode (r.registrationOperands t)) ≠ [] :=
    List.ne_nil_of_mem (List.mem_map_of_mem hviolates)
  rw [Registrar.decision, hengine]
  dsimp only
  rw [Registrar.evaluateLegacyRegistration, Registrar.buildRegistrationOutcome, if_pos hne]
  refine ⟨_, if_neg ?_⟩
  dsimp only
  split <;> decide

/-- The legacy rules accept a root under a new id. -/
theorem decision_rootState {r : Registrar} (hengine : r.engine = .legacy initialInvariants)
    (hcursor : 0 ≤ r.currentOrderIndex) {id : StateID} (hid : id ∉ r.latestById.keys)
    (hne : id ≠ []) : ∃ applied, r.decision ⟨none, rootState id⟩ = .accept none applied := by
  apply Lawful.decision _ hengine hcursor
  refine ⟨hne, fun _ => ⟨isRootState_rootState id, hid⟩, fun p hp => ?_⟩
  cases hp

/-! ## At the bound -/

/-- An id that no version has. -/
structure Unused (r : Registrar) (id : StateID) : Prop where
  unregistered : id ∉ r.latestById.keys
  unwritten (n : ℤ) : makeVersionKey id n ∉ r.versionsByKey.keys

theorem Unused.appended {r : Registrar} {id : StateID} (h : Unused r id) {t : Transition}
    (hid : id ≠ t.toState.id) (status : Option ParityStatus) :
    Unused ((r.appended t).withStatus status) id where
  unregistered := by
    change id ∉ (r.latestById.set _ _).keys
    rw [JsMap.mem_keys_set]
    exact fun hmem => hmem.elim hid h.unregistered
  unwritten n := by
    change makeVersionKey id n ∉ (r.versionsByKey.set _ _).keys
    rw [JsMap.mem_keys_set]
    exact fun hmem => hmem.elim (fun hkey => hid (makeVersionKey_inj.mp hkey).1) (h.unwritten n)

/-- A root under an unused id is accepted, also at the bound. -/
theorem register_rootState {r : Registrar} (hengine : r.engine = .legacy initialInvariants)
    (hcursor : 0 ≤ r.currentOrderIndex) {id : StateID} (hid : Unused r id) (hne : id ≠ []) :
    (r.register ⟨none, rootState id⟩).1 =
        (r.appended ⟨none, rootState id⟩).withStatus r.lastParityStatus ∧
      acceptedIndex (r.register ⟨none, rootState id⟩).2 = some r.currentOrderIndex := by
  obtain ⟨applied, hdecision⟩ := decision_rootState hengine hcursor hid.unregistered hne
  have haccept := r.acceptTransition_withStatus r.lastParityStatus ⟨none, rootState id⟩ applied
  have hkey : (r.nextVersion ⟨none, rootState id⟩).versionKey ∉ r.versionsByKey.keys :=
    hid.unwritten r.currentOrderIndex
  rw [if_neg hkey] at haccept
  rw [Registrar.register_eq_carryOut, hdecision]
  exact ⟨congrArg Prod.fst haccept, congrArg (fun call => acceptedIndex call.2) haccept⟩

/-- The version with the highest safe integer as its order index. -/
def edgeVersion : RegisteredState :=
  ⟨js "a", none, safeBound - 1, makeVersionKey (js "a") (safeBound - 1), none⟩

def edgeRegistrar : Registrar :=
  .restoredWith (.legacy initialInvariants) [edgeVersion] safeBound

theorem entries_edgeRegistrar :
    edgeRegistrar.latestById.entries = [(js "a", edgeVersion)] := by
  have hids : ([edgeVersion].map RegisteredState.id).Nodup := List.nodup_singleton _
  refine (Registrar.entries_restoredWith hids ?_).2
  intro v hv
  rw [List.mem_singleton.mp hv]
  rfl

theorem values_edgeRegistrar : edgeRegistrar.latestById.values = [edgeVersion] := by
  rw [JsMap.values, entries_edgeRegistrar]
  rfl

theorem storable_edgeRegistrar : edgeRegistrar.Storable where
  ids h := by
    have hmem := JsMap.get?_eq_some.mp h
    rw [entries_edgeRegistrar, List.mem_singleton] at hmem
    cases hmem
    rfl
  proto := by
    rw [JsMap.keys, entries_edgeRegistrar, List.map_singleton, List.mem_singleton]
    exact fun h => absurd (js_injective h) (by decide)
  nonneg h := by
    rw [values_edgeRegistrar, List.mem_singleton] at h
    rw [h]
    decide
  distinct := by
    rw [values_edgeRegistrar]
    exact List.nodup_singleton _
  max_empty h := by
    rw [values_edgeRegistrar] at h
    cases h
  max_index _ := by
    rw [values_edgeRegistrar]
    change some (safeBound - 1) = some (roundDouble (safeBound - 1))
    rw [roundDouble_sub_one (by decide) le_rfl]
  parents := by
    refine ⟨fun _ => 0, fun v hv p hp => ?_⟩
    rw [values_edgeRegistrar, List.mem_singleton] at hv
    subst hv
    cases hp

/-- A snapshot may hold the highest safe integer as an index. The two roots that are registered
then get the same order index. -/
theorem not_intact_at_safeBound :
    ∃ r, Registrar.fromSnapshot edgeRegistrar.snapshot edgeRegistrar.engine.options = .ok (some r) ∧
      let run := ((Run.mk r r []).register ⟨none, rootState (js "b")⟩).register
        ⟨none, rootState (js "c")⟩
      runSystem.Reachable run ∧ run.accepted.map Prod.snd = [safeBound, safeBound] ∧
        ¬ run.Intact := by
  obtain ⟨vs, hrestored, hids, hvs, -⟩ := storable_edgeRegistrar.fromSnapshot
  have hcursor : roundDouble (roundDouble (edgeRegistrar.currentOrderIndex - 1) + 1) =
      safeBound := by
    change roundDouble (roundDouble (safeBound - 1) + 1) = safeBound
    rw [roundDouble_sub_one (by decide) le_rfl, sub_add_cancel]
    exact roundDouble_of_le (by decide) le_rfl
  rw [hcursor] at hrestored
  refine ⟨_, hrestored, ?_⟩
  obtain ⟨r, hr⟩ : ∃ r, r = Registrar.restoredWith edgeRegistrar.engine vs safeBound := ⟨_, rfl⟩
  rw [← hr]
  have hengine : r.engine = .legacy initialInvariants := by rw [hr]; rfl
  have hindex : r.currentOrderIndex = safeBound := by rw [hr]; rfl
  -- the ids of the snapshot are not used by the roots
  have hunused : ∀ id ≠ js "a", Unused r id := by
    intro id hid
    have hold : ∀ v ∈ vs, v.id ≠ id := by
      intro v hv
      obtain ⟨-, -, u, hu, hvu, -⟩ := hvs v hv
      rw [values_edgeRegistrar, List.mem_singleton] at hu
      rw [hvu, hu]
      exact hid.symm
    have hkeys := fun v hv => (hvs v hv).1
    rw [hr]
    constructor
    · intro hmem
      obtain ⟨v, hv⟩ := JsMap.mem_keys.mp hmem
      obtain ⟨hmem, hvid⟩ := (Registrar.get?_latest_restoredWith hids hkeys).mp hv
      exact hold v hmem hvid
    · intro n hmem
      obtain ⟨v, hv⟩ := JsMap.mem_keys.mp hmem
      obtain ⟨hmem, hkey⟩ := (Registrar.get?_versions_restoredWith hids hkeys).mp hv
      rw [hkeys v hmem] at hkey
      exact hold v hmem (makeVersionKey_inj.mp hkey).1
  have hpos : (0 : ℤ) ≤ safeBound := by decide
  have hne : ∀ {a b : String}, a ≠ b → js a ≠ js b := fun hab h => hab (js_injective h)
  obtain ⟨h₁, hindex₁⟩ := register_rootState hengine (hindex ▸ hpos)
    (hunused (js "b") (hne (by decide))) (hne (b := "") (by decide))
  obtain ⟨r₁, hr₁⟩ : ∃ r₁, r₁ = (r.register ⟨none, rootState (js "b")⟩).1 := ⟨_, rfl⟩
  have hcursor₁ : r₁.currentOrderIndex = safeBound := by
    rw [hr₁, h₁]
    change roundDouble (r.currentOrderIndex + 1) = safeBound
    rw [hindex, Registrar.roundDouble_safeBound_add_one]
  have hengine₁ : r₁.engine = .legacy initialInvariants := by
    rw [hr₁, Registrar.engine_register, hengine]
  have hunused₁ : Unused r₁ (js "c") := by
    rw [hr₁, h₁]
    exact (hunused _ (hne (by decide))).appended (hne (by decide)) _
  obtain ⟨-, hindex₂⟩ := register_rootState hengine₁ (hcursor₁ ▸ hpos) hunused₁
    (hne (b := "") (by decide))
  have haccepted : (((Run.mk r r []).register ⟨none, rootState (js "b")⟩).register
      ⟨none, rootState (js "c")⟩).accepted.map Prod.snd = [safeBound, safeBound] := by
    rw [Run.register, Run.register]
    dsimp only
    rw [hindex₁, ← hr₁, hindex₂, hindex, hcursor₁]
    rfl
  refine ⟨?_, haccepted, fun hintact => ?_⟩
  · refine .step (.step (.init ⟨.inr ⟨_, _, hr ▸ hrestored⟩, rfl, rfl⟩) trivial rfl) trivial rfl
  · have hconsecutive := hintact.consecutive
    rw [← List.length_map Prod.snd, haccepted] at hconsecutive
    have hlast := (List.cons.inj (List.cons.inj hconsecutive).2).1
    change safeBound = r.currentOrderIndex + 1 at hlast
    omega

end Attestia.Registrum
