import Attestia.Node.Attestation

/-!
# Attestations and restarts

Calls of `attest` that are made one after the other, with restarts between them. A restart is not
noticed where it does not fall between two calls that register something: after it the attestor
takes its next state for a root, and the registrar knows that state already.
-/

namespace Attestia.Node

open Lib JsonNumber Reconciler Registrum

/-! ## Runs -/

inductive Visit where
  | attest (stored : Bool) (report : ReconciliationReport) (attestedAt : JsString)
  | restart

/-- What a call of `attest` answers, with the version that it has registered. -/
inductive AttestAnswer where
  | notStored
  | answered (result : Except AttestFault AttestationRecord) (version : Option RegisteredState)

namespace Visit

def isAttest : Visit → Bool
  | attest .. => true
  | restart => false

/-- A call whose event is stored. -/
def stores : Visit → Bool
  | attest stored .. => stored
  | restart => false

end Visit

namespace AttestService

section

variable (canonicalize : IntegrityContent → String)

/-- A call from its event to its answer. -/
def attestCall (s : AttestService) (report : ReconciliationReport) (attestedAt : JsString) :
    AttestService × AttestAnswer :=
  let call := (s.attest true report).proceedWith canonicalize report [] attestedAt
  (call.1, .answered call.2
    (if call.2.isOk then call.1.registrar.latestById.get? s.attestor.stateId else none))

/-- What the calls answer. -/
def answers (s : AttestService) : List Visit → List AttestAnswer
  | [] => []
  | .attest true report attestedAt :: visits =>
    let call := s.attestCall canonicalize report attestedAt
    call.2 :: call.1.answers visits
  | .attest false _ _ :: visits => .notStored :: s.answers visits
  | .restart :: visits => s.restart.answers visits

end

end AttestService

/-- A restart falls between two calls whose events are stored. -/
def Interrupted (visits : List Visit) : Prop :=
  ∃ v w : Visit, v.stores = true ∧ w.stores = true ∧ [v, .restart, w].Sublist visits

/-- A restart comes before a call whose event is stored. -/
def RestartsBefore (visits : List Visit) : Prop :=
  ∃ w : Visit, w.stores = true ∧ [.restart, w].Sublist visits

/-- The calls answer as they do without the restarts. -/
def Survives (canonicalize : IntegrityContent → String) (visits : List Visit) : Prop :=
  AttestService.new.answers canonicalize visits =
    AttestService.new.answers canonicalize (visits.filter Visit.isAttest)

/-! ## Runs without an interruption -/

-- a run is compared with one of the same calls before the restart is looked into
attribute [local irreducible] AttestService.restart

theorem interrupted_restart_cons {visits : List Visit} :
    Interrupted (.restart :: visits) ↔ Interrupted visits := by
  constructor
  · rintro ⟨v, w, hv, hw, hsub⟩
    rcases List.sublist_cons_iff.mp hsub with hsub | ⟨rest, heq, -⟩
    · exact ⟨v, w, hv, hw, hsub⟩
    · cases heq
      cases hv
  · rintro ⟨v, w, hv, hw, hsub⟩
    exact ⟨v, w, hv, hw, hsub.cons _⟩

theorem interrupted_attest_cons {visits : List Visit} {stored : Bool}
    {report : ReconciliationReport} {attestedAt : JsString} :
    Interrupted (.attest stored report attestedAt :: visits) ↔
      (stored = true ∧ RestartsBefore visits) ∨ Interrupted visits := by
  constructor
  · rintro ⟨v, w, hv, hw, hsub⟩
    rcases List.sublist_cons_iff.mp hsub with hsub | ⟨rest, heq, hsub⟩
    · exact .inr ⟨v, w, hv, hw, hsub⟩
    · cases heq
      exact .inl ⟨hv, w, hw, hsub⟩
  · rintro (⟨rfl, w, hw, hsub⟩ | ⟨v, w, hv, hw, hsub⟩)
    · exact ⟨_, w, rfl, hw, hsub.cons_cons _⟩
    · exact ⟨v, w, hv, hw, hsub.cons _⟩

theorem restartsBefore_restart_cons {visits : List Visit} :
    RestartsBefore (.restart :: visits) ↔ ∃ w ∈ visits, w.stores = true := by
  constructor
  · rintro ⟨w, hw, hsub⟩
    rcases List.sublist_cons_iff.mp hsub with hsub | ⟨rest, heq, hsub⟩
    · exact ⟨w, hsub.subset (.tail _ (.head _)), hw⟩
    · cases heq
      exact ⟨w, List.singleton_sublist.mp hsub, hw⟩
  · rintro ⟨w, hmem, hw⟩
    exact ⟨w, hw, (List.singleton_sublist.mpr hmem).cons_cons _⟩

theorem restartsBefore_attest_cons {visits : List Visit} {stored : Bool}
    {report : ReconciliationReport} {attestedAt : JsString} :
    RestartsBefore (.attest stored report attestedAt :: visits) ↔ RestartsBefore visits := by
  constructor
  · rintro ⟨w, hw, hsub⟩
    rcases List.sublist_cons_iff.mp hsub with hsub | ⟨rest, heq, -⟩
    · exact ⟨w, hw, hsub⟩
    · cases heq
  · rintro ⟨w, hw, hsub⟩
    exact ⟨w, hw, hsub.cons _⟩

section runs

variable {canonicalize : IntegrityContent → String} {s s' : AttestService} {visits : List Visit}

theorem filter_restart_cons (visits : List Visit) :
    (Visit.restart :: visits).filter Visit.isAttest = visits.filter Visit.isAttest := rfl

theorem answers_restart_cons (s : AttestService) (visits : List Visit) :
    s.answers canonicalize (.restart :: visits) = s.restart.answers canonicalize visits := rfl

/-- Calls without stored events leave every service as it is. -/
theorem answers_of_none_stored (h : ∀ v ∈ visits, v.stores = false) :
    s.answers canonicalize visits =
      List.replicate (visits.filter Visit.isAttest).length .notStored := by
  induction visits generalizing s with
  | nil => rfl
  | cons v visits ih =>
    have hrest : ∀ v ∈ visits, v.stores = false := fun v hv => h v (.tail _ hv)
    cases v with
    | attest stored report attestedAt =>
      obtain rfl : stored = false := h _ (.head _)
      exact congrArg (AttestAnswer.notStored :: ·) (ih hrest)
    | restart => exact ih hrest

/-- Restarts that no stored call follows are not noticed. -/
theorem answers_filter_of_not_restartsBefore (h : ¬ RestartsBefore visits) :
    s.answers canonicalize visits = s.answers canonicalize (visits.filter Visit.isAttest) := by
  induction visits generalizing s with
  | nil => rfl
  | cons v visits ih =>
    cases v with
    | attest stored report attestedAt =>
      have hrest := restartsBefore_attest_cons.not.mp h
      cases stored with
      | false => exact congrArg (AttestAnswer.notStored :: ·) (ih hrest)
      | true => exact congrArg (_ :: ·) (ih hrest)
    | restart =>
      have hnone : ∀ v ∈ visits, v.stores = false := by
        intro v hv
        apply Bool.eq_false_of_not_eq_true
        intro hstores
        exact h (restartsBefore_restart_cons.mpr ⟨v, hv, hstores⟩)
      have hnone' : ∀ v ∈ visits.filter Visit.isAttest, v.stores = false := fun v hv =>
        hnone v (List.mem_of_mem_filter hv)
      rw [answers_restart_cons, filter_restart_cons, answers_of_none_stored hnone,
        answers_of_none_stored hnone', List.filter_filter]
      simp only [Bool.and_self]

/-- A restart of a service that has registered nothing starts the same service. -/
theorem restart_new : AttestService.new.restart = .new := by
  have hlasting := Registrar.lasting_new (.legacy initialInvariants)
  obtain ⟨vs, hrepresents, hrestored⟩ := hlasting.fromSnapshot
  have hnil : vs = [] := by
    apply List.eq_nil_iff_forall_not_mem.mpr
    intro w hw
    obtain ⟨v, hv, -⟩ := hrepresents.latest w hw
    cases hv
  subst hnil
  have hraw : Registrar.fromSnapshot
      ⟨AttestService.new.registrar.snapshotValue, false⟩ ⟨.legacy, some initialInvariants, none⟩ =
        .ok (some (.new (.legacy initialInvariants))) := hrestored
  rw [AttestService.restart, hraw]
  rfl

end runs

/-! ## A service that remembers, and one that has been started again -/

def attestationId : StateID := (Attestor.new attestorId).stateId

/-- The attestor remembers the attestation that the registrar has. -/
structure Continuing (s : AttestService) : Prop where
  engine : s.registrar.engine = .legacy initialInvariants
  keyed : s.registrar.Keyed
  latest {id : StateID} {v : RegisteredState} (h : s.registrar.latestById.get? id = some v) :
    v.id = id
  attestor : s.attestor = ⟨attestorId, some attestationId⟩
  registered : attestationId ∈ s.registrar.latestById.keys

/-- The attestor remembers nothing, and the registrar has an attestation, or no version at all. -/
structure Forgetful (s : AttestService) : Prop where
  engine : s.registrar.engine = .legacy initialInvariants
  linked : s.registrar.Linked
  attestor : s.attestor = .new attestorId
  registered : attestationId ∈ s.registrar.latestById.keys ∨ s.registrar.versionsByKey.keys = []

section calls

variable {canonicalize : IntegrityContent → String} {s s' : AttestService} {visits : List Visit}
  {report : ReconciliationReport} {attestedAt : JsString}

/-- A call of a service that continues its registrar. -/
theorem attestCall_of_continues (hengine : s.registrar.engine = .legacy initialInvariants)
    (hcursor : 0 ≤ s.registrar.currentOrderIndex) (h : s.attestor.Continues s.registrar) :
    let t := s.attestor.transition canonicalize report attestedAt
    let version := s.registrar.nextVersion t
    let call := s.attestCall canonicalize report attestedAt
    if version.versionKey ∈ s.registrar.versionsByKey.keys then
      call.1.registrar = s.registrar.advanced ∧ call.1.attestor = s.attestor ∧
        call.2 = .answered (.error (.register (.appendOnlyViolation version.versionKey))) none
    else
      call.1.registrar = s.registrar.appended t ∧
        call.1.attestor = { s.attestor with lastStateId := some s.attestor.stateId } ∧
        call.2 = .answered (.ok (s.attestor.record canonicalize report attestedAt))
          (some version) := by
  have hcall : s.attestor.attestInner canonicalize s.registrar report attestedAt = _ :=
    Attestor.attestInner_of_continues hengine hcursor h
  have hproceed : (s.attest true report).proceedWith canonicalize report [] attestedAt = _ :=
    congrArg (fun call : (Registrar × Attestor) × Except AttestFault AttestationRecord =>
      ({ s.attest true report with
        registrar := call.1.1
        attestor := call.1.2
        waiting := []
        registered := s.registered ++
          if call.2.isOk then (call.1.1.latestById.get? s.attestor.stateId).toList else [] },
        call.2)) hcall
  dsimp only at hproceed ⊢
  split
  · rename_i hkey
    rw [AttestService.attestCall, hproceed, if_pos hkey]
    exact ⟨rfl, rfl, rfl⟩
  · rename_i hkey
    rw [AttestService.attestCall, hproceed, if_neg hkey]
    refine ⟨rfl, rfl, ?_⟩
    exact congrArg _ Attestor.get?_latest_appended

theorem Continuing.continues (h : Continuing s) : s.attestor.Continues s.registrar := by
  rw [h.attestor]
  exact .inr ⟨rfl, h.registered⟩

theorem id_of_latest_appended {r : Registrar} {t : Transition}
    (h : ∀ {id v}, r.latestById.get? id = some v → v.id = id) {id : StateID} {v : RegisteredState}
    (hv : (r.appended t).latestById.get? id = some v) : v.id = id := by
  rw [Registrar.get?_latest_appended] at hv
  split at hv
  · rename_i hid
    obtain rfl := Option.some.inj hv
    exact hid
  · exact h hv

/-- A service that remembers its attestation goes on remembering it, and what it registers is a
version of that attestation. -/
theorem Continuing.attestCall (h : Continuing s) :
    Continuing (s.attestCall canonicalize report attestedAt).1 ∧
      ((∃ key, (s.attestCall canonicalize report attestedAt).2 =
        .answered (.error (.register (.appendOnlyViolation key))) none) ∨
      ∃ record version, (s.attestCall canonicalize report attestedAt).2 =
        .answered (.ok record) (some version) ∧ version.parentId = some attestationId) := by
  have hcall := @attestCall_of_continues canonicalize s report attestedAt h.engine h.keyed.cursor
    h.continues
  dsimp only at hcall
  split at hcall
  · obtain ⟨hregistrar, hattestor, hanswer⟩ := hcall
    refine ⟨⟨?_, ?_, fun hv => ?_, ?_, ?_⟩, .inl ⟨_, hanswer⟩⟩
    · rw [hregistrar]
      exact h.engine
    · rw [hregistrar]
      exact h.keyed.advanced
    · rw [hregistrar] at hv
      exact h.latest hv
    · rw [hattestor]
      exact h.attestor
    · rw [hregistrar]
      exact h.registered
  · obtain ⟨hregistrar, hattestor, hanswer⟩ := hcall
    refine ⟨⟨?_, ?_, fun hv => ?_, ?_, ?_⟩, .inr ⟨_, _, hanswer, ?_⟩⟩
    · rw [hregistrar]
      exact h.engine
    · rw [hregistrar]
      exact h.keyed.appended _
    · rw [hregistrar] at hv
      exact id_of_latest_appended h.latest hv
    · rw [hattestor, h.attestor]
      rfl
    · rw [hregistrar]
      exact JsMap.mem_keys_set.mpr (.inr h.registered)
    · show s.attestor.lastStateId = some attestationId
      rw [h.attestor]

/-- The first call that is stored registers the root. -/
theorem continuing_attestCall_new :
    Continuing (AttestService.new.attestCall canonicalize report attestedAt).1 := by
  have hkeyed : AttestService.new.registrar.Keyed := Registrar.keyed_new _
  have hcall := @attestCall_of_continues canonicalize .new report attestedAt rfl hkeyed.cursor
    (.inl ⟨rfl, List.not_mem_nil⟩)
  dsimp only at hcall
  rw [if_neg (hkeyed.next_not_mem (show (0 : ℤ) < safeBound by decide) _)] at hcall
  obtain ⟨hregistrar, hattestor, -⟩ := hcall
  refine ⟨?_, ?_, fun hv => ?_, hattestor, ?_⟩
  · rw [hregistrar]
    rfl
  · rw [hregistrar]
    exact hkeyed.appended _
  · rw [hregistrar] at hv
    refine id_of_latest_appended (fun hnew => ?_) hv
    cases hnew
  · rw [hregistrar]
    exact JsMap.mem_keys_set.mpr (.inl rfl)

theorem Forgetful.lastStateId_eq (h : Forgetful s) : s.attestor.lastStateId = none := by
  rw [h.attestor]
  rfl

theorem Forgetful.stateId_eq (h : Forgetful s) : s.attestor.stateId = attestationId := by
  rw [h.attestor]
  rfl

/-- A root is rejected where the registrar has the attestation. -/
theorem Forgetful.rejected (h : Forgetful s)
    (hmem : attestationId ∈ s.registrar.latestById.keys) :
    ∃ message, (s.attestCall canonicalize report attestedAt).2 =
      .answered (.error (.rejected message)) none := by
  obtain ⟨message, hrejected⟩ :
      ∃ message, s.attestor.attestInner canonicalize s.registrar report attestedAt =
        ((s.registrar, s.attestor), .error (.rejected message)) :=
    Attestor.attestInner_of_forgotten h.engine h.lastStateId_eq (h.stateId_eq ▸ hmem)
  have hanswer : (s.attestCall canonicalize report attestedAt).2 =
      .answered (s.attestor.attestInner canonicalize s.registrar report attestedAt).2
        (if (s.attestor.attestInner canonicalize s.registrar report attestedAt).2.isOk then
          (s.attestor.attestInner canonicalize s.registrar report attestedAt).1.1.latestById.get?
            s.attestor.stateId else none) := rfl
  rw [hrejected] at hanswer
  exact ⟨message, hanswer⟩

/-- What a service that has forgotten its attestation answers: it is rejected, or it registers a
root. -/
theorem Forgetful.attestCall (h : Forgetful s) :
    (∃ message, (s.attestCall canonicalize report attestedAt).2 =
      .answered (.error (.rejected message)) none) ∨
    ∃ record version, (s.attestCall canonicalize report attestedAt).2 =
      .answered (.ok record) (some version) ∧ version.parentId = none := by
  by_cases hmem : attestationId ∈ s.registrar.latestById.keys
  · exact .inl (h.rejected hmem)
  · have hempty := h.registered.resolve_left hmem
    have hcall := @attestCall_of_continues canonicalize s report attestedAt h.engine
      h.linked.cursor (.inl ⟨h.lastStateId_eq, h.stateId_eq ▸ hmem⟩)
    dsimp only at hcall
    rw [if_neg (by rw [hempty]; exact List.not_mem_nil)] at hcall
    exact .inr ⟨_, _, hcall.2.2, h.lastStateId_eq⟩

end calls

/-! ## Restarts -/

/-- A registrar that is restored has every state of the snapshot. -/
theorem mem_keys_of_fromSnapshot {raw : RawSnapshot} {options : RehydrationOptions} {r : Registrar}
    (h : Registrar.fromSnapshot raw options = .ok (some r)) :
    ∃ snapshot, validateSnapshot raw = .ok snapshot ∧
      (∀ id ∈ snapshot.stateIds, id ∈ r.latestById.keys) ∧
      (snapshot.stateIds = [] → r.versionsByKey.keys = []) := by
  obtain ⟨state, hstate, h⟩ := bind_eq_ok.mp h
  obtain ⟨snapshot, hs⟩ := Rehydrates.of_eq_ok hstate
  obtain ⟨engine, hengine, hr⟩ := Option.bind_eq_some_iff.mp (Except.ok.inj h)
  obtain ⟨vs, hvs, hids, hinject⟩ := hs.inject (hs.own_of_inject hr) engine
  obtain rfl := Option.some.inj (hinject.symm.trans hr)
  refine ⟨snapshot, hs.valid, fun id hid => ?_, fun hnil => ?_⟩
  · obtain ⟨w, hw, rfl⟩ := List.mem_map.mp (hids ▸ hs.mem_keys.mpr hid)
    have hnodup : (vs.map RegisteredState.id).Nodup := hids ▸ state.registry.nodup
    apply JsMap.mem_keys.mpr
    exact ⟨w, (Registrar.get?_latest_restoredWith hnodup fun v hv => (hvs v hv).versionKey).mpr
      ⟨hw, rfl⟩⟩
  · have hempty : vs = [] := by
      apply List.eq_nil_iff_forall_not_mem.mpr
      intro v hv
      have hmem := (hvs v hv).registered
      rw [hnil] at hmem
      cases hmem
    rw [hempty]
    rfl

/-- The ids of a snapshot are those of the frontier. -/
theorem stateIds_eq_of_valid {r : Registrar} {bare : Bool} {snapshot : RegistrarSnapshotV1}
    (h : validateSnapshot ⟨r.snapshotValue, bare⟩ = .ok snapshot) :
    snapshot.stateIds = r.frontier.map RegisteredState.id := by
  obtain ⟨l, o, a, hschema⟩ := validateSnapshot_eq_ok.mp h
  have hids : r.snapshotValue.get? (js "state_ids") =
      some (.array (r.frontier.map fun e => .str e.id)) := by
    simp [Registrar.snapshotValue, literalJson]
  have hget := JsonValue.get?_eq_some.mp hids
  have htexts := Option.some.inj (hschema.stateIds.symm.trans hget)
  have harray : (JsonValue.array (r.frontier.map fun e => JsonValue.str e.id)).val =
      .arr ((r.frontier.map RegisteredState.id).map Json.str) := by
    change Json.arr (List.map _ (List.map _ _)) = _
    rw [List.map_map, List.map_map]
    rfl
  rw [harray] at htexts
  exact List.map_injective_iff.mpr (fun _ _ => Json.str.inj) (Json.arr.inj htexts)

section restarts

variable {canonicalize : IntegrityContent → String} {s s' : AttestService} {visits : List Visit}
  {report : ReconciliationReport} {attestedAt : JsString}

/-- After a restart the attestor has forgotten what the registrar has. -/
theorem forgetful_restart (hlinked : ∀ {id v}, s.registrar.latestById.get? id = some v → v.id = id)
    (h : attestationId ∈ s.registrar.latestById.keys ∨ s.registrar.latestById.keys = []) :
    Forgetful s.restart := by
  have hsettled := settled_restart s
  have hattestor : s.restart.attestor = .new attestorId := by rw [AttestService.restart]
  refine ⟨hsettled.engine, hsettled.linked, hattestor, ?_⟩
  have hids : (s.registrar.frontier.map RegisteredState.id).Perm s.registrar.latestById.keys := by
    rw [← Registrar.map_id_values hlinked]
    exact s.registrar.frontier_perm.map _
  rw [AttestService.restart]
  split
  · rename_i registrar hrestored
    obtain ⟨snapshot, hvalid, hmem, hempty⟩ := mem_keys_of_fromSnapshot hrestored
    have hstates := stateIds_eq_of_valid hvalid
    rcases h with hregistered | hnone
    · left
      apply hmem
      rw [hstates]
      exact hids.mem_iff.mpr hregistered
    · right
      apply hempty
      rw [hstates]
      rw [hnone] at hids
      exact hids.eq_nil
  · exact .inr rfl

theorem Continuing.restart (h : Continuing s) : Forgetful s.restart :=
  forgetful_restart h.latest (.inl h.registered)

theorem Forgetful.restart (h : Forgetful s) : Forgetful s.restart := by
  apply forgetful_restart fun hv => (h.linked.latest hv).1
  refine h.registered.imp_right fun hempty => ?_
  apply List.eq_nil_iff_forall_not_mem.mpr
  intro id hid
  obtain ⟨v, hv⟩ := JsMap.mem_keys.mp hid
  have hversion := JsMap.mem_keys.mpr ⟨v, (h.linked.latest hv).2⟩
  rw [hempty] at hversion
  cases hversion

/-- The next call that is stored tells the two apart. -/
theorem answers_ne_of_forgetful (h' : Forgetful s') (h : Continuing s)
    (hstores : ∃ w ∈ visits, w.stores = true) :
    s'.answers canonicalize visits ≠ s.answers canonicalize (visits.filter Visit.isAttest) := by
  induction visits generalizing s' with
  | nil =>
    obtain ⟨w, hw, -⟩ := hstores
    cases hw
  | cons v visits ih =>
    cases v with
    | attest stored report attestedAt =>
      cases stored with
      | false =>
        intro heq
        refine ih h' ?_ (List.cons.inj heq).2
        obtain ⟨w, hw, hstore⟩ := hstores
        rcases List.mem_cons.mp hw with rfl | hw
        · cases hstore
        · exact ⟨w, hw, hstore⟩
      | true =>
        intro heq
        have hanswer : (s'.attestCall canonicalize report attestedAt).2 =
            (s.attestCall canonicalize report attestedAt).2 := (List.cons.inj heq).1
        obtain ⟨-, ⟨key, hkey⟩ | ⟨record, version, hversion, hparent⟩⟩ :=
          @Continuing.attestCall canonicalize s report attestedAt h
        · rcases @Forgetful.attestCall canonicalize s' report attestedAt h' with
            ⟨message, hrejected⟩ | ⟨record, version, hroot, -⟩
          · rw [hrejected, hkey] at hanswer
            cases hanswer
          · rw [hroot, hkey] at hanswer
            cases hanswer
        · rcases @Forgetful.attestCall canonicalize s' report attestedAt h' with
            ⟨message, hrejected⟩ | ⟨record', version', hroot, hnone⟩
          · rw [hrejected, hversion] at hanswer
            cases hanswer
          · rw [hroot, hversion] at hanswer
            cases hanswer
            cases hnone.symm.trans hparent
    | restart =>
      refine ih h'.restart ?_
      obtain ⟨w, hw, hstore⟩ := hstores
      rcases List.mem_cons.mp hw with rfl | hw
      · cases hstore
      · exact ⟨w, hw, hstore⟩

theorem answers_ne_of_continuing (h : Continuing s) (hrestarts : RestartsBefore visits) :
    s.answers canonicalize visits ≠ s.answers canonicalize (visits.filter Visit.isAttest) := by
  induction visits generalizing s with
  | nil =>
    obtain ⟨w, -, hsub⟩ := hrestarts
    cases hsub
  | cons v visits ih =>
    cases v with
    | attest stored report attestedAt =>
      have hrest := restartsBefore_attest_cons.mp hrestarts
      intro heq
      cases stored with
      | false => exact ih h hrest (List.cons.inj heq).2
      | true => exact ih h.attestCall.1 hrest (List.cons.inj heq).2
    | restart =>
      rw [answers_restart_cons, filter_restart_cons]
      exact answers_ne_of_forgetful h.restart h (restartsBefore_restart_cons.mp hrestarts)

theorem restartsBefore_of_interrupted (h : Interrupted visits) : RestartsBefore visits := by
  obtain ⟨v, w, -, hw, hsub⟩ := h
  exact ⟨w, hw, (List.sublist_cons_self v _).trans hsub⟩

/-- The calls answer as they do without the restarts exactly where no restart falls between two
calls that are stored. -/
theorem survives_iff (canonicalize : IntegrityContent → String) (visits : List Visit) :
    Survives canonicalize visits ↔ ¬ Interrupted visits := by
  induction visits with
  | nil =>
    refine iff_of_true rfl ?_
    rintro ⟨v, w, -, -, hsub⟩
    cases hsub
  | cons v visits ih =>
    cases v with
    | attest stored report attestedAt =>
      rw [interrupted_attest_cons]
      cases stored with
      | false =>
        rw [or_iff_right fun h => Bool.false_ne_true h.1, ← ih]
        exact ⟨fun h => (List.cons.inj h).2, fun h => congrArg (AttestAnswer.notStored :: ·) h⟩
      | true =>
        rw [and_iff_right rfl, or_iff_left_of_imp restartsBefore_of_interrupted]
        constructor
        · intro h hrestarts
          exact answers_ne_of_continuing continuing_attestCall_new hrestarts (List.cons.inj h).2
        · intro h
          exact congrArg (_ :: ·) (answers_filter_of_not_restartsBefore h)
    | restart =>
      have hrestart : AttestService.new.answers canonicalize (.restart :: visits) =
          AttestService.new.answers canonicalize visits := by
        rw [answers_restart_cons, restart_new]
      rw [interrupted_restart_cons, ← ih, Survives, Survives, hrestart, filter_restart_cons]

end restarts

/-- A service that is started again between two calls. -/
def interruptedVisits : List Visit :=
  [.attest true (emptyReport "a") [], .restart, .attest true (emptyReport "b") []]

/-- The second call is rejected after the restart, and accepted without it. -/
theorem not_survives_interruptedVisits : ¬ Survives plainText interruptedVisits ∧
    ∃ first message, AttestService.new.answers plainText interruptedVisits =
      [first, .answered (.error (.rejected message)) none] := by
  have hfirst : Continuing (AttestService.new.attestCall plainText (emptyReport "a") []).1 :=
    continuing_attestCall_new
  constructor
  · intro hsurvives
    have hrestarts : RestartsBefore [.restart, .attest true (emptyReport "b") []] :=
      ⟨_, rfl, List.Sublist.refl _⟩
    exact answers_ne_of_continuing hfirst hrestarts (List.cons.inj hsurvives).2
  · have hmem : attestationId ∈ (AttestService.new.attestCall plainText (emptyReport "a")
        []).1.restart.registrar.latestById.keys := by
      decide +kernel
    obtain ⟨message, hrejected⟩ :=
      @Forgetful.rejected plainText _ (emptyReport "b") [] hfirst.restart hmem
    exact ⟨_, message, congrArg (fun answer => [_, answer]) hrejected⟩

end Attestia.Node
