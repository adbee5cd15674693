import Attestia.Lib.System
import Attestia.Reconciler.Attestor
import Attestia.Registrum.TemporalStability

/-!
# Attestations of a service

`attest` of a persistent service appends the event of a registration before it waits for the lock
of the attestor. A restart keeps what the registrar has registered, and not what the attestor
remembers.
-/

namespace Attestia.Node

open Lib JsonNumber Reconciler Registrum

/-- The payload of a `STATE_REGISTERED` event. -/
structure StateRegistered where
  stateId : StateID
  parentId : Option StateID
  orderIndex : ℤ

/-- What attestations read and write of a service. -/
structure AttestService where
  registrar : Registrar
  attestor : Attestor
  /-- The reports of the calls that wait for the lock, which is granted in the order of the calls. -/
  waiting : List ReconciliationReport
  /-- The `STATE_REGISTERED` events of the log. -/
  stateRegistered : List StateRegistered
  /-- What the registrar has registered for the calls. -/
  registered : List RegisteredState

/-- The event of a registration, stamped with the frontier before the call waits. -/
def stateRegisteredEvent (registrar : Registrar) (report : ReconciliationReport) :
    StateRegistered where
  stateId := report.id
  parentId := (registrar.frontier.map RegisteredState.id).getLast?
  orderIndex := roundDouble (roundDouble (registrar.currentOrderIndex - 1) + 1)

def attestorId : JsString := js "attestia-node"

namespace AttestService

def new : AttestService := ⟨.new (.legacy initialInvariants), .new attestorId, [], [], []⟩

/-- A call of `attest` up to the lock; it throws where its event is not stored. -/
def attest (s : AttestService) (stored : Bool) (report : ReconciliationReport) : AttestService :=
  if stored then
    { s with
      stateRegistered := s.stateRegistered ++ [stateRegisteredEvent s.registrar report]
      waiting := s.waiting ++ [report] }
  else s

section

variable (canonicalize : IntegrityContent → String)

/-- A call that has the lock, with the calls behind it. -/
def proceedWith (s : AttestService) (report : ReconciliationReport)
    (waiting : List ReconciliationReport) (attestedAt : JsString) :
    AttestService × Except AttestFault AttestationRecord :=
  let call := s.attestor.attestInner canonicalize s.registrar report attestedAt
  ({ s with
    registrar := call.1.1
    attestor := call.1.2
    waiting := waiting
    registered := s.registered ++
      if call.2.isOk then (call.1.1.latestById.get? s.attestor.stateId).toList else [] }, call.2)

/-- The first of the calls that wait is granted the lock. -/
def proceed (s : AttestService) (attestedAt : JsString) :
    Option (AttestService × Except AttestFault AttestationRecord) :=
  match s.waiting with
  | [] => none
  | report :: waiting => some (s.proceedWith canonicalize report waiting attestedAt)

end

/-- A service that is stopped and started again, from the snapshot that the stop has written. -/
def restart (s : AttestService) : AttestService :=
  { s with
    registrar :=
      match Registrar.fromSnapshot ⟨s.registrar.snapshotValue, false⟩
        ⟨.legacy, some initialInvariants, none⟩ with
      | .ok (some registrar) => registrar
      | _ => .new (.legacy initialInvariants)
    attestor := .new attestorId }

end AttestService

/-! ## Overlapping calls -/

/-- A call up to the lock, the call that is granted it, or a restart while none waits. -/
inductive AttestLabel where
  | attest (stored : Bool) (report : ReconciliationReport)
  | proceed (attestedAt : JsString)
  | restart

def attestSystem (canonicalize : IntegrityContent → String) :
    System AttestService AttestLabel where
  init s := s = .new
  next s
    | .attest stored report => some (s.attest stored report)
    | .proceed attestedAt => (s.proceed canonicalize attestedAt).map Prod.fst
    | .restart => if s.waiting = [] then some s.restart else none

/-- The events of the log are those of the registrations, in their order, with the indices and the
parents that they were given. -/
def LogAgrees (s : AttestService) : Prop :=
  s.stateRegistered.map (fun e => (e.orderIndex, e.parentId)) =
    s.registered.map fun v => (v.orderIndex, v.parentId)

/-- The attestor remembers the last registration, if there is one. -/
def Remembers (s : AttestService) : Prop :=
  s.attestor.lastStateId = none → s.registrar.latestById.keys = []

/-- A call is made while none waits, by an attestor that remembers. -/
def InTurn (s : AttestService) : AttestLabel → Prop
  | .attest true _ =>
    s.waiting = [] ∧ Remembers s ∧ s.registrar.currentOrderIndex < safeBound
  | _ => True

section turns

variable {canonicalize : IntegrityContent → String} {s : AttestService}

/-- What holds between calls that are made in turn. -/
structure Settled (s : AttestService) : Prop where
  engine : s.registrar.engine = .legacy initialInvariants
  linked : s.registrar.Linked
  /-- The one state that the attestor registers. -/
  remembered (id : StateID) (h : s.attestor.lastStateId = some id) :
    id = s.attestor.stateId ∧ s.registrar.latestById.keys = [id]

/-- At most one call is under way, and its event tells what it will be given. -/
structure Turn (s : AttestService) : Prop extends Settled s where
  idle (h : s.waiting = []) : LogAgrees s
  waits (report : ReconciliationReport) (waiting : List ReconciliationReport)
    (h : s.waiting = report :: waiting) :
    waiting = [] ∧ Remembers s ∧ s.registrar.currentOrderIndex < safeBound ∧
      s.stateRegistered.map (fun e => (e.orderIndex, e.parentId)) =
        s.registered.map (fun v => (v.orderIndex, v.parentId)) ++
          [(s.registrar.currentOrderIndex, s.attestor.lastStateId)]

theorem Settled.continues (h : Settled s) (hremembers : Remembers s) :
    s.attestor.Continues s.registrar := by
  cases hlast : s.attestor.lastStateId with
  | none =>
    left
    refine ⟨hlast, ?_⟩
    rw [hremembers hlast]
    exact List.not_mem_nil
  | some id =>
    right
    obtain ⟨rfl, hkeys⟩ := h.remembered id hlast
    refine ⟨hlast, ?_⟩
    rw [hkeys]
    exact List.mem_singleton_self _

/-- The last state of the frontier is the one that the attestor remembers. -/
theorem Settled.getLast?_frontier (h : Settled s) (hremembers : Remembers s) :
    (s.registrar.frontier.map RegisteredState.id).getLast? = s.attestor.lastStateId := by
  have hperm : (s.registrar.frontier.map RegisteredState.id).Perm s.registrar.latestById.keys := by
    rw [← Registrar.map_id_values fun hv => (h.linked.latest hv).1]
    exact s.registrar.frontier_perm.map _
  cases hlast : s.attestor.lastStateId with
  | none =>
    rw [hremembers hlast] at hperm
    rw [hperm.eq_nil]
    rfl
  | some id =>
    rw [(h.remembered id hlast).2] at hperm
    rw [List.perm_singleton.mp hperm]
    rfl

/-- An event is stamped with what the next registration is given. -/
theorem Settled.stamp (h : Settled s) (hremembers : Remembers s)
    (hlt : s.registrar.currentOrderIndex < safeBound) (report : ReconciliationReport) :
    (stateRegisteredEvent s.registrar report).orderIndex = s.registrar.currentOrderIndex ∧
      (stateRegisteredEvent s.registrar report).parentId = s.attestor.lastStateId := by
  have hcursor := h.linked.cursor
  refine ⟨?_, h.getLast?_frontier hremembers⟩
  show roundDouble (roundDouble (s.registrar.currentOrderIndex - 1) + 1) = _
  rw [roundDouble_sub_one hcursor hlt.le, sub_add_cancel]
  apply roundDouble_of_le _ hlt.le
  simp only [safeBound]
  omega

/-- A call in turn is accepted, as a version with the current index and the remembered parent. -/
theorem Settled.proceedWith (h : Settled s) (hremembers : Remembers s)
    (hlt : s.registrar.currentOrderIndex < safeBound) (report : ReconciliationReport)
    (waiting : List ReconciliationReport) (attestedAt : JsString) :
    (s.proceedWith canonicalize report waiting attestedAt).1 =
      let t := s.attestor.transition canonicalize report attestedAt
      { s with
        registrar := s.registrar.appended t
        attestor := { s.attestor with lastStateId := some s.attestor.stateId }
        waiting := waiting
        registered := s.registered ++ [s.registrar.nextVersion t] } := by
  have hcall : s.attestor.attestInner canonicalize s.registrar report attestedAt = _ :=
    Attestor.attestInner_of_continues h.engine h.linked.cursor (h.continues hremembers)
  dsimp only at hcall
  rw [if_neg (h.linked.next_not_mem hlt _)] at hcall
  rw [AttestService.proceedWith, hcall]
  dsimp only
  rw [Attestor.get?_latest_appended]
  rfl

theorem Settled.appended (h : Settled s) (hremembers : Remembers s)
    (hlt : s.registrar.currentOrderIndex < safeBound) (report : ReconciliationReport)
    (waiting : List ReconciliationReport) (attestedAt : JsString) :
    Settled (s.proceedWith canonicalize report waiting attestedAt).1 := by
  rw [h.proceedWith hremembers hlt]
  refine ⟨h.engine, h.linked.appended hlt _, fun id hid => ?_⟩
  obtain rfl := Option.some.inj hid
  refine ⟨rfl, ?_⟩
  show (s.registrar.latestById.set s.attestor.stateId _).keys = [s.attestor.stateId]
  rw [JsMap.keys_set]
  rcases h.continues hremembers with ⟨hlast, hnew⟩ | ⟨hlast, hmem⟩
  · rw [if_neg hnew, hremembers hlast]
    rfl
  · rw [if_pos hmem]
    exact (h.remembered _ hlast).2

theorem settled_restart (s : AttestService) : Settled s.restart := by
  have hnew : ∀ id, s.restart.attestor.lastStateId ≠ some id := by
    intro id hid
    cases hid
  rw [AttestService.restart]
  split
  · rename_i registrar hrestored
    obtain ⟨_, engine, vs, -, hengine, -, -, rfl⟩ := fromSnapshot_eq_ok_some hrestored
    refine ⟨?_, Registrar.linked_of_fromSnapshot hrestored, fun id hid => absurd hid (hnew id)⟩
    exact (Option.some.inj hengine).symm
  · exact ⟨rfl, Registrar.linked_new _, fun id hid => absurd hid (hnew id)⟩

theorem Turn.attest (h : Turn s) (hwaiting : s.waiting = []) (hremembers : Remembers s)
    (hlt : s.registrar.currentOrderIndex < safeBound) (report : ReconciliationReport) :
    Turn (s.attest true report) := by
  obtain ⟨hindex, hparent⟩ := h.stamp hremembers hlt report
  rw [AttestService.attest, if_pos rfl, hwaiting, List.nil_append]
  refine ⟨⟨h.engine, h.linked, h.remembered⟩, fun hidle => ?_, fun report' waiting hcall => ?_⟩
  · cases hidle
  · cases hcall
    refine ⟨rfl, hremembers, hlt, ?_⟩
    rw [List.map_append, List.map_singleton, hindex, hparent]
    exact congrArg (· ++ _) (h.idle hwaiting)

theorem Turn.proceed (h : Turn s) {report : ReconciliationReport}
    {waiting : List ReconciliationReport} (hwaiting : s.waiting = report :: waiting)
    (attestedAt : JsString) : Turn (s.proceedWith canonicalize report waiting attestedAt).1 := by
  obtain ⟨rfl, hremembers, hlt, hlog⟩ := h.waits report waiting hwaiting
  refine ⟨h.appended hremembers hlt report [] attestedAt, fun _ => ?_, fun _ _ hcall => ?_⟩
  · rw [h.proceedWith hremembers hlt, LogAgrees]
    dsimp only
    rw [List.map_append]
    exact hlog
  · rw [h.proceedWith hremembers hlt] at hcall
    cases hcall

theorem Turn.restart (h : Turn s) (hwaiting : s.waiting = []) : Turn s.restart := by
  have hlog : LogAgrees s.restart := by
    rw [LogAgrees, AttestService.restart]
    exact h.idle hwaiting
  have hnone : s.restart.waiting = [] := by
    rw [AttestService.restart]
    exact hwaiting
  refine ⟨settled_restart s, fun _ => hlog, fun _ _ hcall => ?_⟩
  rw [hnone] at hcall
  cases hcall

/-- Where calls are made in turn, the log agrees with the registrar whenever none waits. -/
theorem logAgrees_of_turns (hs : (attestSystem canonicalize).ReachableVia InTurn s)
    (hidle : s.waiting = []) : LogAgrees s := by
  have hturn : Turn s := by
    refine hs.invariant ?_ ?_
    · rintro _ rfl
      refine ⟨⟨rfl, Registrar.linked_new _, fun id hid => ?_⟩, fun _ => rfl, fun _ _ hcall => ?_⟩
      · cases hid
      · cases hcall
    · intro s label s' h hok hnext
      cases label with
      | attest stored report =>
        obtain rfl := Option.some.inj hnext
        cases stored with
        | false => exact h
        | true => exact h.attest hok.1 hok.2.1 hok.2.2 report
      | proceed attestedAt =>
        obtain ⟨call, hcall, rfl⟩ := Option.map_eq_some_iff.mp hnext
        cases hwaiting : s.waiting with
        | nil =>
          rw [AttestService.proceed, hwaiting] at hcall
          cases hcall
        | cons report waiting =>
          rw [AttestService.proceed, hwaiting] at hcall
          obtain rfl := Option.some.inj hcall
          exact h.proceed hwaiting attestedAt
      | restart =>
        obtain ⟨hwaiting, hrestarted⟩ : s.waiting = [] ∧ s.restart = s' := by
          have hnext' : (if s.waiting = [] then some s.restart else none) = some s' := hnext
          rwa [Option.ite_none_right_eq_some, Option.some.injEq] at hnext'
        exact hrestarted ▸ h.restart hwaiting
  exact hturn.idle hidle

end turns

/-- The report of a run without intents, entries and events. -/
def emptyReport (id : String) : ReconciliationReport where
  id := js id
  scope := ⟨none, none, none, none, none⟩
  timestamp := js "2026-01-01T00:00:00.000Z"
  intentLedgerMatches := []
  ledgerChainMatches := []
  intentChainMatches := []
  summary := ⟨0, 0, 0, 0, 0, 0, true, [], [], .empty⟩

def plainText : IntegrityContent → String := fun _ => "{}"

/-- A service behind the first of two calls. -/
def attestedOnce : AttestService :=
  ((AttestService.new.attest true (emptyReport "a")).proceedWith plainText (emptyReport "a") []
    []).1

def attestedTwice : AttestService :=
  ((attestedOnce.attest true (emptyReport "b")).proceedWith plainText (emptyReport "b") [] []).1

/-- Two calls in turn: the second event names the first registration as its parent. -/
theorem logAgrees_of_turns_two : LogAgrees attestedTwice ∧
    attestedTwice.stateRegistered.map (fun e => (e.orderIndex, e.parentId.isSome)) =
      [(0, false), (1, true)] := by
  have hremembered : attestedOnce.attestor.lastStateId.isSome ∧
      attestedOnce.registrar.currentOrderIndex < safeBound := by
    decide +kernel
  have hfirst : InTurn AttestService.new (.attest true (emptyReport "a")) :=
    ⟨rfl, fun _ => rfl, show (0 : ℤ) < safeBound by decide⟩
  have hsecond : InTurn attestedOnce (.attest true (emptyReport "b")) := by
    refine ⟨rfl, fun hlast => ?_, hremembered.2⟩
    rw [hlast] at hremembered
    cases hremembered.1
  have honce : (attestSystem plainText).ReachableVia InTurn attestedOnce :=
    .step (e := .proceed []) (.step (.init rfl) hfirst rfl) trivial rfl
  have htwice : (attestSystem plainText).ReachableVia InTurn attestedTwice :=
    .step (e := .proceed []) (.step honce hsecond rfl) trivial rfl
  refine ⟨logAgrees_of_turns htwice rfl, ?_⟩
  decide +kernel

/-- Two calls that overlap. -/
def overlapped : AttestService :=
  (((AttestService.new.attest true (emptyReport "a")).attest true
    (emptyReport "b")).proceedWith plainText (emptyReport "a") [emptyReport "b"] []).1.proceedWith
      plainText (emptyReport "b") [] [] |>.1

/-- Both events of two calls that overlap are stamped with the first index. -/
theorem overlapped_disagrees : ¬ ∀ canonicalize s,
    (attestSystem canonicalize).Reachable s → s.waiting = [] → LogAgrees s := by
  intro hclaim
  have hreachable : (attestSystem plainText).Reachable overlapped := by
    have h₀ : (attestSystem plainText).Reachable .new := .init rfl
    have h₁ := h₀.next (e := .attest true (emptyReport "a")) rfl
    have h₂ := h₁.next (e := .attest true (emptyReport "b")) rfl
    have h₃ := h₂.next (e := .proceed []) rfl
    exact h₃.next (e := .proceed []) rfl
  have hagrees := hclaim _ _ hreachable rfl
  revert hagrees
  rw [LogAgrees]
  decide +kernel

end Attestia.Node
