import Attestia.EventStore.SnapshotStore
import Attestia.Ledger.Snapshot
import Attestia.Node.Attestation
import Attestia.Treasury.Treasury
import Attestia.Vault.Vault
import Attestia.Witness.GovernanceStore

/-!
# Restoring a service

`restoreAll` puts what each snapshot restores into the service. Behind that it compares the log
with the position in the manifest, and with the version of no other snapshot.
-/

namespace Attestia.Node

open Lib JsonNumber EventStore Reconciler Registrum Witness

structure SnapshotManifest where
  eventPosition : ℕ
  ts : JsString

/-- The streams of a snapshot store that a service writes and reads. -/
structure SnapshotSet where
  ledger : SnapshotStream Ledger.LedgerSnapshot
  registrar : SnapshotStream RawSnapshot
  vault : SnapshotStream Vault.VaultSnapshot
  treasury : SnapshotStream Treasury.TreasurySnapshot
  governance : SnapshotStream (List GovernanceChangeEvent)
  manifest : SnapshotStream SnapshotManifest

/-- What a restore may replace; of a reconciler, its attestor. -/
structure Subsystems where
  ledger : Ledger
  registrar : Registrar
  reconciler : Attestor
  vault : Vault
  treasury : Treasury
  governanceStore : GovernanceStore

structure AttestiaService extends Subsystems where
  /-- There is none where the service is not persistent. -/
  snapshotStore : Option SnapshotSet
  allowSnapshotAheadOfLog : Bool
  /-- The position of the event log. -/
  globalPosition : ℕ
  ready : Bool

structure RestoreAheadOfLogError where
  stampedPosition : ℕ
  livePosition : ℕ

def RestoreAheadOfLogError.message (e : RestoreAheadOfLogError) : JsString :=
  js "Snapshot is ahead of the durable event log (snapshot@" ++
    JsonValue.numberString (.ofNat e.stampedPosition) ++ js ", log@" ++
    JsonValue.numberString (.ofNat e.livePosition) ++
    js "); refusing to adopt a snapshot newer than its own audit log. Set " ++
    js "persistence.allowSnapshotAheadOfLog to override for a deliberate recovery."

section

variable {σ τ : Type}

/-- One subsystem of `restoreAll`, with the version of the snapshot where it is adopted. What does
not load and what its subsystem refuses leave the subsystem as it is. -/
def restoreOr (stream : SnapshotStream σ) (restore : σ → Option τ) (current : τ) : τ × List ℚ :=
  match stream.load with
  | none => (current, [])
  | some (version, state) =>
    match restore state with
    | none => (current, [])
    | some restored => (restored, [version])

end

/-- A registrar that is restored gets a reconciler of its own. -/
def restoreRegistrar (raw : RawSnapshot) : Option (Registrar × Attestor) :=
  match Registrar.fromSnapshot raw ⟨.legacy, some initialInvariants, none⟩ with
  | .ok (some registrar) => some (registrar, .new attestorId)
  | _ => none

namespace Subsystems

def restoreFrom (s : Subsystems) (snaps : SnapshotSet) : Subsystems × List ℚ :=
  let ledger := restoreOr snaps.ledger (fun snap => (Ledger.fromSnapshot snap).toOption) s.ledger
  let registrar := restoreOr snaps.registrar restoreRegistrar (s.registrar, s.reconciler)
  let vault := restoreOr snaps.vault (fun snap => (Vault.restoreFromSnapshot snap).toOption) s.vault
  let treasury :=
    restoreOr snaps.treasury (fun snap => (Treasury.fromSnapshot snap).toOption) s.treasury
  let governanceStore := restoreOr snaps.governance
    (fun events => some (s.governanceStore.replayFrom events)) s.governanceStore
  (⟨ledger.1, registrar.1.1, registrar.1.2, vault.1, treasury.1, governanceStore.1⟩,
    ledger.2 ++ registrar.2 ++ vault.2 ++ treasury.2 ++ governanceStore.2)

end Subsystems

/-- The position in the manifest, zero where none loads. -/
def SnapshotSet.stampedPosition (snaps : SnapshotSet) : ℕ :=
  match snaps.manifest.load with
  | none => 0
  | some (_, manifest) => manifest.eventPosition

def SnapshotSet.empty : SnapshotSet := ⟨.empty, .empty, .empty, .empty, .empty, .empty⟩

/-- How a restore ends, with the versions of the snapshots that it has adopted. -/
structure RestoreOutcome where
  service : AttestiaService
  adopted : List ℚ
  result : Except RestoreAheadOfLogError Unit

namespace AttestiaService

/-- The constructor over a snapshot store and a log; a service is ready before it restores. -/
def new (ownerId defaultCurrency : JsString) (defaultDecimals : Number) (now : JsString)
    (snapshotStore : Option SnapshotSet) (allowSnapshotAheadOfLog : Bool) (globalPosition : ℕ) :
    Except Treasury.FundingError AttestiaService :=
  (Treasury.new ⟨ownerId, ownerId ++ js "-treasury", defaultCurrency, defaultDecimals,
    (js "gatekeeper-1", js "gatekeeper-2")⟩).map fun treasury =>
      { ledger := .new
        registrar := .new (.legacy initialInvariants)
        reconciler := .new attestorId
        vault := .new ⟨ownerId, defaultCurrency, defaultDecimals⟩
        treasury := treasury
        governanceStore := .new now
        snapshotStore := snapshotStore
        allowSnapshotAheadOfLog := allowSnapshotAheadOfLog
        globalPosition := globalPosition
        ready := true }

variable (s : AttestiaService)

def restoreAll : RestoreOutcome :=
  match s.snapshotStore with
  | none => ⟨s, [], .ok ()⟩
  | some snaps =>
    let restored := s.toSubsystems.restoreFrom snaps
    ⟨{ s with toSubsystems := restored.1 }, restored.2,
      if s.globalPosition < snaps.stampedPosition ∧ s.allowSnapshotAheadOfLog = false then
        .error ⟨snaps.stampedPosition, s.globalPosition⟩
      else .ok ()⟩

/-- The snapshots are restored first, and a refusal ends the start; `writable` is what the log says
of itself. -/
def initializeService (writable : Bool) : AttestiaService × Except RestoreAheadOfLogError Unit :=
  match s.restoreAll.result with
  | .error error => (s.restoreAll.service, .error error)
  | .ok () => ({ s.restoreAll.service with ready := writable }, .ok ())

def isReady : Bool := s.ready

/-- The saves of `snapshotAll` in their order, each under the position of the log. -/
def saves (keep : ℕ) (now : JsString) : List (SnapshotSet → SnapshotSet) :=
  let position : ℚ := s.globalPosition
  [fun snaps => { snaps with
      ledger := (snaps.ledger.save keep position (s.ledger.snapshot now) .saved).1 },
    fun snaps => { snaps with
      registrar := (snaps.registrar.save keep position s.registrar.snapshot .saved).1 },
    fun snaps => { snaps with
      vault := (snaps.vault.save keep position (s.vault.snapshot now) .saved).1 },
    fun snaps => { snaps with
      treasury := (snaps.treasury.save keep position (s.treasury.snapshot now) .saved).1 },
    fun snaps => { snaps with
      governance :=
        (snaps.governance.save keep position s.governanceStore.getEventHistory .saved).1 },
    fun snaps => { snaps with
      manifest := (snaps.manifest.save keep position ⟨s.globalPosition, now⟩ .saved).1 }]

/-- `snapshotAll` that is interrupted behind its first `done` saves. -/
def snapshotAll (keep : ℕ) (now : JsString) (done : ℕ) : AttestiaService :=
  { s with
    snapshotStore := s.snapshotStore.map fun snaps =>
      ((s.saves keep now).take done).foldl (fun snaps save => save snaps) snaps }

/-- No snapshot is adopted whose version is beyond the log, and a restore that is refused has
changed no subsystem and leaves a service that is not ready. -/
structure FailsClosed : Prop where
  adopted : s.allowSnapshotAheadOfLog = false →
    ∀ version ∈ s.restoreAll.adopted, version ≤ s.globalPosition
  refused : ∀ error, s.restoreAll.result = .error error →
    s.restoreAll.service.toSubsystems = s.toSubsystems ∧ s.restoreAll.service.isReady = false

end AttestiaService

/-! ## When a restore fails closed -/

section streams

variable {σ τ : Type} {stream : SnapshotStream σ} {restore : σ → Option τ} {current : τ}

/-- A snapshot that is restored has a version up to the position. -/
def Backed (stream : SnapshotStream σ) (restore : σ → Option τ) (position : ℕ) : Prop :=
  ∀ version state restored, stream.load = some (version, state) → restore state = some restored →
    version ≤ position

/-- A snapshot that is restored restores what is there already. -/
def Idle (stream : SnapshotStream σ) (restore : σ → Option τ) (current : τ) : Prop :=
  ∀ version state restored, stream.load = some (version, state) → restore state = some restored →
    restored = current

theorem restoreOr_cases (stream : SnapshotStream σ) (restore : σ → Option τ) (current : τ) :
    (restoreOr stream restore current = (current, []) ∧
      ∀ version state restored, stream.load = some (version, state) →
        restore state ≠ some restored) ∨
    ∃ version state restored, stream.load = some (version, state) ∧
      restore state = some restored ∧ restoreOr stream restore current = (restored, [version]) := by
  rw [restoreOr]
  rcases hload : stream.load with _ | ⟨version, state⟩ <;> dsimp only
  · exact .inl ⟨rfl, by rintro version state restored ⟨⟩⟩
  · rcases hrestore : restore state with _ | restored <;> dsimp only
    · refine .inl ⟨rfl, ?_⟩
      rintro _ _ restored ⟨⟩ h
      rw [hrestore] at h
      cases h
    · exact .inr ⟨version, state, restored, rfl, hrestore, rfl⟩

theorem backed_position_iff {position : ℕ} : Backed stream restore position ↔
    ∀ version ∈ (restoreOr stream restore current).2, version ≤ (position : ℚ) := by
  obtain ⟨heq, hnone⟩ | ⟨version, state, restored, hload, hrestore, heq⟩ :=
    restoreOr_cases stream restore current
  · rw [heq]
    exact iff_of_true (fun v st r hl hr => absurd hr (hnone v st r hl)) (List.forall_mem_nil _)
  · rw [heq, List.forall_mem_singleton]
    refine ⟨fun h => h _ _ _ hload hrestore, ?_⟩
    intro h v st r hl hr
    rw [hload] at hl
    cases hl
    exact h

theorem idle_iff :
    Idle stream restore current ↔ (restoreOr stream restore current).1 = current := by
  obtain ⟨heq, hnone⟩ | ⟨version, state, restored, hload, hrestore, heq⟩ :=
    restoreOr_cases stream restore current
  · rw [heq]
    exact iff_of_true (fun v st r hl hr => absurd hr (hnone v st r hl)) rfl
  · rw [heq]
    refine ⟨fun h => h _ _ _ hload hrestore, ?_⟩
    intro h v st r hl hr
    rw [hload] at hl
    cases hl
    rw [hrestore] at hr
    cases hr
    exact h

end streams

namespace Subsystems

variable (s : Subsystems) (snaps : SnapshotSet)

/-- No subsystem would restore a snapshot beyond the log. -/
structure AllBacked (position : ℕ) : Prop where
  ledger : Backed snaps.ledger (fun snap => (Ledger.fromSnapshot snap).toOption) position
  registrar : Backed snaps.registrar restoreRegistrar position
  vault : Backed snaps.vault (fun snap => (Vault.restoreFromSnapshot snap).toOption) position
  treasury : Backed snaps.treasury (fun snap => (Treasury.fromSnapshot snap).toOption) position
  governance : Backed snaps.governance
    (fun events => some (s.governanceStore.replayFrom events)) position

/-- Every subsystem that would restore a snapshot is what is restored. -/
structure AllIdle : Prop where
  ledger : Idle snaps.ledger (fun snap => (Ledger.fromSnapshot snap).toOption) s.ledger
  registrar : Idle snaps.registrar restoreRegistrar (s.registrar, s.reconciler)
  vault : Idle snaps.vault (fun snap => (Vault.restoreFromSnapshot snap).toOption) s.vault
  treasury : Idle snaps.treasury (fun snap => (Treasury.fromSnapshot snap).toOption) s.treasury
  governance : Idle snaps.governance
    (fun events => some (s.governanceStore.replayFrom events)) s.governanceStore

variable {s snaps}

theorem allBacked_iff {position : ℕ} : s.AllBacked snaps position ↔
    ∀ version ∈ (s.restoreFrom snaps).2, version ≤ (position : ℚ) := by
  simp only [restoreFrom, List.forall_mem_append]
  constructor
  · intro h
    exact ⟨⟨⟨⟨backed_position_iff.mp h.ledger, backed_position_iff.mp h.registrar⟩, backed_position_iff.mp h.vault⟩,
      backed_position_iff.mp h.treasury⟩, backed_position_iff.mp h.governance⟩
  · rintro ⟨⟨⟨⟨hledger, hregistrar⟩, hvault⟩, htreasury⟩, hgovernance⟩
    exact ⟨backed_position_iff.mpr hledger, backed_position_iff.mpr hregistrar, backed_position_iff.mpr hvault,
      backed_position_iff.mpr htreasury, backed_position_iff.mpr hgovernance⟩

theorem allIdle_iff : s.AllIdle snaps ↔ (s.restoreFrom snaps).1 = s := by
  constructor
  · intro h
    have hregistrar := idle_iff.mp h.registrar
    simp only [restoreFrom, idle_iff.mp h.ledger, hregistrar, idle_iff.mp h.vault,
      idle_iff.mp h.treasury, idle_iff.mp h.governance]
  · intro h
    simp only [restoreFrom] at h
    exact ⟨idle_iff.mpr (congrArg ledger h),
      idle_iff.mpr (Prod.ext (congrArg registrar h) (congrArg reconciler h)),
      idle_iff.mpr (congrArg vault h), idle_iff.mpr (congrArg treasury h),
      idle_iff.mpr (congrArg governanceStore h)⟩

end Subsystems

namespace AttestiaService

variable {s : AttestiaService} {snaps : SnapshotSet}

theorem restoreAll_of_store (h : s.snapshotStore = some snaps) :
    s.restoreAll.service = { s with toSubsystems := (s.toSubsystems.restoreFrom snaps).1 } ∧
    s.restoreAll.adopted = (s.toSubsystems.restoreFrom snaps).2 ∧
    ((∃ error, s.restoreAll.result = .error error) ↔
      s.globalPosition < snaps.stampedPosition ∧ s.allowSnapshotAheadOfLog = false) := by
  have heq : s.restoreAll = ⟨{ s with toSubsystems := (s.toSubsystems.restoreFrom snaps).1 },
      (s.toSubsystems.restoreFrom snaps).2,
      if s.globalPosition < snaps.stampedPosition ∧ s.allowSnapshotAheadOfLog = false then
        .error ⟨snaps.stampedPosition, s.globalPosition⟩
      else .ok ()⟩ := by
    rw [restoreAll, h]
  refine ⟨by rw [heq], by rw [heq], ?_⟩
  rw [heq]
  dsimp only
  split
  · exact iff_of_true ⟨_, rfl⟩ ‹_›
  · refine iff_of_false ?_ ‹_›
    rintro ⟨error, ⟨⟩⟩

/-- A refusal leaves a service as ready as it was. -/
theorem isReady_of_refused {error : RestoreAheadOfLogError} (writable : Bool)
    (h : s.restoreAll.result = .error error) :
    (s.initializeService writable).1.isReady = s.isReady := by
  rw [initializeService, h]
  rcases hstore : s.snapshotStore with _ | snaps
  · rw [restoreAll, hstore]
  · obtain ⟨hservice, -, -⟩ := restoreAll_of_store hstore
    dsimp only
    rw [hservice]
    rfl

/-- A restore fails closed exactly where the service has no snapshots or an override, or the log is
up to every snapshot that a subsystem restores, and up to the manifest too unless the service has
been stopped and no snapshot changes it. -/
theorem failsClosed_iff (s : AttestiaService) : s.FailsClosed ↔
    ∀ snaps, s.snapshotStore = some snaps → s.allowSnapshotAheadOfLog = false →
      s.toSubsystems.AllBacked snaps s.globalPosition ∧
        (snaps.stampedPosition ≤ s.globalPosition ∨
          s.toSubsystems.AllIdle snaps ∧ s.isReady = false) := by
  constructor
  · intro h snaps hstore hallow
    obtain ⟨hservice, hadopted, hresult⟩ := restoreAll_of_store hstore
    refine ⟨?_, ?_⟩
    · rw [Subsystems.allBacked_iff, ← hadopted]
      exact h.adopted hallow
    · rw [or_iff_not_imp_left, not_le]
      intro hahead
      obtain ⟨error, herror⟩ := hresult.mpr ⟨hahead, hallow⟩
      obtain ⟨hsame, hready⟩ := h.refused error herror
      rw [hservice] at hsame hready
      exact ⟨Subsystems.allIdle_iff.mpr hsame, hready⟩
  · intro h
    rcases hstore : s.snapshotStore with _ | snaps
    · have heq : s.restoreAll = ⟨s, [], .ok ()⟩ := by rw [restoreAll, hstore]
      refine ⟨fun _ => ?_, ?_⟩
      · rw [heq]
        exact List.forall_mem_nil _
      · rw [heq]
        rintro error ⟨⟩
    · obtain ⟨hservice, hadopted, hresult⟩ := restoreAll_of_store hstore
      refine ⟨?_, ?_⟩
      · intro hallow
        rw [hadopted]
        exact Subsystems.allBacked_iff.mp (h snaps hstore hallow).1
      · intro error herror
        obtain ⟨hahead, hallow⟩ := hresult.mp ⟨error, herror⟩
        obtain ⟨hidle, hready⟩ := (h snaps hstore hallow).2.resolve_left (not_le.mpr hahead)
        rw [hservice]
        exact ⟨Subsystems.allIdle_iff.mp hidle, hready⟩

end AttestiaService

/-! ### A snapshot set that is torn -/

theorem load_save_empty {σ : Type} {keep : ℕ} {version : ℚ} (state : σ) (hkeep : keep ≠ 0)
    (hlisted : SnapshotStream.isListed version = true) :
    (SnapshotStream.save .empty keep version state .saved).1.load = some (version, state) := by
  have hversions : SnapshotStream.listVersions (JsMap.set .empty version (some state)) =
      [version] := by
    rw [SnapshotStream.listVersions, JsMap.keys_set]
    simp [JsMap.keys, JsMap.empty, hlisted]
  have hprune : SnapshotStream.prune (JsMap.set .empty version (some state)) keep =
      JsMap.set .empty version (some state) := by
    rw [SnapshotStream.prune, hversions]
    simp [Nat.one_le_iff_ne_zero.mpr hkeep, JsMap.filterKeys]
  rw [SnapshotStream.save, hprune, SnapshotStream.load, hversions]
  simp

/-- A service over a log of one event, or of none. -/
def started (snapshotStore : Option SnapshotSet) (globalPosition : ℕ) : Option AttestiaService :=
  (AttestiaService.new (js "o") (js "USD") (.ofNat 2) (js "t") snapshotStore false
    globalPosition).toOption

/-- The first save of a service is interrupted behind the ledger; its log is lost, and it starts
again. -/
def torn : Option AttestiaService :=
  (started (some .empty) 1).bind fun s => started (s.snapshotAll 5 (js "t") 1).snapshotStore 0

theorem not_failsClosed_torn : ∃ s, torn = some s ∧ ¬ s.FailsClosed := by
  have hstart : ∀ snapshotStore globalPosition, ∃ s, started snapshotStore globalPosition = some s ∧
      s.ledger = .new ∧ s.snapshotStore = snapshotStore ∧ s.allowSnapshotAheadOfLog = false ∧
      s.globalPosition = globalPosition := by
    intro snapshotStore globalPosition
    exact ⟨_, rfl, rfl, rfl, rfl, rfl⟩
  obtain ⟨first, hfirst, hledger, hstore, -, hposition⟩ := hstart (some .empty) 1
  obtain ⟨s, hs, -, hsnaps, hallow, hempty⟩ :=
    hstart (first.snapshotAll 5 (js "t") 1).snapshotStore 0
  refine ⟨s, by rw [torn, hfirst]; exact hs, ?_⟩
  intro h
  -- the ledger at version 1 is the only snapshot
  rw [AttestiaService.snapshotAll, hstore] at hsnaps
  obtain ⟨-, hadopted, -⟩ := AttestiaService.restoreAll_of_store hsnaps
  have hbacked := Subsystems.allBacked_iff.mpr (hadopted ▸ h.adopted hallow)
  have hload := load_save_empty (first.ledger.snapshot (js "t")) (by decide : 5 ≠ 0)
    (by decide +kernel : SnapshotStream.isListed ((1 : ℕ) : ℚ) = true)
  rw [← hposition] at hload
  have hrestore : (Ledger.fromSnapshot (first.ledger.snapshot (js "t"))).toOption = some .new := by
    rw [hledger]
    rfl
  have hversion := hbacked.ledger _ _ _ hload hrestore
  rw [hposition, hempty] at hversion
  norm_num at hversion

end Attestia.Node
