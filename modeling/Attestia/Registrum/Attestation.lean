import Attestia.Registrum.Consistency
import Attestia.Verify.GlobalStateHash

/-!
# Attestations of snapshots

`attestation/generator.ts`: the payload of a snapshot, the check of its form, and the check that
it is bound to a snapshot. Two fields are compared with the snapshot: the hash of the registry
and the hash of the snapshot itself. The version, the number of states and the highest index
stand in the payload as well, and only their types are looked at.
-/

namespace Attestia.Registrum

open Lib JsonNumber

/-! ## Payloads -/

inductive AttestationMode where
  | dual
  | legacyOnly
  | registryOnly
  deriving DecidableEq

def AttestationMode.text : AttestationMode → JsString
  | dual => js "dual"
  | legacyOnly => js "legacy-only"
  | registryOnly => js "registry-only"

def ParityStatus.text : ParityStatus → JsString
  | AGREED => js "AGREED"
  | HALTED => js "HALTED"

structure AttestationOptions where
  registrumVersion : JsString
  mode : AttestationMode
  parityStatus : ParityStatus
  transitionFrom : JsNumber
  transitionTo : JsNumber

@[ext] structure TransitionRange where
  fromIndex : JsNumber
  toIndex : JsNumber
  deriving DecidableEq

@[ext] structure AttestationPayload where
  registrumVersion : JsString
  snapshotVersion : JsString
  snapshotHash : JsString
  registryHash : JsString
  mode : JsString
  parityStatus : JsString
  transitionRange : TransitionRange
  stateCount : JsNumber
  orderingMax : JsNumber
  deriving DecidableEq

def TransitionRange.value (range : TransitionRange) : JsValue :=
  .literal "transition_range" [(js "from", .number range.fromIndex), (js "to", .number range.toIndex)]

/-- A property of the object that a payload is. -/
def AttestationPayload.property (p : AttestationPayload) : JsString → JsValue :=
  JsValue.literalGet [(js "registrum_version", .string p.registrumVersion),
    (js "snapshot_version", .string p.snapshotVersion), (js "snapshot_hash", .string p.snapshotHash),
    (js "registry_hash", .string p.registryHash), (js "mode", .string p.mode),
    (js "parity_status", .string p.parityStatus),
    (js "transition_range", p.transitionRange.value), (js "state_count", .number p.stateCount),
    (js "ordering_max", .number p.orderingMax)]

def AttestationPayload.value (p : AttestationPayload) : JsValue :=
  .object (.named (js "payload")) p.property

/-- An error of the code, or the one of a value that is read or printed as what it is not. -/
inductive AttestationError where
  | error (message : JsString)
  | typeError
  deriving DecidableEq

/-! ## The form of a payload -/

def stringFields : List JsString :=
  ["registrum_version", "snapshot_version", "snapshot_hash", "registry_hash", "mode",
    "parity_status"].map js

def numberFields : List JsString := ["state_count", "ordering_max"].map js

/-- A number without a fraction. -/
def isIntegerNumber : JsValue → Bool
  | .number (.finite q) => q.den = 1
  | _ => false

/-- An object that holds the two ends of a range. -/
def isRange : JsValue → Bool
  | .object _ range => (range (js "from")).typeOf = .number && (range (js "to")).typeOf = .number
  | _ => false

/-- A string where a string is read. -/
def stringOf : JsValue → JsString
  | .string s => s
  | _ => []

def modeTexts : List JsString := [AttestationMode.dual, .legacyOnly, .registryOnly].map AttestationMode.text

def parityTexts : List JsString := [ParityStatus.AGREED, .HALTED].map ParityStatus.text

/-- A digit of a hash in lower case. -/
def isHexUnit (u : UInt16) : Bool :=
  (48 ≤ u.toNat && u.toNat ≤ 57) || (97 ≤ u.toNat && u.toNat ≤ 102)

/-- `/^[0-9a-f]{64}$/`. -/
def isHash (s : JsString) : Bool := s.length = 64 && s.all isHexUnit

def invalidField (field : JsString) : AttestationError :=
  .error (js "Attestation payload missing or invalid: " ++ field)

def invalidHash (field : String) : AttestationError :=
  .error (js "Invalid " ++ js field ++ js " format (expected 64 hex chars)")

/-- The checks of the properties of an object. -/
def checkProperties (p : JsString → JsValue) : Except AttestationError Unit := do
  stringFields.forM fun field => throwIf ((p field).typeOf ≠ .string) (invalidField field)
  numberFields.forM fun field => throwIf (isIntegerNumber (p field) = false) (invalidField field)
  throwIf (isRange (p (js "transition_range")) = false) (invalidField (js "transition_range"))
  let mode := stringOf (p (js "mode"))
  throwIf (mode ∉ modeTexts) (.error (js "Invalid attestation mode: " ++ mode))
  let parityStatus := stringOf (p (js "parity_status"))
  throwIf (parityStatus ∉ parityTexts) (.error (js "Invalid parity status: " ++ parityStatus))
  throwIf (isHash (stringOf (p (js "snapshot_hash"))) = false) (invalidHash "snapshot_hash")
  throwIf (isHash (stringOf (p (js "registry_hash"))) = false) (invalidHash "registry_hash")

def validateAttestationPayload : JsValue → Except AttestationError Unit
  | .object _ p => checkProperties p
  | _ => .error (.error (js "Attestation payload must be an object"))

/-- What the checks ask for. -/
structure WellFormed (p : JsString → JsValue) : Prop where
  strings : ∀ field ∈ stringFields, (p field).typeOf = .string
  numbers : ∀ field ∈ numberFields, isIntegerNumber (p field) = true
  range : isRange (p (js "transition_range")) = true
  mode : stringOf (p (js "mode")) ∈ modeTexts
  parityStatus : stringOf (p (js "parity_status")) ∈ parityTexts
  snapshotHash : isHash (stringOf (p (js "snapshot_hash"))) = true
  registryHash : isHash (stringOf (p (js "registry_hash"))) = true

theorem checkProperties_eq_ok {p : JsString → JsValue} :
    checkProperties p = .ok () ↔ WellFormed p := by
  simp only [checkProperties, List.forM_eq_forM, bind_unit_eq_ok, forM_eq_ok, throwIf_eq_ok,
    not_not, Bool.not_eq_false]
  constructor
  · intro ⟨h1, h2, h3, h4, h5, h6, h7⟩
    exact ⟨h1, h2, h3, h4, h5, h6, h7⟩
  · intro h
    exact ⟨h.strings, h.numbers, h.range, h.mode, h.parityStatus, h.snapshotHash, h.registryHash⟩

theorem validateAttestationPayload_eq_ok {payload : JsValue} :
    validateAttestationPayload payload = .ok () ↔ ∃ ref p, payload = .object ref p ∧ WellFormed p := by
  cases payload with
  | object ref p =>
    rw [validateAttestationPayload, checkProperties_eq_ok]
    constructor
    · intro h
      exact ⟨ref, p, rfl, h⟩
    · intro ⟨_, _, heq, h⟩
      cases heq
      exact h
  | _ => exact iff_of_false (fun h => by cases h) fun ⟨_, _, h, _⟩ => by cases h

/-! ## The binding to a snapshot -/

def isText (value : Option JsonValue) (s : JsString) : Bool :=
  value.any fun v => v.strictEq (.str s)

/-- A message that quotes a property of a snapshot. -/
def quoting (value : Option JsonValue) (before after : JsString) : AttestationError :=
  match templateText (value.map JsonValue.val) with
  | some text => .error (before ++ text ++ after)
  | none => .typeError

def constitutionMismatch (registryHash : JsString) (value : Option JsonValue) : AttestationError :=
  quoting value (js "Attestation constitution binding failed: payload.registry_hash '" ++
      registryHash ++ js "' does not match snapshot.registry_hash '")
    (js "'. The attestation advertises a different constitution than the snapshot was produced " ++
      js "under (rejected fail-closed).")

def registryMismatch (registryHash snapshotRegistryHash : JsString) : AttestationError :=
  .error (js "Attestation registry_hash mismatch: caller-supplied registryHash '" ++ registryHash ++
    js "' does not match snapshot.registry_hash '" ++ snapshotRegistryHash ++
    js "'. The attestation must witness the constitution the snapshot was actually produced " ++
    js "under (fail-closed).")

def snapshotMismatch (snapshotHash recomputed : JsString) : AttestationError :=
  .error (js "Attestation snapshot binding failed: payload.snapshot_hash '" ++ snapshotHash ++
    js "' does not match the hash recomputed from the supplied snapshot '" ++ recomputed ++
    js "'. The attestation does not witness this snapshot (rejected fail-closed).")

/-- A property of a payload whose form has been checked. -/
def payloadText (payload : JsValue) (field : String) : JsString :=
  match payload with
  | .object _ p => stringOf (p (js field))
  | _ => []

/-- A snapshot that is accepted, with what is read of it. -/
structure AcceptedSnapshot where
  raw : RawSnapshot
  fields : RegistrarSnapshotV1
  accepted : validateSnapshot raw = .ok fields

section

variable (canonicalize : JsonValue → String)

def computeSnapshotHashForAttestation (snapshot : JsonValue) : JsString :=
  Verify.sha256Hex (canonicalize snapshot)

def generateAttestationPayload (snapshot : AcceptedSnapshot) (registryHash : JsString)
    (options : AttestationOptions) : Except AttestationError AttestationPayload := do
  throwIf (registryHash ≠ snapshot.fields.registryHash)
    (registryMismatch registryHash snapshot.fields.registryHash)
  let snapshotHash := computeSnapshotHashForAttestation canonicalize snapshot.raw.value
  return {
    registrumVersion := options.registrumVersion
    snapshotVersion := snapshot.fields.version
    snapshotHash
    registryHash
    mode := options.mode.text
    parityStatus := options.parityStatus.text
    transitionRange := ⟨options.transitionFrom, options.transitionTo⟩
    stateCount := .finite snapshot.fields.stateIds.length
    orderingMax := .finite snapshot.fields.maxIndex }

def verifyAttestationBinding (payload : JsValue) (snapshot : JsonValue) :
    Except AttestationError Unit := do
  validateAttestationPayload payload
  throwIf (JsonValue.isNull snapshot.val) .typeError
  let registryHash := payloadText payload "registry_hash"
  let snapshotRegistryHash := snapshot.get? (js "registry_hash")
  throwIf (isText snapshotRegistryHash registryHash = false)
    (constitutionMismatch registryHash snapshotRegistryHash)
  let snapshotHash := payloadText payload "snapshot_hash"
  let recomputed := computeSnapshotHashForAttestation canonicalize snapshot
  throwIf (snapshotHash ≠ recomputed) (snapshotMismatch snapshotHash recomputed)

/-- A payload of the right form whose two hashes are those of a snapshot. -/
structure Bound (p : JsString → JsValue) (snapshot : JsonValue) : Prop where
  wellFormed : WellFormed p
  registryHash : ∃ hash, snapshot.get? (js "registry_hash") = some (.str hash) ∧
    p (js "registry_hash") = .string hash
  snapshotHash : p (js "snapshot_hash") =
    .string (computeSnapshotHashForAttestation canonicalize snapshot)

/-- Every property of a payload that describes a snapshot is the one of the snapshot. -/
structure Describes (p : JsString → JsValue) (snapshot : AcceptedSnapshot) : Prop where
  snapshotHash : p (js "snapshot_hash") =
    .string (computeSnapshotHashForAttestation canonicalize snapshot.raw.value)
  registryHash : p (js "registry_hash") = .string snapshot.fields.registryHash
  snapshotVersion : p (js "snapshot_version") = .string snapshot.fields.version
  stateCount : p (js "state_count") = .integer snapshot.fields.stateIds.length
  orderingMax : p (js "ordering_max") = .integer snapshot.fields.maxIndex

end

variable {canonicalize : JsonValue → String}

theorem isText_eq_true {value : Option JsonValue} {s : JsString} :
    isText value s = true ↔ value = some (.str s) := by
  rw [isText, Option.any_eq_true]
  simp only [JsonValue.strictEq_str]
  constructor
  · intro ⟨v, hv, heq⟩
    exact heq ▸ hv
  · intro h
    exact ⟨_, h, rfl⟩

theorem eq_string_of_typeOf {v : JsValue} (h : v.typeOf = .string) : v = .string (stringOf v) := by
  cases v with
  | string s => rfl
  | _ => cases h

theorem isNull_of_get? {snapshot v : JsonValue} {key : JsString} (h : snapshot.get? key = some v) :
    JsonValue.isNull snapshot.val = false := by
  obtain ⟨s, hs⟩ := snapshot
  cases s with
  | null => cases h
  | _ => rfl

theorem WellFormed.eq_string {p : JsString → JsValue} (h : WellFormed p) {field : String}
    (hfield : js field ∈ stringFields) : p (js field) = .string (stringOf (p (js field))) :=
  eq_string_of_typeOf (h.strings _ hfield)

/-- What is verified is well formed and has the two hashes of the snapshot. -/
theorem verifyAttestationBinding_eq_ok {payload : JsValue} {snapshot : JsonValue} :
    verifyAttestationBinding canonicalize payload snapshot = .ok () ↔
      ∃ ref p, payload = .object ref p ∧ Bound canonicalize p snapshot := by
  simp only [verifyAttestationBinding, bind_unit_eq_ok, throwIf_eq_ok,
    validateAttestationPayload_eq_ok, not_not, Bool.not_eq_false, isText_eq_true]
  constructor
  · intro ⟨⟨ref, p, hpayload, hform⟩, _, hregistry, hsnapshot⟩
    subst hpayload
    refine ⟨ref, p, rfl, hform, ⟨_, hregistry, hform.eq_string (by decide)⟩, ?_⟩
    rw [hform.eq_string (by decide)]
    exact congrArg JsValue.string hsnapshot
  · intro ⟨ref, p, hpayload, h⟩
    subst hpayload
    obtain ⟨hash, hget, hregistry⟩ := h.registryHash
    have hnull := isNull_of_get? hget
    refine ⟨⟨ref, p, rfl, h.wellFormed⟩, ?_, ?_, ?_⟩
    · rw [hnull]
      decide
    · rw [hget, payloadText, hregistry, stringOf]
    · rw [payloadText, h.snapshotHash, stringOf]

/-! ## Generated payloads -/

theorem validateRegistryHash_eq_ok {value : Option Json} {s : JsString}
    (h : validateRegistryHash value = .ok s) : value = some (.str s) := by
  unfold validateRegistryHash at h
  split at h
  · split at h
    · cases h
    · cases h
      rfl
  · cases h

theorem AcceptedSnapshot.get?_registryHash (snapshot : AcceptedSnapshot) :
    snapshot.raw.value.get? (js "registry_hash") = some (.str snapshot.fields.registryHash) := by
  obtain ⟨l, o, a, hschema⟩ := validateSnapshot_eq_ok.mp snapshot.accepted
  exact JsonValue.get?_eq_some.mpr (validateRegistryHash_eq_ok hschema.registryHash)

/-- A digit of a hash is one unit. -/
theorem utf16_of_isLowerHex {c : Char} (h : isLowerHex c = true) :
    ∃ u, JsString.utf16 c = [u] ∧ isHexUnit u = true := by
  have hc : (97 ≤ c.toNat ∧ c.toNat ≤ 102) ∨ (48 ≤ c.toNat ∧ c.toNat ≤ 57) := by
    simpa [isLowerHex, Char.le_def, UInt32.le_iff_toNat_le] using h
  have hlt : c.toNat < 2 ^ 16 := by omega
  refine ⟨UInt16.ofNat c.toNat, ?_, ?_⟩
  · rw [JsString.utf16, if_pos (by omega)]
  · simp only [isHexUnit, UInt16.toNat_ofNat', Nat.mod_eq_of_lt hlt, Bool.or_eq_true,
      Bool.and_eq_true, decide_eq_true_eq]
    omega

theorem isHash_units {cs : List Char} (hlength : cs.length = 64)
    (h : ∀ c ∈ cs, isLowerHex c = true) : isHash (JsString.units cs) = true := by
  have hunits : (JsString.units cs).length = cs.length ∧
      ∀ u ∈ JsString.units cs, isHexUnit u = true := by
    clear hlength
    induction cs with
    | nil => exact ⟨rfl, fun u hu => by cases hu⟩
    | cons c cs ih =>
      obtain ⟨u, hu, hhex⟩ := utf16_of_isLowerHex (h c (.head _))
      obtain ⟨hlen, hall⟩ := ih fun d hd => h d (.tail _ hd)
      rw [JsString.units, List.flatMap_cons, hu]
      exact ⟨congrArg (· + 1) hlen, List.forall_mem_cons.mpr ⟨hhex, hall⟩⟩
  rw [isHash, hunits.1, hlength, Bool.and_eq_true]
  exact ⟨by decide, List.all_eq_true.mpr hunits.2⟩

theorem isHash_sha256Hex (data : String) : isHash (Verify.sha256Hex data) = true := by
  apply isHash_units
  · rw [hexEncode_length, sha256_length]
  · exact fun c hc => isLowerHex_of_mem_hexEncode hc

theorem mem_modeTexts (mode : AttestationMode) : mode.text ∈ modeTexts := by
  apply List.mem_map_of_mem
  cases mode <;> decide

theorem mem_parityTexts (status : ParityStatus) : status.text ∈ parityTexts := by
  apply List.mem_map_of_mem
  cases status <;> decide

theorem generateAttestationPayload_eq_ok {snapshot : AcceptedSnapshot} {registryHash : JsString}
    {options : AttestationOptions} {payload : AttestationPayload}
    (h : generateAttestationPayload canonicalize snapshot registryHash options = .ok payload) :
    payload = {
      registrumVersion := options.registrumVersion
      snapshotVersion := snapshot.fields.version
      snapshotHash := computeSnapshotHashForAttestation canonicalize snapshot.raw.value
      registryHash := snapshot.fields.registryHash
      mode := options.mode.text
      parityStatus := options.parityStatus.text
      transitionRange := ⟨options.transitionFrom, options.transitionTo⟩
      stateCount := .finite snapshot.fields.stateIds.length
      orderingMax := .finite snapshot.fields.maxIndex } := by
  obtain ⟨hregistry, h⟩ := bind_unit_eq_ok.mp h
  rw [throwIf_eq_ok, not_not] at hregistry
  subst hregistry
  exact (Except.ok.inj h).symm

theorem literalGet_cons (e : JsString × JsValue) (es : List (JsString × JsValue))
    (key : JsString) :
    JsValue.literalGet (e :: es) key = if e.1 = key then e.2 else JsValue.literalGet es key := by
  unfold JsValue.literalGet
  by_cases h : e.1 = key
  · rw [List.find?_cons_of_pos (by simpa using h), if_pos h]
  · rw [List.find?_cons_of_neg (by simpa using h), if_neg h]

section

variable (p : AttestationPayload)

@[simp] theorem property_snapshotVersion :
    p.property (js "snapshot_version") = .string p.snapshotVersion := by
  simp [AttestationPayload.property, literalGet_cons]

@[simp] theorem property_snapshotHash :
    p.property (js "snapshot_hash") = .string p.snapshotHash := by
  simp [AttestationPayload.property, literalGet_cons]

@[simp] theorem property_registryHash :
    p.property (js "registry_hash") = .string p.registryHash := by
  simp [AttestationPayload.property, literalGet_cons]

@[simp] theorem property_stateCount : p.property (js "state_count") = .number p.stateCount := by
  simp [AttestationPayload.property, literalGet_cons]

@[simp] theorem property_orderingMax : p.property (js "ordering_max") = .number p.orderingMax := by
  simp [AttestationPayload.property, literalGet_cons]

@[simp] theorem isRange_value (range : TransitionRange) : isRange range.value = true := by
  simp [isRange, TransitionRange.value, JsValue.literal, literalGet_cons, JsValue.typeOf]

end

/-- What the checks ask of a payload with the fields of its type. -/
theorem wellFormed_property_iff {p : AttestationPayload} : WellFormed p.property ↔
    isIntegerNumber (.number p.stateCount) = true ∧ isIntegerNumber (.number p.orderingMax) = true ∧
      p.mode ∈ modeTexts ∧ p.parityStatus ∈ parityTexts ∧ isHash p.snapshotHash = true ∧
        isHash p.registryHash = true := by
  have hmode : stringOf (p.property (js "mode")) = p.mode := by
    simp [AttestationPayload.property, literalGet_cons, stringOf]
  have hparity : stringOf (p.property (js "parity_status")) = p.parityStatus := by
    simp [AttestationPayload.property, literalGet_cons, stringOf]
  constructor
  · intro h
    have hcount := h.numbers (js "state_count") (by simp [numberFields])
    have hmax := h.numbers (js "ordering_max") (by simp [numberFields])
    have hmodes := h.mode
    have hparities := h.parityStatus
    have hsnapshot := h.snapshotHash
    have hregistry := h.registryHash
    rw [hmode] at hmodes
    rw [hparity] at hparities
    rw [property_stateCount] at hcount
    rw [property_orderingMax] at hmax
    rw [property_snapshotHash] at hsnapshot
    rw [property_registryHash] at hregistry
    exact ⟨hcount, hmax, hmodes, hparities, hsnapshot, hregistry⟩
  · intro ⟨hcount, hmax, hmodes, hparities, hsnapshot, hregistry⟩
    refine ⟨?_, ?_, ?_, ?_, ?_, ?_, ?_⟩
    · simp [stringFields, AttestationPayload.property, literalGet_cons, JsValue.typeOf]
    · simp [numberFields, hcount, hmax]
    · simp [AttestationPayload.property, literalGet_cons]
    · rw [hmode]
      exact hmodes
    · rw [hparity]
      exact hparities
    · rw [property_snapshotHash]
      exact hsnapshot
    · rw [property_registryHash]
      exact hregistry

/-- The payload that is generated is bound to its snapshot, and describes it. -/
theorem bound_of_generate {snapshot : AcceptedSnapshot} {registryHash : JsString}
    {options : AttestationOptions} {payload : AttestationPayload}
    (hhash : isHash snapshot.fields.registryHash = true)
    (h : generateAttestationPayload canonicalize snapshot registryHash options = .ok payload) :
    Bound canonicalize payload.property snapshot.raw.value ∧
      Describes canonicalize payload.property snapshot := by
  have heq := generateAttestationPayload_eq_ok h
  have hform : WellFormed payload.property := by
    rw [wellFormed_property_iff, heq]
    dsimp only
    rw [computeSnapshotHashForAttestation]
    exact ⟨by simp [isIntegerNumber], by simp [isIntegerNumber], mem_modeTexts options.mode,
      mem_parityTexts options.parityStatus, isHash_sha256Hex _, hhash⟩
  refine ⟨⟨hform, ⟨_, snapshot.get?_registryHash, ?_⟩, ?_⟩, ⟨?_, ?_, ?_, ?_, ?_⟩⟩
  · rw [property_registryHash, heq]
  · rw [property_snapshotHash, heq]
  · rw [property_snapshotHash, heq]
  · rw [property_registryHash, heq]
  · rw [property_snapshotVersion, heq]
  · rw [property_stateCount, heq, JsValue.integer, Int.cast_natCast]
  · rw [property_orderingMax, heq, JsValue.integer]

theorem exists_generateAttestationPayload (canonicalize : JsonValue → String)
    (snapshot : AcceptedSnapshot) (options : AttestationOptions) :
    ∃ payload, generateAttestationPayload canonicalize snapshot snapshot.fields.registryHash
      options = .ok payload :=
  ⟨_, bind_unit_eq_ok.mpr ⟨throwIf_eq_ok.mpr (not_not.mpr rfl), rfl⟩⟩

/-- The messages of two snapshots. -/
def snapshotMessages (canonicalize : JsonValue → String) (a b : JsonValue) : Set Bytes :=
  {m | m = Verify.message canonicalize a ∨ m = Verify.message canonicalize b}

theorem same_of_bound {p : JsString → JsValue} {a b : JsonValue}
    (hcanon : ∀ v w, canonicalize v = canonicalize w → v.Same w)
    (hcf : CollisionFree (snapshotMessages canonicalize a b)) (ha : Bound canonicalize p a)
    (hb : Bound canonicalize p b) : a.Same b := by
  have hhash := ha.snapshotHash.symm.trans hb.snapshotHash
  apply Verify.same_of_sha256Hex_eq hcanon hcf
  · exact .inl rfl
  · exact .inr rfl
  · exact JsValue.string.inj hhash

/-- What is verified has the two hashes of the snapshot, and what is generated for a snapshot is
verified for it alone. -/
theorem verified_iff_bound (hcanon : ∀ v w, canonicalize v = canonicalize w → v.Same w) :
    (∀ payload snapshot, verifyAttestationBinding canonicalize payload snapshot = .ok () ↔
      ∃ ref p, payload = .object ref p ∧ Bound canonicalize p snapshot) ∧
    ∀ (snapshot : AcceptedSnapshot) (options : AttestationOptions),
      isHash snapshot.fields.registryHash = true →
      (∃ payload, generateAttestationPayload canonicalize snapshot snapshot.fields.registryHash
        options = .ok payload) ∧
      ∀ registryHash payload,
        generateAttestationPayload canonicalize snapshot registryHash options = .ok payload →
        verifyAttestationBinding canonicalize payload.value snapshot.raw.value = .ok () ∧
        Describes canonicalize payload.property snapshot ∧
        ∀ other, CollisionFree (snapshotMessages canonicalize snapshot.raw.value other) →
          verifyAttestationBinding canonicalize payload.value other = .ok () →
          snapshot.raw.value.Same other := by
  refine ⟨fun payload snapshot => verifyAttestationBinding_eq_ok, ?_⟩
  intro snapshot options hhash
  refine ⟨exists_generateAttestationPayload canonicalize snapshot options, ?_⟩
  intro registryHash payload hpayload
  obtain ⟨hbound, hdescribes⟩ := bound_of_generate hhash hpayload
  refine ⟨verifyAttestationBinding_eq_ok.mpr ⟨_, _, rfl, hbound⟩, hdescribes, ?_⟩
  intro other hcf hverified
  obtain ⟨ref, p, hvalue, hother⟩ := verifyAttestationBinding_eq_ok.mp hverified
  cases hvalue
  exact same_of_bound hcanon hcf hbound hother

/-! ### A payload with other numbers -/

/-- The snapshot of a registrar with two roots. -/
def rootsSnapshot : RawSnapshot where
  value := literalJson [("version", .str SNAPSHOT_VERSION),
    ("registry_hash", .str (List.replicate 64 48)), ("mode", .str RegistrarMode.dual.text),
    ("state_ids", .array [.str (js "a"), .str (js "b")]),
    ("lineage", literalJson [("a", .null), ("b", .null)]),
    ("ordering", literalJson [("max_index", .num (.ofInt 1)),
      ("assigned", literalJson [("a", .num (.ofInt 0)), ("b", .num (.ofInt 1))])])]
  lineageBare := false

theorem exists_accepted_rootsSnapshot : ∃ snapshot : AcceptedSnapshot,
    snapshot.raw = rootsSnapshot ∧ isHash snapshot.fields.registryHash = true := by
  obtain ⟨fields, hfields⟩ := exists_eq_ok_of_isOk (x := validateSnapshot rootsSnapshot)
    (by decide +kernel)
  have hhash : ((validateSnapshot rootsSnapshot).toOption.any fun s => isHash s.registryHash) =
      true := by decide +kernel
  rw [hfields] at hhash
  exact ⟨⟨rootsSnapshot, fields, hfields⟩, rfl, hhash⟩

def dualOptions : AttestationOptions :=
  ⟨js "1.0.0", .dual, .AGREED, .finite 0, .finite 1⟩

/-- The payload of a snapshot that claims a number of states. -/
def claiming (payload : AttestationPayload) (count : ℕ) : AttestationPayload :=
  { payload with stateCount := .finite count }

theorem bound_claiming {payload : AttestationPayload} {snapshot : JsonValue} (count : ℕ)
    (h : Bound canonicalize payload.property snapshot) :
    Bound canonicalize (claiming payload count).property snapshot := by
  have hform := wellFormed_property_iff.mp h.wellFormed
  obtain ⟨hash, hget, hregistry⟩ := h.registryHash
  have hsnapshot := h.snapshotHash
  rw [property_registryHash] at hregistry
  rw [property_snapshotHash] at hsnapshot
  refine ⟨wellFormed_property_iff.mpr ⟨?_, hform.2⟩, ⟨hash, hget, ?_⟩, ?_⟩
  · simp [claiming, isIntegerNumber]
  · rw [property_registryHash]
    exact hregistry
  · rw [property_snapshotHash]
    exact hsnapshot

/-- A payload that is verified for a snapshot may claim a state that the snapshot does not have. -/
theorem not_describes_claiming : ∃ (snapshot : AcceptedSnapshot) (payload : AttestationPayload),
    snapshot.raw = rootsSnapshot ∧
      verifyAttestationBinding JsonValue.canonicalText payload.value snapshot.raw.value = .ok () ∧
      ¬ Describes JsonValue.canonicalText payload.property snapshot := by
  obtain ⟨snapshot, hraw, hhash⟩ := exists_accepted_rootsSnapshot
  obtain ⟨payload, hpayload⟩ :=
    exists_generateAttestationPayload JsonValue.canonicalText snapshot dualOptions
  have hbound := (bound_of_generate hhash hpayload).1
  refine ⟨snapshot, claiming payload (snapshot.fields.stateIds.length + 1), hraw, ?_, fun h => ?_⟩
  · exact verifyAttestationBinding_eq_ok.mpr ⟨_, _, rfl, bound_claiming _ hbound⟩
  · have hcount := h.stateCount
    rw [property_stateCount] at hcount
    simp [claiming, JsValue.integer] at hcount

/-- The snapshot with its members in another order. -/
def reorderedSnapshot : JsonValue :=
  literalJson [("state_ids", .array [.str (js "a"), .str (js "b")]),
    ("lineage", literalJson [("b", .null), ("a", .null)]),
    ("registry_hash", .str (List.replicate 64 48)), ("version", .str SNAPSHOT_VERSION),
    ("ordering", literalJson [("assigned", literalJson [("b", .num (.ofInt 1)),
      ("a", .num (.ofInt 0))]), ("max_index", .num (.ofInt 1))]),
    ("mode", .str RegistrarMode.dual.text)]

theorem canonicalText_reorderedSnapshot :
    reorderedSnapshot.canonicalText = rootsSnapshot.value.canonicalText := by
  decide +kernel

theorem bound_reorderedSnapshot {p : JsString → JsValue}
    (h : Bound JsonValue.canonicalText p rootsSnapshot.value) :
    Bound JsonValue.canonicalText p reorderedSnapshot where
  wellFormed := h.wellFormed
  registryHash := by
    have hget : reorderedSnapshot.get? (js "registry_hash") =
        rootsSnapshot.value.get? (js "registry_hash") := by
      simp [reorderedSnapshot, rootsSnapshot, literalJson]
    rw [hget]
    exact h.registryHash
  snapshotHash := by
    rw [computeSnapshotHashForAttestation, canonicalText_reorderedSnapshot]
    exact h.snapshotHash

/-- One message is hashed for two snapshots of one text. -/
theorem collisionFree_of_eq {a b : JsonValue} (h : canonicalize a = canonicalize b) :
    CollisionFree (snapshotMessages canonicalize a b) := by
  have hmessage : Verify.message canonicalize a = Verify.message canonicalize b := by
    rw [Verify.message, Verify.message, h]
  rintro m (rfl | rfl) n (rfl | rfl) _
  · rfl
  · exact hmessage
  · exact hmessage.symm
  · rfl

theorem verified_iff_bound_reorderedSnapshot :
    ∃ (snapshot : AcceptedSnapshot) (payload : AttestationPayload),
      snapshot.raw = rootsSnapshot ∧
      Describes JsonValue.canonicalText payload.property snapshot ∧
      verifyAttestationBinding JsonValue.canonicalText payload.value reorderedSnapshot = .ok () ∧
      snapshot.raw.value.Same reorderedSnapshot := by
  obtain ⟨snapshot, hraw, hhash⟩ := exists_accepted_rootsSnapshot
  have hbinding := @verified_iff_bound JsonValue.canonicalText
    (fun v w => JsonValue.same_of_canonicalText_eq)
  obtain ⟨⟨payload, hpayload⟩, hgenerated⟩ := hbinding.2 snapshot dualOptions hhash
  obtain ⟨hverified, hdescribes, hunique⟩ := hgenerated _ payload hpayload
  obtain ⟨ref, p, hvalue, hbound⟩ := (hbinding.1 _ _).mp hverified
  rw [hraw] at hbound hunique
  have hreordered := (hbinding.1 payload.value reorderedSnapshot).mpr
    ⟨ref, p, hvalue, bound_reorderedSnapshot hbound⟩
  refine ⟨snapshot, payload, hraw, hdescribes, hreordered, ?_⟩
  rw [hraw]
  exact hunique reorderedSnapshot
    (collisionFree_of_eq canonicalText_reorderedSnapshot.symm) hreordered

end Attestia.Registrum
