import Attestia.EventStore.Types
import Attestia.Lib.Binary64
import Attestia.Lib.Effect
import Attestia.Lib.JsMap
import Attestia.Verify.GlobalStateHash

/-!
# The governance store

`governance-store.ts`: signers, a quorum and an SLA policy, changed by events that are kept. Weights
and quorums are numbers of the language, a sum of weights is rounded at every step.
-/

namespace Attestia.Witness

open Lib Effect

structure SignerEntry where
  address : JsString
  label : JsString
  weight : JsNumber
  addedAt : JsString
  publicKey : Option JsString
  deriving DecidableEq

structure SlaPolicy where
  id : JsString
  name : JsString
  version : JsNumber
  targetCount : JsNumber

inductive GovernanceChange where
  | signerAdded (address label : JsString) (weight : JsNumber) (publicKey : Option JsString)
  | signerRemoved (address : JsString)
  | quorumChanged (previousQuorum newQuorum : JsNumber)
  | policyRotated (reason : JsString)
  | slaPolicySet (policyId policyName : JsString) (policyVersion targetCount : JsNumber)

structure GovernanceChangeEvent where
  change : GovernanceChange
  timestamp : JsString

structure GovernancePolicy where
  id : JsString
  version : ℕ
  signers : List SignerEntry
  quorum : JsNumber
  updatedAt : JsString

/-! ## The policy id -/

structure SignerShape where
  address : JsString
  weight : JsNumber
  publicKey : Option JsString

/-- The object that `canonicalPolicyShape` makes. -/
structure PolicyShape where
  version : ℕ
  quorum : JsNumber
  signers : List SignerShape

/-- JSON has a text for every number of the object. -/
def PolicyShape.InJson (shape : PolicyShape) : Prop :=
  shape.quorum.InJson ∧ ∀ s ∈ shape.signers, s.weight.InJson

/-- What the store uses of other packages: the address of a public key or the text of an error, the
order of texts, canonical JSON, and the text of a number. -/
structure Platform where
  deriveAddress : JsString → Except JsString JsString
  localeCompare : JsString → JsString → ℤ
  canonicalize : PolicyShape → Except EventStore.JsError String
  numberText : JsNumber → JsString
  /-- The library has a text for every object of JSON. -/
  canonicalize_eq_ok : ∀ shape : PolicyShape, shape.InJson → ∃ json, canonicalize shape = .ok json

variable (platform : Platform)

def canonicalPolicyShape (version : ℕ) (signers : List SignerEntry) (quorum : JsNumber) :
    PolicyShape where
  version := version
  quorum := quorum
  signers := (signers.insertionSort fun a b => platform.localeCompare a.address b.address ≤ 0).map
    fun s => ⟨s.address, s.weight, s.publicKey⟩

structure GovernanceStore where
  signers : JsMap JsString SignerEntry
  quorum : JsNumber
  version : ℕ
  lastUpdated : JsString
  events : List GovernanceChangeEvent
  activeSlaPolicy : Option SlaPolicy

namespace GovernanceStore

def new (createdAt : JsString) : GovernanceStore := ⟨.empty, .finite 1, 0, createdAt, [], none⟩

variable (g : GovernanceStore)

def apply : GovernanceChange → JsString → GovernanceStore
  | .signerAdded address label weight publicKey, timestamp =>
    { g with signers := g.signers.set address ⟨address, label, weight, timestamp, publicKey⟩ }
  | .signerRemoved address, _ => { g with signers := g.signers.erase address }
  | .quorumChanged _ newQuorum, _ => { g with quorum := newQuorum }
  | .policyRotated _, _ => g
  | .slaPolicySet policyId policyName policyVersion targetCount, _ =>
    { g with activeSlaPolicy := some ⟨policyId, policyName, policyVersion, targetCount⟩ }

def applyEvent (event : GovernanceChangeEvent) : GovernanceStore :=
  { g.apply event.change event.timestamp with
    version := g.version + 1, lastUpdated := event.timestamp, events := g.events ++ [event] }

def totalWeight : JsNumber := JsNumber.sum (g.signers.values.map SignerEntry.weight)

/-- The texts that the operations throw. -/
inductive Fault where
  | signerExists (address : JsString)
  | weightTooLow (weight : JsNumber)
  | invalidKey (address message : JsString)
  | keyMismatch (derived address : JsString)
  | signerNotFound (address : JsString)
  | quorumImpossible (address : JsString) (remaining quorum : JsNumber)
  | quorumTooLow (newQuorum : JsNumber)
  | quorumTooHigh (newQuorum total : JsNumber)
  | slaPolicyId
  | slaPolicyVersion (policyVersion : JsNumber)

def Fault.message : Fault → JsString
  | signerExists address => js "Signer already exists: " ++ address
  | weightTooLow weight => js "Weight must be >= 1, got " ++ platform.numberText weight
  | invalidKey address message =>
    js "Invalid signer public key for " ++ address ++ js ": " ++ message
  | keyMismatch derived address => js "Signer public key does not match address: key derives to " ++
      derived ++ js ", expected " ++ address
  | signerNotFound address => js "Signer not found: " ++ address
  | quorumImpossible address remaining quorum => js "Cannot remove signer " ++ address ++
      js ": remaining weight (" ++ platform.numberText remaining ++
      js ") would be less than quorum (" ++ platform.numberText quorum ++ js ")"
  | quorumTooLow quorum => js "Quorum must be >= 1, got " ++ platform.numberText quorum
  | quorumTooHigh quorum total => js "Quorum (" ++ platform.numberText quorum ++
      js ") cannot exceed total signer weight (" ++ platform.numberText total ++ js ")"
  | slaPolicyId => js "SLA policy ID cannot be empty"
  | slaPolicyVersion policyVersion =>
    js "SLA policy version must be >= 1, got " ++ platform.numberText policyVersion

/-- A public key that is given must derive to the address. -/
def checkKey (address : JsString) : Option JsString → Except Fault Unit
  | none => .ok ()
  | some publicKey => do
    let derived ← (platform.deriveAddress publicKey).mapError (.invalidKey address)
    throwIf (derived ≠ address) (.keyMismatch derived address)

/-! ## Operations -/

def getSigner (address : JsString) : Except Fault SignerEntry :=
  match g.signers.get? address with
  | none => .error (.signerNotFound address)
  | some signer => .ok signer

/-- The event of a change, which is applied and returned. -/
def emit (change : GovernanceChange) (timestamp : JsString) :
    Effect GovernanceStore Fault GovernanceChangeEvent := do
  let event : GovernanceChangeEvent := ⟨change, timestamp⟩
  modify fun g => g.applyEvent event
  return event

def addSigner (address label : JsString) (weight : Option JsNumber) (publicKey : Option JsString)
    (timestamp : JsString) : Effect GovernanceStore Fault GovernanceChangeEvent := do
  let weight := weight.getD (.finite 1)
  check (throwIf ((← get).signers.has address) (.signerExists address))
  check (throwIf (weight.lt (.finite 1)) (.weightTooLow weight))
  check (checkKey platform address publicKey)
  emit (.signerAdded address label weight publicKey) timestamp

def removeSigner (address timestamp : JsString) :
    Effect GovernanceStore Fault GovernanceChangeEvent := do
  let g ← get
  let signer ← check (g.getSigner address)
  let remaining := g.totalWeight.sub signer.weight
  check (throwIf (remaining.lt g.quorum) (.quorumImpossible address remaining g.quorum))
  emit (.signerRemoved address) timestamp

def changeQuorum (newQuorum : JsNumber) (timestamp : JsString) :
    Effect GovernanceStore Fault GovernanceChangeEvent := do
  check (throwIf (newQuorum.lt (.finite 1)) (.quorumTooLow newQuorum))
  let g ← get
  let total := g.totalWeight
  check (throwIf (JsNumber.lt (.finite 0) total && total.lt newQuorum)
    (.quorumTooHigh newQuorum total))
  emit (.quorumChanged g.quorum newQuorum) timestamp

def setSlaPolicy (policyId policyName : JsString) (policyVersion targetCount : JsNumber)
    (timestamp : JsString) : Effect GovernanceStore Fault GovernanceChangeEvent := do
  check (throwIf (policyId = []) .slaPolicyId)
  check (throwIf (policyVersion.lt (.finite 1)) (.slaPolicyVersion policyVersion))
  emit (.slaPolicySet policyId policyName policyVersion targetCount) timestamp

/-- Canonical JSON has a text where the numbers are finite, and may throw elsewhere. -/
def getCurrentPolicy : Except EventStore.JsError GovernancePolicy := do
  let signers := g.signers.values
  let json ← platform.canonicalize (canonicalPolicyShape platform g.version signers g.quorum)
  return ⟨(Verify.sha256Hex json).take 16, g.version, signers, g.quorum, g.lastUpdated⟩

/-- The store is reset but for the time of its last change. -/
def replayFrom (events : List GovernanceChangeEvent) : GovernanceStore :=
  events.foldl applyEvent (new g.lastUpdated)

def getEventHistory : List GovernanceChangeEvent := g.events

def signerCount : ℕ := g.signers.entries.length

end GovernanceStore

end Attestia.Witness
