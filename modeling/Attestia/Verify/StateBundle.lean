import Attestia.Verify.GlobalStateHash
import Attestia.Lib.Sha256Words

/-!
# State bundles

`state-bundle.ts`: a bundle carries the snapshots, the hashes of the events and of the chains,
and a hash over the global hash and these hashes. Bundles that pass the verification and have
one bundle hash hold the same content.
-/

namespace Attestia.Verify

open Lib JsonNumber

structure ExportableStateBundle where
  ledgerSnapshot : JsonObject
  registrumSnapshot : JsonValue
  globalStateHash : GlobalStateHash
  eventHashes : List JsString
  chainHashes : Option ChainHashes
  exportedAt : JsString
  bundleHash : JsString

structure BundleVerificationResult where
  verdict : VerificationVerdict
  bundleHashValid : Bool
  globalHashValid : Bool
  discrepancies : List JsString
  verifiedAt : JsString

/-- The data of `computeBundleHash`. -/
def bundleData (globalHash : JsString) (eventHashes : List JsString)
    (chainHashes : Option ChainHashes) : JsonValue :=
  .object [(js "globalHash", some (.str globalHash)),
    (js "eventHashes", some (.array (eventHashes.map .str))),
    (js "chainHashes", (present chainHashes).map jsonOfChains)]

section

variable (canonicalize : JsonValue → String)

def computeBundleHash (globalHash : JsString) (eventHashes : List JsString)
    (chainHashes : Option ChainHashes) : JsString :=
  sha256Hex (canonicalize (bundleData globalHash eventHashes chainHashes))

def createStateBundle (computedAt exportedAt : JsString) (ledgerSnapshot : JsonObject)
    (registrumSnapshot : JsonValue) (eventHashes : List JsString)
    (chainHashes : Option ChainHashes) : ExportableStateBundle :=
  let globalStateHash :=
    computeGlobalStateHash canonicalize computedAt ledgerSnapshot registrumSnapshot chainHashes
  let bundleHash := computeBundleHash canonicalize globalStateHash.hash eventHashes chainHashes
  ⟨ledgerSnapshot, registrumSnapshot, globalStateHash, eventHashes, present chainHashes, exportedAt,
    bundleHash⟩

/-- The message of a check that fails. -/
def discrepancy (valid : Bool) (message : JsString) : List JsString :=
  if valid then [] else [message]

def verifyBundleIntegrity (verifiedAt : JsString) (bundle : ExportableStateBundle) :
    BundleVerificationResult :=
  let expectedBundleHash :=
    computeBundleHash canonicalize bundle.globalStateHash.hash bundle.eventHashes bundle.chainHashes
  let recomputed :=
    computeGlobalStateHash canonicalize verifiedAt bundle.ledgerSnapshot bundle.registrumSnapshot
      bundle.chainHashes
  let bundleHashValid := decide (bundle.bundleHash = expectedBundleHash)
  let globalHashValid := decide (bundle.globalStateHash.hash = recomputed.hash)
  let subsystems := bundle.globalStateHash.subsystems
  let discrepancies :=
    discrepancy bundleHashValid (js "Bundle hash mismatch: expected " ++ expectedBundleHash ++
      js ", got " ++ bundle.bundleHash) ++
    discrepancy globalHashValid (js "GlobalStateHash mismatch: bundle says " ++
      bundle.globalStateHash.hash ++ js ", recomputed " ++ recomputed.hash) ++
    discrepancy (subsystems.ledger = recomputed.subsystems.ledger)
      (js "Ledger hash mismatch: bundle says " ++ subsystems.ledger ++ js ", recomputed " ++
        recomputed.subsystems.ledger) ++
    discrepancy (subsystems.registrum = recomputed.subsystems.registrum)
      (js "Registrum hash mismatch: bundle says " ++ subsystems.registrum ++ js ", recomputed " ++
        recomputed.subsystems.registrum)
  ⟨if discrepancies = [] then .PASS else .FAIL, bundleHashValid, globalHashValid, discrepancies,
    verifiedAt⟩

def Passes (bundle : ExportableStateBundle) : Prop :=
  ∀ verifiedAt, (verifyBundleIntegrity canonicalize verifiedAt bundle).verdict = .PASS

end

variable {canonicalize : JsonValue → String}

theorem discrepancy_eq_nil {valid : Bool} {message : JsString} :
    discrepancy valid message = [] ↔ valid = true := by
  cases valid <;> simp [discrepancy]

/-- The hashes of a bundle are those of its content. -/
structure Consistent (canonicalize : JsonValue → String) (bundle : ExportableStateBundle) :
    Prop where
  ledger : bundle.globalStateHash.subsystems.ledger =
    hashLedgerSnapshot canonicalize bundle.ledgerSnapshot
  registrum : bundle.globalStateHash.subsystems.registrum =
    hashRegistrumSnapshot canonicalize bundle.registrumSnapshot
  globalHash : bundle.globalStateHash.hash = sha256Hex (canonicalize
    (combinedData (hashLedgerSnapshot canonicalize bundle.ledgerSnapshot)
      (hashRegistrumSnapshot canonicalize bundle.registrumSnapshot) bundle.chainHashes))
  bundleHash : bundle.bundleHash =
    computeBundleHash canonicalize bundle.globalStateHash.hash bundle.eventHashes bundle.chainHashes

theorem verdict_eq_pass {verifiedAt : JsString} {bundle : ExportableStateBundle} :
    (verifyBundleIntegrity canonicalize verifiedAt bundle).verdict = .PASS ↔
      Consistent canonicalize bundle := by
  rw [verifyBundleIntegrity]
  dsimp only
  rw [ite_eq_left_iff]
  simp only [reduceCtorEq, imp_false, not_not, List.append_eq_nil_iff, discrepancy_eq_nil,
    decide_eq_true_eq]
  dsimp only [computeGlobalStateHash]
  constructor
  · rintro ⟨⟨⟨hbundle, hglobal⟩, hledger⟩, hregistrum⟩
    exact ⟨hledger, hregistrum, hglobal, hbundle⟩
  · rintro ⟨hledger, hregistrum, hglobal, hbundle⟩
    exact ⟨⟨⟨hbundle, hglobal⟩, hledger⟩, hregistrum⟩

theorem passes_iff {bundle : ExportableStateBundle} :
    Passes canonicalize bundle ↔ Consistent canonicalize bundle :=
  ⟨fun h => verdict_eq_pass.mp (h []), fun h _ => verdict_eq_pass.mpr h⟩

theorem present_present (chainHashes : Option ChainHashes) :
    present (present chainHashes) = present chainHashes := by
  cases chainHashes with
  | none => rfl
  | some hashes => by_cases h : hashes.entries = [] <;> simp [present, h]

theorem consistent_createStateBundle (computedAt exportedAt : JsString)
    (ledgerSnapshot : JsonObject) (registrumSnapshot : JsonValue) (eventHashes : List JsString)
    (chainHashes : Option ChainHashes) :
    Consistent canonicalize (createStateBundle canonicalize computedAt exportedAt ledgerSnapshot
      registrumSnapshot eventHashes chainHashes) := by
  refine ⟨?_, ?_, ?_, ?_⟩ <;>
    simp only [createStateBundle, computeGlobalStateHash, computeBundleHash, combinedData,
      bundleData, present_present]

/-! ## Tamper evidence -/

/-- The values that are hashed for a bundle: its snapshots, the data of the global hash and those
of the bundle hash. -/
def hashedValues (canonicalize : JsonValue → String) (bundle : ExportableStateBundle) :
    List JsonValue :=
  [(bundle.ledgerSnapshot.without (js "createdAt")).toJsonValue, bundle.registrumSnapshot,
    combinedData (hashLedgerSnapshot canonicalize bundle.ledgerSnapshot)
      (hashRegistrumSnapshot canonicalize bundle.registrumSnapshot) bundle.chainHashes,
    bundleData bundle.globalStateHash.hash bundle.eventHashes bundle.chainHashes]

def bundleMessages (canonicalize : JsonValue → String) (bundle : ExportableStateBundle) :
    Set Bytes :=
  {m | ∃ v ∈ hashedValues canonicalize bundle, m = message canonicalize v}

/-- The same content, up to the time of the ledger snapshot and the order of members. -/
structure SameContent (p q : ExportableStateBundle) : Prop where
  ledger : (p.ledgerSnapshot.without (js "createdAt")).Same
    (q.ledgerSnapshot.without (js "createdAt")).toJsonValue
  registrum : p.registrumSnapshot.Same q.registrumSnapshot
  eventHashes : p.eventHashes = q.eventHashes
  chainHashes : chainHash p.chainHashes = chainHash q.chainHashes

theorem Consistent.sameContent (hcanon : ∀ v w, canonicalize v = canonicalize w → v.Same w)
    {p q : ExportableStateBundle} (hp : Consistent canonicalize p) (hq : Consistent canonicalize q)
    (hbundle : p.bundleHash = q.bundleHash)
    (hcf : CollisionFree (bundleMessages canonicalize p ∪ bundleMessages canonicalize q)) :
    SameContent p q := by
  have hmem : ∀ v w, v ∈ hashedValues canonicalize p → w ∈ hashedValues canonicalize q →
      sha256Hex (canonicalize v) = sha256Hex (canonicalize w) → v.Same w := by
    intro v w hv hw
    exact same_of_sha256Hex_eq hcanon hcf (.inl ⟨v, hv, rfl⟩) (.inr ⟨w, hw, rfl⟩)
  -- from the bundle hash down to the snapshots
  have hdata := hmem _ _ (by simp [hashedValues]) (by simp [hashedValues])
    (hp.bundleHash.symm.trans (hbundle.trans hq.bundleHash))
  have hglobal := hdata.rel_get? (js "globalHash")
  have hevents := hdata.rel_get? (js "eventHashes")
  have hchains := hdata.rel_get? (js "chainHashes")
  simp [bundleData] at hglobal hevents hchains
  have hcombined := hmem _ _ (by simp [hashedValues]) (by simp [hashedValues])
    (hp.globalHash.symm.trans ((JsonValue.same_str hglobal).trans hq.globalHash))
  obtain ⟨hledger, hregistrum⟩ := hashes_eq_of_same hcombined
  exact ⟨hmem _ _ (by simp [hashedValues]) (by simp [hashedValues]) hledger,
    hmem _ _ (by simp [hashedValues]) (by simp [hashedValues]) hregistrum,
    JsonValue.eq_of_same_array (fun _ _ => JsonValue.same_str) hevents,
    chainHash_eq_of_same hchains⟩

/-- Bundles of one bundle hash that pass the verification hold the same content, where SHA-256 has
no collision on what is hashed for them; and what the operator creates passes. -/
theorem bundle_tamper_evident (canonicalize : JsonValue → String)
    (hcanon : ∀ v w, canonicalize v = canonicalize w → v.Same w) :
    (∀ p q, Passes canonicalize p → Passes canonicalize q → p.bundleHash = q.bundleHash →
      CollisionFree (bundleMessages canonicalize p ∪ bundleMessages canonicalize q) →
      SameContent p q) ∧
    ∀ computedAt exportedAt ledgerSnapshot registrumSnapshot eventHashes chainHashes,
      Passes canonicalize (createStateBundle canonicalize computedAt exportedAt ledgerSnapshot
        registrumSnapshot eventHashes chainHashes) := by
  constructor
  · intro p q hp hq hbundle hcf
    exact (passes_iff.mp hp).sameContent hcanon (passes_iff.mp hq) hbundle hcf
  · intro computedAt exportedAt ledgerSnapshot registrumSnapshot eventHashes chainHashes
    exact passes_iff.mpr (consistent_createStateBundle ..)

/-! ### Two times of one snapshot -/

/-- A bundle of one ledger entry, one state, two events and one chain, at a time. -/
def timedBundle (createdAt : String) : ExportableStateBundle :=
  createStateBundle JsonValue.canonicalText (js createdAt) (js createdAt)
    (.ofEntries ([(js "entries", some (.array [.str (js "n1")]))] ++
      [(js "createdAt", some (.str (js createdAt)))]))
    (.object [(js "state_ids", some (.array [.str (js "a")]))]) [js "e1", js "e2"]
    (some (JsMap.empty.set (js "eip155:1") (js "h1")))

theorem message_canonicalText (v : JsonValue) :
    message JsonValue.canonicalText v = Utf8.encode v.val.sortKeys.text := by
  rw [message, JsonValue.canonicalText, String.toList_ofList]

theorem sha256Hex_canonicalText (v : JsonValue) : sha256Hex v.canonicalText =
    JsString.units ((sha256 (Utf8.encode v.val.sortKeys.text)).flatMap hexByte) := by
  rw [sha256Hex, js, hexEncode, String.toList_ofList, ← message_canonicalText, message]

theorem heads_hashedValues (createdAt : String) :
    ((hashedValues JsonValue.canonicalText (timedBundle createdAt)).map
      (message JsonValue.canonicalText)).map (fun m => (sha256 m).head?) =
        [some 196, some 65, some 71, some 112] := by
  simp only [hashedValues, timedBundle, createStateBundle, computeGlobalStateHash,
    hashLedgerSnapshot, hashRegistrumSnapshot, JsonObject.without_ofEntries_append,
    message_canonicalText, sha256Hex_canonicalText, sha256_eq_words, List.map]
  decide +kernel

/-- The time of a snapshot is in none of the hashed values. -/
theorem hashedValues_timedBundle (createdAt createdAt' : String) :
    hashedValues JsonValue.canonicalText (timedBundle createdAt) =
      hashedValues JsonValue.canonicalText (timedBundle createdAt') := by
  simp only [hashedValues, timedBundle, createStateBundle, computeGlobalStateHash,
    hashLedgerSnapshot, JsonObject.without_ofEntries_append]

theorem bundle_tamper_evident_timedBundle :
    (timedBundle "1").bundleHash = (timedBundle "2").bundleHash ∧
      SameContent (timedBundle "1") (timedBundle "2") := by
  obtain ⟨hbinding, hcreated⟩ := bundle_tamper_evident JsonValue.canonicalText
    fun _ _ h => JsonValue.same_of_canonicalText_eq h
  have hbundle : (timedBundle "1").bundleHash = (timedBundle "2").bundleHash := by
    simp only [timedBundle, createStateBundle, computeGlobalStateHash, hashLedgerSnapshot,
      JsonObject.without_ofEntries_append]
  have hcf : CollisionFree
      {m | m ∈ (hashedValues JsonValue.canonicalText (timedBundle "1")).map
        (message JsonValue.canonicalText)} :=
    collisionFree_of_head (by rw [heads_hashedValues]; decide)
  refine ⟨hbundle, hbinding _ _ (hcreated _ _ _ _ _ _) (hcreated _ _ _ _ _ _) hbundle (hcf.mono ?_)⟩
  rintro m (⟨v, hv, rfl⟩ | ⟨v, hv, rfl⟩)
  · exact List.mem_map_of_mem hv
  · rw [hashedValues_timedBundle "2" "1"] at hv
    exact List.mem_map_of_mem hv

end Attestia.Verify
